import Mathlib

/-!
# Hash grids

A hash grid files the indices of a list of points under the cell each point lies in: a finite map
from cells to buckets of indices. The operations are the three a spatial index is kept with:
`file` puts an index into a bucket, `unfile` takes it out and drops the bucket if that was its last
index, `build` files a whole list. The invariant is `Indexes g cells`: the bucket of `k` holds
exactly the indices `i` with `cells[i] = k`, each once, and no bucket is empty. It is kept when a
point is appended (`Indexes.append`) and when one moves to another cell (`Indexes.move`).

`visit g keys` is a query: the indices in the buckets of `keys`, in order. For distinct keys it
visits each index of those cells once (`Indexes.nodup_visit`, `Indexes.mem_visit`), and takes what
a scan over all indices would take if the cells cover it (`Indexes.filterMap_visit_perm`).
-/

namespace HashGrid

variable {K : Type} [DecidableEq K]

/-- A finite map from cells to buckets. -/
abbrev Grid (K : Type) := AList fun _ : K => List ℕ

/-- The indices filed under `k`. -/
def bucket (g : Grid K) (k : K) : List ℕ :=
  (g.lookup k).getD []

/-- `grid[k].push_back(i)`. -/
def file (g : Grid K) (k : K) (i : ℕ) : Grid K :=
  g.insert k (bucket g k ++ [i])

/-- Remove `i` from the bucket of `k`, and the bucket with it if it becomes empty. -/
def unfile (g : Grid K) (k : K) (i : ℕ) : Grid K :=
  if (bucket g k).filter (· ≠ i) = [] then g.erase k
  else g.insert k ((bucket g k).filter (· ≠ i))

/-- File the indices `n`, `n + 1`, … under the cells of the list. -/
def buildFrom : ℕ → List K → Grid K → Grid K
  | _, [], g => g
  | n, k :: ks, g => buildFrom (n + 1) ks (file g k n)

/-- The grid of a list of cells. -/
def build (cells : List K) : Grid K :=
  buildFrom 0 cells ∅

/-- The indices in the buckets of `keys`. -/
def visit (g : Grid K) (keys : List K) : List ℕ :=
  keys.flatMap (bucket g)

/-! ### Buckets -/

@[simp] theorem bucket_empty (k : K) : bucket (∅ : Grid K) k = [] := rfl

theorem bucket_file (g : Grid K) (k k' : K) (i : ℕ) :
    bucket (file g k i) k' = if k' = k then bucket g k ++ [i] else bucket g k' := by
  unfold bucket file
  by_cases hk : k' = k
  · subst hk
    rw [AList.lookup_insert, if_pos rfl]
    rfl
  · rw [AList.lookup_insert_ne hk, if_neg hk]

theorem bucket_unfile (g : Grid K) (k k' : K) (i : ℕ) :
    bucket (unfile g k i) k' =
      if k' = k then (bucket g k).filter (· ≠ i) else bucket g k' := by
  unfold unfile
  -- an empty bucket is erased
  split
  · next hnil =>
    by_cases hk : k' = k
    · subst hk
      rw [if_pos rfl, hnil]
      show (AList.lookup k' (g.erase k')).getD [] = []
      rw [AList.lookup_erase]
      rfl
    · rw [if_neg hk]
      show (AList.lookup k' (g.erase k)).getD [] = _
      rw [AList.lookup_erase_ne hk]
      rfl
  · by_cases hk : k' = k
    · subst hk
      rw [if_pos rfl]
      show (AList.lookup k' (g.insert k' _)).getD [] = _
      rw [AList.lookup_insert]
      rfl
    · rw [if_neg hk]
      show (AList.lookup k' (g.insert k _)).getD [] = _
      rw [AList.lookup_insert_ne hk]
      rfl

/-- Every bucket of the map has an index in it. -/
def NoEmptyBucket (g : Grid K) : Prop :=
  ∀ k, g.lookup k ≠ some []

theorem noEmptyBucket_empty : NoEmptyBucket (∅ : Grid K) := by
  intro k h
  rw [AList.lookup_empty] at h
  cases h

theorem NoEmptyBucket.file {g : Grid K} (h : NoEmptyBucket g) (k : K) (i : ℕ) :
    NoEmptyBucket (HashGrid.file g k i) := by
  intro k' hk'
  unfold HashGrid.file at hk'
  by_cases hk : k' = k
  · subst hk
    rw [AList.lookup_insert] at hk'
    simp at hk'
  · rw [AList.lookup_insert_ne hk] at hk'
    exact h k' hk'

theorem NoEmptyBucket.unfile {g : Grid K} (h : NoEmptyBucket g) (k : K) (i : ℕ) :
    NoEmptyBucket (HashGrid.unfile g k i) := by
  intro k' hk'
  unfold HashGrid.unfile at hk'
  split at hk'
  · by_cases hk : k' = k
    · subst hk
      rw [AList.lookup_erase] at hk'
      cases hk'
    · rw [AList.lookup_erase_ne hk] at hk'
      exact h k' hk'
  · next hne =>
    by_cases hk : k' = k
    · subst hk
      rw [AList.lookup_insert] at hk'
      exact hne (Option.some.inj hk')
    · rw [AList.lookup_insert_ne hk] at hk'
      exact h k' hk'

/-! ### The invariant -/

/-- The grid files every index of `cells` under its cell, once, and nothing else. -/
structure Indexes (g : Grid K) (cells : List K) : Prop where
  mem_bucket : ∀ k i, i ∈ bucket g k ↔ cells[i]? = some k
  nodup : ∀ k, (bucket g k).Nodup
  noEmptyBucket : NoEmptyBucket g

variable {g : Grid K} {cells : List K}

theorem Indexes.nil : Indexes (∅ : Grid K) [] where
  mem_bucket := by
    intro k i
    simp
  nodup := fun k => List.nodup_nil
  noEmptyBucket := noEmptyBucket_empty

/-- An index past the end is in no bucket. -/
theorem Indexes.not_mem_of_le (h : Indexes g cells) {i : ℕ} (hi : cells.length ≤ i) (k : K) :
    i ∉ bucket g k := by
  intro hmem
  rw [h.mem_bucket, List.getElem?_eq_none hi] at hmem
  cases hmem

/-- An index is in the bucket of its cell only. -/
theorem Indexes.eq_of_mem (h : Indexes g cells) {i : ℕ} {k old : K} (hi : cells[i]? = some old)
    (hmem : i ∈ bucket g k) : k = old := by
  rw [h.mem_bucket, hi] at hmem
  exact (Option.some.inj hmem).symm

/-- A bucket that gets one more index. -/
theorem Indexes.nodup_concat (h : Indexes g cells) {i : ℕ} {k : K} (hi : i ∉ bucket g k) :
    (bucket g k ++ [i]).Nodup := by
  refine List.nodup_append.mpr ⟨h.nodup k, List.nodup_singleton _, ?_⟩
  rintro a ha b hb rfl
  exact hi (List.mem_singleton.mp hb ▸ ha)

/-- A point is appended to the list. -/
theorem Indexes.append (h : Indexes g cells) (k : K) :
    Indexes (file g k cells.length) (cells ++ [k]) where
  mem_bucket := by
    intro k' i
    rw [bucket_file]
    -- an index of before, the new one, or none
    rcases lt_trichotomy i cells.length with hlt | rfl | hgt
    · rw [List.getElem?_append_left hlt, ← h.mem_bucket]
      split
      · next hk =>
        subst hk
        simp [hlt.ne]
      · rfl
    · rw [List.getElem?_concat_length]
      split
      · next hk => simp [hk]
      · next hk => simp [h.not_mem_of_le le_rfl, Ne.symm hk]
    · have hnone : (cells ++ [k])[i]? = none := by
        rw [List.getElem?_eq_none_iff, List.length_append, List.length_singleton]
        omega
      rw [hnone]
      split
      · simp [h.not_mem_of_le hgt.le, hgt.ne']
      · simp [h.not_mem_of_le hgt.le]
  nodup := by
    intro k'
    rw [bucket_file]
    split
    · exact h.nodup_concat (h.not_mem_of_le le_rfl k)
    · exact h.nodup k'
  noEmptyBucket := h.noEmptyBucket.file k _

/-- The point of index `i` moves from cell `old` to another cell. -/
theorem Indexes.move (h : Indexes g cells) {i : ℕ} {old new : K} (hi : cells[i]? = some old)
    (hne : new ≠ old) : Indexes (file (unfile g old i) new i) (cells.set i new) where
  mem_bucket := by
    intro k j
    have hlen : i < cells.length := by
      by_contra hge
      rw [List.getElem?_eq_none (not_lt.mp hge)] at hi
      cases hi
    rw [bucket_file, bucket_unfile, bucket_unfile, if_neg hne, List.getElem?_set]
    by_cases hij : i = j
    · subst hij
      rw [if_pos rfl, if_pos hlen]
      by_cases hk : k = new
      · simp [hk]
      · -- the index has left its old bucket, and was in no other
        rw [if_neg hk]
        simp only [Option.some.injEq, Ne.symm hk, iff_false]
        split
        · simp
        · next hko => exact fun hmem => hko (h.eq_of_mem hi hmem)
    · -- the others stay where they are
      rw [if_neg hij, ← h.mem_bucket]
      by_cases hk : k = new
      · simp [hk, Ne.symm hij]
      · rw [if_neg hk]
        split
        · next hko => simp [hko, Ne.symm hij]
        · rfl
  nodup := by
    intro k
    rw [bucket_file, bucket_unfile, bucket_unfile, if_neg hne]
    split
    · exact h.nodup_concat fun hmem => hne (h.eq_of_mem hi hmem)
    · split
      · exact (h.nodup old).filter _
      · exact h.nodup k
  noEmptyBucket := (h.noEmptyBucket.unfile old i).file new i

/-- The point of index `i` moves within its cell. -/
theorem Indexes.stay (h : Indexes g cells) {i : ℕ} {k : K} (hi : cells[i]? = some k) :
    Indexes g (cells.set i k) := by
  have hset : cells.set i k = cells := by
    apply List.ext_getElem?
    intro j
    rw [List.getElem?_set]
    split
    · next hij =>
      subst hij
      split
      · exact hi.symm
      · next hge => rw [List.getElem?_eq_none (not_lt.mp hge)]
    · rfl
  rwa [hset]

/-- The induction is on the cells left to file; those already filed are the prefix. -/
theorem Indexes.buildFrom {filed : List K} (h : Indexes g filed) (cells : List K) :
    Indexes (HashGrid.buildFrom filed.length cells g) (filed ++ cells) := by
  induction cells generalizing g filed with
  | nil =>
    rw [List.append_nil]
    exact h
  | cons k ks ih =>
    have hstep := ih (h.append k)
    rw [List.length_append, List.length_singleton, List.append_assoc] at hstep
    exact hstep

theorem indexes_build (cells : List K) : Indexes (build cells) cells :=
  Indexes.nil.buildFrom cells

/-- An empty grid indexes nothing. -/
theorem Indexes.eq_nil_of_empty (h : Indexes (∅ : Grid K) cells) : cells = [] := by
  cases cells with
  | nil => rfl
  | cons k ks =>
    have hmem := (h.mem_bucket k 0).mpr rfl
    rw [bucket_empty] at hmem
    cases hmem

/-- Only an empty grid indexes nothing. -/
theorem Indexes.entries_eq_nil (h : Indexes g []) : g.entries = [] := by
  rcases hg : g.entries with - | ⟨⟨k, b⟩, rest⟩
  · rfl
  · have hlook : g.lookup k = some b := by
      show List.dlookup k g.entries = some b
      rw [hg, List.dlookup_cons_eq]
    cases b with
    | nil => exact absurd hlook (h.noEmptyBucket k)
    | cons i b =>
      have hmem : i ∈ bucket g k := by
        unfold bucket
        rw [hlook]
        exact List.mem_cons_self
      rw [h.mem_bucket] at hmem
      cases hmem

/-! ### Queries -/

theorem Indexes.mem_visit (h : Indexes g cells) (keys : List K) (i : ℕ) :
    i ∈ visit g keys ↔ ∃ k ∈ keys, cells[i]? = some k := by
  unfold visit
  rw [List.mem_flatMap]
  simp only [h.mem_bucket]

/-- Distinct cells share no index. -/
theorem Indexes.nodup_visit (h : Indexes g cells) {keys : List K} (hkeys : keys.Nodup) :
    (visit g keys).Nodup := by
  refine List.nodup_flatMap.mpr ⟨fun k _ => h.nodup k, ?_⟩
  refine hkeys.imp ?_
  intro k k' hne
  rw [Function.onFun, List.disjoint_left]
  intro i hi hi'
  rw [h.mem_bucket] at hi hi'
  exact hne (Option.some.inj (hi.symm.trans hi'))

/-- **A query that covers what it picks visits it once.** `pick` says what is taken at an index. If
every index at which something is taken lies in one of the cells of `keys`, the query takes what a
scan over all indices takes, up to order. -/
theorem Indexes.filterMap_visit_perm {B : Type} (h : Indexes g cells) {keys : List K}
    (hkeys : keys.Nodup) {pick : ℕ → Option B}
    (hcover : ∀ i, pick i ≠ none → ∃ k ∈ keys, cells[i]? = some k) :
    ((visit g keys).filterMap pick).Perm ((List.range cells.length).filterMap pick) := by
  -- only the indices that are picked count
  have hfilter : ∀ l : List ℕ, l.filterMap pick
      = (l.filter fun i => (pick i).isSome).filterMap pick := by
    intro l
    rw [List.filterMap_filter]
    refine List.filterMap_congr fun i _ => ?_
    cases hp : pick i with
    | none => rfl
    | some b => rfl
  rw [hfilter, hfilter (List.range _)]
  refine List.Perm.filterMap pick ?_
  refine (List.perm_ext_iff_of_nodup ((h.nodup_visit hkeys).filter _)
    (List.nodup_range.filter _)).mpr fun i => ?_
  rw [List.mem_filter, List.mem_filter, h.mem_visit, List.mem_range]
  refine and_congr_left fun hsome => ?_
  have hne : pick i ≠ none := Option.isSome_iff_ne_none.mp hsome
  constructor
  · rintro ⟨k, -, hk⟩
    exact (List.getElem?_eq_some_iff.mp hk).1
  · intro _
    exact hcover i hne

/-- A scan over the indices of a list is a filter of the list. -/
theorem filterMap_range_eq_filter {B : Type} (l : List B) (p : B → Bool) :
    (List.range l.length).filterMap (fun i => l[i]?.filter p) = l.filter p := by
  induction l using List.reverseRecOn with
  | nil => rfl
  | append_singleton l b ih =>
    rw [List.length_append, List.length_singleton, List.range_succ, List.filterMap_append,
      List.filter_append, ← ih]
    congr 1
    · refine List.filterMap_congr fun i hi => ?_
      rw [List.getElem?_append_left (List.mem_range.mp hi)]
    · rw [List.filterMap_cons, List.getElem?_concat_length]
      by_cases hb : p b = true
      · simp [hb, Option.filter]
      · simp [hb, Option.filter]

end HashGrid
