import Mathlib

/-!
# Last-writer maps with expiry

A list of values with a key each, of which a `write` replaces the value with its key in place or
appends, an `expire` removes what is stale, and a `clear` removes everything. `run key ops` is the
list after the operations `ops`.

What the list holds is a matter of the history alone (`mem_run_iff`): the values whose write has
neither been superseded nor been followed by an operation that removes them (`Live`). Keys stay
distinct (`nodup_apply`), and the order of the list is that of the current insertions
(`run_pairwise`): `InsertedAt` is the write that has made the entry which is there now.

`total_created` is conservation: whatever was created is in the list, has expired or was cleared.
-/

namespace ExpiringMap

variable {K V : Type} [DecidableEq K] (key : V → K)

inductive Op (V : Type) where
  | write (v : V)
  | expire (stale : V → Bool)
  | clear
  /-- an operation that does not concern the map -/
  | skip

/-- Some value has this key. -/
def Has (m : List V) (k : K) : Prop :=
  ∃ v ∈ m, key v = k

instance (m : List V) (k : K) : Decidable (Has key m k) :=
  inferInstanceAs (Decidable (∃ v ∈ m, key v = k))

/-- In place if there is a value with that key, else at the end. -/
def write (m : List V) (v : V) : List V :=
  if Has key m (key v) then m.map fun v' => if key v' = key v then v else v' else m ++ [v]

def apply (m : List V) : Op V → List V
  | .write v => write key m v
  | .expire stale => m.filter fun v => !stale v
  | .clear => []
  | .skip => m

def run (ops : List (Op V)) : List V :=
  ops.foldl (apply key) []

variable {key} {m : List V} {ops : List (Op V)} {op : Op V} {v v' : V} {k : K} {i : ℕ}

theorem run_append_singleton : run key (ops ++ [op]) = apply key (run key ops) op :=
  List.foldl_concat _ _ _ _

omit [DecidableEq K] in
theorem has_iff : Has key m k ↔ k ∈ m.map key :=
  List.mem_map.symm

/-! ### One write -/

variable (key) in
theorem key_overwrite (v v' : V) : key (if key v' = key v then v else v') = key v' := by
  split
  · next hsame => exact hsame.symm
  · rfl

/-- Overwriting keeps the keys, and their order. -/
theorem map_key_overwrite (m : List V) (v : V) :
    (m.map fun v' => if key v' = key v then v else v').map key = m.map key := by
  rw [List.map_map]
  exact List.map_congr_left fun v' _ => key_overwrite key v v'

/-- Among distinct keys, to set the place of a key is to overwrite. -/
theorem set_eq_overwrite (h : (m.map key).Nodup) (hget : m[i]? = some v') (hkey : key v' = key v) :
    m.set i v = m.map fun w => if key w = key v then v else w := by
  obtain ⟨hlt, rfl⟩ := List.getElem?_eq_some_iff.mp hget
  refine List.ext_getElem (by rw [List.length_set, List.length_map]) fun j hj hj' => ?_
  rw [List.length_set] at hj
  rw [List.getElem_set, List.getElem_map]
  by_cases hij : i = j
  · subst hij
    rw [if_pos rfl, if_pos hkey]
  · have hne : key m[j] ≠ key v := by
      intro hsame
      have hi : i < (m.map key).length := by rwa [List.length_map]
      have hj'' : j < (m.map key).length := by rwa [List.length_map]
      refine hij (h.getElem_inj_iff.mp (?_ : (m.map key)[i] = (m.map key)[j]))
      rw [List.getElem_map, List.getElem_map, hkey, hsame]
    rw [if_neg hij, if_neg hne]

theorem mem_write : v' ∈ write key m v ↔ v' = v ∨ (v' ∈ m ∧ key v' ≠ key v) := by
  unfold write
  split
  · next hhas =>
    rw [List.mem_map]
    constructor
    · rintro ⟨w, hw, rfl⟩
      split
      · exact .inl rfl
      · next hne => exact .inr ⟨hw, hne⟩
    · rintro (rfl | ⟨hmem, hne⟩)
      · obtain ⟨w, hw, hsame⟩ := hhas
        exact ⟨w, hw, if_pos hsame⟩
      · exact ⟨v', hmem, if_neg hne⟩
  · next hnot =>
    rw [List.mem_append, List.mem_singleton]
    constructor
    · rintro (hmem | rfl)
      · exact .inr ⟨hmem, fun hsame => hnot ⟨v', hmem, hsame⟩⟩
      · exact .inl rfl
    · rintro (rfl | ⟨hmem, -⟩)
      · exact .inr rfl
      · exact .inl hmem

theorem nodup_apply (h : (m.map key).Nodup) (op : Op V) : ((apply key m op).map key).Nodup := by
  cases op with
  | write v =>
    show ((write key m v).map key).Nodup
    unfold write
    split
    · rw [map_key_overwrite]
      exact h
    · next hnot =>
      rw [List.map_append]
      refine List.Nodup.append h (List.nodup_singleton _) ?_
      exact List.disjoint_singleton.mpr fun hmem => hnot (has_iff.mpr hmem)
  | expire stale => exact h.sublist (List.filter_sublist.map key)
  | clear => exact List.nodup_nil
  | skip => exact h

/-! ### What is there -/

variable (key) in
/-- The operation removes or replaces the value. -/
def Op.Ends (v : V) : Op V → Prop
  | .write v' => key v' = key v
  | .expire stale => stale v = true
  | .clear => True
  | .skip => False

variable (key) in
/-- The value has been written, and nothing since has removed or replaced it. -/
def Live (ops : List (Op V)) (v : V) : Prop :=
  ∃ pre post, ops = pre ++ .write v :: post ∧ ∀ op ∈ post, ¬ op.Ends key v

omit [DecidableEq K] in
theorem live_append_singleton :
    Live key (ops ++ [op]) v ↔ op = .write v ∨ (Live key ops v ∧ ¬ op.Ends key v) := by
  constructor
  · rintro ⟨pre, post, heq, hpost⟩
    rcases List.eq_nil_or_concat post with rfl | ⟨rest, last, rfl⟩
    · exact .inl (List.singleton_inj.mp (List.append_inj' heq rfl).2)
    · rw [List.concat_eq_append] at heq hpost
      -- the last operation is one of those after the write
      have heq' : ops ++ [op] = (pre ++ .write v :: rest) ++ [last] := by
        rw [heq, List.append_assoc, List.cons_append]
      obtain ⟨rfl, hlast⟩ := List.append_inj' heq' rfl
      obtain rfl := List.singleton_inj.mp hlast
      refine .inr ⟨⟨pre, rest, rfl, fun o ho => ?_⟩, ?_⟩
      · exact hpost o (List.mem_append_left _ ho)
      · exact hpost op (List.mem_append_right _ (List.mem_singleton_self op))
  · rintro (rfl | ⟨⟨pre, post, rfl, hpost⟩, hop⟩)
    · exact ⟨ops, [], rfl, fun o ho => absurd ho List.not_mem_nil⟩
    · refine ⟨pre, post ++ [op], by rw [List.append_assoc, List.cons_append], fun o ho => ?_⟩
      rcases List.mem_append.mp ho with hold | hnew
      · exact hpost o hold
      · rw [List.mem_singleton.mp hnew]
        exact hop

/-- **The map holds what is live.** -/
theorem mem_run_iff : v ∈ run key ops ↔ Live key ops v := by
  induction ops using List.reverseRecOn with
  | nil =>
    constructor
    · rintro ⟨⟩
    · rintro ⟨pre, post, heq, -⟩
      exact absurd heq (by simp)
  | append_singleton ops op ih =>
    rw [run_append_singleton, live_append_singleton, ← ih]
    cases op with
    | write v' =>
      show v ∈ write key _ v' ↔ _
      rw [mem_write, Op.write.injEq]
      refine or_congr ⟨Eq.symm, Eq.symm⟩ (and_congr Iff.rfl ?_)
      exact not_congr ⟨Eq.symm, Eq.symm⟩
    | expire stale =>
      show v ∈ List.filter _ _ ↔ _
      simp [Op.Ends]
    | clear => simp [apply, Op.Ends]
    | skip => simp [apply, Op.Ends]

/-! ### The order -/

variable (key) in
/-- Operation `i` has made the entry of `k`, which has been there ever since. -/
def InsertedAt (ops : List (Op V)) (k : K) (i : ℕ) : Prop :=
  (∃ v, ops[i]? = some (.write v) ∧ key v = k) ∧ ¬ Has key (run key (ops.take i)) k ∧
    ∀ j, i < j → j ≤ ops.length → Has key (run key (ops.take j)) k

theorem InsertedAt.lt_length (h : InsertedAt key ops k i) : i < ops.length := by
  obtain ⟨⟨v, hget, -⟩, -⟩ := h
  exact (List.getElem?_eq_some_iff.mp hget).1

/-- What was inserted and is there after one more operation. -/
theorem InsertedAt.append (h : InsertedAt key ops k i) (hhas : Has key (run key (ops ++ [op])) k) :
    InsertedAt key (ops ++ [op]) k i := by
  have hlt := h.lt_length
  obtain ⟨⟨v, hget, hkey⟩, hbefore, hsince⟩ := h
  refine ⟨⟨v, ?_, hkey⟩, ?_, fun j hij hj => ?_⟩
  · rwa [List.getElem?_append_left hlt]
  · rwa [List.take_append_of_le_length hlt.le]
  · rw [List.length_append, List.length_singleton] at hj
    by_cases hlast : j = ops.length + 1
    · rwa [hlast, List.take_of_length_le (by simp)]
    · rw [List.take_append_of_le_length (by omega)]
      exact hsince j hij (by omega)

/-- An entry that was there before the last operation was inserted before it. -/
theorem InsertedAt.of_append (h : InsertedAt key (ops ++ [op]) k i)
    (hhas : Has key (run key ops) k) :
    InsertedAt key ops k i := by
  have hlt := h.lt_length
  obtain ⟨⟨v, hget, hkey⟩, hbefore, hsince⟩ := h
  rw [List.length_append, List.length_singleton] at hlt
  have hne : i ≠ ops.length := by
    rintro rfl
    rw [List.take_left] at hbefore
    exact hbefore hhas
  have hlt : i < ops.length := by omega
  refine ⟨⟨v, ?_, hkey⟩, ?_, fun j hij hj => ?_⟩
  · rwa [List.getElem?_append_left hlt] at hget
  · rwa [List.take_append_of_le_length hlt.le] at hbefore
  · have := hsince j hij (by rw [List.length_append]; omega)
    rwa [List.take_append_of_le_length hj] at this

/-- A new key is inserted by the last operation. -/
theorem insertedAt_write (hnot : ¬ Has key (run key ops) (key v)) :
    InsertedAt key (ops ++ [.write v]) (key v) ops.length := by
  refine ⟨⟨v, List.getElem?_concat_length, rfl⟩, ?_, fun j hij hj => ?_⟩
  · rwa [List.take_left]
  · rw [List.length_append, List.length_singleton] at hj
    rw [List.take_of_length_le (by rw [List.length_append, List.length_singleton]; omega),
      run_append_singleton]
    exact ⟨v, mem_write.mpr (.inl rfl), rfl⟩

/-- Nothing is inserted twice. -/
theorem InsertedAt.eq_of_not_has (h : InsertedAt key (ops ++ [op]) k i)
    (hnot : ¬ Has key (run key ops) k) : i = ops.length := by
  have hlt := h.lt_length
  rw [List.length_append, List.length_singleton] at hlt
  by_contra hne
  have hsince := h.2.2 ops.length (by omega) (by simp)
  rw [List.take_left] at hsince
  exact hnot hsince

/-- Every entry has been inserted. -/
theorem exists_insertedAt (h : Has key (run key ops) k) : ∃ i, InsertedAt key ops k i := by
  induction ops using List.reverseRecOn with
  | nil =>
    obtain ⟨v, hv, -⟩ := h
    cases hv
  | append_singleton ops op ih =>
    by_cases hold : Has key (run key ops) k
    · obtain ⟨i, hi⟩ := ih hold
      exact ⟨i, hi.append h⟩
    · -- the last operation must have written it
      obtain ⟨v, hv, rfl⟩ := h
      rcases live_append_singleton.mp (mem_run_iff.mp hv) with rfl | ⟨hlive, -⟩
      · exact ⟨_, insertedAt_write hold⟩
      · exact absurd ⟨v, mem_run_iff.mpr hlive, rfl⟩ hold

variable (key) in
/-- `v` was inserted before `v'`. -/
def Older (ops : List (Op V)) (v v' : V) : Prop :=
  ∀ i i', InsertedAt key ops (key v) i → InsertedAt key ops (key v') i' → i < i'

/-- One more operation does not change the order of what was there. -/
theorem Older.append (h : Older key ops v v') (hv : v ∈ run key ops) (hv' : v' ∈ run key ops) :
    Older key (ops ++ [op]) v v' :=
  fun i i' hi hi' => h i i' (hi.of_append ⟨v, hv, rfl⟩) (hi'.of_append ⟨v', hv', rfl⟩)

/-- **The map is in the order of the current insertions.** -/
theorem run_pairwise (ops : List (Op V)) : (run key ops).Pairwise (Older key ops) := by
  induction ops using List.reverseRecOn with
  | nil => exact List.Pairwise.nil
  | append_singleton ops op ih =>
    have hold : (run key ops).Pairwise (Older key (ops ++ [op])) :=
      ih.imp_of_mem fun hv hv' h => h.append hv hv'
    rw [run_append_singleton]
    cases op with
    | write v =>
      show (write key _ v).Pairwise _
      unfold write
      split
      · -- in place: the keys stay where they are
        rw [List.pairwise_map]
        refine hold.imp fun {a b} h => ?_
        unfold Older
        rw [key_overwrite key v a, key_overwrite key v b]
        exact h
      · next hnot =>
        refine List.pairwise_append.mpr ⟨hold, List.pairwise_singleton _ _, ?_⟩
        intro a ha b hb i i' hi hi'
        rw [List.mem_singleton.mp hb] at hi'
        rw [hi'.eq_of_not_has hnot]
        exact (hi.of_append ⟨a, ha, rfl⟩).lt_length
    | expire stale => exact hold.filter _
    | clear => exact List.Pairwise.nil
    | skip => exact hold

/-! ### Conservation -/

variable (key)

/-- How many entries the operation makes. -/
def createdBy (m : List V) : Op V → ℕ
  | .write v => if Has key m (key v) then 0 else 1
  | _ => 0

/-- How many it removes because they are stale. -/
def expiredBy (m : List V) : Op V → ℕ
  | .expire stale => m.countP stale
  | _ => 0

/-- How many it removes by clearing. -/
def clearedBy (m : List V) : Op V → ℕ
  | .clear => m.length
  | _ => 0

/-- A count, summed over the operations from `m` on. -/
def total (count : List V → Op V → ℕ) : List V → List (Op V) → ℕ
  | _, [] => 0
  | m, op :: ops => count m op + total count (apply key m op) ops

variable {key}

variable (key) in
theorem createdBy_add_length (m : List V) (op : Op V) :
    createdBy key m op + m.length
      = (apply key m op).length + expiredBy m op + clearedBy m op := by
  cases op with
  | write v =>
    show (if Has key m (key v) then 0 else 1) + m.length = (write key m v).length
    unfold write
    split
    · rw [List.length_map, Nat.zero_add]
    · rw [List.length_append, List.length_singleton, Nat.add_comm]
  | expire stale =>
    show 0 + m.length = (m.filter fun v => !stale v).length + m.countP stale
    rw [Nat.zero_add, ← List.countP_eq_length_filter, Nat.add_comm]
    simpa using List.length_eq_countP_add_countP stale (l := m)
  | clear =>
    show 0 + m.length = 0 + 0 + m.length
    rfl
  | skip => exact Nat.zero_add _

/-- **What was created is there, has expired or was cleared.** -/
theorem total_created (m : List V) (ops : List (Op V)) :
    total key (createdBy key) m ops + m.length
      = (ops.foldl (apply key) m).length + total key expiredBy m ops
        + total key clearedBy m ops := by
  induction ops generalizing m with
  | nil => exact Nat.add_comm _ _
  | cons op ops ih =>
    have hone := createdBy_add_length key m op
    have hrest := ih (apply key m op)
    simp only [total, List.foldl_cons]
    omega

end ExpiringMap
