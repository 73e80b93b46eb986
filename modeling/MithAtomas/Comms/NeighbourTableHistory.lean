import MithAtomas.Comms.NeighbourTable
import MithAtomas.Framework.ExpiringMap

/-!
# The neighbour table over a history of calls

What the entries of a neighbour table are for: the last thing heard of each peer, for as long as it
is recent. The mutators of the table are the operations of a last-writer map with expiry on its
entries (`entries_apply`, `entries_run`), whatever they do to the grid. So the entries are a matter
of the history of the calls alone:

* `find_run_iff` — a peer's entry is what the last `upsert` of it has stored, unless a `clear` or an
  `age_out` has removed it since (`LastHeard`);
* `run_pairwise` — the entries stand in the order in which they were inserted (`InsertedAt`): a peer
  that was evicted and is heard again goes to the end, an update leaves it where it is;
* `created_run` — every entry ever created is in the table, was evicted or was cleared.
-/

namespace MithAtomas

namespace NeighbourTable

variable {F : Type} [Scalar F] {t : NeighbourTable F}

/-- A call, as an operation on the entries. -/
def Call.op : Call F → ExpiringMap.Op (Entry F)
  | .upsert sv now rssi => .write (Entry.ofBeacon sv now rssi)
  | .ageOut now timeout => .expire fun e => e.lastSeenS < now - timeout
  | .clear => .clear
  | .setCellSizeM _ => .skip

/-- The call removes or replaces an entry of `hid` that was last seen at `seen`. -/
def Call.Forgets (hid : HierarchicalID) (seen : F) : Call F → Prop
  | .upsert sv _ _ => sv.id = hid
  | .ageOut now timeout => seen < now - timeout
  | .clear => True
  | .setCellSizeM _ => False

def Call.isUpsert : Call F → Bool
  | .upsert _ _ _ => true
  | _ => false

/-- `e` is what the last `upsert` of `hid` has stored, and nothing has removed it since. -/
def LastHeard (calls : List (Call F)) (hid : HierarchicalID) (e : Entry F) : Prop :=
  ∃ pre sv now rssi post, calls = pre ++ .upsert sv now rssi :: post ∧ sv.id = hid ∧
    e = Entry.ofBeacon sv now rssi ∧ ∀ c ∈ post, ¬ c.Forgets hid now

/-- Call `i` is an `upsert` of `hid` that found no entry of it, and there has been one ever
since. -/
def InsertedAt (calls : List (Call F)) (hid : HierarchicalID) (i : ℕ) : Prop :=
  (∃ sv now rssi, calls[i]? = some (.upsert sv now rssi) ∧ sv.id = hid) ∧
    ((empty : NeighbourTable F).run (calls.take i)).find hid = none ∧
    ∀ j, i < j → j ≤ calls.length → ((empty : NeighbourTable F).run (calls.take j)).find hid ≠ none

/-- A count, summed over the calls from `t` on. -/
def total (count : NeighbourTable F → Call F → ℕ) : NeighbourTable F → List (Call F) → ℕ
  | _, [] => 0
  | t, c :: calls => count t c + total count (t.apply c) calls

/-- How many entries a call creates. -/
def createdBy (t : NeighbourTable F) : Call F → ℕ
  | .upsert sv _ _ => if t.find sv.id = none then 1 else 0
  | _ => 0

/-- How many it evicts. -/
def evictedBy (t : NeighbourTable F) : Call F → ℕ
  | .ageOut now timeout => t.entries.countP fun e => e.lastSeenS < now - timeout
  | _ => 0

/-- How many it clears. -/
def clearedBy (t : NeighbourTable F) : Call F → ℕ
  | .clear => t.entries.length
  | _ => 0

/-! ### The calls as operations on a map -/

omit [Scalar F] in
theorem find_eq_none_iff {hid : HierarchicalID} :
    t.find hid = none ↔ ¬ ExpiringMap.Has Entry.hid t.entries hid := by
  unfold find ExpiringMap.Has
  rw [List.find?_eq_none]
  simp

omit [Scalar F] in
theorem findIdx_eq_none_iff {hid : HierarchicalID} :
    t.findIdx hid = none ↔ ¬ ExpiringMap.Has Entry.hid t.entries hid := by
  unfold findIdx ExpiringMap.Has
  rw [List.findIdx?_eq_none_iff]
  simp

/-- **Each mutator is its operation.** -/
theorem entries_apply (h : t.Distinct) (c : Call F) :
    (t.apply c).entries = ExpiringMap.apply Entry.hid t.entries c.op := by
  cases c with
  | upsert sv now rssi =>
    show (t.upsert sv now rssi).entries = ExpiringMap.write Entry.hid t.entries _
    unfold NeighbourTable.upsert
    split
    · next hnone =>
      -- not found: appended
      have hnot : ¬ ExpiringMap.Has Entry.hid t.entries sv.id := findIdx_eq_none_iff.mp hnone
      exact (if_neg hnot).symm
    · next idx hidx =>
      -- found: overwritten in place
      obtain ⟨it, hit, hhid⟩ := findIdx_spec hidx
      have hhas : ExpiringMap.Has Entry.hid t.entries sv.id :=
        ⟨it, List.mem_of_getElem? hit, hhid⟩
      rw [hit]
      show t.entries.set idx _ = if ExpiringMap.Has Entry.hid t.entries sv.id then _ else _
      rw [if_pos hhas, Entry.observe_eq_ofBeacon hhid]
      exact ExpiringMap.set_eq_overwrite h hit hhid
  | ageOut now timeout =>
    show (t.ageOut now timeout).entries = _
    rw [entries_ageOut]
    refine List.filter_congr fun e _ => ?_
    exact decide_not
  | clear => rfl
  | setCellSizeM size => exact entries_rebuildGrid _

theorem Distinct.apply (h : t.Distinct) (c : Call F) : (t.apply c).Distinct := by
  unfold Distinct
  rw [entries_apply h c]
  exact ExpiringMap.nodup_apply h c.op

theorem Distinct.run (h : t.Distinct) (calls : List (Call F)) : (t.run calls).Distinct :=
  List.foldlRecOn (motive := Distinct) calls _ h fun _ h c _ => h.apply c

/-- What `find` returns after an `upsert`. -/
theorem Distinct.find_upsert (h : t.Distinct) (sv : StateVector F) (now : F) (rssi : Option F)
    (hid : HierarchicalID) : (t.upsert sv now rssi).find hid
      = if sv.id = hid then some (Entry.ofBeacon sv now rssi) else t.find hid := by
  -- the entries are the new one and those of other peers
  have hmem : ∀ e, e ∈ (t.upsert sv now rssi).entries ↔
      e = Entry.ofBeacon sv now rssi ∨ (e ∈ t.entries ∧ e.hid ≠ sv.id) := by
    intro e
    have hentries : (t.upsert sv now rssi).entries = ExpiringMap.write Entry.hid t.entries _ :=
      entries_apply h (.upsert sv now rssi)
    rw [hentries]
    exact ExpiringMap.mem_write
  refine Option.ext fun e => ?_
  rw [(h.upsert sv now rssi).find_iff, hmem]
  split
  · next hsame =>
    subst hsame
    rw [Option.some.injEq]
    constructor
    · rintro ⟨rfl | ⟨-, hne⟩, hhid⟩
      · rfl
      · exact absurd hhid hne
    · rintro rfl
      exact ⟨.inl rfl, rfl⟩
  · next hne =>
    rw [h.find_iff]
    constructor
    · rintro ⟨rfl | ⟨hold, -⟩, hhid⟩
      · exact absurd hhid hne
      · exact ⟨hold, hhid⟩
    · rintro ⟨hold, rfl⟩
      exact ⟨.inr ⟨hold, Ne.symm hne⟩, rfl⟩

/-- What `find` returns after an `age_out`. -/
theorem Distinct.find_ageOut (h : t.Distinct) (now timeout : F) (hid : HierarchicalID) :
    (t.ageOut now timeout).find hid
      = (t.find hid).filter fun e => ¬ e.lastSeenS < now - timeout := by
  refine Option.ext fun e => ?_
  rw [(h.ageOut now timeout).find_iff, entries_ageOut, List.mem_filter, Option.filter_eq_some_iff,
    h.find_iff]
  exact and_right_comm

/-- **The entries after any calls.** -/
theorem entries_run (calls : List (Call F)) :
    ((empty : NeighbourTable F).run calls).entries
      = ExpiringMap.run Entry.hid (calls.map Call.op) := by
  induction calls using List.reverseRecOn with
  | nil => rfl
  | append_singleton calls c ih =>
    have hlast : (empty : NeighbourTable F).run (calls ++ [c])
        = ((empty : NeighbourTable F).run calls).apply c := List.foldl_concat _ _ _ _
    rw [hlast, entries_apply (distinct_empty.run calls) c, ih, List.map_append, List.map_singleton,
      ExpiringMap.run_append_singleton]

/-! ### What is there -/

theorem Call.ends_op_iff {c : Call F} {e : Entry F} :
    c.op.Ends Entry.hid e ↔ c.Forgets e.hid e.lastSeenS := by
  cases c with
  | upsert sv now rssi => exact Iff.rfl
  | ageOut now timeout => exact decide_eq_true_iff
  | clear => exact Iff.rfl
  | setCellSizeM size => exact Iff.rfl

theorem Call.op_eq_write_iff {c : Call F} {e : Entry F} :
    c.op = .write e ↔ ∃ sv now rssi, c = .upsert sv now rssi ∧ e = Entry.ofBeacon sv now rssi := by
  constructor
  · intro h
    cases c with
    | upsert sv now rssi => exact ⟨sv, now, rssi, rfl, (ExpiringMap.Op.write.inj h).symm⟩
    | ageOut now timeout => cases h
    | clear => cases h
    | setCellSizeM size => cases h
  · rintro ⟨sv, now, rssi, rfl, rfl⟩
    rfl

theorem lastHeard_iff {calls : List (Call F)} {hid : HierarchicalID} {e : Entry F} :
    LastHeard calls hid e ↔ ExpiringMap.Live Entry.hid (calls.map Call.op) e ∧ e.hid = hid := by
  constructor
  · rintro ⟨pre, sv, now, rssi, post, rfl, rfl, rfl, hpost⟩
    refine ⟨⟨pre.map Call.op, post.map Call.op, ?_, fun o ho => ?_⟩, rfl⟩
    · rw [List.map_append, List.map_cons]
      rfl
    · obtain ⟨c, hc, rfl⟩ := List.mem_map.mp ho
      exact fun hends => hpost c hc (Call.ends_op_iff.mp hends)
  · rintro ⟨⟨pre', post', heq, hpost⟩, rfl⟩
    obtain ⟨pre, rest, rfl, rfl, hrest⟩ := List.map_eq_append_iff.mp heq
    obtain ⟨c, post, rfl, hc, rfl⟩ := List.map_eq_cons_iff.mp hrest
    obtain ⟨sv, now, rssi, rfl, rfl⟩ := Call.op_eq_write_iff.mp hc
    refine ⟨pre, sv, now, rssi, post, rfl, rfl, rfl, fun c hc hforgets => ?_⟩
    exact hpost c.op (List.mem_map_of_mem hc) (Call.ends_op_iff.mpr hforgets)

/-- **An entry is the last thing heard.** -/
theorem find_run_iff {calls : List (Call F)} {hid : HierarchicalID} {e : Entry F} :
    ((empty : NeighbourTable F).run calls).find hid = some e ↔ LastHeard calls hid e := by
  rw [(distinct_empty.run calls).find_iff, entries_run, ExpiringMap.mem_run_iff, lastHeard_iff]

/-! ### In which order -/

theorem insertedAt_iff {calls : List (Call F)} {hid : HierarchicalID} {i : ℕ} :
    InsertedAt calls hid i ↔ ExpiringMap.InsertedAt Entry.hid (calls.map Call.op) hid i := by
  have hfind : ∀ n, ((empty : NeighbourTable F).run (calls.take n)).find hid = none ↔
      ¬ ExpiringMap.Has Entry.hid (ExpiringMap.run Entry.hid ((calls.map Call.op).take n)) hid := by
    intro n
    rw [find_eq_none_iff, entries_run, List.map_take]
  unfold InsertedAt ExpiringMap.InsertedAt
  refine and_congr ?_ (and_congr (hfind i) ?_)
  · rw [List.getElem?_map]
    constructor
    · rintro ⟨sv, now, rssi, hget, rfl⟩
      exact ⟨Entry.ofBeacon sv now rssi, by rw [hget]; rfl, rfl⟩
    · rintro ⟨e, hget, rfl⟩
      obtain ⟨c, hc, hop⟩ := Option.map_eq_some_iff.mp hget
      obtain ⟨sv, now, rssi, rfl, rfl⟩ := Call.op_eq_write_iff.mp hop
      exact ⟨sv, now, rssi, hc, rfl⟩
  · rw [List.length_map]
    refine forall_congr' fun j => imp_congr_right fun _ => imp_congr_right fun _ => ?_
    rw [ne_eq, hfind j, not_not]

/-- Every entry has been inserted. -/
theorem exists_insertedAt {calls : List (Call F)} {e : Entry F}
    (h : e ∈ ((empty : NeighbourTable F).run calls).entries) : ∃ i, InsertedAt calls e.hid i := by
  rw [entries_run] at h
  obtain ⟨i, hi⟩ := ExpiringMap.exists_insertedAt ⟨e, h, rfl⟩
  exact ⟨i, insertedAt_iff.mpr hi⟩

/-- **The entries are in the order of their insertion.** -/
theorem run_pairwise (calls : List (Call F)) :
    ((empty : NeighbourTable F).run calls).entries.Pairwise fun e e' => ∀ i i',
      InsertedAt calls e.hid i → InsertedAt calls e'.hid i' → i < i' := by
  rw [entries_run]
  refine (ExpiringMap.run_pairwise (calls.map Call.op)).imp fun h i i' hi hi' => ?_
  exact h i i' (insertedAt_iff.mp hi) (insertedAt_iff.mp hi')

/-! ### When a peer was last heard -/

/-- `last_seen_s` of the peer's entry, if it has one. -/
def lastHeard (t : NeighbourTable F) (hid : HierarchicalID) : Option F :=
  (t.find hid).map Entry.lastSeenS

theorem Distinct.lastHeard_ageOut (h : t.Distinct) (now timeout : F) (hid : HierarchicalID) :
    (t.ageOut now timeout).lastHeard hid
      = (t.lastHeard hid).filter fun heard => ¬ heard < now - timeout := by
  unfold lastHeard
  rw [h.find_ageOut, Option.filter_map]
  rfl

theorem distinct_upserts (h : t.Distinct) (svs : List (StateVector F)) (now : F) :
    (svs.foldl (fun t sv => t.upsert sv now none) t).Distinct :=
  List.foldlRecOn (motive := Distinct) svs _ h fun _ ih sv _ => ih.upsert sv now none

/-- **After a poll** whoever has been heard in it has just been heard, and nobody else has. -/
theorem Distinct.lastHeard_upserts (h : t.Distinct) (svs : List (StateVector F)) (now : F)
    (hid : HierarchicalID) :
    (svs.foldl (fun t sv => t.upsert sv now none) t).lastHeard hid
      = if ∃ sv ∈ svs, sv.id = hid then some now else t.lastHeard hid := by
  induction svs using List.reverseRecOn with
  | nil =>
    rw [if_neg]
    · rfl
    · rintro ⟨sv, ⟨⟩, -⟩
  | append_singleton svs sv ih =>
    rw [List.foldl_concat]
    unfold lastHeard
    rw [(distinct_upserts h svs now).find_upsert]
    -- the last beacon is of this peer, or it changes nothing
    by_cases hsame : sv.id = hid
    · rw [if_pos hsame,
        if_pos ⟨sv, List.mem_append_right _ (List.mem_singleton_self sv), hsame⟩]
      rfl
    · rw [if_neg hsame]
      refine ih.trans (if_congr ?_ rfl rfl)
      constructor
      · rintro ⟨sv', hmem, hsv'⟩
        exact ⟨sv', List.mem_append_left _ hmem, hsv'⟩
      · rintro ⟨sv', hmem, hsv'⟩
        rcases List.mem_append.mp hmem with hold | hnew
        · exact ⟨sv', hold, hsv'⟩
        · rw [List.mem_singleton.mp hnew] at hsv'
          exact absurd hsv' hsame

/-! ### The counters -/

/-- A count that an operation determines is the map's. -/
theorem total_eq {count : NeighbourTable F → Call F → ℕ}
    {count' : List (Entry F) → ExpiringMap.Op (Entry F) → ℕ}
    (heq : ∀ t c, count t c = count' t.entries c.op) (h : t.Distinct) (calls : List (Call F)) :
    total count t calls = ExpiringMap.total Entry.hid count' t.entries (calls.map Call.op) := by
  induction calls generalizing t with
  | nil => rfl
  | cons c calls ih =>
    rw [List.map_cons, total, ExpiringMap.total, heq, ih (h.apply c), entries_apply h c]

/-- **Where the entries went.** -/
theorem created_run (calls : List (Call F)) :
    total createdBy (empty : NeighbourTable F) calls
      = ((empty : NeighbourTable F).run calls).entries.length
        + total evictedBy (empty : NeighbourTable F) calls
        + total clearedBy (empty : NeighbourTable F) calls := by
  -- the counters of the table are those of the map
  have hcreated : ∀ (t : NeighbourTable F) c,
      createdBy t c = ExpiringMap.createdBy Entry.hid t.entries c.op := by
    intro t c
    cases c with
    | upsert sv now rssi =>
      show (if t.find sv.id = none then 1 else 0)
        = if ExpiringMap.Has Entry.hid t.entries sv.id then 0 else 1
      rw [if_congr find_eq_none_iff rfl rfl, ite_not]
    | _ => rfl
  have hevicted : ∀ (t : NeighbourTable F) c,
      evictedBy t c = ExpiringMap.expiredBy t.entries c.op := by
    intro t c
    cases c <;> rfl
  have hcleared : ∀ (t : NeighbourTable F) c,
      clearedBy t c = ExpiringMap.clearedBy t.entries c.op := by
    intro t c
    cases c <;> rfl
  rw [total_eq hcreated distinct_empty, total_eq hevicted distinct_empty,
    total_eq hcleared distinct_empty, entries_run]
  exact ExpiringMap.total_created [] (calls.map Call.op)

theorem totals_rebuildGrid (t : NeighbourTable F) :
    t.rebuildGrid.totalObservations = t.totalObservations ∧
      t.rebuildGrid.totalEvictions = t.totalEvictions := by
  unfold rebuildGrid
  split <;> exact ⟨rfl, rfl⟩

theorem totalObservations_apply (t : NeighbourTable F) (c : Call F) :
    (t.apply c).totalObservations
      = t.totalObservations + UInt64.ofNat (if c.isUpsert then 1 else 0) := by
  have hzero : t.totalObservations = t.totalObservations + UInt64.ofNat 0 := by simp
  cases c with
  | upsert sv now rssi =>
    show (t.upsert sv now rssi).totalObservations = _
    unfold NeighbourTable.upsert
    -- a new entry and an old one are counted alike
    split
    · rfl
    · next idx hidx =>
      obtain ⟨it, hit, -⟩ := findIdx_spec hidx
      rw [hit]
      rfl
  | ageOut now timeout =>
    show (t.ageOut now timeout).totalObservations = _
    unfold ageOut
    simp only
    split
    · rw [(totals_rebuildGrid _).1]
      exact hzero
    · exact hzero
  | clear => exact hzero
  | setCellSizeM size =>
    show (rebuildGrid _).totalObservations = _
    rw [(totals_rebuildGrid _).1]
    exact hzero

theorem totalEvictions_apply (t : NeighbourTable F) (c : Call F) :
    (t.apply c).totalEvictions = t.totalEvictions + UInt64.ofNat (evictedBy t c) := by
  have hzero : t.totalEvictions = t.totalEvictions + UInt64.ofNat 0 := by simp
  cases c with
  | upsert sv now rssi =>
    show (t.upsert sv now rssi).totalEvictions = _
    unfold NeighbourTable.upsert
    split
    · exact hzero
    · split <;> exact hzero
  | ageOut now timeout =>
    -- what is not kept is stale
    have hremoved :
        t.entries.length - (t.entries.filter fun e => ¬ e.lastSeenS < now - timeout).length
        = t.entries.countP fun e => e.lastSeenS < now - timeout := by
      rw [← List.countP_eq_length_filter,
        List.length_eq_countP_add_countP (fun e : Entry F => decide (e.lastSeenS < now - timeout))]
      simp
    show (t.ageOut now timeout).totalEvictions = _
    unfold ageOut
    simp only [hremoved]
    split
    · rw [(totals_rebuildGrid _).2]
      rfl
    · rfl
  | clear => exact hzero
  | setCellSizeM size =>
    show (rebuildGrid _).totalEvictions = _
    rw [(totals_rebuildGrid _).2]
    exact hzero

theorem totalObservations_run (calls : List (Call F)) :
    (t.run calls).totalObservations
      = t.totalObservations + UInt64.ofNat (calls.countP Call.isUpsert) := by
  induction calls generalizing t with
  | nil =>
    show t.totalObservations = t.totalObservations + UInt64.ofNat 0
    simp
  | cons c calls ih =>
    show ((t.apply c).run calls).totalObservations = _
    rw [ih, totalObservations_apply, List.countP_cons, UInt64.add_assoc, ← UInt64.ofNat_add,
      Nat.add_comm]

theorem totalEvictions_run (calls : List (Call F)) :
    (t.run calls).totalEvictions
      = t.totalEvictions + UInt64.ofNat (total evictedBy t calls) := by
  induction calls generalizing t with
  | nil =>
    show t.totalEvictions = t.totalEvictions + UInt64.ofNat 0
    simp
  | cons c calls ih =>
    show ((t.apply c).run calls).totalEvictions = _
    rw [ih, totalEvictions_apply, total, UInt64.add_assoc, ← UInt64.ofNat_add]

/-- Nothing is evicted, and nothing else happens, while nothing is too old. -/
theorem ageOut_eq_self {now timeout : F} (h : ∀ e ∈ t.entries, ¬ e.lastSeenS < now - timeout) :
    t.ageOut now timeout = t := by
  have hkept : (t.entries.filter fun e => ¬ e.lastSeenS < now - timeout) = t.entries :=
    List.filter_eq_self.mpr fun e he => decide_eq_true (h e he)
  unfold ageOut
  simp only [hkept, Nat.sub_self, Nat.lt_irrefl, if_false]
  show { t with totalEvictions := t.totalEvictions + 0 } = t
  rw [UInt64.add_zero]

/-- Upserts evict nothing. -/
theorem totalEvictions_upserts (svs : List (StateVector F)) (now : F) :
    (svs.foldl (fun t sv => t.upsert sv now none) t).totalEvictions = t.totalEvictions :=
  List.foldlRecOn (motive := fun t' : NeighbourTable F => t'.totalEvictions = t.totalEvictions) svs
    _ rfl fun t' ih sv _ => by
      rw [← ih]
      exact (totalEvictions_apply t' (.upsert sv now none)).trans (UInt64.add_zero _)

/-- **The table is a last-writer map with expiry.** After any calls from an empty table: no peer has
two entries; a peer has an entry exactly when its last `upsert` has not been followed by a `clear`
or by an `age_out` for which it was too old, and the entry is what that `upsert` has stored; every
entry was inserted by some call, and the entries stand in the order of these calls; and the counters
count the `upsert`s and the evicted entries, which with the entries that are there and those that
were cleared are all that were ever created. -/
theorem neighbour_table_last_writer (calls : List (Call F)) :
    (((empty : NeighbourTable F).run calls).entries.map Entry.hid).Nodup ∧
    (∀ hid e, ((empty : NeighbourTable F).run calls).find hid = some e ↔ LastHeard calls hid e) ∧
    (∀ e ∈ ((empty : NeighbourTable F).run calls).entries, ∃ i, InsertedAt calls e.hid i) ∧
    (((empty : NeighbourTable F).run calls).entries.Pairwise fun e e' => ∀ i i',
      InsertedAt calls e.hid i → InsertedAt calls e'.hid i' → i < i') ∧
    ((empty : NeighbourTable F).run calls).totalObservations
      = UInt64.ofNat (calls.countP Call.isUpsert) ∧
    ∃ evicted, ((empty : NeighbourTable F).run calls).totalEvictions = UInt64.ofNat evicted ∧
      total createdBy (empty : NeighbourTable F) calls
        = ((empty : NeighbourTable F).run calls).entries.length + evicted
          + total clearedBy (empty : NeighbourTable F) calls := by
  refine ⟨distinct_empty.run calls, fun hid e => find_run_iff, fun e he => exists_insertedAt he,
    run_pairwise calls, ?_, total evictedBy empty calls, ?_, created_run calls⟩
  · rw [totalObservations_run]
    exact UInt64.zero_add _
  · rw [totalEvictions_run]
    exact UInt64.zero_add _

/-! ### Tables of any size -/

/-- The beacons of new peers all go to the end. -/
theorem entries_run_upserts (svs : List (StateVector F)) (now : F)
    (hsvs : (svs.map StateVector.id).Nodup) :
    ((empty : NeighbourTable F).run (svs.map fun sv => .upsert sv now none)).entries
      = svs.map fun sv => Entry.ofBeacon sv now none := by
  rw [entries_run]
  induction svs using List.reverseRecOn with
  | nil => rfl
  | append_singleton svs sv ih =>
    rw [List.map_append, List.nodup_append] at hsvs
    obtain ⟨hnodup, -, hnew⟩ := hsvs
    have hnot :
      ¬ ExpiringMap.Has Entry.hid (svs.map fun sv => Entry.ofBeacon sv now none) sv.id := by
      rintro ⟨e, he, hid⟩
      obtain ⟨sv', hsv', rfl⟩ := List.mem_map.mp he
      exact hnew _ (List.mem_map_of_mem hsv') _ (List.mem_singleton_self _) hid
    rw [List.map_append, List.map_append, List.map_singleton, List.map_singleton,
      ExpiringMap.run_append_singleton, ih hnodup, List.map_append]
    exact if_neg hnot

end NeighbourTable

/-- The id of the `k`-th of up to 2^40 peers. -/
def crowdId (k : ℕ) : HierarchicalID where
  swarmId := UInt16.ofNat k
  unitId := ⟨Vector.ofFn fun i : Fin 16 =>
    if i.val < 3 then UInt8.ofNat (k / 2 ^ (16 + 8 * i.val)) else 1⟩

theorem crowdId_injOn {k k' : ℕ} (hk : k < 2 ^ 40) (hk' : k' < 2 ^ 40)
    (h : crowdId k = crowdId k') :
    k = k' := by
  have hswarm : k % 2 ^ 16 = k' % 2 ^ 16 := congrArg (fun hid => hid.swarmId.toNat) h
  have hbyte : ∀ i : Fin 16, i.val < 3 →
      k / 2 ^ (16 + 8 * i.val) % 2 ^ 8 = k' / 2 ^ (16 + 8 * i.val) % 2 ^ 8 := by
    intro i hi
    have hget : ∀ k, (crowdId k).unitId.bytes.get i = UInt8.ofNat (k / 2 ^ (16 + 8 * i.val)) := by
      intro k
      show (Vector.ofFn _).get i = _
      rw [Vector.get_ofFn, if_pos hi]
    have hsame := congrArg (fun hid : HierarchicalID => (hid.unitId.bytes.get i).toNat) h
    simp only [hget] at hsame
    exact hsame
  have h0 := hbyte 0 (by decide)
  have h1 := hbyte 1 (by decide)
  have h2 := hbyte 2 (by decide)
  norm_num at h0 h1 h2 hswarm hk hk'
  omega

/-- One beacon, sent by each of `n` peers. -/
def crowd {F : Type} (sv : StateVector F) (n : ℕ) : List (StateVector F) :=
  (List.range n).map fun k => { sv with id := crowdId k }

theorem length_crowd {F : Type} (sv : StateVector F) (n : ℕ) : (crowd sv n).length = n := by
  unfold crowd
  rw [List.length_map, List.length_range]

theorem nodup_crowd {F : Type} (sv : StateVector F) {n : ℕ} (hn : n ≤ 2 ^ 40) :
    ((crowd sv n).map StateVector.id).Nodup := by
  unfold crowd
  rw [List.map_map]
  refine List.Nodup.map_on ?_ List.nodup_range
  intro k hk k' hk' h
  exact crowdId_injOn ((List.mem_range.mp hk).trans_le hn) ((List.mem_range.mp hk').trans_le hn) h

/-- A table that has heard `sv` from each of `n` peers; not to be unfolded, as `n` may be large. -/
@[irreducible] def crowdedTable (sv : StateVector ℚ) (n : ℕ) : NeighbourTable ℚ :=
  (NeighbourTable.empty : NeighbourTable ℚ).run ((crowd sv n).map fun sv => .upsert sv 0 none)

theorem entries_crowdedTable (sv : StateVector ℚ) {n : ℕ} (hn : n ≤ 2 ^ 40) :
    (crowdedTable sv n).entries = (crowd sv n).map fun sv => Entry.ofBeacon sv 0 none := by
  unfold crowdedTable
  exact NeighbourTable.entries_run_upserts _ _ (nodup_crowd sv hn)

theorem length_crowdedTable (sv : StateVector ℚ) {n : ℕ} (hn : n ≤ 2 ^ 40) :
    (crowdedTable sv n).entries.length = n := by
  rw [entries_crowdedTable sv hn, List.length_map, length_crowd]

/-- All of them have the same clock. -/
theorem syncTimeS_crowdedTable (sv : StateVector ℚ) {n : ℕ} (hn : n ≤ 2 ^ 40) :
    (crowdedTable sv n).entries.map Entry.syncTimeS = List.replicate n sv.syncTimeS := by
  rw [entries_crowdedTable sv hn, crowd, List.map_map, List.map_map]
  exact List.map_const' .. |>.trans (by rw [List.length_range])

end MithAtomas
