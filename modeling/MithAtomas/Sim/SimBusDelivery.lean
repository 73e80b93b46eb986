import MithAtomas.Sim.SimBus

/-!
# Who gets a delivery

What a delivery of `SimBus` is for is `DeliversOnce`: one copy in the inbox of every other
participant whose present distance is within the range, and nothing anywhere else.

`Bus` is what holds of every bus with its history: the grid files the positions of the last rebuild
(`Bus.of_reachable`). From it, who gets how many copies can be read off (`Bus.count_recipients`):
one, if it passes the tests, and if in addition, on the path through the grid, it was filed in one
of the 27 cells around the sender's present cell. So a delivery is exact just when nobody in range
was filed elsewhere, or not at all (`FiledNearby`).
-/

namespace MithAtomas

open HashGrid

namespace SimBus

/-! ### Repeated updates -/

section Updates

variable {F : Type} [Scalar F] (b : SimBus F)

omit [Scalar F] in
theorem update_participants (f : Participant F → Participant F) (toIdx k : ℕ) :
    (b.update f toIdx).participants[k]?
      = if k = toIdx then b.participants[k]?.map f else b.participants[k]? := by
  unfold update
  rw [List.getElem?_modify]
  by_cases hk : toIdx = k
  · subst hk
    simp
  · rw [if_neg (Ne.symm hk)]
    simp [hk]

omit [Scalar F] in
/-- A participant is updated as often as it stands in the list. -/
theorem updateAll_participants (f : Participant F → Participant F) (tos : List ℕ) (k : ℕ) :
    (b.updateAll f tos).participants[k]? = b.participants[k]?.map f^[tos.count k] := by
  induction tos generalizing b with
  | nil =>
    show b.participants[k]? = b.participants[k]?.map id
    rw [Option.map_id_fun]
    rfl
  | cons i tos ih =>
    show ((b.update f i).updateAll f tos).participants[k]? = _
    rw [ih, update_participants, List.count_cons]
    by_cases hk : k = i
    · subst hk
      rw [if_pos rfl, Option.map_map]
      simp only [beq_self_eq_true, if_true, Function.iterate_succ]
    · rw [if_neg hk]
      simp [Ne.symm hk]

end Updates

/-! ### The purpose of a delivery -/

/-- At a distance of at most `range`. -/
def InRange (range : ℚ) (p q : PositionComponent ℚ) : Prop :=
  0 ≤ range ∧ p.distSq q ≤ range * range

/-- Participant `k` is another one than the sender, and in range of it. -/
def InReach (b : SimBus ℚ) (fromIdx : ℕ) (fromPos : PositionComponent ℚ) (k : ℕ) : Prop :=
  k ≠ fromIdx ∧ ∃ pos, b.position k = some pos ∧ InRange b.commRangeM pos fromPos

/-- From `b` to `b'`, exactly those in reach have received, once. -/
def DeliversOnce (b b' : SimBus ℚ) (fromIdx : ℕ) (fromPos : PositionComponent ℚ)
    (receive : Participant ℚ → Participant ℚ) : Prop :=
  ∀ k, (InReach b fromIdx fromPos k →
      b'.participants[k]? = b.participants[k]?.map receive) ∧
    (¬ InReach b fromIdx fromPos k → b'.participants[k]? = b.participants[k]?)

/-- If there are buckets, `k` was filed at the last rebuild in one of the 27 cells around the cell
of `fromPos`. -/
def FiledAround (range : ℚ) (filed : List (PositionComponent ℚ)) (fromPos : PositionComponent ℚ)
    (k : ℕ) : Prop :=
  0 < range → filed ≠ [] → ∃ old, filed[k]? = some old ∧
    cellKeyFor range old ∈ cellBlock (cellKeyFor range fromPos) 1

/-- Whoever is now within the magnitude of the range is in range, and was filed nearby. The first
part is about negative ranges, which the code squares. -/
def FiledNearby (range : ℚ) (b : SimBus ℚ) (filed : List (PositionComponent ℚ)) (fromIdx : ℕ)
    (fromPos : PositionComponent ℚ) : Prop :=
  ∀ k pos, k ≠ fromIdx → b.position k = some pos → pos.distSq fromPos ≤ range * range →
    0 ≤ range ∧ FiledAround range filed fromPos k

/-! ### What holds of a bus -/

/-- A bus whose grid was built from the positions `filed`. -/
structure Bus (range : ℚ) (b : SimBus ℚ) (filed : List (PositionComponent ℚ)) : Prop where
  commRange_eq : b.commRangeM = range
  positioned : ∀ p ∈ b.participants, p.posFn ≠ none
  unbuilt : b.gridCellSizeM ≠ range → b.gridCellSizeM = 0 ∧ filed = []
  indexed : 0 < b.gridCellSizeM → Indexes b.grid (filed.map (cellKeyFor b.gridCellSizeM))

variable {range : ℚ} {b : SimBus ℚ} {filed : List (PositionComponent ℚ)}

/-- An update that leaves everybody positioned. -/
theorem Bus.update (h : Bus range b filed) {f : Participant ℚ → Participant ℚ}
    (hf : ∀ p, p.posFn ≠ none → (f p).posFn ≠ none) (toIdx : ℕ) :
    Bus range (b.update f toIdx) filed where
  commRange_eq := h.commRange_eq
  positioned := by
    intro p hp
    obtain ⟨k, hk⟩ := List.mem_iff_getElem?.mp hp
    rw [update_participants] at hk
    split at hk
    · obtain ⟨q, hq, rfl⟩ := Option.map_eq_some_iff.mp hk
      exact hf q (h.positioned q (List.mem_of_getElem? hq))
    · exact h.positioned p (List.mem_of_getElem? hk)
  unbuilt := h.unbuilt
  indexed := h.indexed

theorem Bus.updateAll (h : Bus range b filed) {f : Participant ℚ → Participant ℚ}
    (hf : ∀ p, p.posFn ≠ none → (f p).posFn ≠ none) (tos : List ℕ) :
    Bus range (b.updateAll f tos) filed := by
  induction tos generalizing b with
  | nil => exact h
  | cons i tos ih => exact ih (h.update hf i)

/-- When everybody has a position, the loop of `rebuild_grid_` files all of them. -/
theorem fileFrom_eq_buildFrom (cellSize : ℚ) (n : ℕ) (ps : List (Participant ℚ))
    (g : Grid CellKey) (hps : ∀ p ∈ ps, p.posFn ≠ none) :
    fileFrom cellSize n ps g
      = buildFrom n ((ps.filterMap Participant.posFn).map (cellKeyFor cellSize)) g := by
  induction ps generalizing n g with
  | nil => rfl
  | cons p ps ih =>
    obtain ⟨pos, hpos⟩ := Option.ne_none_iff_exists'.mp (hps p List.mem_cons_self)
    rw [fileFrom, hpos, List.filterMap_cons_some hpos, List.map_cons, buildFrom]
    exact ih (n + 1) _ fun q hq => hps q (List.mem_cons_of_mem p hq)

theorem Bus.rebuildGrid (h : Bus range b filed) : Bus range b.rebuildGrid b.positions where
  commRange_eq := h.commRange_eq
  positioned := h.positioned
  unbuilt := fun hne => absurd h.commRange_eq hne
  indexed := by
    intro hpos
    have hsize : ¬ b.commRangeM ≤ 0 := not_le.mpr hpos
    show Indexes (if b.commRangeM ≤ 0 then ∅ else fileFrom b.commRangeM 0 b.participants ∅) _
    rw [if_neg hsize, fileFrom_eq_buildFrom _ _ _ _ h.positioned]
    exact indexes_build _

/-- **Every reachable bus.** -/
theorem Bus.of_reachable (h : Reachable range b filed) : Bus range b filed := by
  induction h with
  | init =>
    refine ⟨rfl, fun p hp => absurd hp List.not_mem_nil, fun _ => ⟨rfl, rfl⟩, fun hpos => ?_⟩
    exact absurd hpos (lt_irrefl 0)
  | createWorld _ identity pos ih =>
    refine ⟨ih.commRange_eq, fun p hp => ?_, ih.unbuilt, ih.indexed⟩
    rcases List.mem_append.mp hp with hp | hp
    · exact ih.positioned p hp
    · rw [List.mem_singleton] at hp
      subst hp
      exact Option.some_ne_none pos
  | rebuildGrid _ ih => exact ih.rebuildGrid
  | setPosition _ idx pos ih => exact ih.update (fun _ _ => Option.some_ne_none pos) idx
  | setIdentity _ idx identity ih =>
    refine ih.update ?_ idx
    exact fun p hp => hp
  | deliverBeacon _ fromIdx sv ih =>
    unfold deliverBeacon
    split
    · exact ih
    · refine ih.updateAll ?_ _
      exact fun p hp => hp
  | deliverMessage _ fromIdx msg ih =>
    -- a broadcast goes to many inboxes, a directed message to one at most
    unfold deliverMessage
    split
    · split
      · exact ih
      · refine ih.updateAll ?_ _
        exact fun p hp => hp
    · split
      · exact ih
      · split
        · exact ih
        · refine ih.update ?_ _
          exact fun p hp => hp
  | drainInboxBeacons _ idx ih =>
    refine ih.update ?_ idx
    exact fun p hp => hp
  | drainInboxMessages _ idx ih =>
    refine ih.update ?_ idx
    exact fun p hp => hp

/-! ### Counting copies -/

variable {fromIdx : ℕ} {fromPos : PositionComponent ℚ}

/-- The tests, read as a proposition. -/
theorem accepts_eq_some {k i : ℕ} : b.accepts fromIdx fromPos k = some i ↔
    k = i ∧ k ≠ fromIdx ∧ ∃ pos, b.position k = some pos ∧
      pos.distSq fromPos ≤ b.commRangeM * b.commRangeM := by
  unfold accepts position
  by_cases hk : k = fromIdx
  · simp [hk]
  · rw [if_neg hk]
    cases hp : b.participants[k]? with
    | none => simp
    | some p =>
      cases hq : p.posFn with
      | none => simp [hq]
      | some pos =>
        by_cases hd : pos.distSq fromPos ≤ b.commRangeM * b.commRangeM
        · simp [hq, hd, hk]
        · simp [hq, hd]

/-- Through the tests an index comes out at most as often as it is looked at. -/
theorem count_filterMap_accepts (l : List ℕ) (hl : l.Nodup) (k : ℕ) :
    (l.filterMap (b.accepts fromIdx fromPos)).count k
      = if k ∈ l ∧ b.accepts fromIdx fromPos k = some k then 1 else 0 := by
  have hinj : ∀ i j x, x ∈ b.accepts fromIdx fromPos i → x ∈ b.accepts fromIdx fromPos j →
      i = j := by
    intro i j x hi hj
    rw [Option.mem_def, accepts_eq_some] at hi hj
    rw [hi.1, hj.1]
  have hnd := hl.filterMap hinj
  split
  · next hk =>
    refine List.count_eq_one_of_mem hnd (List.mem_filterMap.mpr ⟨k, hk.1, hk.2⟩)
  · next hk =>
    refine List.count_eq_zero.mpr fun hmem => hk ?_
    obtain ⟨i, hi, hik⟩ := List.mem_filterMap.mp hmem
    obtain rfl := (accepts_eq_some.mp hik).1
    exact ⟨hi, hik⟩

/-- Once somebody is filed, the cells are as large as the range. -/
theorem Bus.gridCellSizeM_eq (h : Bus range b filed) (hne : filed ≠ []) :
    b.gridCellSizeM = range := by
  by_contra hsize
  exact hne (h.unbuilt hsize).2

/-- There is a grid to look into if it was built with a positive range from somebody. -/
theorem Bus.usesGrid_iff (h : Bus range b filed) :
    0 < b.gridCellSizeM ∧ b.grid.entries ≠ [] ↔ 0 < range ∧ filed ≠ [] := by
  constructor
  · rintro ⟨hpos, hentries⟩
    have hne : filed ≠ [] := by
      rintro rfl
      exact hentries (h.indexed hpos).entries_eq_nil
    exact ⟨h.gridCellSizeM_eq hne ▸ hpos, hne⟩
  · rintro ⟨hpos, hne⟩
    have hsize : 0 < b.gridCellSizeM := by rwa [h.gridCellSizeM_eq hne]
    have hidx := h.indexed hsize
    refine ⟨hsize, fun hempty => hne ?_⟩
    have hgrid : b.grid = ∅ := AList.ext hempty
    rw [hgrid] at hidx
    exact List.map_eq_nil_iff.mp hidx.eq_nil_of_empty

/-- The path a delivery takes. -/
theorem Bus.recipients_eq (h : Bus range b filed) : b.recipients fromIdx fromPos =
    (if 0 < range ∧ filed ≠ [] then visit b.grid (cellBlock (cellKeyFor range fromPos) 1)
      else List.range b.participants.length).filterMap (b.accepts fromIdx fromPos) := by
  unfold recipients cellFor
  by_cases hgrid : 0 < range ∧ filed ≠ []
  · rw [if_pos (h.usesGrid_iff.mpr hgrid), if_pos hgrid, h.gridCellSizeM_eq hgrid.2]
  · rw [if_neg fun hc => hgrid (h.usesGrid_iff.mp hc), if_neg hgrid]

/-- The indices the delivery looks at are distinct, and `k` is one of them iff it was filed around
the sender. -/
theorem Bus.looked_at (h : Bus range b filed) (fromPos : PositionComponent ℚ) :
    (if 0 < range ∧ filed ≠ [] then visit b.grid (cellBlock (cellKeyFor range fromPos) 1)
      else List.range b.participants.length).Nodup ∧
    ∀ k < b.participants.length,
      k ∈ (if 0 < range ∧ filed ≠ [] then visit b.grid (cellBlock (cellKeyFor range fromPos) 1)
        else List.range b.participants.length) ↔ FiledAround range filed fromPos k := by
  split
  · next hgrid =>
    -- with a grid: the participants that are filed around the sender
    obtain ⟨hpos, hne⟩ := hgrid
    have hsize := h.gridCellSizeM_eq hne
    have hidx := h.indexed (hsize ▸ hpos)
    rw [hsize] at hidx
    refine ⟨hidx.nodup_visit (nodup_cellBlock _ (by norm_num)), fun k _ => ?_⟩
    rw [hidx.mem_visit]
    constructor
    · rintro ⟨key, hkey, hk⟩ - -
      rw [List.getElem?_map, Option.map_eq_some_iff] at hk
      obtain ⟨old, hold, rfl⟩ := hk
      exact ⟨old, hold, hkey⟩
    · intro hfiled
      obtain ⟨old, hold, hkey⟩ := hfiled hpos hne
      refine ⟨_, hkey, ?_⟩
      rw [List.getElem?_map, hold]
      rfl
  · next hscan =>
    -- without: all of them
    refine ⟨List.nodup_range, fun k hk => ?_⟩
    refine ⟨fun _ hpos hne => absurd ⟨hpos, hne⟩ hscan, fun _ => List.mem_range.mpr hk⟩

/-- A participant with a position is one of the participants. -/
theorem lt_of_position {k : ℕ} {pos : PositionComponent ℚ} (h : b.position k = some pos) :
    k < b.participants.length := by
  by_contra hge
  unfold position at h
  rw [List.getElem?_eq_none (not_lt.mp hge)] at h
  cases h

/-- **Who gets a copy**: one, if it passes the tests and was filed around the sender. -/
theorem Bus.count_eq_one (h : Bus range b filed) {k : ℕ} {pos : PositionComponent ℚ}
    (hk : k ≠ fromIdx) (hpos : b.position k = some pos)
    (hd : pos.distSq fromPos ≤ range * range) (hfiled : FiledAround range filed fromPos k) :
    (b.recipients fromIdx fromPos).count k = 1 := by
  obtain ⟨hnd, hmem⟩ := h.looked_at fromPos
  rw [h.recipients_eq, count_filterMap_accepts _ hnd, if_pos]
  refine ⟨(hmem k (lt_of_position hpos)).mpr hfiled, ?_⟩
  rw [accepts_eq_some, h.commRange_eq]
  exact ⟨rfl, hk, pos, hpos, hd⟩

/-- **Who gets none**: everybody else. -/
theorem Bus.count_eq_zero (h : Bus range b filed) {k : ℕ}
    (hnot : ∀ pos, k ≠ fromIdx → b.position k = some pos → pos.distSq fromPos ≤ range * range →
      ¬ FiledAround range filed fromPos k) :
    (b.recipients fromIdx fromPos).count k = 0 := by
  obtain ⟨hnd, hmem⟩ := h.looked_at fromPos
  rw [h.recipients_eq, count_filterMap_accepts _ hnd, if_neg]
  rintro ⟨hk, hacc⟩
  rw [accepts_eq_some, h.commRange_eq] at hacc
  obtain ⟨-, hne, pos, hpos, hd⟩ := hacc
  exact hnot pos hne hpos hd ((hmem k (lt_of_position hpos)).mp hk)

/-! ### When a delivery is exact -/

/-- A receipt that lengthens something is not the identity. -/
def Receipt (receive : Participant ℚ → Participant ℚ) : Prop :=
  ∀ p, receive p ≠ p

theorem receipt_beacon (sv : StateVector ℚ) : Receipt (Participant.receiveBeacon sv) := by
  intro p h
  have hlen := congrArg (fun p => p.inboundBeacons.length) h
  simp [Participant.receiveBeacon] at hlen

theorem receipt_message (msg : Message ℚ) : Receipt (Participant.receiveMessage msg) := by
  intro p h
  have hlen := congrArg (fun p => p.inboundMessages.length) h
  simp [Participant.receiveMessage] at hlen

/-- **The condition is exact.** -/
theorem Bus.deliversOnce_iff (h : Bus range b filed) {receive : Participant ℚ → Participant ℚ}
    (hrec : Receipt receive) :
    DeliversOnce b (b.updateAll receive (b.recipients fromIdx fromPos)) fromIdx fromPos receive ↔
      FiledNearby range b filed fromIdx fromPos := by
  have hcopy := fun k => b.updateAll_participants receive (b.recipients fromIdx fromPos) k
  constructor
  · intro hdel k pos hk hpos hd
    by_cases hfiled : FiledAround range filed fromPos k
    · refine ⟨?_, hfiled⟩
      -- `k` got a copy, so it has to be in reach
      by_contra hneg
      have hnot : ¬ InReach b fromIdx fromPos k := by
        rintro ⟨-, _, -, hr, -⟩
        rw [h.commRange_eq] at hr
        exact hneg hr
      have hsame := (hdel k).2 hnot
      rw [hcopy, h.count_eq_one hk hpos hd hfiled] at hsame
      have hlt := lt_of_position hpos
      rw [List.getElem?_eq_getElem hlt] at hsame
      exact hrec _ (Option.some.inj hsame)
    · -- `k` got none, so it must not be in reach
      exfalso
      have hnone : (b.recipients fromIdx fromPos).count k = 0 :=
        h.count_eq_zero fun _ _ _ _ => hfiled
      have hpos_range : 0 < range := by
        by_contra hle
        exact hfiled fun hlt => absurd hlt hle
      have hreach : InReach b fromIdx fromPos k := by
        refine ⟨hk, pos, hpos, ?_, ?_⟩
        · rw [h.commRange_eq]
          exact hpos_range.le
        · rw [h.commRange_eq]
          exact hd
      have hgot := (hdel k).1 hreach
      rw [hcopy, hnone] at hgot
      have hlt := lt_of_position hpos
      rw [List.getElem?_eq_getElem hlt] at hgot
      exact hrec _ (Option.some.inj hgot).symm
  · intro hnear k
    constructor
    · rintro ⟨hk, pos, hpos, -, hd⟩
      rw [h.commRange_eq] at hd
      rw [hcopy, h.count_eq_one hk hpos hd (hnear k pos hk hpos hd).2]
      rfl
    · intro hnot
      have hzero : (b.recipients fromIdx fromPos).count k = 0 := by
        refine h.count_eq_zero fun pos hk hpos hd _ => hnot ⟨hk, pos, hpos, ?_, ?_⟩
        · rw [h.commRange_eq]
          exact (hnear k pos hk hpos hd).1
        · rw [h.commRange_eq]
          exact hd
      rw [hcopy, hzero]
      exact Option.map_id_fun ▸ rfl

end SimBus

end MithAtomas
