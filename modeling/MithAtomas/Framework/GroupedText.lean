import Mathlib

/-!
# Text in groups

Text that consists of groups of given lengths with a separator between them, as identifiers are
often printed. `Grouped` builds it up group by group; `grouped_iff` says the same position by
position, which is how a parser with a table of offsets reads it.
-/

namespace GroupedText

variable {A : Type}

/-- Groups of the lengths `ns`, of characters that satisfy `P`, with `sep` between them. -/
def Grouped (sep : A) (P : A → Prop) : List ℕ → List A → Prop
  | [], s => s = []
  | [n], s => s.length = n ∧ ∀ a ∈ s, P a
  | n :: m :: ns, s => ∃ g rest, s = g ++ sep :: rest ∧ g.length = n ∧ (∀ a ∈ g, P a) ∧
      Grouped sep P (m :: ns) rest

/-- The length of such a text. -/
def total : List ℕ → ℕ
  | [] => 0
  | [n] => n
  | n :: m :: ns => n + 1 + total (m :: ns)

/-- The positions of the separators. -/
def separators : List ℕ → List ℕ
  | [] => []
  | [_] => []
  | n :: m :: ns => n :: (separators (m :: ns)).map (n + 1 + ·)

variable {sep : A} {P : A → Prop}

/-- Behind the first group and its separator. -/
theorem add_mem_separators {n m i : ℕ} {ns : List ℕ} :
    n + 1 + i ∈ separators (n :: m :: ns) ↔ i ∈ separators (m :: ns) := by
  rw [separators, List.mem_cons, List.mem_map]
  constructor
  · rintro (h | ⟨j, hj, h⟩)
    · omega
    · obtain rfl : j = i := by omega
      exact hj
  · exact fun h => .inr ⟨i, h, rfl⟩

/-- No separator in the first group. -/
theorem not_mem_separators_of_lt {n m i : ℕ} {ns : List ℕ} (h : i < n) :
    i ∉ separators (n :: m :: ns) := by
  rw [separators, List.mem_cons, List.mem_map]
  rintro (rfl | ⟨j, -, rfl⟩) <;> omega

/-- Such a text has nothing but separators and characters of the groups. -/
theorem Grouped.eq_or_of_mem {ns : List ℕ} {s : List A} (h : Grouped sep P ns s) {a : A}
    (ha : a ∈ s) : a = sep ∨ P a := by
  induction ns generalizing s with
  | nil =>
    obtain rfl : s = [] := h
    cases ha
  | cons n ns ih =>
    cases ns with
    | nil => exact .inr (h.2 a ha)
    | cons m ns =>
      obtain ⟨g, rest, rfl, -, hg, hrest⟩ := h
      rcases List.mem_append.mp ha with ha | ha
      · exact .inr (hg a ha)
      · rcases List.mem_cons.mp ha with rfl | ha
        · exact .inl rfl
        · exact ih hrest ha

/-- Position by position, when the first group and its separator are known. -/
theorem positions_iff {m : ℕ} {ns : List ℕ} {g rest : List A} {c : A} :
    (∀ i a, (g ++ c :: rest)[i]? = some a →
        if i ∈ separators (g.length :: m :: ns) then a = sep else P a) ↔
      c = sep ∧ (∀ a ∈ g, P a) ∧
        ∀ i a, rest[i]? = some a → if i ∈ separators (m :: ns) then a = sep else P a := by
  have hhead : g.length ∈ separators (g.length :: m :: ns) := by
    rw [separators]
    exact List.mem_cons_self
  constructor
  · intro h
    -- at the separator, before it, and behind it
    refine ⟨?_, fun a ha => ?_, fun i a hi => ?_⟩
    · have hc := h g.length c (by rw [List.getElem?_append_right le_rfl, Nat.sub_self]; rfl)
      rwa [if_pos hhead] at hc
    · obtain ⟨i, hi⟩ := List.mem_iff_getElem?.mp ha
      have hlt : i < g.length := (List.getElem?_eq_some_iff.mp hi).1
      have hP := h i a (by rwa [List.getElem?_append_left hlt])
      rwa [if_neg (not_mem_separators_of_lt hlt)] at hP
    · have hrest := h (g.length + 1 + i) a (by
        rw [List.getElem?_append_right (by omega),
          show g.length + 1 + i - g.length = i + 1 by omega, List.getElem?_cons_succ]
        exact hi)
      simpa only [add_mem_separators] using hrest
  · rintro ⟨rfl, hg, hrest⟩ i a hi
    rcases lt_trichotomy i g.length with hlt | rfl | hgt
    · rw [List.getElem?_append_left hlt] at hi
      rw [if_neg (not_mem_separators_of_lt hlt)]
      exact hg a (List.mem_of_getElem? hi)
    · rw [List.getElem?_append_right le_rfl, Nat.sub_self] at hi
      rw [if_pos hhead]
      exact (Option.some.inj hi).symm
    · obtain ⟨j, rfl⟩ : ∃ j, i = g.length + 1 + j := Nat.exists_eq_add_of_le hgt
      rw [List.getElem?_append_right (by omega),
        show g.length + 1 + j - g.length = j + 1 by omega, List.getElem?_cons_succ] at hi
      simp only [add_mem_separators]
      exact hrest j a hi

/-- **Position by position**: separators where they belong, and characters of the groups
elsewhere. -/
theorem grouped_iff {ns : List ℕ} {s : List A} : Grouped sep P ns s ↔
    s.length = total ns ∧ ∀ i a, s[i]? = some a → if i ∈ separators ns then a = sep else P a := by
  -- on the groups; a text with a second group is cut behind the first one
  induction ns generalizing s with
  | nil =>
    show s = [] ↔ s.length = 0 ∧ _
    rw [List.length_eq_zero_iff]
    refine ⟨?_, And.left⟩
    rintro rfl
    exact ⟨rfl, by rintro i a ⟨⟩⟩
  | cons n ns ih =>
    cases ns with
    | nil =>
      -- one group has no separator
      refine and_congr_right fun _ => ?_
      have hnone : ∀ i, i ∉ separators [n] := fun i => List.not_mem_nil
      simp only [if_neg (hnone _), List.mem_iff_getElem?]
      exact ⟨fun h i a hi => h a ⟨i, hi⟩, fun h a ⟨i, hi⟩ => h i a hi⟩
    | cons m ns =>
      rw [Grouped]
      constructor
      · rintro ⟨g, rest, rfl, rfl, hg, hrest⟩
        obtain ⟨hlength, hpos⟩ := ih.mp hrest
        refine ⟨?_, positions_iff.mpr ⟨rfl, hg, hpos⟩⟩
        rw [List.length_append, List.length_cons, hlength, total]
        omega
      · rintro ⟨hlength, hpos⟩
        rw [total] at hlength
        -- cut behind the first group
        obtain ⟨g, c, rest, rfl, rfl⟩ : ∃ g c rest, s = g ++ c :: rest ∧ g.length = n := by
          have hn : n < s.length := by omega
          refine ⟨s.take n, s[n], s.drop (n + 1), ?_, List.length_take_of_le hn.le⟩
          rw [List.getElem_cons_drop, List.take_append_drop]
        obtain ⟨rfl, hg, hrest⟩ := positions_iff.mp hpos
        rw [List.length_append, List.length_cons] at hlength
        exact ⟨g, rest, rfl, rfl, hg, ih.mpr ⟨by omega, hrest⟩⟩

end GroupedText
