import Mathlib

/-!
# Sequences that settle

A sequence settles within `n` changes when at most `n` of its terms differ from the one before and
it is constant from some point on. `settles_of_measure` is the rule for it: a number that drops with
every change, and does not rise otherwise, bounds the number of changes. `not_settles_of_recurrent`
is the rule against it.
-/

namespace Settling

variable {α : Type*} {x : ℕ → α}

/-- There are `n` changes at most, and none from some point on. -/
def Settles (x : ℕ → α) (n : ℕ) : Prop :=
  {k | x (k + 1) ≠ x k}.encard ≤ n ∧ ∃ K, ∀ k, K ≤ k → x k = x K

theorem Settles.mono {m n : ℕ} (h : Settles x m) (hmn : m ≤ n) : Settles x n :=
  ⟨h.1.trans (by exact_mod_cast hmn), h.2⟩

/-- No change from `K` on. -/
theorem constant_from {K : ℕ} (h : ∀ k, K ≤ k → x (k + 1) = x k) : ∀ k, K ≤ k → x k = x K := by
  intro k hk
  induction k, hk using Nat.le_induction with
  | base => rfl
  | succ k hk ih => rw [h k hk, ih]

/-- **The measure rule.** -/
theorem settles_of_measure (μ : α → ℕ) (hstep : ∀ k, x (k + 1) = x k ∨ μ (x (k + 1)) < μ (x k)) :
    Settles x (μ (x 0)) := by
  have hanti : Antitone fun k => μ (x k) := by
    refine antitone_nat_of_succ_le fun k => ?_
    rcases hstep k with hstay | hdrop
    · rw [hstay]
    · exact hdrop.le
  have hdrop : ∀ k ∈ {k | x (k + 1) ≠ x k}, μ (x (k + 1)) < μ (x k) :=
    fun k hk => (hstep k).resolve_left hk
  -- the measure takes a different value, between one and the first, at every change
  have hmaps : Set.MapsTo (fun k => μ (x k)) {k | x (k + 1) ≠ x k}
      (Finset.Icc 1 (μ (x 0)) : Finset ℕ) := by
    intro k hk
    rw [Finset.coe_Icc]
    exact ⟨Nat.one_le_of_lt (hdrop k hk), hanti (Nat.zero_le k)⟩
  have hinj : Set.InjOn (fun k => μ (x k)) {k | x (k + 1) ≠ x k} := by
    intro k hk l hl heq
    have heq : μ (x k) = μ (x l) := heq
    rcases lt_trichotomy k l with hlt | hkl | hgt
    · have hle : μ (x l) ≤ μ (x (k + 1)) := hanti (Nat.succ_le_of_lt hlt)
      have := hdrop k hk
      omega
    · exact hkl
    · have hle : μ (x k) ≤ μ (x (l + 1)) := hanti (Nat.succ_le_of_lt hgt)
      have := hdrop l hl
      omega
  have hcard : {k | x (k + 1) ≠ x k}.encard ≤ μ (x 0) := by
    refine (Set.encard_le_encard_of_injOn hmaps hinj).trans ?_
    rw [Set.encard_coe_eq_coe_finsetCard, Nat.card_Icc, Nat.add_sub_cancel]
  refine ⟨hcard, ?_⟩
  have hfinite : {k | x (k + 1) ≠ x k}.Finite :=
    Set.finite_of_encard_le_coe hcard
  obtain ⟨K, hK⟩ := hfinite.bddAbove
  refine ⟨K + 1, constant_from fun k hk => ?_⟩
  by_contra hchange
  have hle : k ≤ K := hK hchange
  omega

/-- A sequence that changes again and again does not settle. -/
theorem not_settles_of_recurrent (h : ∀ K, ∃ k, K ≤ k ∧ x (k + 1) ≠ x k) (n : ℕ) :
    ¬ Settles x n := by
  rintro ⟨-, K, hK⟩
  obtain ⟨k, hk, hchange⟩ := h K
  exact hchange ((hK (k + 1) (hk.trans k.le_succ)).trans (hK k hk).symm)

end Settling
