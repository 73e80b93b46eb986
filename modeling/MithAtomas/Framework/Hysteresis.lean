import Mathlib

/-!
# Hysteresis

A latch with two thresholds: inputs of one kind set it, inputs of another kind reset it, and all
others leave it as it is. `Latch.after_iff` reads the latch off the inputs so far, in the terms of
past-time logic: an input has set it, and none since then has reset it.

A register can be overridden by a latch (`Override`): it has another value while the latch is on,
and its own again afterwards, however often that happens (`Override.Keeps`).
-/

variable {α : Type*} {ρ : Type*}

/-- What sets a latch does not reset it. -/
structure Latch (α : Type*) where
  sets : α → Prop
  resets : α → Prop
  decidableSets : DecidablePred sets
  decidableResets : DecidablePred resets
  apart : ∀ a, sets a → ¬ resets a

attribute [instance] Latch.decidableSets Latch.decidableResets

namespace Latch

variable (latch : Latch α)

/-- The latch after one more input. -/
def next (on : Bool) (a : α) : Bool :=
  if on then decide (¬ latch.resets a) else decide (latch.sets a)

/-- The latch after the inputs `as`; it begins off. -/
def after (as : List α) : Bool :=
  as.foldl latch.next false

theorem after_concat (as : List α) (a : α) :
    latch.after (as ++ [a]) = latch.next (latch.after as) a :=
  List.foldl_concat ..

/-- An input has set the latch, and none since then has reset it. -/
def SetSince (as : List α) : Prop :=
  ∃ (k : ℕ) (a : α), as[k]? = some a ∧ latch.sets a ∧ ∀ (j : ℕ) b, k < j → as[j]? = some b →
    ¬ latch.resets b

variable {latch}

theorem not_setSince_nil : ¬ latch.SetSince [] := by
  rintro ⟨k, a, hk, -⟩
  cases hk

/-- An input that sets the latch is the last one to do so. -/
theorem setSince_concat_of_sets (as : List α) {a : α} (ha : latch.sets a) :
    latch.SetSince (as ++ [a]) := by
  refine ⟨as.length, a, List.getElem?_concat_length, ha, fun j b hj hb => ?_⟩
  rw [List.getElem?_eq_none (by simpa using hj)] at hb
  cases hb

/-- Any other input leaves the latch set, unless it resets it. -/
theorem setSince_concat (as : List α) {a : α} (ha : ¬ latch.sets a) :
    latch.SetSince (as ++ [a]) ↔ latch.SetSince as ∧ ¬ latch.resets a := by
  constructor
  · rintro ⟨k, b, hk, hb, hsince⟩
    -- what set the latch was not the last one
    have hlt : k < as.length := by
      rcases lt_trichotomy k as.length with hlt | rfl | hgt
      · exact hlt
      · rw [List.getElem?_concat_length] at hk
        exact absurd (Option.some.inj hk ▸ hb) ha
      · rw [List.getElem?_eq_none (by simpa using hgt)] at hk
        cases hk
    rw [List.getElem?_append_left hlt] at hk
    refine ⟨⟨k, b, hk, hb, fun j c hj hc => hsince j c hj ?_⟩, ?_⟩
    · rw [List.getElem?_append_left (List.getElem?_eq_some_iff.mp hc).1]
      exact hc
    · exact hsince as.length a hlt List.getElem?_concat_length
  · rintro ⟨⟨k, b, hk, hb, hsince⟩, hreset⟩
    have hlt : k < as.length := (List.getElem?_eq_some_iff.mp hk).1
    refine ⟨k, b, ?_, hb, fun j c hj hc => ?_⟩
    · rw [List.getElem?_append_left hlt]
      exact hk
    · rcases lt_trichotomy j as.length with hj' | rfl | hgt
      · rw [List.getElem?_append_left hj'] at hc
        exact hsince j c hj hc
      · rw [List.getElem?_concat_length] at hc
        exact Option.some.inj hc ▸ hreset
      · rw [List.getElem?_eq_none (by simpa using hgt)] at hc
        cases hc

/-- **When the latch is on.** -/
theorem after_iff (as : List α) : latch.after as = true ↔ latch.SetSince as := by
  induction as using List.reverseRecOn with
  | nil => exact iff_of_false Bool.noConfusion not_setSince_nil
  | append_singleton as a ih =>
    rw [after_concat]
    unfold next
    by_cases ha : latch.sets a
    · -- on, whether it was on before or not
      refine iff_of_true ?_ (setSince_concat_of_sets as ha)
      split
      · exact decide_eq_true (latch.apart a ha)
      · exact decide_eq_true ha
    · rw [setSince_concat as ha, ← ih]
      cases latch.after as with
      | true => simp
      | false => simp [ha]

end Latch

/-! ### A register that is overridden -/

/-- A register, and what it will be again when the latch goes off. -/
structure Override (ρ : Type*) where
  on : Bool
  value : ρ
  saved : ρ

namespace Override

/-- One more input of the latch; `override` is the value while it is on. -/
def next (latch : Latch α) (override : ρ) (r : Override ρ) (a : α) : Override ρ :=
  if r.on then if latch.resets a then { r with on := false, value := r.saved } else r
  else if latch.sets a then ⟨true, override, r.value⟩ else r

theorem on_next (latch : Latch α) (override : ρ) (r : Override ρ) (a : α) :
    (r.next latch override a).on = latch.next r.on a := by
  unfold next Latch.next
  cases hon : r.on with
  | true => by_cases ha : latch.resets a <;> simp [ha, hon]
  | false => by_cases ha : latch.sets a <;> simp [ha, hon]

/-- The register is overridden while the latch is on, and its own value is not lost. -/
structure Keeps (override original : ρ) (r : Override ρ) : Prop where
  value_on : r.on = true → r.value = override
  saved_on : r.on = true → r.saved = original
  value_off : r.on = false → r.value = original

theorem Keeps.next {latch : Latch α} {override original : ρ} {r : Override ρ}
    (h : r.Keeps override original) (a : α) :
    (r.next latch override a).Keeps override original := by
  unfold Override.next
  cases hon : r.on with
  | true =>
    rw [if_pos rfl]
    split
    · -- the latch goes off, and the register is what was saved
      exact ⟨Bool.noConfusion, Bool.noConfusion, fun _ => h.saved_on hon⟩
    · exact h
  | false =>
    rw [if_neg Bool.noConfusion]
    split
    · exact ⟨fun _ => rfl, fun _ => h.value_off hon, Bool.noConfusion⟩
    · exact h

end Override
