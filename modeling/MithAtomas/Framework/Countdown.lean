import Mathlib

/-!
# Countdowns and stopwatches

Two clocks that advance by `dt` in every round of a sequence, and that an event sets back. A
countdown starts anew from `W` and stops at zero (`remaining`); a stopwatch starts anew from zero
(`elapsed`). A round is `true` when it has the event, and what it does to a clock is all it does:
the clock does not advance in that round.

`Latest es m` says that round `m` is the last of `es` with the event. `remaining_pos_iff` and
`elapsed_eq` read the clocks off it.
-/

namespace Countdown

/-- Round `m` has the event, and none after it has. -/
def Latest (es : List Bool) (m : ℕ) : Prop :=
  es[m]? = some true ∧ ∀ n, m < n → es[n]? ≠ some true

section Latest

variable {es : List Bool} {e : Bool} {m n : ℕ}

theorem Latest.lt_length (h : Latest es m) : m < es.length :=
  (List.getElem?_eq_some_iff.mp h.1).1

theorem Latest.unique (h : Latest es m) (h' : Latest es n) : m = n := by
  rcases lt_trichotomy m n with hlt | heq | hgt
  · exact absurd h'.1 (h.2 n hlt)
  · exact heq
  · exact absurd h.1 (h'.2 m hgt)

/-- A last round with the event is the latest one. -/
theorem latest_concat_true (es : List Bool) : Latest (es ++ [true]) es.length := by
  refine ⟨by simp, fun n hn => ?_⟩
  rw [List.getElem?_eq_none (by simpa using hn)]
  exact Option.some_ne_none true |>.symm

/-- A last round without it changes nothing. -/
theorem latest_concat_false : Latest (es ++ [false]) m ↔ Latest es m := by
  have hsame : ∀ n : ℕ, (es ++ [false])[n]? = some true ↔ es[n]? = some true := by
    intro n
    rcases lt_trichotomy n es.length with hlt | heq | hgt
    · rw [List.getElem?_append_left hlt]
    · simp [heq]
    · rw [List.getElem?_eq_none (by simpa using hgt), List.getElem?_eq_none hgt.le]
  unfold Latest
  simp only [hsame, ne_eq]

end Latest

variable {K : Type*} [Field K] [LinearOrder K] [IsStrictOrderedRing K]

/-- What a round takes from a countdown. -/
def decay (dt x : K) : K :=
  if 0 < x then if x - dt < 0 then 0 else x - dt else x

/-- A countdown that has not begun, after the rounds `es`. -/
def remaining (W dt : K) (es : List Bool) : K :=
  es.foldl (fun x e => if e then W else decay dt x) 0

/-- A stopwatch, after the rounds `es`. -/
def elapsed (dt : K) (es : List Bool) : K :=
  es.foldl (fun t e => if e then 0 else t + dt) 0

omit [IsStrictOrderedRing K] in
theorem remaining_concat (W dt : K) (es : List Bool) (e : Bool) :
    remaining W dt (es ++ [e]) = if e then W else decay dt (remaining W dt es) :=
  List.foldl_concat ..

omit [LinearOrder K] [IsStrictOrderedRing K] in
theorem elapsed_concat (dt : K) (es : List Bool) (e : Bool) :
    elapsed dt (es ++ [e]) = if e then 0 else elapsed dt es + dt :=
  List.foldl_concat ..

/-- The decay of a countdown that began `k` rounds ago: at zero it stays there. -/
theorem decay_max {W dt : K} (hW : 0 < W) (k : ℕ) :
    decay dt (max (W - k * dt) 0) = max (W - (k + 1 : ℕ) * dt) 0 := by
  have hnext : W - ((k + 1 : ℕ) : K) * dt = W - k * dt - dt := by
    push_cast
    ring
  rw [hnext]
  unfold decay
  by_cases hpos : 0 < W - k * dt
  · rw [max_eq_left hpos.le, if_pos hpos]
    split
    · next hneg => rw [max_eq_right hneg.le]
    · next hge => rw [max_eq_left (not_lt.mp hge)]
  · -- time does not run backwards here, or there would be more than `W` left
    have hdt : 0 < dt := by
      by_contra hnot
      have : (k : K) * dt ≤ 0 := mul_nonpos_of_nonneg_of_nonpos k.cast_nonneg (not_lt.mp hnot)
      linarith
    rw [max_eq_right (not_lt.mp hpos), if_neg (lt_irrefl _), max_eq_right (by linarith)]

/-- **What is left of a countdown.** -/
theorem remaining_eq {W : K} (hW : 0 < W) (dt : K) (es : List Bool) :
    ((∀ m, ¬ Latest es m) ∧ remaining W dt es = 0) ∨
      ∃ m k, Latest es m ∧ m + k + 1 = es.length ∧ remaining W dt es = max (W - k * dt) 0 := by
  induction es using List.reverseRecOn with
  | nil => exact .inl ⟨fun m h => absurd h.lt_length (Nat.not_lt_zero m), rfl⟩
  | append_singleton es e ih =>
    rw [remaining_concat]
    cases e with
    | true => exact .inr ⟨es.length, 0, latest_concat_true es, by simp, by simp [hW.le]⟩
    | false =>
      rcases ih with ⟨hnone, hzero⟩ | ⟨m, k, hm, hk, hleft⟩
      · refine .inl ⟨fun m h => hnone m (latest_concat_false.mp h), ?_⟩
        simp [hzero, decay]
      · refine .inr ⟨m, k + 1, latest_concat_false.mpr hm, by simp; omega, ?_⟩
        simp only [Bool.false_eq_true, if_false, hleft]
        exact decay_max hW k

/-- **When a countdown is running**: its latest event is less than `W` ago. -/
theorem remaining_pos_iff {W dt : K} (hW : 0 < W) (es : List Bool) :
    0 < remaining W dt es ↔ ∃ m, Latest es m ∧ ((es.length : K) - (m + 1)) * dt < W := by
  have hago : ∀ {m k : ℕ}, m + k + 1 = es.length → (es.length : K) - (m + 1) = k := by
    intro m k hk
    rw [← hk]
    push_cast
    ring
  rcases remaining_eq hW dt es with ⟨hnone, hzero⟩ | ⟨m, k, hm, hk, hleft⟩
  · rw [hzero]
    exact iff_of_false (lt_irrefl _) fun ⟨m, hm, _⟩ => hnone m hm
  · rw [hleft, lt_max_iff, or_iff_left (lt_irrefl _), sub_pos]
    constructor
    · intro hlt
      exact ⟨m, hm, by rwa [hago hk]⟩
    · rintro ⟨n, hn, hlt⟩
      rwa [hn.unique hm, hago hk] at hlt

omit [LinearOrder K] [IsStrictOrderedRing K] in
/-- **What a stopwatch shows**: the time since the latest event. -/
theorem elapsed_eq (dt : K) {es : List Bool} {m : ℕ} (h : Latest es m) :
    elapsed dt es = ((es.length : K) - (m + 1)) * dt := by
  induction es using List.reverseRecOn with
  | nil => exact absurd h.lt_length (Nat.not_lt_zero m)
  | append_singleton es e ih =>
    rw [elapsed_concat]
    cases e with
    | true => simp [h.unique (latest_concat_true es)]
    | false =>
      rw [if_neg Bool.false_ne_true, ih (latest_concat_false.mp h), List.length_append,
        List.length_singleton]
      push_cast
      ring

end Countdown
