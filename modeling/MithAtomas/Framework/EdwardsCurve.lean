import Mathlib

/-!
# Edwards curves

The points of `y² - x² = 1 + d x² y²` over a field in which `-1` is a square and `d` is not. Then
the denominators of the addition law are never zero (`add_denominators`), so that one formula adds
any two points, equal or not, and the points are a commutative group.

`Extended` is the curve in four coordinates, where addition divides by nothing. `Represents.add`
says that its formula adds the points that the coordinates stand for.
-/

namespace EdwardsCurve

variable {K : Type*} [Field K]

-- Numerals take this instance, whichever others a larger build has.
scoped instance (priority := high) neZeroNumeral (k : ℕ) : NeZero (k + 1) := ⟨k.succ_ne_zero⟩

/-- A curve `y² - x² = 1 + d x² y²`, with what makes its addition complete. -/
structure Curve (K : Type*) [Field K] where
  d : K
  two_ne_zero : (2 : K) ≠ 0
  isSquare_neg_one : IsSquare (-1 : K)
  not_isSquare_d : ¬ IsSquare d

namespace Curve

def OnCurve (E : Curve K) (x y : K) : Prop :=
  y ^ 2 - x ^ 2 = 1 + E.d * x ^ 2 * y ^ 2

variable {E : Curve K} {x₁ y₁ x₂ y₂ x₃ y₃ : K}

/-- **The product of the coordinates** of two points never makes a denominator vanish. If it did,
`d` would be the square of a quotient that a square root of `-1` gives. -/
theorem add_denominators (h₁ : E.OnCurve x₁ y₁) (h₂ : E.OnCurve x₂ y₂) {ε : K} (hε : ε ^ 2 = 1) :
    E.d * (x₁ * x₂ * y₁ * y₂) ≠ ε := by
  intro h
  obtain ⟨i, hi⟩ := E.isSquare_neg_one
  have hε0 : ε ≠ 0 := by
    rintro rfl
    simp at hε
  -- none of the coordinates is zero
  have hprod : x₁ * x₂ * y₁ * y₂ ≠ 0 := right_ne_zero_of_mul (h ▸ hε0)
  have hxy : x₁ * y₁ ≠ 0 := by
    intro h0
    exact hprod (by linear_combination x₂ * y₂ * h0)
  have hx₂ : x₂ ≠ 0 := by
    rintro rfl
    simp at hprod
  unfold OnCurve at h₁ h₂
  have hplus : (i * x₁ + ε * y₁) ^ 2 = E.d * (x₁ * y₁ * (i * x₂ + y₂)) ^ 2 := by
    linear_combination h₁ - (x₁ ^ 2 - E.d * x₁ ^ 2 * y₁ ^ 2 * x₂ ^ 2) * hi + (y₁ ^ 2 - 1) * hε -
      E.d * x₁ ^ 2 * y₁ ^ 2 * h₂ - 2 * i * x₁ * y₁ * h - (E.d * (x₁ * x₂ * y₁ * y₂) + ε) * h
  have hminus : (i * x₁ - ε * y₁) ^ 2 = E.d * (x₁ * y₁ * (i * x₂ - y₂)) ^ 2 := by
    linear_combination h₁ - (x₁ ^ 2 - E.d * x₁ ^ 2 * y₁ ^ 2 * x₂ ^ 2) * hi + (y₁ ^ 2 - 1) * hε -
      E.d * x₁ ^ 2 * y₁ ^ 2 * h₂ + 2 * i * x₁ * y₁ * h - (E.d * (x₁ * x₂ * y₁ * y₂) + ε) * h
  -- so `d` is a square, whichever of the two factors is not zero
  have hsquare : ∀ a b : K, b ≠ 0 → a ^ 2 = E.d * b ^ 2 → False := by
    intro a b hb hab
    refine E.not_isSquare_d ⟨a / b, ?_⟩
    rw [div_mul_div_comm, eq_div_iff (mul_ne_zero hb hb)]
    linear_combination -hab
  by_cases h0 : i * x₂ + y₂ = 0
  · refine hsquare _ _ (mul_ne_zero hxy fun h0' => ?_) hminus
    have htwo : 2 * (i * x₂) = 0 := by linear_combination h0 + h0'
    have hix : i * x₂ ≠ 0 := by
      refine mul_ne_zero ?_ hx₂
      rintro rfl
      simp at hi
    exact mul_ne_zero E.two_ne_zero hix htwo
  · exact hsquare _ _ (mul_ne_zero hxy h0) hplus

theorem one_add_ne_zero (h₁ : E.OnCurve x₁ y₁) (h₂ : E.OnCurve x₂ y₂) :
    1 + E.d * (x₁ * x₂ * y₁ * y₂) ≠ 0 := by
  intro h
  refine add_denominators h₁ h₂ (ε := -1) (by ring) ?_
  linear_combination h

theorem one_sub_ne_zero (h₁ : E.OnCurve x₁ y₁) (h₂ : E.OnCurve x₂ y₂) :
    1 - E.d * (x₁ * x₂ * y₁ * y₂) ≠ 0 := by
  intro h
  refine add_denominators h₁ h₂ (ε := 1) (by ring) ?_
  linear_combination -h

/-- `1 + d y²` is not zero for any `y`, as `-d` is not a square either. -/
theorem one_add_mul_sq_ne_zero (E : Curve K) (y : K) : 1 + E.d * y ^ 2 ≠ 0 := by
  intro h
  obtain ⟨i, hi⟩ := E.isSquare_neg_one
  have hy : y ≠ 0 := by
    rintro rfl
    simp at h
  refine E.not_isSquare_d ⟨i / y, ?_⟩
  rw [div_mul_div_comm, ← hi, eq_div_iff (mul_ne_zero hy hy)]
  linear_combination h

end Curve

/-! ### The group -/

@[ext]
structure Point (E : Curve K) where
  x : K
  y : K
  on_curve : E.OnCurve x y

namespace Point

variable {E : Curve K}

/-- **The sum is on the curve.** -/
theorem add_on_curve (P Q : Point E) :
    E.OnCurve ((P.x * Q.y + P.y * Q.x) / (1 + E.d * (P.x * Q.x * P.y * Q.y)))
      ((P.y * Q.y + P.x * Q.x) / (1 - E.d * (P.x * Q.x * P.y * Q.y))) := by
  obtain ⟨x₁, y₁, h₁⟩ := P
  obtain ⟨x₂, y₂, h₂⟩ := Q
  have hplus := Curve.one_add_ne_zero h₁ h₂
  have hminus := Curve.one_sub_ne_zero h₁ h₂
  unfold Curve.OnCurve at h₁ h₂ ⊢
  simp only
  rw [div_pow, div_pow]
  generalize hp : 1 + E.d * (x₁ * x₂ * y₁ * y₂) = p at hplus
  generalize hm : 1 - E.d * (x₁ * x₂ * y₁ * y₂) = m at hminus
  field_simp
  subst hp hm
  grind

instance : Add (Point E) where
  add P Q := ⟨_, _, add_on_curve P Q⟩

instance : Zero (Point E) where
  zero := ⟨0, 1, by unfold Curve.OnCurve; ring⟩

instance : Neg (Point E) where
  neg P := ⟨-P.x, P.y, by
    have h := P.on_curve
    unfold Curve.OnCurve at h ⊢
    linear_combination h⟩

@[simp] theorem zero_x : (0 : Point E).x = 0 := rfl

@[simp] theorem zero_y : (0 : Point E).y = 1 := rfl

@[simp] theorem neg_x (P : Point E) : (-P).x = -P.x := rfl

@[simp] theorem neg_y (P : Point E) : (-P).y = P.y := rfl

theorem add_x (P Q : Point E) :
    (P + Q).x = (P.x * Q.y + P.y * Q.x) / (1 + E.d * (P.x * Q.x * P.y * Q.y)) := rfl

theorem add_y (P Q : Point E) :
    (P + Q).y = (P.y * Q.y + P.x * Q.x) / (1 - E.d * (P.x * Q.x * P.y * Q.y)) := rfl

/-- The denominators of a sum of three, cleared of those of the first two. -/
private theorem cleared_ne_zero (P Q R : Point E) :
    let m := E.d * (P.x * Q.x * P.y * Q.y)
    let n := E.d * ((P.x * Q.y + P.y * Q.x) * (P.y * Q.y + P.x * Q.x) * R.x * R.y)
    (1 + m) * (1 - m) + n ≠ 0 ∧ (1 + m) * (1 - m) - n ≠ 0 := by
  intro m n
  have hplus : 1 + m ≠ 0 := Curve.one_add_ne_zero P.on_curve Q.on_curve
  have hminus : 1 - m ≠ 0 := Curve.one_sub_ne_zero P.on_curve Q.on_curve
  have hx : (P + Q).x * (1 + m) = P.x * Q.y + P.y * Q.x := by
    rw [add_x, div_mul_cancel₀ _ hplus]
  have hy : (P + Q).y * (1 - m) = P.y * Q.y + P.x * Q.x := by
    rw [add_y, div_mul_cancel₀ _ hminus]
  have hn : n = E.d * ((P + Q).x * R.x * (P + Q).y * R.y) * ((1 + m) * (1 - m)) := by
    show E.d * ((P.x * Q.y + P.y * Q.x) * (P.y * Q.y + P.x * Q.x) * R.x * R.y) = _
    rw [← hx, ← hy]
    ring
  constructor
  · have h := mul_ne_zero (mul_ne_zero hplus hminus)
      (Curve.one_add_ne_zero (P + Q).on_curve R.on_curve)
    intro h0
    exact h (by rw [← h0, hn]; ring)
  · have h := mul_ne_zero (mul_ne_zero hplus hminus)
      (Curve.one_sub_ne_zero (P + Q).on_curve R.on_curve)
    intro h0
    exact h (by rw [← h0, hn]; ring)

private theorem add_add_x (P Q R : Point E) :
    let m := E.d * (P.x * Q.x * P.y * Q.y)
    let n := E.d * ((P.x * Q.y + P.y * Q.x) * (P.y * Q.y + P.x * Q.x) * R.x * R.y)
    (P + Q + R).x = ((P.x * Q.y + P.y * Q.x) * (1 - m) * R.y +
      (P.y * Q.y + P.x * Q.x) * (1 + m) * R.x) / ((1 + m) * (1 - m) + n) := by
  intro m n
  have hplus : 1 + m ≠ 0 := Curve.one_add_ne_zero P.on_curve Q.on_curve
  have hminus : 1 - m ≠ 0 := Curve.one_sub_ne_zero P.on_curve Q.on_curve
  rw [add_x (P + Q) R, div_eq_div_iff (Curve.one_add_ne_zero (P + Q).on_curve R.on_curve)
    (cleared_ne_zero P Q R).1]
  have hx : (P + Q).x * (1 + m) = P.x * Q.y + P.y * Q.x := by
    rw [add_x, div_mul_cancel₀ _ hplus]
  have hy : (P + Q).y * (1 - m) = P.y * Q.y + P.x * Q.x := by
    rw [add_y, div_mul_cancel₀ _ hminus]
  show ((P + Q).x * R.y + (P + Q).y * R.x) * ((1 + m) * (1 - m) +
    E.d * ((P.x * Q.y + P.y * Q.x) * (P.y * Q.y + P.x * Q.x) * R.x * R.y)) = _
  rw [← hx, ← hy]
  ring

private theorem add_add_y (P Q R : Point E) :
    let m := E.d * (P.x * Q.x * P.y * Q.y)
    let n := E.d * ((P.x * Q.y + P.y * Q.x) * (P.y * Q.y + P.x * Q.x) * R.x * R.y)
    (P + Q + R).y = ((P.y * Q.y + P.x * Q.x) * (1 + m) * R.y +
      (P.x * Q.y + P.y * Q.x) * (1 - m) * R.x) / ((1 + m) * (1 - m) - n) := by
  intro m n
  have hplus : 1 + m ≠ 0 := Curve.one_add_ne_zero P.on_curve Q.on_curve
  have hminus : 1 - m ≠ 0 := Curve.one_sub_ne_zero P.on_curve Q.on_curve
  rw [add_y (P + Q) R, div_eq_div_iff (Curve.one_sub_ne_zero (P + Q).on_curve R.on_curve)
    (cleared_ne_zero P Q R).2]
  have hx : (P + Q).x * (1 + m) = P.x * Q.y + P.y * Q.x := by
    rw [add_x, div_mul_cancel₀ _ hplus]
  have hy : (P + Q).y * (1 - m) = P.y * Q.y + P.x * Q.x := by
    rw [add_y, div_mul_cancel₀ _ hminus]
  show ((P + Q).y * R.y + (P + Q).x * R.x) * ((1 + m) * (1 - m) -
    E.d * ((P.x * Q.y + P.y * Q.x) * (P.y * Q.y + P.x * Q.x) * R.x * R.y)) = _
  rw [← hx, ← hy]
  ring

protected theorem add_comm (P Q : Point E) : P + Q = Q + P := by
  ext
  · rw [add_x, add_x]
    congr 1 <;> ring
  · rw [add_y, add_y]
    congr 1 <;> ring

/-- **Addition is associative.** Both sides have the same cleared fractions on the curve. -/
protected theorem add_assoc (P Q R : Point E) : P + Q + R = P + (Q + R) := by
  have hP := P.on_curve
  have hQ := Q.on_curve
  have hR := R.on_curve
  unfold Curve.OnCurve at hP hQ hR
  rw [P.add_comm (Q + R)]
  ext
  · rw [add_add_x, add_add_x, div_eq_div_iff (cleared_ne_zero P Q R).1 (cleared_ne_zero Q R P).1]
    grind
  · rw [add_add_y, add_add_y, div_eq_div_iff (cleared_ne_zero P Q R).2 (cleared_ne_zero Q R P).2]
    grind

protected theorem zero_add (P : Point E) : 0 + P = P := by
  ext
  · rw [add_x]
    simp
  · rw [add_y]
    simp

protected theorem neg_add_cancel (P : Point E) : -P + P = 0 := by
  have h := P.on_curve
  unfold Curve.OnCurve at h
  ext
  · rw [add_x, neg_x, neg_y, zero_x, div_eq_zero_iff]
    left
    ring
  · have hminus := Curve.one_sub_ne_zero (-P).on_curve P.on_curve
    rw [neg_x, neg_y] at hminus
    rw [add_y, neg_x, neg_y, zero_y, div_eq_one_iff_eq hminus]
    linear_combination h

instance : AddCommGroup (Point E) where
  add_assoc := Point.add_assoc
  zero_add := Point.zero_add
  add_zero P := by rw [Point.add_comm, Point.zero_add]
  nsmul := nsmulRec
  zsmul := zsmulRec
  neg_add_cancel := Point.neg_add_cancel
  add_comm := Point.add_comm

/-- **Two points of one height** are equal or opposite. -/
theorem eq_or_eq_neg_of_y_eq {P Q : Point E} (h : P.y = Q.y) : P = Q ∨ P = -Q := by
  have hP := P.on_curve
  have hQ := Q.on_curve
  unfold Curve.OnCurve at hP hQ
  rw [← h] at hQ
  have hsq : P.x ^ 2 = Q.x ^ 2 := by
    refine mul_right_cancel₀ (Curve.one_add_mul_sq_ne_zero E P.y) ?_
    linear_combination hQ - hP
  rcases sq_eq_sq_iff_eq_or_eq_neg.mp hsq with hx | hx
  · exact Or.inl (Point.ext hx h)
  · exact Or.inr (Point.ext hx h)

end Point

/-! ### Four coordinates -/

/-- Extended coordinates. -/
@[ext]
structure Extended (K : Type*) where
  X : K
  Y : K
  Z : K
  T : K

/-- The coordinates stand for a point. -/
structure Represents {E : Curve K} (p : Extended K) (P : Point E) : Prop where
  z_ne_zero : p.Z ≠ 0
  x_eq : p.X = P.x * p.Z
  y_eq : p.Y = P.y * p.Z
  t_eq : p.T = P.x * P.y * p.Z

/-- The unified addition, with `k` for `2 d`. -/
def Extended.add {R : Type*} [Add R] [Sub R] [Mul R] (k : R) (p q : Extended R) : Extended R :=
  let a := (p.Y - p.X) * (q.Y - q.X)
  let b := (p.X + p.Y) * (q.X + q.Y)
  let c := p.T * q.T * k
  let d := p.Z * q.Z + p.Z * q.Z
  let e := b - a
  let f := d - c
  let g := d + c
  let h := b + a
  ⟨e * f, h * g, g * f, e * h⟩

section Represents

variable {E : Curve K} {p q : Extended K} {P Q : Point E}

theorem represents_zero : Represents ⟨0, 1, 1, 0⟩ (0 : Point E) where
  z_ne_zero := one_ne_zero
  x_eq := by simp
  y_eq := by simp
  t_eq := by simp

theorem represents_affine (P : Point E) : Represents ⟨P.x, P.y, 1, P.x * P.y⟩ P where
  z_ne_zero := one_ne_zero
  x_eq := by simp
  y_eq := by simp
  t_eq := by simp

/-- The third coordinate and the point give the others. -/
theorem Represents.eq_mk (h : Represents p P) :
    p = ⟨P.x * p.Z, P.y * p.Z, p.Z, P.x * P.y * p.Z⟩ :=
  Extended.ext h.x_eq h.y_eq rfl h.t_eq

/-- **The unified addition** adds any two points. -/
theorem Represents.add (hp : Represents p P) (hq : Represents q Q) :
    Represents (Extended.add (2 * E.d) p q) (P + Q) := by
  have hZ₁ := hp.z_ne_zero
  have hZ₂ := hq.z_ne_zero
  rw [hp.eq_mk, hq.eq_mk]
  generalize p.Z = Z₁ at hZ₁
  generalize q.Z = Z₂ at hZ₂
  have hplus := Curve.one_add_ne_zero P.on_curve Q.on_curve
  have hminus := Curve.one_sub_ne_zero P.on_curve Q.on_curve
  have hx : (P + Q).x * (1 + E.d * (P.x * Q.x * P.y * Q.y)) = P.x * Q.y + P.y * Q.x := by
    rw [Point.add_x, div_mul_cancel₀ _ hplus]
  have hy : (P + Q).y * (1 - E.d * (P.x * Q.x * P.y * Q.y)) = P.y * Q.y + P.x * Q.x := by
    rw [Point.add_y, div_mul_cancel₀ _ hminus]
  -- the third coordinate is the product of the denominators, up to a square
  have hz : (Extended.add (2 * E.d) ⟨P.x * Z₁, P.y * Z₁, Z₁, P.x * P.y * Z₁⟩
      ⟨Q.x * Z₂, Q.y * Z₂, Z₂, Q.x * Q.y * Z₂⟩).Z =
        (2 * (Z₁ * Z₂)) ^ 2 * ((1 + E.d * (P.x * Q.x * P.y * Q.y)) *
          (1 - E.d * (P.x * Q.x * P.y * Q.y))) := by
    simp only [Extended.add]
    ring
  refine ⟨?_, ?_, ?_, ?_⟩
  · rw [hz]
    exact mul_ne_zero (pow_ne_zero 2 (mul_ne_zero E.two_ne_zero (mul_ne_zero hZ₁ hZ₂)))
      (mul_ne_zero hplus hminus)
  · rw [hz]
    simp only [Extended.add]
    linear_combination -(2 * (Z₁ * Z₂)) ^ 2 * (1 - E.d * (P.x * Q.x * P.y * Q.y)) * hx
  · rw [hz]
    simp only [Extended.add]
    linear_combination -(2 * (Z₁ * Z₂)) ^ 2 * (1 + E.d * (P.x * Q.x * P.y * Q.y)) * hy
  · rw [hz]
    simp only [Extended.add]
    rw [show (P + Q).x * (P + Q).y * ((2 * (Z₁ * Z₂)) ^ 2 *
        ((1 + E.d * (P.x * Q.x * P.y * Q.y)) * (1 - E.d * (P.x * Q.x * P.y * Q.y)))) =
      (2 * (Z₁ * Z₂)) ^ 2 * ((P + Q).x * (1 + E.d * (P.x * Q.x * P.y * Q.y))) *
        ((P + Q).y * (1 - E.d * (P.x * Q.x * P.y * Q.y))) by ring, hx, hy]
    ring

theorem Represents.eq_zero (h : Represents p P) (hx : p.X = 0) (hyz : p.Y = p.Z) : P = 0 := by
  ext
  · exact (mul_eq_zero.mp (h.x_eq.symm.trans hx)).resolve_right h.z_ne_zero
  · exact mul_right_cancel₀ h.z_ne_zero ((h.y_eq.symm.trans hyz).trans (one_mul _).symm)

/-- One point only for the coordinates. -/
theorem Represents.unique (hP : Represents p P) (hQ : Represents p Q) : P = Q := by
  ext
  · exact mul_right_cancel₀ hP.z_ne_zero (hP.x_eq.symm.trans hQ.x_eq)
  · exact mul_right_cancel₀ hP.z_ne_zero (hP.y_eq.symm.trans hQ.y_eq)

end Represents

/-! ### Multiples modulo a prime -/

namespace Extended

def map {R S : Type*} (f : R → S) (p : Extended R) : Extended S :=
  ⟨f p.X, f p.Y, f p.Z, f p.T⟩

/-- The multiple `n` of `p` modulo `m`, for an `n` of `bits` bits. -/
def nsmulMod (m k : ℤ) (p : Extended ℤ) : ℕ → ℕ → Extended ℤ
  | 0, _ => ⟨0, 1, 1, 0⟩
  | bits + 1, n =>
    let q := nsmulMod m k p bits (n / 2)
    let q := (add k q q).map (· % m)
    if n % 2 = 1 then (add k q p).map (· % m) else q

theorem cast_add {m : ℕ} (k : ℤ) (p q : Extended ℤ) :
    ((add k p q).map (· % (m : ℤ))).map (Int.cast : ℤ → ZMod m) =
      add (k : ZMod m) (p.map Int.cast) (q.map Int.cast) := by
  simp only [map, add, ZMod.intCast_mod]
  push_cast
  rfl

/-- **The multiple**, by doubling and adding, stands for the multiple of the point. -/
theorem represents_nsmulMod {m : ℕ} [Fact m.Prime] {E : Curve (ZMod m)} {k : ℤ}
    (hk : (k : ZMod m) = 2 * E.d) {p : Extended ℤ} {P : Point E}
    (h : Represents (p.map Int.cast) P) {bits n : ℕ} (hn : n < 2 ^ bits) :
    Represents ((nsmulMod m k p bits n).map Int.cast) (n • P) := by
  induction bits generalizing n with
  | zero =>
    obtain rfl : n = 0 := by simpa using hn
    rw [zero_nsmul]
    simpa [nsmulMod, map] using represents_zero (E := E)
  | succ bits ih =>
    have hhalf := ih (n := n / 2) (by rw [pow_succ] at hn; omega)
    have hdouble : Represents ((add k (nsmulMod m k p bits (n / 2))
        (nsmulMod m k p bits (n / 2))).map (· % (m : ℤ)) |>.map Int.cast)
          ((2 * (n / 2)) • P) := by
      rw [cast_add, hk, mul_nsmul, two_nsmul, nsmul_add]
      exact hhalf.add hhalf
    have hdiv := Nat.div_add_mod n 2
    rw [nsmulMod]
    split
    · next hodd =>
      have hsum : n • P = (2 * (n / 2)) • P + P := by
        conv_lhs => rw [← hdiv, hodd, add_nsmul, one_nsmul]
      rw [cast_add, hk, hsum]
      exact hdouble.add h
    · next heven =>
      rw [show 2 * (n / 2) = n by omega] at hdouble
      exact hdouble

end Extended

end EdwardsCurve
