import Mathlib

/-!
# Fixed-width byte codecs

A `Codec A` writes a value as a fixed number of bytes and reads it back from the front of a byte
string. It carries its laws: `put` has the stated width, reading what was written gives the value
back whatever follows (`get_put`), and writing what was read gives the bytes back (`put_get`).

The codecs here are the ones wire formats are made of: little-endian integers of two and four bytes
(`u16`, `u32`; of eight, without a codec, `putU64`), a single byte and a fixed number of raw bytes.
`get_put`, `drop_put` and `length_put` are simp lemmas, so that reading a record field by field,
moving on by each field's width, computes.
-/

namespace ByteCodec

/-- A fixed-width encoding with its laws. -/
structure Codec (A : Type) where
  width : ℕ
  put : A → List UInt8
  get : List UInt8 → A
  length_put : ∀ a, (put a).length = width
  get_put : ∀ a rest, get (put a ++ rest) = a
  put_get : ∀ bs, width ≤ bs.length → put (get bs) = bs.take width

attribute [simp] Codec.length_put Codec.get_put

/-- What is written determines the value. -/
theorem Codec.put_injective {A : Type} (c : Codec A) : Function.Injective c.put := by
  intro a b h
  have ha := c.get_put a []
  have hb := c.get_put b []
  rw [← ha, h, hb]

/-- What follows a written value. -/
@[simp] theorem Codec.drop_put {A : Type} (c : Codec A) (a : A) (rest : List UInt8) :
    (c.put a ++ rest).drop c.width = rest := by
  rw [← c.length_put a]
  exact List.drop_left

/-- Writing back what was read, in front of what stands behind it in the bytes. -/
theorem Codec.put_get_append {A : Type} (c : Codec A) {p q : List UInt8} {k : ℕ}
    (hq : k ≤ (p.drop c.width).length → q = (p.drop c.width).take k) (h : c.width + k ≤ p.length) :
    c.put (c.get p) ++ q = p.take (c.width + k) := by
  have hk : k ≤ (p.drop c.width).length := by
    rw [List.length_drop]
    omega
  rw [c.put_get p (by omega), hq hk, ← List.take_add]

/-! ### Little-endian integers -/

/-- `p[0] = v; p[1] = v >> 8`. -/
def putU16 (v : UInt16) : List UInt8 :=
  [v.toUInt8, (v >>> 8).toUInt8]

/-- `p[0] | p[1] << 8`. -/
def getU16 (p : List UInt8) : UInt16 :=
  (p.getD 0 0).toUInt16 ||| ((p.getD 1 0).toUInt16 <<< 8)

/-- `p[0] = v; p[1] = v >> 8; p[2] = v >> 16; p[3] = v >> 24`. -/
def putU32 (v : UInt32) : List UInt8 :=
  [v.toUInt8, (v >>> 8).toUInt8, (v >>> 16).toUInt8, (v >>> 24).toUInt8]

/-- `p[0] | p[1] << 8 | p[2] << 16 | p[3] << 24`. -/
def getU32 (p : List UInt8) : UInt32 :=
  (p.getD 0 0).toUInt32 ||| ((p.getD 1 0).toUInt32 <<< 8) ||| ((p.getD 2 0).toUInt32 <<< 16) |||
    ((p.getD 3 0).toUInt32 <<< 24)

/-- Bits above a number's own add up. -/
theorem or_shiftLeft {lo k : ℕ} (hi : ℕ) (h : lo < 2 ^ k) : lo ||| hi <<< k = lo + 2 ^ k * hi := by
  rw [Nat.or_comm, ← Nat.shiftLeft_add_eq_or_of_lt h, Nat.shiftLeft_eq, Nat.mul_comm, Nat.add_comm]

theorem toNat_getU16 (a b : UInt8) (rest : List UInt8) :
    (getU16 (a :: b :: rest)).toNat = a.toNat + 2 ^ 8 * b.toNat := by
  have ha := a.toNat_lt
  have hb := b.toNat_lt
  have hshift : b.toNat <<< 8 % 2 ^ 16 = b.toNat <<< 8 := by
    rw [Nat.shiftLeft_eq]
    omega
  calc (getU16 (a :: b :: rest)).toNat
      = a.toNat ||| b.toNat <<< 8 % 2 ^ 16 := rfl
    _ = a.toNat + 2 ^ 8 * b.toNat := by rw [hshift, or_shiftLeft _ ha]

theorem toNat_getU32 (a b c d : UInt8) (rest : List UInt8) :
    (getU32 (a :: b :: c :: d :: rest)).toNat
      = a.toNat + 2 ^ 8 * b.toNat + 2 ^ 16 * c.toNat + 2 ^ 24 * d.toNat := by
  have ha := a.toNat_lt
  have hb := b.toNat_lt
  have hc := c.toNat_lt
  have hd := d.toNat_lt
  -- no shift drops a bit, and the bytes do not overlap
  have h₁ : b.toNat <<< 8 % 2 ^ 32 = b.toNat <<< 8 := by
    rw [Nat.shiftLeft_eq]
    omega
  have h₂ : c.toNat <<< 16 % 2 ^ 32 = c.toNat <<< 16 := by
    rw [Nat.shiftLeft_eq]
    omega
  have h₃ : d.toNat <<< 24 % 2 ^ 32 = d.toNat <<< 24 := by
    rw [Nat.shiftLeft_eq]
    omega
  calc (getU32 (a :: b :: c :: d :: rest)).toNat
      = a.toNat ||| b.toNat <<< 8 % 2 ^ 32 ||| c.toNat <<< 16 % 2 ^ 32
          ||| d.toNat <<< 24 % 2 ^ 32 := rfl
    _ = a.toNat + 2 ^ 8 * b.toNat ||| c.toNat <<< 16 ||| d.toNat <<< 24 := by
        rw [h₁, h₂, h₃, or_shiftLeft _ ha]
    _ = a.toNat + 2 ^ 8 * b.toNat + 2 ^ 16 * c.toNat ||| d.toNat <<< 24 := by
        rw [or_shiftLeft _ (show a.toNat + 2 ^ 8 * b.toNat < 2 ^ 16 by omega)]
    _ = a.toNat + 2 ^ 8 * b.toNat + 2 ^ 16 * c.toNat + 2 ^ 24 * d.toNat := by
        rw [or_shiftLeft _ (show a.toNat + 2 ^ 8 * b.toNat + 2 ^ 16 * c.toNat < 2 ^ 24 by omega)]

theorem getU16_putU16 (v : UInt16) (rest : List UInt8) : getU16 (putU16 v ++ rest) = v := by
  have hv := v.toNat_lt
  apply UInt16.toNat_inj.mp
  calc (getU16 (putU16 v ++ rest)).toNat
      = v.toNat % 2 ^ 8 + 2 ^ 8 * (v.toNat >>> 8 % 2 ^ 8) := toNat_getU16 _ _ rest
    _ = v.toNat := by
        rw [Nat.shiftRight_eq_div_pow]
        omega

theorem getU32_putU32 (v : UInt32) (rest : List UInt8) : getU32 (putU32 v ++ rest) = v := by
  have hv := v.toNat_lt
  apply UInt32.toNat_inj.mp
  calc (getU32 (putU32 v ++ rest)).toNat
      = v.toNat % 2 ^ 8 + 2 ^ 8 * (v.toNat >>> 8 % 2 ^ 8) + 2 ^ 16 * (v.toNat >>> 16 % 2 ^ 8)
          + 2 ^ 24 * (v.toNat >>> 24 % 2 ^ 8) := toNat_getU32 _ _ _ _ rest
    _ = v.toNat := by
        rw [Nat.shiftRight_eq_div_pow, Nat.shiftRight_eq_div_pow, Nat.shiftRight_eq_div_pow]
        omega

theorem putU16_getU16 (a b : UInt8) (rest : List UInt8) :
    putU16 (getU16 (a :: b :: rest)) = [a, b] := by
  have ha := a.toNat_lt
  have hb := b.toNat_lt
  have h := toNat_getU16 a b rest
  have h₀ : (getU16 (a :: b :: rest)).toUInt8 = a := by
    apply UInt8.toNat_inj.mp
    show (getU16 (a :: b :: rest)).toNat % 2 ^ 8 = _
    omega
  have h₁ : (getU16 (a :: b :: rest) >>> 8).toUInt8 = b := by
    apply UInt8.toNat_inj.mp
    show (getU16 (a :: b :: rest)).toNat >>> 8 % 2 ^ 8 = _
    rw [Nat.shiftRight_eq_div_pow]
    omega
  rw [putU16, h₀, h₁]

theorem putU32_getU32 (a b c d : UInt8) (rest : List UInt8) :
    putU32 (getU32 (a :: b :: c :: d :: rest)) = [a, b, c, d] := by
  have ha := a.toNat_lt
  have hb := b.toNat_lt
  have hc := c.toNat_lt
  have hd := d.toNat_lt
  have h := toNat_getU32 a b c d rest
  have h₀ : (getU32 (a :: b :: c :: d :: rest)).toUInt8 = a := by
    apply UInt8.toNat_inj.mp
    show (getU32 (a :: b :: c :: d :: rest)).toNat % 2 ^ 8 = _
    omega
  have h₁ : (getU32 (a :: b :: c :: d :: rest) >>> 8).toUInt8 = b := by
    apply UInt8.toNat_inj.mp
    show (getU32 (a :: b :: c :: d :: rest)).toNat >>> 8 % 2 ^ 8 = _
    rw [Nat.shiftRight_eq_div_pow]
    omega
  have h₂ : (getU32 (a :: b :: c :: d :: rest) >>> 16).toUInt8 = c := by
    apply UInt8.toNat_inj.mp
    show (getU32 (a :: b :: c :: d :: rest)).toNat >>> 16 % 2 ^ 8 = _
    rw [Nat.shiftRight_eq_div_pow]
    omega
  have h₃ : (getU32 (a :: b :: c :: d :: rest) >>> 24).toUInt8 = d := by
    apply UInt8.toNat_inj.mp
    show (getU32 (a :: b :: c :: d :: rest)).toNat >>> 24 % 2 ^ 8 = _
    rw [Nat.shiftRight_eq_div_pow]
    omega
  rw [putU32, h₀, h₁, h₂, h₃]

/-- `p[i] = v >> (i * 8)`, for `i < 8`. -/
def putU64 (v : UInt64) : List UInt8 :=
  (List.range 8).map fun i => (v >>> UInt64.ofNat (i * 8)).toUInt8

/-- The number in the first eight bytes, the lowest first. -/
def getU64 (p : List UInt8) : UInt64 :=
  UInt64.ofNat (Nat.ofDigits 256 ((p.take 8).map UInt8.toNat))

@[simp] theorem length_putU64 (v : UInt64) : (putU64 v).length = 8 := rfl

theorem getU64_putU64 (v : UInt64) (rest : List UInt8) : getU64 (putU64 v ++ rest) = v := by
  have hv := v.toNat_lt
  have hdigits : (putU64 v).map UInt8.toNat
      = [v.toNat % 256, v.toNat / 2 ^ 8 % 256, v.toNat / 2 ^ 16 % 256, v.toNat / 2 ^ 24 % 256,
        v.toNat / 2 ^ 32 % 256, v.toNat / 2 ^ 40 % 256, v.toNat / 2 ^ 48 % 256,
        v.toNat / 2 ^ 56 % 256] := by
    simp [putU64, List.range_succ, UInt64.toNat_shiftRight, Nat.shiftRight_eq_div_pow]
  have hnumber : Nat.ofDigits 256 ((putU64 v).map UInt8.toNat) = v.toNat := by
    rw [hdigits]
    simp only [Nat.ofDigits_cons, Nat.ofDigits_nil]
    omega
  rw [getU64, List.take_left' (length_putU64 v), hnumber, UInt64.ofNat_toNat]

/-! ### The codecs -/

/-- One byte. -/
def u8 : Codec UInt8 where
  width := 1
  put := fun b => [b]
  get := fun p => p.getD 0 0
  length_put := fun _ => rfl
  get_put := fun _ _ => rfl
  put_get := by
    rintro (- | ⟨b, bs⟩) h
    · exact absurd h (by decide)
    · rfl

def u16 : Codec UInt16 where
  width := 2
  put := putU16
  get := getU16
  length_put := fun _ => rfl
  get_put := getU16_putU16
  put_get := by
    rintro (- | ⟨a, - | ⟨b, rest⟩⟩) h
    · exact absurd h (by simp)
    · exact absurd h (by simp)
    · exact putU16_getU16 a b rest

def u32 : Codec UInt32 where
  width := 4
  put := putU32
  get := getU32
  length_put := fun _ => rfl
  get_put := getU32_putU32
  put_get := by
    rintro (- | ⟨a, - | ⟨b, - | ⟨c, - | ⟨d, rest⟩⟩⟩⟩) h
    · exact absurd h (by simp)
    · exact absurd h (by simp)
    · exact absurd h (by simp)
    · exact absurd h (by simp)
    · exact putU32_getU32 a b c d rest

/-- `n` raw bytes (`std::memcpy`). -/
def bytes (n : ℕ) : Codec (Vector UInt8 n) where
  width := n
  put := fun v => v.toList
  get := fun p => Vector.ofFn fun i => p.getD i 0
  length_put := fun v => v.length_toList
  get_put := by
    intro v rest
    apply Vector.ext
    intro i hi
    rw [Vector.getElem_ofFn]
    have hlen : i < v.toList.length := by rwa [v.length_toList]
    simp [List.getElem?_append_left hlen, hi]
  put_get := by
    intro bs h
    apply List.ext_getElem?
    intro i
    by_cases hi : i < n
    · have hib : i < bs.length := by omega
      simp [hi, hib]
    · rw [List.getElem?_eq_none, List.getElem?_eq_none]
      · rw [List.length_take]
        omega
      · rw [Vector.length_toList]
        omega

end ByteCodec
