import MithAtomas.Core.Trace
import MithAtomas.Framework.GroupedText
import MithAtomas.Framework.VectorLoop
import MithAtomas.Identity.HierarchicalID

/-!
# Identities as text

`to_string` and `from_string` of `src/identity/uuid.cpp` and `hierarchical_id.cpp`. Both sides of
the UUID's text go by a table of offsets; `offset_cases` says that the table and the four hyphens
cover the 36 positions, and with it a text is known by what is at these
(`UUID.fromString_eq_some_iff`, `UUID.toString_hi` and so on).

`id_text_codec` is the result: what is accepted, that an id comes back from its text, and that the
text comes back from what was accepted, in lower case.
-/

namespace MithAtomas

open GroupedText VectorLoop

/-! ### Hexadecimal digits -/

/-- `hex_char` -/
def hexChar (nibble : UInt8) : UInt8 :=
  if nibble < 10 then 0x30 + nibble else 0x61 + (nibble - 10)

/-- `hex_value`; `none` for `-1`. -/
def hexValue (c : UInt8) : Option UInt8 :=
  if 0x30 ≤ c ∧ c ≤ 0x39 then some (c - 0x30)
  else if 0x61 ≤ c ∧ c ≤ 0x66 then some (c - 0x61 + 10)
  else if 0x41 ≤ c ∧ c ≤ 0x46 then some (c - 0x41 + 10)
  else none

/-- A hexadecimal digit, in either case. -/
def IsHexDigit (c : UInt8) : Prop :=
  (0x30 ≤ c ∧ c ≤ 0x39) ∨ (0x61 ≤ c ∧ c ≤ 0x66) ∨ (0x41 ≤ c ∧ c ≤ 0x46)

/-- `A` to `F` in lower case. -/
def lowerHex (c : UInt8) : UInt8 :=
  if 0x41 ≤ c ∧ c ≤ 0x46 then c + 0x20 else c

/-- Any letter in lower case. -/
def asciiLower (c : UInt8) : UInt8 :=
  if 0x41 ≤ c ∧ c ≤ 0x5A then c + 0x20 else c

theorem hexValue_isSome_iff {c : UInt8} : (hexValue c).isSome ↔ IsHexDigit c := by
  unfold hexValue IsHexDigit
  grind

theorem hexValue_hexChar {d : UInt8} (h : d < 16) : hexValue (hexChar d) = some d := by
  unfold hexValue hexChar
  grind

theorem hexValue_lt {c d : UInt8} (h : hexValue c = some d) : d < 16 := by
  unfold hexValue at h
  grind

/-- The digit that was read, in lower case. -/
theorem hexChar_of_hexValue {c d : UInt8} (h : hexValue c = some d) : hexChar d = lowerHex c := by
  unfold hexValue at h
  unfold hexChar lowerHex
  grind

/-- Hexadecimal digits have no other letters. -/
theorem lowerHex_eq_asciiLower {c : UInt8} (h : IsHexDigit c) : lowerHex c = asciiLower c := by
  unfold IsHexDigit at h
  unfold lowerHex asciiLower
  grind

/-! ### UUIDs -/

namespace UUID

/-- The offsets of the bytes in `xxxxxxxx-xxxx-xxxx-xxxx-xxxxxxxxxxxx`. -/
def offsets : Vector ℕ 16 :=
  #v[0, 2, 4, 6, 9, 11, 14, 16, 19, 21, 24, 26, 28, 30, 32, 34]

/-- `write_byte` -/
def writeByte (s : StringView) (outIdx : ℕ) (byte : UInt8) : StringView :=
  (s.set outIdx (hexChar (byte >>> 4))).set (outIdx + 1) (hexChar (byte &&& 0x0F))

def toString (u : UUID) : StringView :=
  let s := (List.finRange 16).foldl (fun s i => writeByte s (offsets.get i) (u.bytes.get i))
    (List.replicate 36 0)
  (((s.set 8 0x2D).set 13 0x2D).set 18 0x2D).set 23 0x2D

/-- The byte whose digits are at `offset`. -/
def readByte (s : StringView) (offset : ℕ) : Option UInt8 := do
  let hi ← hexValue (s.getD offset 0)
  let lo ← hexValue (s.getD (offset + 1) 0)
  return (hi <<< 4) ||| lo

def fromString (s : StringView) : Option UUID :=
  -- the length is checked first, so that the reads are in range
  if s.length ≠ 36 then none
  else if s.getD 8 0 ≠ 0x2D ∨ s.getD 13 0 ≠ 0x2D ∨ s.getD 18 0 ≠ 0x2D ∨ s.getD 23 0 ≠ 0x2D then none
  else do
    let b ← (List.finRange 16).foldlM
      (fun b i => (readByte s (offsets.get i)).map fun byte => b.set i byte) (Vector.replicate 16 0)
    return ⟨b⟩

end UUID

/-! ### Hierarchical ids -/

namespace HierarchicalID

abbrev SWARM_HEX_LEN : ℕ := 4
abbrev TOTAL_LEN : ℕ := 41

def toString (id : HierarchicalID) : StringView :=
  [hexChar ((id.swarmId >>> 12) &&& 0xF).toUInt8, hexChar ((id.swarmId >>> 8) &&& 0xF).toUInt8,
    hexChar ((id.swarmId >>> 4) &&& 0xF).toUInt8, hexChar (id.swarmId &&& 0xF).toUInt8, 0x3A]
    ++ id.unitId.toString

/-- One more digit at the end of a swarm number. -/
def pushDigit (sid : SwarmID) (v : UInt8) : SwarmID :=
  (sid <<< 4) ||| v.toUInt16

def fromString (s : StringView) : Option HierarchicalID :=
  if s.length ≠ TOTAL_LEN then none
  else if s.getD SWARM_HEX_LEN 0 ≠ 0x3A then none
  else do
    let sid ← (List.range SWARM_HEX_LEN).foldlM
      (fun sid i => (hexValue (s.getD i 0)).map (pushDigit sid)) 0
    let uuid ← UUID.fromString (s.drop (SWARM_HEX_LEN + 1))
    return ⟨sid, uuid⟩

end HierarchicalID

/-! ### Nibbles -/

theorem toNat_nibbles {hi lo : UInt8} (h : hi < 16) (h' : lo < 16) :
    ((hi <<< 4) ||| lo).toNat = 16 * hi.toNat + lo.toNat := by
  have hhi : hi.toNat < 16 := UInt8.lt_iff_toNat_lt.mp h
  have hlo : lo.toNat < 16 := UInt8.lt_iff_toNat_lt.mp h'
  show hi.toNat <<< 4 % 2 ^ 8 ||| lo.toNat = _
  -- the shift drops nothing, and the digits do not overlap
  have hshift : hi.toNat <<< 4 % 2 ^ 8 = hi.toNat <<< 4 := by
    rw [Nat.shiftLeft_eq]
    omega
  rw [hshift, ← Nat.shiftLeft_add_eq_or_of_lt (show lo.toNat < 2 ^ 4 from hlo), Nat.shiftLeft_eq]
  omega

/-- The digits of a byte. -/
theorem nibbles_of_byte {hi lo : UInt8} (h : hi < 16) (h' : lo < 16) :
    ((hi <<< 4) ||| lo) >>> 4 = hi ∧ ((hi <<< 4) ||| lo) &&& 0x0F = lo := by
  have hnat := toNat_nibbles h h'
  have hhi : hi.toNat < 16 := UInt8.lt_iff_toNat_lt.mp h
  have hlo : lo.toNat < 16 := UInt8.lt_iff_toNat_lt.mp h'
  constructor
  · apply UInt8.toNat_inj.mp
    show ((hi <<< 4) ||| lo).toNat >>> 4 = _
    rw [hnat, Nat.shiftRight_eq_div_pow]
    omega
  · apply UInt8.toNat_inj.mp
    show ((hi <<< 4) ||| lo).toNat &&& 2 ^ 4 - 1 = _
    rw [hnat, Nat.and_two_pow_sub_one_eq_mod]
    omega

theorem toNat_shiftRight_four (b : UInt8) : (b >>> 4).toNat = b.toNat / 16 :=
  Nat.shiftRight_eq_div_pow b.toNat 4

theorem toNat_and_15 (b : UInt8) : (b &&& 0x0F).toNat = b.toNat % 16 :=
  Nat.and_two_pow_sub_one_eq_mod b.toNat 4

/-- A byte of its digits. -/
theorem byte_of_nibbles (b : UInt8) :
    b >>> 4 < 16 ∧ b &&& 0x0F < 16 ∧ (b >>> 4) <<< 4 ||| (b &&& 0x0F) = b := by
  have hb := b.toNat_lt
  have hhi : b >>> 4 < 16 := by
    rw [UInt8.lt_iff_toNat_lt, toNat_shiftRight_four]
    show b.toNat / 16 < 16
    omega
  have hlo : b &&& 0x0F < 16 := by
    rw [UInt8.lt_iff_toNat_lt, toNat_and_15]
    exact Nat.mod_lt _ (by decide)
  refine ⟨hhi, hlo, ?_⟩
  apply UInt8.toNat_inj.mp
  rw [toNat_nibbles hhi hlo, toNat_shiftRight_four, toNat_and_15]
  omega

/-! ### What a UUID's text holds -/

namespace UUID

/-- The lengths of the groups of a UUID's text. -/
def groups : List ℕ := [8, 4, 4, 4, 12]

/-- The table and the hyphens leave no position out. -/
theorem offset_cases (p : Fin 36) : p.val ∈ separators groups ∨
    ∃ i : Fin 16, p = offsets.get i ∨ p = offsets.get i + 1 := by
  decide +revert

theorem offset_not_separator (i : Fin 16) :
    offsets.get i ∉ separators groups ∧ offsets.get i + 1 ∉ separators groups := by
  decide +revert

theorem offset_lt (i : Fin 16) : offsets.get i + 1 < 36 := by
  decide +revert

/-- No two bytes share a position. -/
theorem offset_apart {i j : Fin 16} (h : i ≠ j) : offsets.get i ≠ offsets.get j ∧
    offsets.get i ≠ offsets.get j + 1 ∧ offsets.get i + 1 ≠ offsets.get j := by
  decide +revert

theorem length_writeByte {s : StringView} {p : ℕ} {b : UInt8} :
    (writeByte s p b).length = s.length := by
  rw [writeByte, List.length_set, List.length_set]

theorem getD_writeByte {s : StringView} {p q : ℕ} {b : UInt8} (h : p + 1 < s.length) :
    (writeByte s p b).getD q 0 = if q = p then hexChar (b >>> 4)
      else if q = p + 1 then hexChar (b &&& 0x0F) else s.getD q 0 := by
  simp only [writeByte, List.getD_eq_getElem?_getD, List.getElem?_set, List.length_set]
  grind

/-- The loop of `toString` over some of the bytes. -/
def writes (u : UUID) (l : List (Fin 16)) (s : StringView) : StringView :=
  l.foldl (fun s i => writeByte s (offsets.get i) (u.bytes.get i)) s

theorem length_writes {u : UUID} {l : List (Fin 16)} {s : StringView} :
    (writes u l s).length = s.length := by
  induction l generalizing s with
  | nil => rfl
  | cons i l ih => exact ih.trans length_writeByte

/-- Positions that no byte of the loop has. -/
theorem getD_writes_of_ne {u : UUID} {l : List (Fin 16)} {s : StringView} {p : ℕ}
    (hs : s.length = 36) (h : ∀ i ∈ l, p ≠ offsets.get i ∧ p ≠ offsets.get i + 1) :
    (writes u l s).getD p 0 = s.getD p 0 := by
  induction l generalizing s with
  | nil => rfl
  | cons i l ih =>
    obtain ⟨hhi, hlo⟩ := h i List.mem_cons_self
    refine (ih (length_writeByte.trans hs) fun j hj => h j (List.mem_cons_of_mem i hj)).trans ?_
    rw [getD_writeByte (hs ▸ offset_lt i), if_neg hhi, if_neg hlo]

/-- What one byte writes stays. -/
theorem getD_writes {u : UUID} {l : List (Fin 16)} {s : StringView} {i : Fin 16}
    (hs : s.length = 36) (hl : l.Nodup) (hi : i ∈ l) :
    (writes u l s).getD (offsets.get i) 0 = hexChar (u.bytes.get i >>> 4) ∧
      (writes u l s).getD (offsets.get i + 1) 0 = hexChar (u.bytes.get i &&& 0x0F) := by
  induction l generalizing s with
  | nil => cases hi
  | cons j l ih =>
    obtain ⟨hj, hl⟩ := List.nodup_cons.mp hl
    -- the byte is written in this round or in a later one; it has one index
    by_cases hin : i ∈ l
    · exact ih (length_writeByte.trans hs) hl hin
    · obtain rfl : i = j := (List.mem_cons.mp hi).resolve_right hin
      have hwrite := fun q =>
        getD_writeByte (s := s) (b := u.bytes.get i) (q := q) (hs ▸ offset_lt i)
      have hapart : ∀ k ∈ l, i ≠ k := fun k hk h => hin (h ▸ hk)
      constructor
      · refine (getD_writes_of_ne (length_writeByte.trans hs) fun k hk => ?_).trans ?_
        · obtain ⟨h₁, h₂, -⟩ := offset_apart (hapart k hk)
          exact ⟨h₁, h₂⟩
        · rw [hwrite, if_pos rfl]
      · refine (getD_writes_of_ne (length_writeByte.trans hs) fun k hk => ?_).trans ?_
        · obtain ⟨h₁, -, h₃⟩ := offset_apart (hapart k hk)
          exact ⟨h₃, by omega⟩
        · rw [hwrite, if_neg (by omega), if_pos rfl]

theorem length_toString (u : UUID) : u.toString.length = 36 := by
  have h : (writes u (List.finRange 16) (List.replicate 36 0)).length = 36 :=
    length_writes.trans List.length_replicate
  unfold toString
  simp only [List.length_set]
  exact h

/-- The hyphens stand over what the loop wrote. -/
theorem getD_toString (u : UUID) (p : ℕ) : u.toString.getD p 0 =
    if p ∈ separators groups then 0x2D
    else (writes u (List.finRange 16) (List.replicate 36 0)).getD p 0 := by
  have hlength : (writes u (List.finRange 16) (List.replicate 36 0)).length = 36 :=
    length_writes.trans List.length_replicate
  have hmem : p ∈ separators groups ↔ p = 8 ∨ p = 13 ∨ p = 18 ∨ p = 23 := by
    simp [separators, groups]
  unfold toString
  rw [← writes]
  simp only [List.getD_eq_getElem?_getD, List.getElem?_set, List.length_set, hlength, hmem]
  grind

theorem toString_separator (u : UUID) {p : ℕ} (h : p ∈ separators groups) :
    u.toString.getD p 0 = 0x2D := by
  rw [getD_toString, if_pos h]

theorem toString_hi (u : UUID) (i : Fin 16) :
    u.toString.getD (offsets.get i) 0 = hexChar (u.bytes.get i >>> 4) := by
  rw [getD_toString, if_neg (offset_not_separator i).1]
  exact (getD_writes List.length_replicate (List.nodup_finRange 16) (List.mem_finRange i)).1

theorem toString_lo (u : UUID) (i : Fin 16) :
    u.toString.getD (offsets.get i + 1) 0 = hexChar (u.bytes.get i &&& 0x0F) := by
  rw [getD_toString, if_neg (offset_not_separator i).2]
  exact (getD_writes List.length_replicate (List.nodup_finRange 16) (List.mem_finRange i)).2

theorem readByte_eq_some_iff {s : StringView} {p : ℕ} {b : UInt8} : readByte s p = some b ↔
    hexValue (s.getD p 0) = some (b >>> 4) ∧ hexValue (s.getD (p + 1) 0) = some (b &&& 0x0F) := by
  unfold readByte
  constructor
  · intro h
    obtain ⟨hi, hhi, h⟩ := Option.bind_eq_some_iff.mp h
    obtain ⟨lo, hlo, h⟩ := Option.bind_eq_some_iff.mp h
    obtain rfl := Option.some.inj h
    obtain ⟨h₁, h₂⟩ := nibbles_of_byte (hexValue_lt hhi) (hexValue_lt hlo)
    exact ⟨by rw [h₁, hhi], by rw [h₂, hlo]⟩
  · rintro ⟨hhi, hlo⟩
    rw [hhi, hlo]
    exact congrArg some (byte_of_nibbles b).2.2

/-- **What is read.** -/
theorem fromString_eq_some_iff {s : StringView} {u : UUID} : fromString s = some u ↔
    s.length = 36 ∧ (∀ p ∈ separators groups, s.getD p 0 = 0x2D) ∧
      ∀ i, readByte s (offsets.get i) = some (u.bytes.get i) := by
  have hsep : (∀ p ∈ separators groups, s.getD p 0 = 0x2D) ↔ ¬(s.getD 8 0 ≠ 0x2D ∨
      s.getD 13 0 ≠ 0x2D ∨ s.getD 18 0 ≠ 0x2D ∨ s.getD 23 0 ≠ 0x2D) := by
    simp [separators, groups]
  rw [hsep]
  unfold fromString
  split
  · next h => exact ⟨by rintro ⟨⟩, fun h' => absurd h'.1 h⟩
  · next hlength =>
    rw [not_not] at hlength
    split
    · next h => exact ⟨by rintro ⟨⟩, fun h' => absurd h h'.2.1⟩
    · next h =>
      rw [and_iff_right hlength, and_iff_right h]
      refine Option.bind_eq_some_iff.trans ?_
      constructor
      · rintro ⟨b, hb, h⟩
        obtain rfl := Option.some.inj h
        exact fun i => ((foldlM_set_eq_some_iff (List.nodup_finRange 16)).mp hb).1 i
          (List.mem_finRange i)
      · intro hbytes
        refine ⟨u.bytes, (foldlM_set_eq_some_iff (List.nodup_finRange 16)).mpr ⟨?_, ?_⟩, rfl⟩
        · exact fun i _ => hbytes i
        · exact fun i hi => absurd (List.mem_finRange i) hi

/-- `xxxxxxxx-xxxx-xxxx-xxxx-xxxxxxxxxxxx` -/
def Form (s : StringView) : Prop :=
  Grouped 0x2D IsHexDigit groups s

theorem form_iff {s : StringView} : Form s ↔ s.length = 36 ∧
    (∀ p ∈ separators groups, s.getD p 0 = 0x2D) ∧
      ∀ i, IsHexDigit (s.getD (offsets.get i) 0) ∧ IsHexDigit (s.getD (offsets.get i + 1) 0) := by
  refine grouped_iff.trans (and_congr_right fun hlength => ?_)
  -- a position of a text of this length holds a byte
  replace hlength : s.length = 36 := hlength
  have hget : ∀ p, p < 36 → s[p]? = some (s.getD p 0) := by
    intro p hp
    rw [List.getElem?_eq_getElem (hlength.symm ▸ hp), List.getD_eq_getElem]
  constructor
  · intro h
    refine ⟨fun p hp => ?_, fun i => ⟨?_, ?_⟩⟩
    · have hlt : p < 36 := by
        have hp' : p = 8 ∨ p = 13 ∨ p = 18 ∨ p = 23 := by
          simpa [separators, groups] using hp
        omega
      simpa only [if_pos hp] using h p _ (hget p hlt)
    · have hi := h _ _ (hget _ (Nat.lt_of_succ_lt (offset_lt i)))
      rwa [if_neg (offset_not_separator i).1] at hi
    · have hi := h _ _ (hget _ (offset_lt i))
      rwa [if_neg (offset_not_separator i).2] at hi
  · rintro ⟨hsep, hhex⟩ p a hp
    have hlt : p < 36 := hlength ▸ (List.getElem?_eq_some_iff.mp hp).1
    obtain rfl : s.getD p 0 = a := Option.some.inj ((hget p hlt).symm.trans hp)
    -- each position is a hyphen's or one of the two of a byte
    rcases offset_cases ⟨p, hlt⟩ with hmem | ⟨i, rfl | rfl⟩
    · rw [if_pos hmem]
      exact hsep p hmem
    · rw [if_neg (offset_not_separator i).1]
      exact (hhex i).1
    · rw [if_neg (offset_not_separator i).2]
      exact (hhex i).2

/-- **What is accepted.** -/
theorem isSome_fromString_iff {s : StringView} : (fromString s).isSome ↔ Form s := by
  rw [form_iff, Option.isSome_iff_exists]
  constructor
  · rintro ⟨u, h⟩
    obtain ⟨hlength, hsep, hbytes⟩ := fromString_eq_some_iff.mp h
    refine ⟨hlength, hsep, fun i => ?_⟩
    obtain ⟨hhi, hlo⟩ := readByte_eq_some_iff.mp (hbytes i)
    exact ⟨hexValue_isSome_iff.mp (Option.isSome_of_eq_some hhi),
      hexValue_isSome_iff.mp (Option.isSome_of_eq_some hlo)⟩
  · rintro ⟨hlength, hsep, hhex⟩
    have hbyte : ∀ i, ∃ b, readByte s (offsets.get i) = some b := by
      intro i
      obtain ⟨hi, hhi⟩ := Option.isSome_iff_exists.mp (hexValue_isSome_iff.mpr (hhex i).1)
      obtain ⟨lo, hlo⟩ := Option.isSome_iff_exists.mp (hexValue_isSome_iff.mpr (hhex i).2)
      exact ⟨(hi <<< 4) ||| lo, by rw [readByte, hhi, hlo]; rfl⟩
    -- the bytes that the digits make are the id
    choose b hb using hbyte
    refine ⟨⟨Vector.ofFn b⟩, fromString_eq_some_iff.mpr ⟨hlength, hsep, fun i => ?_⟩⟩
    rw [hb i]
    exact congrArg some (Vector.getElem_ofFn i.isLt).symm

theorem fromString_toString (u : UUID) : fromString u.toString = some u := by
  refine fromString_eq_some_iff.mpr ⟨u.length_toString, fun p => u.toString_separator, fun i => ?_⟩
  obtain ⟨hhi, hlo, -⟩ := byte_of_nibbles (u.bytes.get i)
  rw [readByte_eq_some_iff, u.toString_hi, u.toString_lo]
  exact ⟨hexValue_hexChar hhi, hexValue_hexChar hlo⟩

/-- An accepted text comes back in lower case. -/
theorem toString_of_fromString {s : StringView} {u : UUID} (h : fromString s = some u) :
    u.toString = s.map lowerHex := by
  obtain ⟨hlength, hsep, hbytes⟩ := fromString_eq_some_iff.mp h
  refine List.ext_getElem (by rw [u.length_toString, List.length_map, hlength]) fun p hp hp' => ?_
  rw [u.length_toString] at hp
  rw [List.getElem_map, ← List.getD_eq_getElem _ 0, ← List.getD_eq_getElem _ 0]
  -- hyphens stay; a digit is printed from the nibble that it was read as
  rcases offset_cases ⟨p, hp⟩ with hmem | ⟨i, rfl | rfl⟩
  · rw [u.toString_separator hmem, hsep p hmem]
    rfl
  · rw [u.toString_hi]
    exact hexChar_of_hexValue (readByte_eq_some_iff.mp (hbytes i)).1
  · rw [u.toString_lo]
    exact hexChar_of_hexValue (readByte_eq_some_iff.mp (hbytes i)).2

theorem map_lowerHex {s : StringView} (h : Form s) : s.map lowerHex = s.map asciiLower := by
  refine List.map_congr_left fun c hc => ?_
  rcases h.eq_or_of_mem hc with rfl | hhex
  · rfl
  · exact lowerHex_eq_asciiLower hhex

end UUID

/-! ### What a hierarchical id's text holds -/

namespace HierarchicalID

/-- `SSSS:` and a UUID. -/
def Form (s : StringView) : Prop :=
  ∃ g text, s = g ++ 0x3A :: text ∧ g.length = SWARM_HEX_LEN ∧ (∀ c ∈ g, IsHexDigit c) ∧
    UUID.Form text

theorem toNat_pushDigit {sid : SwarmID} {v : UInt8} (hs : sid.toNat < 2 ^ 12) (hv : v < 16) :
    (pushDigit sid v).toNat = 16 * sid.toNat + v.toNat := by
  have hv' : v.toNat < 16 := UInt8.lt_iff_toNat_lt.mp hv
  show sid.toNat <<< 4 % 2 ^ 16 ||| v.toUInt16.toNat = _
  have hshift : sid.toNat <<< 4 % 2 ^ 16 = sid.toNat <<< 4 := by
    rw [Nat.shiftLeft_eq]
    omega
  rw [hshift, UInt8.toNat_toUInt16, ← Nat.shiftLeft_add_eq_or_of_lt (show v.toNat < 2 ^ 4 from hv'),
    Nat.shiftLeft_eq]
  omega

/-- The digit of a swarm number at bit `k`. -/
theorem toNat_digit (sid : SwarmID) (k : UInt16) (hk : k.toNat < 16) :
    ((sid >>> k) &&& 0xF).toUInt8.toNat = sid.toNat / 2 ^ k.toNat % 16 := by
  have hand : ((sid >>> k) &&& 0xF).toNat = sid.toNat / 2 ^ k.toNat % 16 := by
    show sid.toNat >>> (k.toNat % 16) &&& 2 ^ 4 - 1 = _
    rw [Nat.mod_eq_of_lt hk, Nat.and_two_pow_sub_one_eq_mod, Nat.shiftRight_eq_div_pow]
  rw [UInt16.toNat_toUInt8, hand]
  omega

theorem toNat_last_digit (sid : SwarmID) : (sid &&& 0xF).toUInt8.toNat = sid.toNat % 16 := by
  have h := toNat_digit sid 0 (by decide)
  rwa [UInt16.shiftRight_zero, show (0 : UInt16).toNat = 0 from rfl, pow_zero, Nat.div_one] at h

theorem digit_lt (sid : SwarmID) (k : UInt16) (hk : k.toNat < 16) :
    ((sid >>> k) &&& 0xF).toUInt8 < 16 := by
  rw [UInt8.lt_iff_toNat_lt, toNat_digit sid k hk]
  exact Nat.mod_lt _ (by decide)

/-- **The digits of a swarm number.** -/
theorem swarm_digits_iff {sid : SwarmID} {a b c d : UInt8} (ha : a < 16) (hb : b < 16)
    (hc : c < 16) (hd : d < 16) :
    pushDigit (pushDigit (pushDigit (pushDigit 0 a) b) c) d = sid ↔
      a = ((sid >>> 12) &&& 0xF).toUInt8 ∧ b = ((sid >>> 8) &&& 0xF).toUInt8 ∧
        c = ((sid >>> 4) &&& 0xF).toUInt8 ∧ d = (sid &&& 0xF).toUInt8 := by
  have ha' : a.toNat < 16 := UInt8.lt_iff_toNat_lt.mp ha
  have hb' : b.toNat < 16 := UInt8.lt_iff_toNat_lt.mp hb
  have hc' : c.toNat < 16 := UInt8.lt_iff_toNat_lt.mp hc
  have hd' : d.toNat < 16 := UInt8.lt_iff_toNat_lt.mp hd
  -- each digit is pushed behind a number that has room for it
  have h₁ : (pushDigit 0 a).toNat = a.toNat := by
    rw [toNat_pushDigit (by decide) ha]
    exact Nat.zero_add _
  have h₂ : (pushDigit (pushDigit 0 a) b).toNat = 16 * a.toNat + b.toNat := by
    rw [toNat_pushDigit (by omega) hb, h₁]
  have h₃ : (pushDigit (pushDigit (pushDigit 0 a) b) c).toNat
      = 256 * a.toNat + 16 * b.toNat + c.toNat := by
    rw [toNat_pushDigit (by omega) hc, h₂]
    omega
  have h₄ : (pushDigit (pushDigit (pushDigit (pushDigit 0 a) b) c) d).toNat
      = 4096 * a.toNat + 256 * b.toNat + 16 * c.toNat + d.toNat := by
    rw [toNat_pushDigit (by omega) hd, h₃]
    omega
  have hsid := sid.toNat_lt
  -- both sides say what the number is in base 16
  rw [← UInt16.toNat_inj, h₄, ← UInt8.toNat_inj, ← UInt8.toNat_inj, ← UInt8.toNat_inj,
    ← UInt8.toNat_inj, toNat_digit sid 12 (by decide), toNat_digit sid 8 (by decide),
    toNat_digit sid 4 (by decide), toNat_last_digit]
  simp only [show (12 : UInt16).toNat = 12 from rfl, show (8 : UInt16).toNat = 8 from rfl,
    show (4 : UInt16).toNat = 4 from rfl]
  omega

/-- The loop over the digits of the swarm number. -/
theorem swarm_loop_iff {a b c d : UInt8} {rest : StringView} {sid : SwarmID} :
    (List.range SWARM_HEX_LEN).foldlM (fun sid i =>
        (hexValue ((a :: b :: c :: d :: rest).getD i 0)).map (pushDigit sid)) 0 = some sid ↔
      hexValue a = some ((sid >>> 12) &&& 0xF).toUInt8 ∧
      hexValue b = some ((sid >>> 8) &&& 0xF).toUInt8 ∧
      hexValue c = some ((sid >>> 4) &&& 0xF).toUInt8 ∧
      hexValue d = some (sid &&& 0xF).toUInt8 := by
  constructor
  · intro h
    obtain ⟨_, hva, h⟩ := Option.bind_eq_some_iff.mp h
    obtain ⟨va, ha, rfl⟩ := Option.map_eq_some_iff.mp hva
    obtain ⟨_, hvb, h⟩ := Option.bind_eq_some_iff.mp h
    obtain ⟨vb, hb, rfl⟩ := Option.map_eq_some_iff.mp hvb
    obtain ⟨_, hvc, h⟩ := Option.bind_eq_some_iff.mp h
    obtain ⟨vc, hc, rfl⟩ := Option.map_eq_some_iff.mp hvc
    obtain ⟨_, hvd, h⟩ := Option.bind_eq_some_iff.mp h
    obtain ⟨vd, hd, rfl⟩ := Option.map_eq_some_iff.mp hvd
    obtain ⟨h₁, h₂, h₃, h₄⟩ := (swarm_digits_iff (hexValue_lt ha) (hexValue_lt hb)
      (hexValue_lt hc) (hexValue_lt hd)).mp (Option.some.inj h)
    exact ⟨h₁ ▸ ha, h₂ ▸ hb, h₃ ▸ hc, h₄ ▸ hd⟩
  · rintro ⟨ha, hb, hc, hd⟩
    have hsid := (swarm_digits_iff (hexValue_lt ha) (hexValue_lt hb) (hexValue_lt hc)
      (hexValue_lt hd)).mpr ⟨rfl, rfl, rfl, rfl⟩
    rw [show List.range SWARM_HEX_LEN = [0, 1, 2, 3] from rfl]
    simp only [List.foldlM_cons, List.foldlM_nil, List.getD_cons_zero, List.getD_cons_succ, ha, hb,
      hc, hd, Option.map_some, Option.bind_eq_bind, Option.bind_some, hsid]
    rfl

/-- **What is read.** -/
theorem fromString_eq_some_iff {s : StringView} {id : HierarchicalID} : fromString s = some id ↔
    ∃ a b c d text, s = a :: b :: c :: d :: 0x3A :: text ∧
      hexValue a = some ((id.swarmId >>> 12) &&& 0xF).toUInt8 ∧
      hexValue b = some ((id.swarmId >>> 8) &&& 0xF).toUInt8 ∧
      hexValue c = some ((id.swarmId >>> 4) &&& 0xF).toUInt8 ∧
      hexValue d = some (id.swarmId &&& 0xF).toUInt8 ∧
      UUID.fromString text = some id.unitId := by
  constructor
  · intro h
    unfold fromString at h
    split at h
    · cases h
    next hlength =>
    split at h
    · cases h
    next hcolon =>
    rw [not_not] at hlength hcolon
    obtain ⟨a, b, c, d, e, text, rfl⟩ : ∃ a b c d e text, s = a :: b :: c :: d :: e :: text := by
      match s, hlength with
      | a :: b :: c :: d :: e :: text, _ => exact ⟨a, b, c, d, e, text, rfl⟩
    obtain rfl : e = 0x3A := hcolon
    obtain ⟨sid, hsid, h⟩ := Option.bind_eq_some_iff.mp h
    obtain ⟨uuid, huuid, h⟩ := Option.bind_eq_some_iff.mp h
    obtain rfl := Option.some.inj h
    obtain ⟨ha, hb, hc, hd⟩ := swarm_loop_iff.mp hsid
    exact ⟨a, b, c, d, text, rfl, ha, hb, hc, hd, huuid⟩
  · rintro ⟨a, b, c, d, text, rfl, ha, hb, hc, hd, huuid⟩
    have hlength : text.length = 36 := (UUID.fromString_eq_some_iff.mp huuid).1
    unfold fromString
    rw [if_neg (by simp [hlength]), if_neg (by simp)]
    exact Option.bind_eq_some_iff.mpr ⟨id.swarmId, swarm_loop_iff.mpr ⟨ha, hb, hc, hd⟩,
      Option.bind_eq_some_iff.mpr ⟨id.unitId, huuid, rfl⟩⟩

/-- **What is accepted.** -/
theorem isSome_fromString_iff {s : StringView} : (fromString s).isSome ↔ Form s := by
  rw [Option.isSome_iff_exists]
  constructor
  · rintro ⟨id, h⟩
    obtain ⟨a, b, c, d, text, rfl, ha, hb, hc, hd, huuid⟩ := fromString_eq_some_iff.mp h
    refine ⟨[a, b, c, d], text, rfl, rfl, fun x hx => ?_,
      UUID.isSome_fromString_iff.mp (Option.isSome_of_eq_some huuid)⟩
    have hx' : x = a ∨ x = b ∨ x = c ∨ x = d := by simpa using hx
    rcases hx' with rfl | rfl | rfl | rfl
    · exact hexValue_isSome_iff.mp (Option.isSome_of_eq_some ha)
    · exact hexValue_isSome_iff.mp (Option.isSome_of_eq_some hb)
    · exact hexValue_isSome_iff.mp (Option.isSome_of_eq_some hc)
    · exact hexValue_isSome_iff.mp (Option.isSome_of_eq_some hd)
  · rintro ⟨g, text, rfl, hg, hhex, htext⟩
    obtain ⟨a, b, c, d, rfl⟩ : ∃ a b c d, g = [a, b, c, d] := by
      match g, hg with
      | [a, b, c, d], _ => exact ⟨a, b, c, d, rfl⟩
    have hdigit : ∀ x ∈ [a, b, c, d], ∃ v, hexValue x = some v := fun x hx =>
      Option.isSome_iff_exists.mp (hexValue_isSome_iff.mpr (hhex x hx))
    obtain ⟨va, ha⟩ := hdigit a (by simp)
    obtain ⟨vb, hb⟩ := hdigit b (by simp)
    obtain ⟨vc, hc⟩ := hdigit c (by simp)
    obtain ⟨vd, hd⟩ := hdigit d (by simp)
    obtain ⟨uuid, huuid⟩ := Option.isSome_iff_exists.mp (UUID.isSome_fromString_iff.mpr htext)
    obtain ⟨h₁, h₂, h₃, h₄⟩ := (swarm_digits_iff (hexValue_lt ha) (hexValue_lt hb) (hexValue_lt hc)
      (hexValue_lt hd)).mp rfl
    exact ⟨⟨pushDigit (pushDigit (pushDigit (pushDigit 0 va) vb) vc) vd, uuid⟩,
      fromString_eq_some_iff.mpr ⟨a, b, c, d, text, rfl, h₁ ▸ ha, h₂ ▸ hb, h₃ ▸ hc, h₄ ▸ hd, huuid⟩⟩

theorem fromString_toString (id : HierarchicalID) : fromString id.toString = some id := by
  have hlast : (id.swarmId &&& 0xF).toUInt8 < 16 := by
    rw [UInt8.lt_iff_toNat_lt, toNat_last_digit]
    exact Nat.mod_lt _ (by decide)
  refine fromString_eq_some_iff.mpr ⟨_, _, _, _, id.unitId.toString, ?_,
    hexValue_hexChar (digit_lt _ 12 (by decide)), hexValue_hexChar (digit_lt _ 8 (by decide)),
    hexValue_hexChar (digit_lt _ 4 (by decide)), hexValue_hexChar hlast,
    UUID.fromString_toString id.unitId⟩
  simp only [toString, List.cons_append, List.nil_append]

/-- An accepted text comes back in lower case. -/
theorem toString_of_fromString {s : StringView} {id : HierarchicalID} (h : fromString s = some id) :
    id.toString = s.map lowerHex := by
  obtain ⟨a, b, c, d, text, rfl, ha, hb, hc, hd, huuid⟩ := fromString_eq_some_iff.mp h
  unfold toString
  rw [hexChar_of_hexValue ha, hexChar_of_hexValue hb, hexChar_of_hexValue hc,
    hexChar_of_hexValue hd, UUID.toString_of_fromString huuid]
  rfl

theorem map_lowerHex {s : StringView} (h : Form s) : s.map lowerHex = s.map asciiLower := by
  obtain ⟨g, text, rfl, -, hhex, htext⟩ := h
  rw [List.map_append, List.map_append, List.map_cons, List.map_cons, UUID.map_lowerHex htext,
    List.map_congr_left fun c hc => lowerHex_eq_asciiLower (hhex c hc)]
  rfl

end HierarchicalID

/-! ### The result -/

/-- Two texts of one id: a codec whose texts come back as `norm` makes of them. -/
theorem fromString_eq_iff {I : Type} {fromString : StringView → Option I}
    {toString : I → StringView} {norm : StringView → StringView}
    (hround : ∀ id, fromString (toString id) = some id)
    (hback : ∀ s id, fromString s = some id → toString id = norm s) {s t : StringView} {i j : I}
    (hs : fromString s = some i) (ht : fromString t = some j) : i = j ↔ norm s = norm t := by
  rw [← hback s i hs, ← hback t j ht]
  refine ⟨congrArg toString, fun h => ?_⟩
  exact Option.some.inj ((hround i).symm.trans ((congrArg fromString h).trans (hround j)))

/-- **Ids and their texts.** Of a UUID and of a hierarchical id alike: a text is accepted if it has
the form, in either case; an id comes back from its text; an accepted text comes back with `A` to
`F` in lower case; and two accepted texts are of one id if they are equal up to the case of letters.
-/
theorem id_text_codec :
    ((∀ s, (UUID.fromString s).isSome ↔ UUID.Form s) ∧
      (∀ u, UUID.fromString u.toString = some u) ∧
      (∀ s u, UUID.fromString s = some u → u.toString = s.map lowerHex) ∧
      ∀ s t u v, UUID.fromString s = some u → UUID.fromString t = some v →
        (u = v ↔ s.map asciiLower = t.map asciiLower)) ∧
    (∀ s, (HierarchicalID.fromString s).isSome ↔ HierarchicalID.Form s) ∧
      (∀ id, HierarchicalID.fromString id.toString = some id) ∧
      (∀ s id, HierarchicalID.fromString s = some id → id.toString = s.map lowerHex) ∧
      ∀ s t i j, HierarchicalID.fromString s = some i → HierarchicalID.fromString t = some j →
        (i = j ↔ s.map asciiLower = t.map asciiLower) := by
  refine ⟨⟨fun _ => UUID.isSome_fromString_iff, UUID.fromString_toString,
    fun _ _ => UUID.toString_of_fromString, fun s t u v hs ht => ?_⟩,
    fun _ => HierarchicalID.isSome_fromString_iff, HierarchicalID.fromString_toString,
    fun _ _ => HierarchicalID.toString_of_fromString, fun s t i j hs ht => ?_⟩
  · rw [← UUID.map_lowerHex (UUID.isSome_fromString_iff.mp (Option.isSome_of_eq_some hs)),
      ← UUID.map_lowerHex (UUID.isSome_fromString_iff.mp (Option.isSome_of_eq_some ht))]
    exact fromString_eq_iff UUID.fromString_toString
      (fun _ _ => UUID.toString_of_fromString) hs ht
  · rw [← HierarchicalID.map_lowerHex
        (HierarchicalID.isSome_fromString_iff.mp (Option.isSome_of_eq_some hs)),
      ← HierarchicalID.map_lowerHex
        (HierarchicalID.isSome_fromString_iff.mp (Option.isSome_of_eq_some ht))]
    exact fromString_eq_iff HierarchicalID.fromString_toString
      (fun _ _ => HierarchicalID.toString_of_fromString) hs ht

end MithAtomas
