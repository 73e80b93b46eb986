import Mathlib

/-!
# JSON texts

The grammar of RFC 8259 on bytes, and what a text stands for: `JsonText s j`. In a string a byte of
0x80 or more stands for itself, so the strings need not be UTF-8. A number is a rational, an object
the list of its members in their order. An escaped code point stands for its UTF-8 bytes; a
surrogate counts only as half of a pair.

No text stands for two things (`JsonText.unique`). The proof reads two derivations from the left and
keeps in step what is left of the texts, up to white space (`Unambiguous`). That a value ends is
seen from the byte behind it, which is none that could continue a number (`Ends`).
-/

namespace Rfc8259

abbrev Bytes := List UInt8

/-- What a JSON text stands for. -/
inductive Json where
  | null
  | boolean (v : Bool)
  | number (q : ℚ)
  | string (s : Bytes)
  | array (elements : List Json)
  | object (members : List (Bytes × Json))

/-! ### The grammar -/

/-- `ws = *( %x20 / %x09 / %x0A / %x0D )` -/
def IsWs (b : UInt8) : Prop :=
  b = 0x20 ∨ b = 0x09 ∨ b = 0x0A ∨ b = 0x0D

/-- `DIGIT = %x30-39` -/
def IsDigit (b : UInt8) : Prop :=
  0x30 ≤ b ∧ b ≤ 0x39

instance : DecidablePred IsWs := fun _ => inferInstanceAs (Decidable (_ ∨ _))

instance : DecidablePred IsDigit := fun _ => inferInstanceAs (Decidable (_ ∧ _))

def Ws (s : Bytes) : Prop :=
  ∀ b ∈ s, IsWs b

def Digits (s : Bytes) : Prop :=
  s ≠ [] ∧ ∀ b ∈ s, IsDigit b

/-- A structural character: `begin-array = ws %x5B ws`, and so on. -/
inductive Token (c : UInt8) : Bytes → Prop
  | mk {w w' : Bytes} (hw : Ws w) (hw' : Ws w') : Token c (w ++ c :: w')

/-- The value of some digits. -/
def natValue (s : Bytes) : ℕ :=
  Nat.ofDigits 10 (s.reverse.map fun d => d.toNat - 0x30)

/-- `int = zero / ( digit1-9 *DIGIT )` -/
def IntPart (s : Bytes) : Prop :=
  Digits s ∧ (s.head? = some 0x30 → s = [0x30])

/-- `[ frac ]`, where `frac = decimal-point 1*DIGIT` -/
inductive FracPart : Bytes → ℚ → Prop
  | absent : FracPart [] 0
  | present {s : Bytes} (hs : Digits s) : FracPart (0x2E :: s) (natValue s / 10 ^ s.length)

/-- `[ minus / plus ]` of an exponent -/
inductive ExpSign : Bytes → ℤ → Prop
  | absent : ExpSign [] 1
  | plus : ExpSign [0x2B] 1
  | minus : ExpSign [0x2D] (-1)

/-- `[ exp ]`, where `exp = e [ minus / plus ] 1*DIGIT` -/
inductive ExpPart : Bytes → ℤ → Prop
  | absent : ExpPart [] 0
  | present {e : UInt8} {sign s : Bytes} {v : ℤ} (he : e = 0x65 ∨ e = 0x45) (hsign : ExpSign sign v)
      (hs : Digits s) : ExpPart (e :: (sign ++ s)) (v * natValue s)

/-- `[ minus ]` -/
inductive Minus : Bytes → ℚ → Prop
  | absent : Minus [] 1
  | present : Minus [0x2D] (-1)

/-- `number = [ minus ] int [ frac ] [ exp ]` -/
inductive Number : Bytes → ℚ → Prop
  | mk {m i f e : Bytes} {sign frac : ℚ} {exp : ℤ} (hm : Minus m sign) (hi : IntPart i)
      (hf : FracPart f frac) (he : ExpPart e exp) :
      Number (m ++ (i ++ (f ++ e))) (sign * (natValue i + frac) * 10 ^ exp)

/-- What the second character of a short escape stands for. -/
def unescape : UInt8 → Option UInt8
  | 0x22 => some 0x22
  | 0x5C => some 0x5C
  | 0x2F => some 0x2F
  | 0x62 => some 0x08
  | 0x66 => some 0x0C
  | 0x6E => some 0x0A
  | 0x72 => some 0x0D
  | 0x74 => some 0x09
  | _ => none

/-- `HEXDIG`, in either case. -/
def hexValue (b : UInt8) : Option ℕ :=
  if 0x30 ≤ b ∧ b ≤ 0x39 then some (b.toNat - 0x30)
  else if 0x41 ≤ b ∧ b ≤ 0x46 then some (b.toNat - 0x37)
  else if 0x61 ≤ b ∧ b ≤ 0x66 then some (b.toNat - 0x57)
  else none

/-- `4HEXDIG` -/
def hex4 (a b c d : UInt8) : Option ℕ := do
  let a ← hexValue a
  let b ← hexValue b
  let c ← hexValue c
  let d ← hexValue d
  return ((a * 16 + b) * 16 + c) * 16 + d

/-- The bytes of a code point. -/
def utf8 (n : ℕ) : Bytes :=
  String.utf8EncodeChar (Char.ofNat n)

/-- `char`, with the bytes it stands for. -/
inductive CharText : Bytes → Bytes → Prop
  /-- `unescaped = %x20-21 / %x23-5B / %x5D-10FFFF` -/
  | unescaped {b : UInt8} (hb : 0x20 ≤ b) (hquote : b ≠ 0x22) (hbackslash : b ≠ 0x5C) :
      CharText [b] [b]
  | escape {c b : UInt8} (h : unescape c = some b) : CharText [0x5C, c] [b]
  | codePoint {a b c d : UInt8} {n : ℕ} (hn : hex4 a b c d = some n) (hchar : n.isValidChar) :
      CharText [0x5C, 0x75, a, b, c, d] (utf8 n)
  | surrogates {a b c d a' b' c' d' : UInt8} {hi lo : ℕ} (hhi : hex4 a b c d = some hi)
      (hlo : hex4 a' b' c' d' = some lo) (hhigh : 0xD800 ≤ hi ∧ hi < 0xDC00)
      (hlow : 0xDC00 ≤ lo ∧ lo < 0xE000) :
      CharText [0x5C, 0x75, a, b, c, d, 0x5C, 0x75, a', b', c', d']
        (utf8 (0x10000 + (hi - 0xD800) * 0x400 + (lo - 0xDC00)))

/-- `*char` -/
inductive Chars : Bytes → Bytes → Prop
  | nil : Chars [] []
  | cons {c s v w : Bytes} (hc : CharText c v) (hs : Chars s w) : Chars (c ++ s) (v ++ w)

/-- `string = quotation-mark *char quotation-mark` -/
inductive Str : Bytes → Bytes → Prop
  | mk {s v : Bytes} (h : Chars s v) : Str (0x22 :: (s ++ [0x22])) v

section Lists

variable {α : Type} (P : Bytes → α → Prop)

/-- `*( value-separator item )` -/
inductive More : Bytes → List α → Prop
  | nil : More [] []
  | cons {sep s t : Bytes} {a : α} {as : List α} (hsep : Token 0x2C sep) (hs : P s a)
      (ht : More t as) : More (sep ++ (s ++ t)) (a :: as)

/-- `[ item *( value-separator item ) ]` -/
inductive Items : Bytes → List α → Prop
  | nil : Items [] []
  | cons {s t : Bytes} {a : α} {as : List α} (hs : P s a) (ht : More P t as) :
      Items (s ++ t) (a :: as)

/-- `member = string name-separator value` -/
inductive Member : Bytes → Bytes × α → Prop
  | mk {s sep t k : Bytes} {a : α} (hk : Str s k) (hsep : Token 0x3A sep) (ht : P t a) :
      Member (s ++ (sep ++ t)) (k, a)

end Lists

/-- `value = false / null / true / object / array / number / string` -/
inductive Value : Bytes → Json → Prop
  | null : Value [0x6E, 0x75, 0x6C, 0x6C] .null
  | isTrue : Value [0x74, 0x72, 0x75, 0x65] (.boolean true)
  | isFalse : Value [0x66, 0x61, 0x6C, 0x73, 0x65] (.boolean false)
  | number {s : Bytes} {q : ℚ} (h : Number s q) : Value s (.number q)
  | string {s v : Bytes} (h : Str s v) : Value s (.string v)
  | array {b s e : Bytes} {elements : List Json} (hb : Token 0x5B b) (h : Items Value s elements)
      (he : Token 0x5D e) : Value (b ++ (s ++ e)) (.array elements)
  | object {b s e : Bytes} {members : List (Bytes × Json)} (hb : Token 0x7B b)
      (h : Items (Member Value) s members) (he : Token 0x7D e) :
      Value (b ++ (s ++ e)) (.object members)

/-- `JSON-text = ws value ws` -/
inductive JsonText : Bytes → Json → Prop
  | mk {w s w' : Bytes} {j : Json} (hw : Ws w) (h : Value s j) (hw' : Ws w') :
      JsonText (w ++ (s ++ w')) j

/-! ### What is left of a text -/

/-- No byte with `p` comes next. -/
def Avoids (p : UInt8 → Prop) (s : Bytes) : Prop :=
  ∀ b ∈ s.head?, ¬ p b

section Lexical

variable {p : UInt8 → Prop} {c c' : UInt8} {s s' r r' : Bytes}

/-- **The longest match.** A text splits in one way into bytes with `p` and a rest that begins with
none. -/
theorem longest_match (hs : ∀ b ∈ s, p b) (hs' : ∀ b ∈ s', p b) (hr : Avoids p r)
    (hr' : Avoids p r') (h : s ++ r = s' ++ r') : s = s' ∧ r = r' := by
  induction s generalizing s' with
  | nil =>
    -- the longer text would go on with a byte that the rest must not begin with
    cases s' with
    | nil => exact ⟨rfl, h⟩
    | cons b s' =>
      have hb : b ∈ r.head? := by
        rw [List.nil_append] at h
        rw [h]
        rfl
      exact absurd (hs' b List.mem_cons_self) (hr b hb)
  | cons b s ih =>
    cases s' with
    | nil =>
      have hb : b ∈ r'.head? := by
        rw [List.nil_append] at h
        rw [← h]
        rfl
      exact absurd (hs b List.mem_cons_self) (hr' b hb)
    | cons b' s' =>
      obtain ⟨rfl, htail⟩ := List.cons.inj h
      obtain ⟨rfl, hrest⟩ := ih (fun x hx => hs x (.tail _ hx))
        (fun x hx => hs' x (.tail _ hx)) htail
      exact ⟨rfl, hrest⟩

/-- The text behind white space. -/
def skip (s : Bytes) : Bytes :=
  s.dropWhile fun b => decide (IsWs b)

theorem skip_append (hs : Ws s) (r : Bytes) : skip (s ++ r) = skip r := by
  unfold skip
  rw [List.dropWhile_append_of_pos]
  exact fun b hb => decide_eq_true (hs b hb)

theorem skip_of_avoids (h : Avoids IsWs s) : skip s = s := by
  cases s with
  | nil => rfl
  | cons b s => exact List.dropWhile_cons_of_neg (by simpa using h b rfl)

theorem avoids_cons {b : UInt8} (h : ¬ p b) (s : Bytes) : Avoids p (b :: s) := by
  rintro _ ⟨⟩
  exact h

theorem Token.bare (c : UInt8) : Token c [c] :=
  @Token.mk c [] [] (by rintro _ ⟨⟩) (by rintro _ ⟨⟩)

theorem Token.skip_append (h : Token c s) (hc : ¬ IsWs c) :
    ∃ w, Ws w ∧ ∀ r, skip (s ++ r) = c :: (w ++ r) := by
  obtain ⟨hw, hw'⟩ := h
  rename_i w w'
  refine ⟨w', hw', fun r => ?_⟩
  rw [List.append_assoc, Rfc8259.skip_append hw, List.cons_append]
  exact skip_of_avoids (avoids_cons hc _)

/-- Structural characters are read in step. -/
theorem Token.unique (h : Token c s) (h' : Token c' s') (hc : ¬ IsWs c) (hc' : ¬ IsWs c')
    (heq : skip (s ++ r) = skip (s' ++ r')) : c = c' ∧ skip r = skip r' := by
  obtain ⟨w, hw, hs⟩ := h.skip_append hc
  obtain ⟨w', hw', hs'⟩ := h'.skip_append hc'
  rw [hs, hs'] at heq
  obtain ⟨rfl, htail⟩ := List.cons.inj heq
  have hskip := congrArg skip htail
  rw [Rfc8259.skip_append hw, Rfc8259.skip_append hw'] at hskip
  exact ⟨rfl, hskip⟩

/-- A byte that can be part of a number. -/
def IsNumeric (b : UInt8) : Prop :=
  IsDigit b ∨ b = 0x2B ∨ b = 0x2D ∨ b = 0x2E ∨ b = 0x65 ∨ b = 0x45

instance : DecidablePred IsNumeric := fun _ => inferInstanceAs (Decidable (_ ∨ _))

/-- A value that has been read to this point has been read to its end. -/
abbrev Ends (r : Bytes) : Prop :=
  Avoids IsNumeric r

theorem not_numeric_of_isWs {b : UInt8} (h : IsWs b) : ¬ IsNumeric b := by
  rcases h with rfl | rfl | rfl | rfl <;> decide

theorem Ws.ends (h : Ws s) : Ends s := by
  intro b hb
  exact not_numeric_of_isWs (h b (List.mem_of_mem_head? hb))

theorem Token.ends (h : Token c s) (hc : ¬ IsNumeric c) (r : Bytes) : Ends (s ++ r) := by
  obtain ⟨hw, -⟩ := h
  rename_i w w'
  cases w with
  | nil => exact avoids_cons hc _
  | cons b w => exact avoids_cons (not_numeric_of_isWs (hw b List.mem_cons_self)) _

end Lexical

/-! ### Numbers -/

section Numbers

variable {s s' r r' : Bytes} {v v' : ℚ} {n n' : ℤ}

theorem Avoids.mono {p q : UInt8 → Prop} (h : Avoids p s) (hle : ∀ b, q b → p b) : Avoids q s :=
  fun b hb hq => h b hb (hle b hq)

theorem Digits.unique (h : Digits s) (h' : Digits s') (hr : Avoids IsDigit r)
    (hr' : Avoids IsDigit r') (heq : s ++ r = s' ++ r') : s = s' ∧ r = r' :=
  longest_match h.2 h'.2 hr hr' heq

/-- Digits begin with a digit. -/
theorem Digits.exists_cons (h : Digits s) : ∃ d t, s = d :: t ∧ IsDigit d := by
  obtain ⟨d, t, rfl⟩ := List.exists_cons_of_ne_nil h.1
  exact ⟨d, t, rfl, h.2 d List.mem_cons_self⟩

theorem ExpSign.unique (h : ExpSign s n) (h' : ExpSign s' n') {d d' : Bytes} (hd : Digits d)
    (hd' : Digits d') (heq : s ++ (d ++ r) = s' ++ (d' ++ r')) :
    n = n' ∧ d ++ r = d' ++ r' := by
  obtain ⟨b, t, rfl, hb⟩ := hd.exists_cons
  obtain ⟨b', t', rfl, hb'⟩ := hd'.exists_cons
  have hplus : ¬ IsDigit 0x2B := by decide
  have hminus : ¬ IsDigit 0x2D := by decide
  cases h <;> cases h' <;> obtain ⟨hhead, htail⟩ := List.cons.inj heq
  case absent.absent => exact ⟨rfl, heq⟩
  case absent.plus => exact absurd (hhead ▸ hb) hplus
  case absent.minus => exact absurd (hhead ▸ hb) hminus
  case plus.absent => exact absurd (hhead ▸ hb') hplus
  case plus.plus => exact ⟨rfl, htail⟩
  case plus.minus => exact absurd hhead (by decide)
  case minus.absent => exact absurd (hhead ▸ hb') hminus
  case minus.plus => exact absurd hhead (by decide)
  case minus.minus => exact ⟨rfl, htail⟩

theorem ExpPart.unique (h : ExpPart s n) (h' : ExpPart s' n') (hr : Ends r) (hr' : Ends r')
    (heq : s ++ r = s' ++ r') : n = n' ∧ r = r' := by
  have hexp : ∀ e : UInt8, e = 0x65 ∨ e = 0x45 → IsNumeric e := by
    rintro e (rfl | rfl) <;> decide
  -- an `e` behind the digits is part of the number, on both sides
  cases h with
  | absent =>
    cases h' with
    | absent => exact ⟨rfl, heq⟩
    | @present e sign s v he hsign hs =>
      have hhead : e ∈ r.head? := by
        rw [show r = _ from heq]
        rfl
      exact absurd (hexp e he) (hr e hhead)
  | @present e sign d v he hsign hd =>
    cases h' with
    | absent =>
      have hhead : e ∈ r'.head? := by
        rw [show r' = _ from heq.symm]
        rfl
      exact absurd (hexp e he) (hr' e hhead)
    | @present e' sign' d' v' he' hsign' hd' =>
      have htail : sign ++ d ++ r = sign' ++ d' ++ r' := (List.cons.inj heq).2
      rw [List.append_assoc, List.append_assoc] at htail
      obtain ⟨rfl, hdigits⟩ := hsign.unique hsign' hd hd' htail
      obtain ⟨rfl, hrest⟩ := hd.unique hd' (hr.mono fun b => .inl) (hr'.mono fun b => .inl) hdigits
      exact ⟨rfl, hrest⟩

/-- What may follow the integer part and the fraction. -/
theorem ExpPart.avoids (h : ExpPart s n) (hr : Ends r) :
    Avoids (fun b => IsDigit b ∨ b = 0x2E) (s ++ r) := by
  cases h with
  | absent => exact hr.mono fun b hb => hb.elim .inl fun hdot => .inr (.inr (.inr (.inl hdot)))
  | present he hsign hs =>
    refine avoids_cons ?_ _
    rcases he with rfl | rfl <;> decide

theorem FracPart.unique (h : FracPart s v) (h' : FracPart s' v')
    (hr : Avoids (fun b => IsDigit b ∨ b = 0x2E) r)
    (hr' : Avoids (fun b => IsDigit b ∨ b = 0x2E) r')
    (heq : s ++ r = s' ++ r') : v = v' ∧ r = r' := by
  cases h with
  | absent =>
    cases h' with
    | absent => exact ⟨rfl, heq⟩
    | present hs =>
      have hhead : 0x2E ∈ r.head? := by
        rw [show r = _ from heq]
        rfl
      exact absurd (.inr rfl) (hr 0x2E hhead)
  | present hs =>
    cases h' with
    | absent =>
      have hhead : 0x2E ∈ r'.head? := by
        rw [show r' = _ from heq.symm]
        rfl
      exact absurd (.inr rfl) (hr' 0x2E hhead)
    | present hs' =>
      obtain ⟨rfl, hrest⟩ := hs.unique hs' (hr.mono fun b => .inl) (hr'.mono fun b => .inl)
        (List.cons.inj heq).2
      exact ⟨rfl, hrest⟩

theorem FracPart.avoids (h : FracPart s v) (hr : Avoids (fun b => IsDigit b ∨ b = 0x2E) r) :
    Avoids IsDigit (s ++ r) := by
  cases h with
  | absent => exact hr.mono fun b => .inl
  | present hs => exact avoids_cons (by decide) _

theorem Minus.unique (h : Minus s v) (h' : Minus s' v') {i i' : Bytes} (hi : Digits i)
    (hi' : Digits i') (heq : s ++ (i ++ r) = s' ++ (i' ++ r')) :
    v = v' ∧ i ++ r = i' ++ r' := by
  obtain ⟨b, t, rfl, hb⟩ := hi.exists_cons
  obtain ⟨b', t', rfl, hb'⟩ := hi'.exists_cons
  have hminus : ¬ IsDigit 0x2D := by decide
  cases h <;> cases h' <;> obtain ⟨hhead, htail⟩ := List.cons.inj heq
  case absent.absent => exact ⟨rfl, heq⟩
  case absent.present => exact absurd (hhead ▸ hb) hminus
  case present.absent => exact absurd (hhead ▸ hb') hminus
  case present.present => exact ⟨rfl, htail⟩

/-- A number that has ended is read in one way. -/
theorem Number.unique (h : Number s v) (h' : Number s' v') (hr : Ends r) (hr' : Ends r')
    (heq : s ++ r = s' ++ r') : v = v' ∧ r = r' := by
  obtain ⟨hm, hi, hf, he⟩ := h
  obtain ⟨hm', hi', hf', he'⟩ := h'
  simp only [List.append_assoc] at heq
  obtain ⟨rfl, hint⟩ := hm.unique hm' hi.1 hi'.1 heq
  obtain ⟨rfl, hfrac⟩ := hi.1.unique hi'.1 (hf.avoids (he.avoids hr)) (hf'.avoids (he'.avoids hr'))
    hint
  obtain ⟨rfl, hexp⟩ := hf.unique hf' (he.avoids hr) (he'.avoids hr') hfrac
  obtain ⟨rfl, hrest⟩ := he.unique he' hr hr' hexp
  exact ⟨rfl, hrest⟩

/-- A number begins with a minus sign or a digit. -/
theorem Number.exists_cons (h : Number s v) : ∃ b t, s = b :: t ∧ (b = 0x2D ∨ IsDigit b) := by
  obtain ⟨hm, hi, hf, he⟩ := h
  cases hm with
  | absent =>
    obtain ⟨d, t, rfl, hd⟩ := hi.1.exists_cons
    exact ⟨d, _, rfl, .inr hd⟩
  | present => exact ⟨0x2D, _, rfl, .inl rfl⟩

end Numbers

/-! ### Strings -/

section Strings

variable {s s' r r' v v' : Bytes}

/-- A surrogate is no code point. -/
theorem not_isValidChar {n : ℕ} (h : 0xD800 ≤ n ∧ n < 0xDC00) : ¬ n.isValidChar := by
  unfold Nat.isValidChar
  omega

/-- One character is read in one way. -/
theorem CharText.unique (h : CharText s v) (h' : CharText s' v') (heq : s ++ r = s' ++ r') :
    v = v' ∧ r = r' := by
  have hu : ∀ b, unescape 0x75 ≠ some b := by
    rintro b ⟨⟩
  -- without a backslash the byte is the character; with one, the second byte decides, and after `u`
  -- whether the code unit is a surrogate
  cases h with
  | unescaped hb hquote hbackslash =>
    cases h' with
    | unescaped =>
      obtain ⟨rfl, hrest⟩ := List.cons.inj heq
      exact ⟨rfl, hrest⟩
    | escape | codePoint | surrogates => exact absurd (List.cons.inj heq).1 hbackslash
  | escape hescape =>
    cases h' with
    | unescaped hb hquote hbackslash => exact absurd (List.cons.inj heq).1.symm hbackslash
    | escape hescape' =>
      obtain ⟨rfl, hrest⟩ := List.cons.inj (List.cons.inj heq).2
      obtain rfl := Option.some.inj (hescape.symm.trans hescape')
      exact ⟨rfl, hrest⟩
    | codePoint | surrogates =>
      obtain ⟨rfl, -⟩ := List.cons.inj (List.cons.inj heq).2
      exact absurd hescape (hu _)
  | codePoint hn hchar =>
    cases h' with
    | unescaped hb hquote hbackslash => exact absurd (List.cons.inj heq).1.symm hbackslash
    | escape hescape' =>
      obtain ⟨rfl, -⟩ := List.cons.inj (List.cons.inj heq).2
      exact absurd hescape' (hu _)
    | codePoint hn' hchar' =>
      simp only [List.cons_append, List.nil_append, List.cons.injEq, true_and] at heq
      obtain ⟨rfl, rfl, rfl, rfl, hrest⟩ := heq
      obtain rfl := Option.some.inj (hn.symm.trans hn')
      exact ⟨rfl, hrest⟩
    | surrogates hhi hlo hhigh hlow =>
      simp only [List.cons_append, List.nil_append, List.cons.injEq, true_and] at heq
      obtain ⟨rfl, rfl, rfl, rfl, -⟩ := heq
      obtain rfl := Option.some.inj (hn.symm.trans hhi)
      exact absurd hchar (not_isValidChar hhigh)
  | surrogates hhi hlo hhigh hlow =>
    cases h' with
    | unescaped hb hquote hbackslash => exact absurd (List.cons.inj heq).1.symm hbackslash
    | escape hescape' =>
      obtain ⟨rfl, -⟩ := List.cons.inj (List.cons.inj heq).2
      exact absurd hescape' (hu _)
    | codePoint hn' hchar' =>
      simp only [List.cons_append, List.nil_append, List.cons.injEq, true_and] at heq
      obtain ⟨rfl, rfl, rfl, rfl, -⟩ := heq
      obtain rfl := Option.some.inj (hhi.symm.trans hn')
      exact absurd hchar' (not_isValidChar hhigh)
    | surrogates hhi' hlo' hhigh' hlow' =>
      simp only [List.cons_append, List.nil_append, List.cons.injEq, true_and] at heq
      obtain ⟨rfl, rfl, rfl, rfl, rfl, rfl, rfl, rfl, hrest⟩ := heq
      obtain rfl := Option.some.inj (hhi.symm.trans hhi')
      obtain rfl := Option.some.inj (hlo.symm.trans hlo')
      exact ⟨rfl, hrest⟩

/-- No character is a quotation mark. -/
theorem CharText.ne_quote (h : CharText s v) : ∃ b t, s = b :: t ∧ b ≠ 0x22 := by
  cases h with
  | unescaped hb hquote hbackslash => exact ⟨_, _, rfl, hquote⟩
  | escape | codePoint | surrogates => exact ⟨_, _, rfl, by decide⟩

/-- Characters are read up to the quotation mark. -/
theorem Chars.unique (h : Chars s v) (h' : Chars s' v') (heq : s ++ 0x22 :: r = s' ++ 0x22 :: r') :
    v = v' ∧ r = r' := by
  induction h generalizing s' v' with
  | nil =>
    cases h' with
    | nil => exact ⟨rfl, (List.cons.inj heq).2⟩
    | cons hc hs =>
      obtain ⟨b, t, rfl, hb⟩ := hc.ne_quote
      exact absurd (List.cons.inj heq).1.symm hb
  | cons hc hs ih =>
    cases h' with
    | nil =>
      obtain ⟨b, t, rfl, hb⟩ := hc.ne_quote
      exact absurd (List.cons.inj heq).1 hb
    | cons hc' hs' =>
      rw [List.append_assoc, List.append_assoc] at heq
      obtain ⟨rfl, htail⟩ := hc.unique hc' heq
      obtain ⟨rfl, hrest⟩ := ih hs' htail
      exact ⟨rfl, hrest⟩

theorem Str.unique (h : Str s v) (h' : Str s' v') (heq : s ++ r = s' ++ r') : v = v' ∧ r = r' := by
  obtain ⟨hchars⟩ := h
  obtain ⟨hchars'⟩ := h'
  refine hchars.unique hchars' ?_
  have htail := (List.cons.inj heq).2
  simpa using htail

end Strings

/-! ### Lists -/

/-- Items of up to `n` bytes are read in one way, and the rests are in step. -/
def Unambiguous {α : Type} (P : Bytes → α → Prop) (n : ℕ) : Prop :=
  ∀ ⦃s s' r r' : Bytes⦄ ⦃a a' : α⦄, s.length ≤ n → P s a → P s' a' → Ends r → Ends r' →
    skip (s ++ r) = skip (s' ++ r') → a = a' ∧ skip r = skip r'

/-- A byte that can close a list. -/
structure Closing (close : UInt8) : Prop where
  notNumeric : ¬ IsNumeric close
  notWs : ¬ IsWs close
  notComma : close ≠ 0x2C

theorem closing_bracket : Closing 0x5D :=
  ⟨by decide, by decide, by decide⟩

theorem closing_brace : Closing 0x7D :=
  ⟨by decide, by decide, by decide⟩

section Lists

variable {α : Type} {P : Bytes → α → Prop} {n : ℕ} {close : UInt8} {s s' e e' r r' : Bytes}
  {as as' : List α}

/-- Behind an item comes a separator or the end of the list. -/
theorem More.ends (h : More P s as) (he : Token close e) (hclose : Closing close) (r : Bytes) :
    Ends (s ++ (e ++ r)) := by
  cases h with
  | nil => exact he.ends hclose.notNumeric r
  | cons hsep hs ht =>
    rw [List.append_assoc]
    exact hsep.ends (by decide) _

theorem More.unique (hP : Unambiguous P n) (hn : s.length ≤ n) (h : More P s as)
    (h' : More P s' as')
    (he : Token close e) (he' : Token close e') (hclose : Closing close)
    (heq : skip (s ++ (e ++ r)) = skip (s' ++ (e' ++ r'))) : as = as' ∧ skip r = skip r' := by
  have hcomma : ¬ IsWs 0x2C := by decide
  induction h generalizing s' as' with
  | nil =>
    cases h' with
    | nil => exact ⟨rfl, (he.unique he' hclose.notWs hclose.notWs heq).2⟩
    | cons hsep' hs' ht' =>
      rw [List.append_assoc] at heq
      exact absurd (he.unique hsep' hclose.notWs hcomma heq).1 hclose.notComma
  | @cons sep s t a as hsep hs ht ih =>
    rw [List.length_append, List.length_append] at hn
    cases h' with
    | nil =>
      rw [List.append_assoc] at heq
      exact absurd (hsep.unique he' hcomma hclose.notWs heq).1.symm hclose.notComma
    | cons hsep' hs' ht' =>
      simp only [List.append_assoc] at heq
      have hitem := (hsep.unique hsep' hcomma hcomma heq).2
      obtain ⟨rfl, hmore⟩ := hP (by omega) hs hs' (ht.ends he hclose r)
        (ht'.ends he' hclose r') hitem
      obtain ⟨rfl, hrest⟩ := ih (by omega) ht' hmore
      exact ⟨rfl, hrest⟩

theorem Items.unique (hP : Unambiguous P n)
    (hstart : ∀ s a r, P s a → ∃ b t, skip (s ++ r) = b :: t ∧ b ≠ close) (hn : s.length ≤ n)
    (h : Items P s as) (h' : Items P s' as') (he : Token close e) (he' : Token close e')
    (hclose : Closing close) (heq : skip (s ++ (e ++ r)) = skip (s' ++ (e' ++ r'))) :
    as = as' ∧ skip r = skip r' := by
  -- an empty list is told from others by what comes first
  have hempty : ∀ {s e a t} (r r' : Bytes), P s a → Token close e →
      skip (s ++ (t ++ r)) ≠ skip (e ++ r') := by
    intro s e a t r r' hs he heq
    obtain ⟨b, rest, hskip, hne⟩ := hstart s a (t ++ r) hs
    obtain ⟨w, -, hw⟩ := he.skip_append hclose.notWs
    rw [hskip, hw] at heq
    exact hne (List.cons.inj heq).1
  cases h with
  | nil =>
    cases h' with
    | nil => exact ⟨rfl, (he.unique he' hclose.notWs hclose.notWs heq).2⟩
    | cons hs' ht' =>
      rw [List.append_assoc, List.nil_append] at heq
      exact absurd heq.symm (hempty _ _ hs' he)
  | cons hs ht =>
    rw [List.length_append] at hn
    cases h' with
    | nil =>
      rw [List.append_assoc, List.nil_append] at heq
      exact absurd heq (hempty _ _ hs he')
    | cons hs' ht' =>
      rw [List.append_assoc, List.append_assoc] at heq
      obtain ⟨rfl, hmore⟩ := hP (by omega) hs hs' (ht.ends he hclose r) (ht'.ends he' hclose r') heq
      obtain ⟨rfl, hrest⟩ := ht.unique hP (by omega) ht' he he' hclose hmore
      exact ⟨rfl, hrest⟩

/-- Nothing is skipped before a string. -/
theorem Str.skip_append {v : Bytes} (h : Str s v) (r : Bytes) : skip (s ++ r) = s ++ r := by
  cases h
  exact skip_of_avoids (avoids_cons (by decide) _)

theorem Member.unambiguous (hP : Unambiguous P n) : Unambiguous (Member P) n := by
  rintro _ _ r r' _ _ hn ⟨hk, hsep, ht⟩ ⟨hk', hsep', ht'⟩ hr hr' heq
  simp only [List.length_append] at hn
  simp only [List.append_assoc] at heq
  rw [hk.skip_append, hk'.skip_append] at heq
  obtain ⟨rfl, hcolon⟩ := hk.unique hk' heq
  have hcolon' : ¬ IsWs 0x3A := by decide
  have hvalue := (hsep.unique hsep' hcolon' hcolon' (congrArg skip hcolon)).2
  obtain ⟨rfl, hrest⟩ := hP (by omega) ht ht' hr hr' hvalue
  exact ⟨rfl, hrest⟩

end Lists

/-! ### Values -/

inductive Kind where
  | null
  | boolean (v : Bool)
  | number
  | string
  | array
  | object
  deriving DecidableEq

def Json.kind : Json → Kind
  | .null => .null
  | .boolean v => .boolean v
  | .number _ => .number
  | .string _ => .string
  | .array _ => .array
  | .object _ => .object

/-- What kind of value begins with `b`. -/
def Kind.ofByte (b : UInt8) : Option Kind :=
  if b = 0x6E then some .null
  else if b = 0x74 then some (.boolean true)
  else if b = 0x66 then some (.boolean false)
  else if b = 0x22 then some .string
  else if b = 0x5B then some .array
  else if b = 0x7B then some .object
  else if b = 0x2D ∨ IsDigit b then some .number
  else none

theorem Kind.ofByte_of_number {b : UInt8} (h : b = 0x2D ∨ IsDigit b) :
    Kind.ofByte b = some .number ∧ ¬ IsWs b := by
  revert b
  decide +kernel

/-- **The first byte** of a value shows of what kind it is. -/
theorem Value.kind {s : Bytes} {j : Json} (h : Value s j) (r : Bytes) :
    ∃ b t, skip (s ++ r) = b :: t ∧ Kind.ofByte b = some j.kind := by
  cases h with
  | null | isTrue | isFalse => exact ⟨_, _, skip_of_avoids (avoids_cons (by decide) _), rfl⟩
  | number h =>
    obtain ⟨b, t, rfl, hb⟩ := h.exists_cons
    obtain ⟨hkind, hws⟩ := Kind.ofByte_of_number hb
    exact ⟨b, _, skip_of_avoids (avoids_cons hws _), hkind⟩
  | string h =>
    obtain ⟨hchars⟩ := h
    exact ⟨_, _, skip_of_avoids (avoids_cons (by decide) _), rfl⟩
  | array hb h he | object hb h he =>
    obtain ⟨w, -, hw⟩ := hb.skip_append (by decide)
    rw [List.append_assoc, hw]
    exact ⟨_, _, rfl, rfl⟩

/-- Values that begin in the same place are of the same kind. -/
theorem Value.kind_unique {s s' r r' : Bytes} {j j' : Json} (h : Value s j) (h' : Value s' j')
    (heq : skip (s ++ r) = skip (s' ++ r')) : j.kind = j'.kind := by
  obtain ⟨b, t, hskip, hkind⟩ := h.kind r
  obtain ⟨b', t', hskip', hkind'⟩ := h'.kind r'
  rw [hskip, hskip'] at heq
  obtain ⟨rfl, -⟩ := List.cons.inj heq
  exact Option.some.inj (hkind.symm.trans hkind')

/-- Nothing is skipped before a number. -/
theorem Number.skip_append {s : Bytes} {q : ℚ} (h : Number s q) (r : Bytes) :
    skip (s ++ r) = s ++ r := by
  obtain ⟨b, t, rfl, hb⟩ := h.exists_cons
  exact skip_of_avoids (avoids_cons (Kind.ofByte_of_number hb).2 _)

/-- A list in brackets. -/
theorem Items.unambiguous {α : Type} {P : Bytes → α → Prop} {n : ℕ} {op close : UInt8}
    {b b' s s' e e' r r' : Bytes} {as as' : List α} (hP : ∀ m < n, Unambiguous P m)
    (hstart : ∀ s a r, P s a → ∃ b t, skip (s ++ r) = b :: t ∧ b ≠ close)
    (hn : (b ++ (s ++ e)).length ≤ n) (hb : Token op b) (hb' : Token op b') (h : Items P s as)
    (h' : Items P s' as') (he : Token close e) (he' : Token close e') (hop : ¬ IsWs op)
    (hclose : Closing close)
    (heq : skip (b ++ (s ++ e) ++ r) = skip (b' ++ (s' ++ e') ++ r')) :
    as = as' ∧ skip r = skip r' := by
  have hlen : 0 < b.length := by
    obtain ⟨hw, hw'⟩ := hb
    rw [List.length_append, List.length_cons]
    omega
  simp only [List.length_append] at hn
  simp only [List.append_assoc] at heq
  exact h.unique (hP s.length (by omega)) hstart le_rfl h' he he' hclose
    (hb.unique hb' hop hop heq).2

/-- **Values are read in one way.** -/
theorem Value.unambiguous (n : ℕ) : Unambiguous Value n := by
  induction n using Nat.strong_induction_on with
  | _ n ih =>
    intro s s' r r' j j' hn h h' hr hr' heq
    have hkind := h.kind_unique h' heq
    have hword : ∀ w : Bytes, Avoids IsWs (w ++ r) → Avoids IsWs (w ++ r') →
        skip (w ++ r) = skip (w ++ r') → skip r = skip r' := by
      intro w hw hw' hskip
      rw [skip_of_avoids hw, skip_of_avoids hw'] at hskip
      rw [List.append_cancel_left hskip]
    -- both are of one kind, as the first byte tells it
    cases h with
    | null | isTrue | isFalse =>
      cases h' <;> cases hkind
      exact ⟨rfl, hword _ (avoids_cons (by decide) _) (avoids_cons (by decide) _) heq⟩
    | number h =>
      cases h' <;> cases hkind
      next q' h' =>
      rw [h.skip_append, h'.skip_append] at heq
      obtain ⟨rfl, rfl⟩ := h.unique h' hr hr' heq
      exact ⟨rfl, rfl⟩
    | string h =>
      cases h' <;> cases hkind
      next v' h' =>
      rw [h.skip_append, h'.skip_append] at heq
      obtain ⟨rfl, rfl⟩ := h.unique h' heq
      exact ⟨rfl, rfl⟩
    | array hb h he =>
      cases h' <;> cases hkind
      next hb' h' he' =>
      have hstart : ∀ s j r, Value s j → ∃ b t, skip (s ++ r) = b :: t ∧ b ≠ 0x5D := by
        intro s j r hj
        obtain ⟨b, t, hskip, hbyte⟩ := hj.kind r
        refine ⟨b, t, hskip, ?_⟩
        rintro rfl
        cases hbyte
      obtain ⟨rfl, hrest⟩ := h.unambiguous ih hstart hn hb hb' h' he he' (by decide)
        closing_bracket heq
      exact ⟨rfl, hrest⟩
    | object hb h he =>
      cases h' <;> cases hkind
      next hb' h' he' =>
      have hstart : ∀ s m r, Member Value s m → ∃ b t, skip (s ++ r) = b :: t ∧ b ≠ 0x7D := by
        rintro s m r ⟨hk, hsep, ht⟩
        rw [List.append_assoc, hk.skip_append]
        obtain ⟨hchars⟩ := hk
        exact ⟨_, _, rfl, by decide⟩
      obtain ⟨rfl, hrest⟩ := h.unambiguous (fun m hm => Member.unambiguous (ih m hm)) hstart hn hb
        hb' h' he he' (by decide) closing_brace heq
      exact ⟨rfl, hrest⟩

/-- **A text stands for one thing at most.** -/
theorem JsonText.unique {s : Bytes} {j j' : Json} (h : JsonText s j) (h' : JsonText s j') :
    j = j' := by
  generalize hs : s = s' at h'
  obtain ⟨hw, hv, hr⟩ := h
  obtain ⟨hw', hv', hr'⟩ := h'
  have hskip := congrArg skip hs
  rw [skip_append hw, skip_append hw'] at hskip
  exact (Value.unambiguous _ le_rfl hv hv' hr.ends hr'.ends hskip).1

end Rfc8259
