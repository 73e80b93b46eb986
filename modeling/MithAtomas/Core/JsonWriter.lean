import MithAtomas.Core.Trace
import MithAtomas.Framework.Json

/-!
# JsonWriter

`src/core/json_writer.cpp`: the writer with its stack of scopes, doubles apart from their digits,
which `%.17g` prints. `snprintf` is a definition for each of the other formats.

`JsonTree` is what a caller writes in natural order, `JsonWriter.write`. Whatever has been written
before, a tree adds one separator, if one is due, and its `text` (`write_eq`); the text is JSON and
stands for the tree (`value_text`).
-/

namespace MithAtomas

open Rfc8259

/-! ### `snprintf` -/

/-- A decimal digit. -/
def digitByte (d : ℕ) : UInt8 :=
  0x30 + UInt8.ofNat d

/-- `%llu` -/
def decimal (n : ℕ) : StringView :=
  if n = 0 then [0x30] else (Nat.digits 10 n).reverse.map digitByte

/-- `%lld` -/
def signedDecimal (n : ℤ) : StringView :=
  if n < 0 then 0x2D :: decimal n.natAbs else decimal n.natAbs

/-- A hexadecimal digit, in lower case. -/
def hexByte (d : ℕ) : UInt8 :=
  if d < 10 then 0x30 + UInt8.ofNat d else 0x57 + UInt8.ofNat d

/-- `%04x` -/
def hex04 (n : ℕ) : StringView :=
  [hexByte (n / 4096 % 16), hexByte (n / 256 % 16), hexByte (n / 16 % 16), hexByte (n % 16)]

/-! ### The writer -/

/-- `JsonWriter::ScopeKind`. -/
inductive ScopeKind where
  | object
  | array
  deriving DecidableEq, Repr

/-- `JsonWriter::Scope`. -/
structure JsonScope where
  kind : ScopeKind
  first : Bool
  deriving DecidableEq, Repr

structure JsonWriter where
  buf : StringView := []
  /-- the innermost scope first -/
  stack : List JsonScope := []
  deriving DecidableEq, Repr

/-- A byte of a string, in quotes. -/
def escaped (c : UInt8) : StringView :=
  match c with
  | 0x22 => [0x5C, 0x22]
  | 0x5C => [0x5C, 0x5C]
  -- the control bytes with a letter of their own; the others go by number
  | 0x08 => [0x5C, 0x62]
  | 0x0C => [0x5C, 0x66]
  | 0x0A => [0x5C, 0x6E]
  | 0x0D => [0x5C, 0x72]
  | 0x09 => [0x5C, 0x74]
  | _ => if c < 0x20 then 0x5C :: 0x75 :: hex04 c.toNat else [c]

/-- What `write_quoted_string_` appends. -/
def quoted (s : StringView) : StringView :=
  0x22 :: (s.flatMap escaped ++ [0x22])

namespace JsonWriter

variable (w : JsonWriter)

def append (s : StringView) : JsonWriter :=
  { w with buf := w.buf ++ s }

/-- `handle_array_separator_`. -/
def handleArraySeparator : JsonWriter :=
  match w.stack with
  | ⟨.array, first⟩ :: scopes =>
    { buf := if first then w.buf else w.buf ++ [0x2C], stack := ⟨.array, false⟩ :: scopes }
  | _ => w

def push (kind : ScopeKind) : JsonWriter :=
  { w with stack := ⟨kind, true⟩ :: w.stack }

/-- `pop_back`, unless the stack is empty. -/
def pop : JsonWriter :=
  { w with stack := w.stack.tail }

def beginObject : JsonWriter :=
  (w.handleArraySeparator.append [0x7B]).push .object

def endObject : JsonWriter :=
  (w.append [0x7D]).pop

def beginArray : JsonWriter :=
  (w.handleArraySeparator.append [0x5B]).push .array

def endArray : JsonWriter :=
  (w.append [0x5D]).pop

/-- `write_quoted_string_`. -/
def writeQuotedString (s : StringView) : JsonWriter :=
  w.append (quoted s)

def key (k : StringView) : JsonWriter :=
  match w.stack with
  | [] => (w.writeQuotedString k).append [0x3A]
  | scope :: scopes =>
    let w := if scope.first then w else w.append [0x2C]
    { (w.writeQuotedString k).append [0x3A] with stack := { scope with first := false } :: scopes }

def writeNull : JsonWriter :=
  w.handleArraySeparator.append [0x6E, 0x75, 0x6C, 0x6C]

def writeBool (v : Bool) : JsonWriter :=
  w.handleArraySeparator.append
    (if v then [0x74, 0x72, 0x75, 0x65] else [0x66, 0x61, 0x6C, 0x73, 0x65])

def writeI64 (v : Int64) : JsonWriter :=
  w.handleArraySeparator.append (signedDecimal v.toInt)

def writeU64 (v : UInt64) : JsonWriter :=
  w.handleArraySeparator.append (decimal v.toNat)

/-- `std::isfinite`, of the double with these bits. -/
def isFinite (bits : UInt64) : Bool :=
  (bits >>> 52) &&& 0x7FF != 0x7FF

/-- `write_f64`, where `g17` is what `%.17g` prints for the double with the given bits. -/
def writeF64 (g17 : UInt64 → StringView) (bits : UInt64) : JsonWriter :=
  w.handleArraySeparator.append
    (if isFinite bits then g17 bits else [0x6E, 0x75, 0x6C, 0x6C])

def writeString (s : StringView) : JsonWriter :=
  w.handleArraySeparator.writeQuotedString s

def newline : JsonWriter :=
  w.append [0x0A]

/-- `take`, with the buffer moved out. -/
def take : StringView × JsonWriter :=
  (w.buf, { buf := [], stack := [] })

def clear (w : JsonWriter) : JsonWriter :=
  { w with buf := [], stack := [] }

def wellFormed : Bool :=
  w.stack.isEmpty

end JsonWriter

/-! ### Trees -/

/-- What a caller writes. -/
inductive JsonTree where
  | null
  | boolean (v : Bool)
  | i64 (v : Int64)
  | u64 (v : UInt64)
  | string (s : StringView)
  | array (elements : List JsonTree)
  | object (members : List (StringView × JsonTree))

namespace JsonTree

mutual

/-- The tree, as a text stands for it: a number does not show which integer type it had. -/
def toJson : JsonTree → Json
  | .null => .null
  | .boolean v => .boolean v
  | .i64 v => .number v.toInt
  | .u64 v => .number v.toNat
  | .string s => .string s
  | .array elements => .array (toJsons elements)
  | .object members => .object (membersToJson members)

def toJsons : List JsonTree → List Json
  | [] => []
  | t :: ts => t.toJson :: toJsons ts

def membersToJson : List (StringView × JsonTree) → List (StringView × Json)
  | [] => []
  | (k, t) :: ms => (k, t.toJson) :: membersToJson ms

end

mutual

/-- The text of a tree. -/
def text : JsonTree → StringView
  | .null => [0x6E, 0x75, 0x6C, 0x6C]
  | .boolean v => if v then [0x74, 0x72, 0x75, 0x65] else [0x66, 0x61, 0x6C, 0x73, 0x65]
  | .i64 v => signedDecimal v.toInt
  | .u64 v => decimal v.toNat
  | .string s => quoted s
  | .array elements => [0x5B] ++ (elementsText true elements ++ [0x5D])
  | .object members => [0x7B] ++ (membersText true members ++ [0x7D])

/-- Elements behind others, or the first ones. -/
def elementsText : Bool → List JsonTree → StringView
  | _, [] => []
  | first, t :: ts => (if first then [] else [0x2C]) ++ (t.text ++ elementsText false ts)

def membersText : Bool → List (StringView × JsonTree) → StringView
  | _, [] => []
  | first, (k, t) :: ms =>
    (if first then [] else [0x2C]) ++ (quoted k ++ ([0x3A] ++ t.text) ++ membersText false ms)

end

end JsonTree

namespace JsonWriter

mutual

/-- Writing a tree in natural order. -/
def write (w : JsonWriter) : JsonTree → JsonWriter
  | .null => w.writeNull
  | .boolean v => w.writeBool v
  | .i64 v => w.writeI64 v
  | .u64 v => w.writeU64 v
  | .string s => w.writeString s
  | .array elements => (w.beginArray.writeElements elements).endArray
  | .object members => (w.beginObject.writeMembers members).endObject

def writeElements (w : JsonWriter) : List JsonTree → JsonWriter
  | [] => w
  | t :: ts => (w.write t).writeElements ts

def writeMembers (w : JsonWriter) : List (StringView × JsonTree) → JsonWriter
  | [] => w
  | (k, t) :: ms => ((w.key k).write t).writeMembers ms

end

end JsonWriter

/-! ### What is printed -/

theorem isDigit_digitByte {d : ℕ} (h : d < 10) : IsDigit (digitByte d) := by
  interval_cases d <;> decide

theorem toNat_digitByte {d : ℕ} (h : d < 10) : (digitByte d).toNat - 0x30 = d := by
  interval_cases d <;> rfl

theorem digits_decimal (n : ℕ) : Digits (decimal n) := by
  by_cases hn : n = 0
  · rw [decimal, if_pos hn]
    refine ⟨by simp, fun b hb => ?_⟩
    rw [List.mem_singleton.mp hb]
    decide
  · rw [decimal, if_neg hn]
    refine ⟨?_, fun b hb => ?_⟩
    · simpa [Nat.digits_eq_nil_iff_eq_zero] using hn
    · obtain ⟨d, hd, rfl⟩ := List.mem_map.mp hb
      exact isDigit_digitByte (Nat.digits_lt_base (by norm_num) (List.mem_reverse.mp hd))

/-- No zero leads. -/
theorem intPart_decimal (n : ℕ) : IntPart (decimal n) := by
  refine ⟨digits_decimal n, fun hhead => ?_⟩
  by_cases hn : n = 0
  · rw [decimal, if_pos hn]
  · -- the first digit is the last of `Nat.digits`, and that is not 0
    have hne : Nat.digits 10 n ≠ [] := Nat.digits_ne_nil_iff_ne_zero.mpr hn
    have hlast : (Nat.digits 10 n).getLast hne ≠ 0 := Nat.getLast_digit_ne_zero 10 hn
    have hlt : (Nat.digits 10 n).getLast hne < 10 :=
      Nat.digits_lt_base (by norm_num) (List.getLast_mem hne)
    rw [decimal, if_neg hn, List.head?_map, List.head?_reverse,
      List.getLast?_eq_some_getLast hne] at hhead
    have hvalue := toNat_digitByte hlt
    rw [Option.some.inj hhead] at hvalue
    exact absurd hvalue.symm hlast

theorem natValue_decimal (n : ℕ) : natValue (decimal n) = n := by
  unfold decimal natValue
  split
  · next hn =>
    rw [hn]
    rfl
  · rw [← List.map_reverse, List.reverse_reverse, List.map_map]
    have hid : (Nat.digits 10 n).map ((fun d : UInt8 => d.toNat - 0x30) ∘ digitByte)
        = Nat.digits 10 n := by
      refine (List.map_congr_left fun d hd => ?_).trans (List.map_id _)
      exact toNat_digitByte (Nat.digits_lt_base (by norm_num) hd)
    rw [hid, Nat.ofDigits_digits]

theorem number_decimal {m : StringView} {sign : ℚ} (hm : Minus m sign) (n : ℕ) :
    Number (m ++ decimal n) (sign * n) := by
  have h := Number.mk hm (intPart_decimal n) .absent .absent
  rw [natValue_decimal] at h
  simpa using h

/-- `%llu` prints the number. -/
theorem number_llu (n : ℕ) : Number (decimal n) n := by
  simpa using number_decimal .absent n

/-- `%lld` prints the number. -/
theorem number_lld (n : ℤ) : Number (signedDecimal n) n := by
  unfold signedDecimal
  split
  · next hneg =>
    have habs : ((n.natAbs : ℤ) : ℚ) = -n := by
      rw [Int.ofNat_natAbs_of_nonpos hneg.le, Int.cast_neg]
    have h := number_decimal .present n.natAbs
    rwa [← Int.cast_natCast, habs, neg_one_mul, neg_neg] at h
  · next hnonneg =>
    have habs : ((n.natAbs : ℤ) : ℚ) = n := by
      rw [Int.natAbs_of_nonneg (not_lt.mp hnonneg)]
    have h := number_llu n.natAbs
    rwa [← Int.cast_natCast, habs] at h

theorem length_decimal_le {n k : ℕ} (hk : 0 < k) (h : n < 10 ^ k) : (decimal n).length ≤ k := by
  unfold decimal
  split
  · exact hk
  · rw [List.length_map, List.length_reverse]
    exact (Nat.digits_length_le_iff (by norm_num) n).mpr h

/-- What is printed fits in `tmp`, the terminating zero included. -/
theorem length_printed_lt (i : Int64) (u : UInt64) :
    (signedDecimal i.toInt).length < 32 ∧ (decimal u.toNat).length < 32 := by
  have hu : (decimal u.toNat).length ≤ 20 :=
    length_decimal_le (by norm_num) (u.toNat_lt.trans_le (by norm_num))
  have hi : (decimal i.toInt.natAbs).length ≤ 19 := by
    refine length_decimal_le (by norm_num) ?_
    have hlo := i.le_toInt
    have hhi := i.toInt_lt
    omega
  refine ⟨?_, by omega⟩
  unfold signedDecimal
  split
  · rw [List.length_cons]
    omega
  · omega

/-! ### Strings -/

/-- A control character is escaped as its code point. -/
theorem hex04_control : ∀ n < 32, ∃ a b c d, hex04 n = [a, b, c, d] ∧ hex4 a b c d = some n ∧
    n.isValidChar ∧ utf8 n = [UInt8.ofNat n] := by
  intro n hn
  refine ⟨_, _, _, _, rfl, ?_, ?_, ?_⟩ <;> interval_cases n <;> first | rfl | decide

theorem charText_escaped (c : UInt8) : CharText (escaped c) [c] := by
  unfold escaped
  split
  case h_8 hquote hbackslash _ _ _ _ _ =>
    split
    · next hcontrol =>
      obtain ⟨a, b, c', d, hhex, hn, hchar, hutf8⟩ := hex04_control c.toNat hcontrol
      rw [UInt8.ofNat_toNat] at hutf8
      rw [hhex, ← hutf8]
      exact .codePoint hn hchar
    · next hprint => exact .unescaped (UInt8.not_lt.mp hprint) hquote hbackslash
  all_goals exact .escape rfl

theorem str_quoted (s : StringView) : Str (quoted s) s := by
  refine .mk ?_
  induction s with
  | nil => exact .nil
  | cons c s ih => exact .cons (charText_escaped c) ih

/-! ### The text of a tree -/

namespace JsonTree

mutual

/-- **The text stands for the tree.** -/
theorem value_text (t : JsonTree) : Value t.text t.toJson := by
  cases t with
  | null => exact .null
  | boolean v =>
    cases v
    · exact .isFalse
    · exact .isTrue
  | i64 v => exact .number (number_lld v.toInt)
  | u64 v => exact .number (number_llu v.toNat)
  | string s => exact .string (str_quoted s)
  | array elements => exact .array (.bare _) (items_elementsText elements) (.bare _)
  | object members => exact .object (.bare _) (items_membersText members) (.bare _)

theorem items_elementsText (ts : List JsonTree) :
    Items Value (elementsText true ts) (toJsons ts) := by
  cases ts with
  | nil => exact .nil
  | cons t ts =>
    show Items Value (t.text ++ elementsText false ts) _
    exact .cons (value_text t) (more_elementsText ts)

theorem more_elementsText (ts : List JsonTree) :
    More Value (elementsText false ts) (toJsons ts) := by
  cases ts with
  | nil => exact .nil
  | cons t ts => exact .cons (.bare _) (value_text t) (more_elementsText ts)

theorem items_membersText (ms : List (StringView × JsonTree)) :
    Items (Member Value) (membersText true ms) (membersToJson ms) := by
  cases ms with
  | nil => exact .nil
  | cons m ms =>
    obtain ⟨k, t⟩ := m
    show Items (Member Value) (quoted k ++ ([0x3A] ++ t.text) ++ membersText false ms) _
    exact .cons (.mk (str_quoted k) (.bare _) (value_text t)) (more_membersText ms)

theorem more_membersText (ms : List (StringView × JsonTree)) :
    More (Member Value) (membersText false ms) (membersToJson ms) := by
  cases ms with
  | nil => exact .nil
  | cons m ms =>
    obtain ⟨k, t⟩ := m
    exact .cons (.bare _) (.mk (str_quoted k) (.bare _) (value_text t)) (more_membersText ms)

end

/-! ### No raw control characters -/

/-- No byte is below 0x20. -/
def Printable (s : StringView) : Prop :=
  ∀ b ∈ s, 0x20 ≤ b

instance (s : StringView) : Decidable (Printable s) :=
  decidable_of_iff (s.all fun b => decide (0x20 ≤ b)) (by simp [Printable])

theorem printable_append {s s' : StringView} (h : Printable s) (h' : Printable s') :
    Printable (s ++ s') :=
  List.forall_mem_append.mpr ⟨h, h'⟩

theorem printable_comma (first : Bool) : Printable (if first then [] else [0x2C]) := by
  cases first <;> decide

theorem printable_decimal (n : ℕ) : Printable (decimal n) := by
  intro b hb
  have hdigit : 0x30 ≤ b := ((digits_decimal n).2 b hb).1
  exact UInt8.le_trans (by decide) hdigit

theorem printable_signedDecimal (n : ℤ) : Printable (signedDecimal n) := by
  unfold signedDecimal
  split
  · exact printable_append (s := [0x2D]) (by decide) (printable_decimal _)
  · exact printable_decimal _

theorem printable_escaped (c : UInt8) : Printable (escaped c) := by
  revert c
  decide +kernel

theorem printable_quoted (s : StringView) : Printable (quoted s) := by
  refine printable_append (s := [0x22]) (by decide) (printable_append ?_ (by decide))
  intro b hb
  obtain ⟨c, -, hc⟩ := List.mem_flatMap.mp hb
  exact printable_escaped c b hc

mutual

theorem printable_text (t : JsonTree) : Printable t.text := by
  cases t with
  | null => decide
  | boolean v => cases v <;> decide
  | i64 v => exact printable_signedDecimal _
  | u64 v => exact printable_decimal _
  | string s => exact printable_quoted s
  | array elements =>
    exact printable_append (by decide)
      (printable_append (printable_elementsText true elements) (by decide))
  | object members =>
    exact printable_append (by decide)
      (printable_append (printable_membersText true members) (by decide))

theorem printable_elementsText (first : Bool) (ts : List JsonTree) :
    Printable (elementsText first ts) := by
  cases ts with
  | nil =>
    rintro b ⟨⟩
  | cons t ts =>
    exact printable_append (printable_comma first)
      (printable_append (printable_text t) (printable_elementsText false ts))

theorem printable_membersText (first : Bool) (ms : List (StringView × JsonTree)) :
    Printable (membersText first ms) := by
  cases ms with
  | nil =>
    rintro b ⟨⟩
  | cons m ms =>
    obtain ⟨k, t⟩ := m
    have hmember : Printable (quoted k ++ ([0x3A] ++ t.text)) :=
      printable_append (printable_quoted k) (printable_append (by decide) (printable_text t))
    exact printable_append (printable_comma first)
      (printable_append hmember (printable_membersText false ms))

end

end JsonTree

/-! ### What is written -/

namespace JsonWriter

variable (w : JsonWriter) (s s' : StringView)

@[simp] theorem buf_append : (w.append s).buf = w.buf ++ s := rfl

@[simp] theorem stack_append : (w.append s).stack = w.stack := rfl

theorem append_append : (w.append s).append s' = w.append (s ++ s') := by
  unfold append
  rw [List.append_assoc]

theorem append_nil : w.append [] = w := by
  unfold append
  rw [List.append_nil]

/-- In a scope that has items or not, `w` being the writer outside. -/
def inside (kind : ScopeKind) (first : Bool) : JsonWriter :=
  { w with stack := ⟨kind, first⟩ :: w.stack }

theorem append_inside (kind : ScopeKind) (first : Bool) :
    (w.inside kind first).append s = (w.append s).inside kind first := rfl

theorem endArray_inside (first : Bool) :
    (w.inside .array first).endArray = w.append [0x5D] := rfl

theorem endObject_inside (first : Bool) :
    (w.inside .object first).endObject = w.append [0x7D] := rfl

theorem separator_array (first : Bool) : (w.inside .array first).handleArraySeparator
    = (w.append (if first then [] else [0x2C])).inside .array false := by
  cases first
  · rfl
  · rw [if_pos rfl, append_nil]
    rfl

theorem separator_object (first : Bool) :
    (w.inside .object first).handleArraySeparator = w.inside .object first := rfl

theorem key_object (first : Bool) (k : StringView) : (w.inside .object first).key k
    = (w.append ((if first then [] else [0x2C]) ++ (quoted k ++ [0x3A]))).inside .object false := by
  have hkey : (w.inside .object first).key k = (((w.append (if first then [] else [0x2C])).append
      (quoted k)).append [0x3A]).inside .object false := by
    cases first
    · rfl
    · rw [if_pos rfl, append_nil]
      rfl
  rw [hkey, append_append, append_append]

mutual

/-- **What a tree adds**: a separator, if one is due, and its text. -/
theorem write_eq (w : JsonWriter) (t : JsonTree) :
    w.write t = w.handleArraySeparator.append t.text := by
  cases t with
  | null | boolean v | i64 v | u64 v | string s => rfl
  | array elements =>
    show (((w.handleArraySeparator.append [0x5B]).inside .array true).writeElements
      elements).endArray = _
    rw [writeElements_eq, endArray_inside, append_append, append_append]
    rfl
  | object members =>
    show (((w.handleArraySeparator.append [0x7B]).inside .object true).writeMembers
      members).endObject = _
    rw [writeMembers_eq, endObject_inside, append_append, append_append]
    rfl

theorem writeElements_eq (w : JsonWriter) (first : Bool) (ts : List JsonTree) :
    (w.inside .array first).writeElements ts
      = (w.append (JsonTree.elementsText first ts)).inside .array (first && ts.isEmpty) := by
  cases ts with
  | nil =>
    show w.inside .array first = (w.append []).inside .array (first && true)
    rw [append_nil, Bool.and_true]
  | cons t ts =>
    show ((w.inside .array first).write t).writeElements ts = _
    rw [write_eq, separator_array, append_inside, append_append, writeElements_eq, append_append]
    show JsonWriter.inside _ _ (false && ts.isEmpty) = JsonWriter.inside _ _ (first && false)
    rw [Bool.false_and, Bool.and_false, List.append_assoc]
    rfl

theorem writeMembers_eq (w : JsonWriter) (first : Bool) (ms : List (StringView × JsonTree)) :
    (w.inside .object first).writeMembers ms
      = (w.append (JsonTree.membersText first ms)).inside .object (first && ms.isEmpty) := by
  cases ms with
  | nil =>
    show w.inside .object first = (w.append []).inside .object (first && true)
    rw [append_nil, Bool.and_true]
  | cons m ms =>
    obtain ⟨k, t⟩ := m
    show (((w.inside .object first).key k).write t).writeMembers ms = _
    rw [key_object, write_eq, separator_object, append_inside, append_append, writeMembers_eq,
      append_append]
    show JsonWriter.inside _ _ (false && ms.isEmpty) = JsonWriter.inside _ _ (first && false)
    have htext : JsonTree.membersText first ((k, t) :: ms) = (if first then [] else [0x2C])
        ++ (quoted k ++ ([0x3A] ++ t.text) ++ JsonTree.membersText false ms) := rfl
    rw [Bool.false_and, Bool.and_false, htext]
    simp only [List.append_assoc]

end

/-- A fresh writer, or one reused after `take` or `clear`. -/
inductive Reset : JsonWriter → Prop
  | fresh : Reset {}
  | take (w : JsonWriter) : Reset w.take.2
  | clear (w : JsonWriter) : Reset w.clear

theorem write_reset {w : JsonWriter} (hw : w.Reset) (t : JsonTree) :
    w.write t = { buf := t.text, stack := [] } := by
  cases hw <;> exact write_eq _ t

end JsonWriter

example : (JsonWriter.write {} (.array [.u64 7, .object [([0x6B], .null)], .i64 (-1)])).buf
    = [0x5B, 0x37, 0x2C, 0x7B, 0x22, 0x6B, 0x22, 0x3A, 0x6E, 0x75, 0x6C, 0x6C, 0x7D, 0x2C, 0x2D,
      0x31, 0x5D] := by
  decide

/-- The text stands for the tree, and for nothing else. -/
theorem JsonTree.jsonText_iff {t : JsonTree} {j : Json} : JsonText t.text j ↔ j = t.toJson := by
  have htext : JsonText ([] ++ (t.text ++ [])) t.toJson :=
    .mk (by rintro _ ⟨⟩) t.value_text (by rintro _ ⟨⟩)
  rw [List.nil_append, List.append_nil] at htext
  constructor
  · exact fun h => h.unique htext
  · rintro rfl
    exact htext

end MithAtomas
