import MithAtomas.Core.Registry

/-!
# The names of component types

`include/mith/core/component.h`: the name of a type is cut out of the text that the compiler makes
of `pretty_function<T>`, between a marker and the next `;` or `]`. That is where GCC and Clang end
the name (`PrettyFunction`), but a name can have such a byte in it too: the spelling of an array
type has a bracket. `type_name_iff` is the result. What comes out is the spelling up to its first
terminator (`typeName_eq`), so types whose spellings agree so far have one name and one id, and the
second of them cannot be registered (`registerImpl_of_uncut_eq`).
-/

namespace MithAtomas

/-! ### Searching -/

/-- A string literal, as its bytes. -/
def bytesOf (s : String) : StringView :=
  s.toUTF8.data.toList

/-- `std::string_view::find`; `none` for `npos`. -/
def findView (pattern : StringView) : StringView → Option ℕ
  | [] => if pattern = [] then some 0 else none
  | c :: s => if pattern <+: c :: s then some 0 else (findView pattern s).map (· + 1)

/-- `std::string_view::find_first_of`, from `pos` on. -/
def findFirstOf (s set : StringView) (pos : ℕ) : Option ℕ :=
  ((s.drop pos).findIdx? (· ∈ set)).map (pos + ·)

/-- `"T = "` -/
def MARKER : StringView := bytesOf "T = "

/-- `";]"` -/
def TERMINATORS : StringView := bytesOf ";]"

/-- `extract_type_name`, for GCC and Clang. -/
def extractTypeName (pretty : StringView) : StringView :=
  match findView MARKER pretty with
  | none => pretty
  | some start =>
    let begin := start + MARKER.length
    let end_ := (findFirstOf pretty TERMINATORS begin).getD pretty.length
    (pretty.drop begin).take (end_ - begin)

/-- `fnv1a_64` -/
def fnv1a64View (s : StringView) : UInt64 :=
  s.foldl (fun hash c => (hash ^^^ c.toUInt64) * 0x100000001b3) 0xcbf29ce484222325

theorem fnv1a64View_bytesOf (s : String) : fnv1a64View (bytesOf s) = fnv1a64 s := rfl

/-- What a compiler writes around the spelling of `T` in `__PRETTY_FUNCTION__`. -/
structure PrettyFunction where
  before : StringView
  after : StringView
  /-- the first marker is the one in front of the spelling -/
  unmarked : ¬ MARKER <:+: before
  /-- behind the spelling there is a terminator -/
  terminated : ∃ c rest, after = c :: rest ∧ c ∈ TERMINATORS

namespace PrettyFunction

/-- GCC, with what it says of `std::string_view`. -/
def gcc (target : StringView) : PrettyFunction where
  before := bytesOf "constexpr std::string_view mith::detail::pretty_function() [with "
  after := bytesOf "; std::string_view = " ++ target ++ bytesOf "]"
  unmarked := by decide
  terminated := ⟨0x3B, bytesOf " std::string_view = " ++ target ++ bytesOf "]", rfl, by decide⟩

/-- Clang. -/
def clang : PrettyFunction where
  before := bytesOf "std::string_view mith::detail::pretty_function() ["
  after := bytesOf "]"
  unmarked := by decide
  terminated := ⟨0x5D, [], by decide, by decide⟩

variable (p : PrettyFunction)

/-- `pretty_function<T>()`, for a type with this spelling. -/
def text (spelling : StringView) : StringView :=
  p.before ++ (MARKER ++ (spelling ++ p.after))

/-- `type_name<T>()` -/
def typeName (spelling : StringView) : StringView :=
  extractTypeName (p.text spelling)

/-- `component_id<T>()` -/
def componentId (spelling : StringView) : ComponentTypeID :=
  fnv1a64View (p.typeName spelling)

end PrettyFunction

/-- The spelling has no terminator in it. -/
def Unterminated (spelling : StringView) : Prop :=
  ∀ c ∈ spelling, c ∉ TERMINATORS

instance (spelling : StringView) : Decidable (Unterminated spelling) :=
  inferInstanceAs (Decidable (∀ c ∈ spelling, c ∉ TERMINATORS))

/-- The spelling up to its first terminator. -/
def uncut (spelling : StringView) : StringView :=
  spelling.takeWhile (· ∉ TERMINATORS)

/-! ### What is cut out -/

/-- The marker does not overlap with itself. -/
theorem marker_not_prefix {l rest : StringView} (hne : l ≠ []) (hno : ¬ MARKER <:+: l) :
    ¬ MARKER <+: l ++ (MARKER ++ rest) := by
  intro hprefix
  have hmarker : MARKER = [0x54, 0x20, 0x3D, 0x20] := by decide
  by_cases hlong : MARKER.length ≤ l.length
  · exact hno (List.prefix_of_prefix_length_le hprefix (List.prefix_append _ _) hlong).isInfix
  · -- a shorter text is cut by the marker, and no proper suffix of the marker is a prefix of it
    rw [hmarker] at hprefix hlong
    rcases l with - | ⟨a, - | ⟨b, - | ⟨c, - | ⟨d, l⟩⟩⟩⟩
    · exact hne rfl
    · simp at hprefix
    · simp at hprefix
    · simp at hprefix
    · simp at hlong

theorem findView_marker {before : StringView} (h : ¬ MARKER <:+: before) (rest : StringView) :
    findView MARKER (before ++ (MARKER ++ rest)) = some before.length := by
  induction before with
  | nil =>
    have hhead : MARKER ++ rest = 0x54 :: ([0x20, 0x3D, 0x20] ++ rest) := by
      rw [show MARKER = [0x54, 0x20, 0x3D, 0x20] by decide]
      rfl
    rw [List.nil_append, hhead, findView, ← hhead, if_pos (List.prefix_append _ _)]
    rfl
  | cons c before ih =>
    have hrest : ¬ MARKER <:+: before :=
      fun hin => h (hin.trans (List.suffix_cons c before).isInfix)
    -- the search does not stop in `before`, nor on its border with the marker
    have hnot : ¬ MARKER <+: c :: (before ++ (MARKER ++ rest)) :=
      marker_not_prefix (List.cons_ne_nil c before) h
    rw [List.cons_append, findView, if_neg hnot, ih hrest]
    rfl

/-- Behind the marker: what comes before the first terminator. -/
theorem extractTypeName_eq {before : StringView} (h : ¬ MARKER <:+: before) (rest : StringView) :
    extractTypeName (before ++ (MARKER ++ rest)) = uncut rest := by
  have hdrop : (before ++ (MARKER ++ rest)).drop (before.length + MARKER.length) = rest := by
    rw [← List.append_assoc, ← List.length_append]
    exact List.drop_left
  have hlength : (before ++ (MARKER ++ rest)).length - (before.length + MARKER.length)
      = rest.length := by
    rw [List.length_append, List.length_append]
    omega
  -- the first terminator ends what is taken
  have huncut : uncut rest = rest.take ((rest.findIdx? (· ∈ TERMINATORS)).getD rest.length) := by
    unfold uncut
    rw [List.takeWhile_eq_take_findIdx_not, ← List.findIdx_eq_getD_findIdx?]
    simp
  unfold extractTypeName
  rw [findView_marker h, huncut]
  simp only [findFirstOf, hdrop]
  -- `npos` is the end of the text
  cases rest.findIdx? (· ∈ TERMINATORS) with
  | none => simp only [Option.map_none, Option.getD_none, hlength]
  | some k => simp only [Option.map_some, Option.getD_some, Nat.add_sub_cancel_left]

theorem unterminated_iff {spelling : StringView} :
    Unterminated spelling ↔ spelling.all fun c => c != 0x3B && c != 0x5D := by
  unfold Unterminated
  rw [show TERMINATORS = [0x3B, 0x5D] by decide, List.all_eq_true]
  simp

theorem uncut_eq_self_iff {spelling : StringView} :
    uncut spelling = spelling ↔ Unterminated spelling := by
  unfold uncut Unterminated
  rw [List.takeWhile_eq_self_iff]
  simp

namespace PrettyFunction

variable (p : PrettyFunction) (a b : StringView)

/-- **The name of a type** is its spelling up to the first terminator. -/
theorem typeName_eq : p.typeName a = uncut a := by
  obtain ⟨c, rest, hafter, hc⟩ := p.terminated
  have hstop : p.after.takeWhile (· ∉ TERMINATORS) = [] := by
    rw [hafter, List.takeWhile_cons_of_neg (by simpa using hc)]
  unfold typeName text
  rw [extractTypeName_eq p.unmarked]
  unfold uncut
  rw [List.takeWhile_append, hstop, List.append_nil]
  -- what follows begins with a terminator, so it adds nothing
  split
  · next hall => exact (List.takeWhile_prefix _).eq_of_length hall |>.symm
  · rfl

theorem componentId_eq {p : PrettyFunction} {a b : StringView} (h : uncut a = uncut b) :
    p.componentId a = p.componentId b := by
  unfold componentId
  rw [p.typeName_eq, p.typeName_eq, h]

/-- The built-in types have the names and the ids that they are known by. -/
theorem typeName_builtin (c : Builtin) : p.typeName (bytesOf c.typeName) = bytesOf c.typeName ∧
    p.componentId (bytesOf c.typeName) = c.id := by
  have hname : p.typeName (bytesOf c.typeName) = bytesOf c.typeName := by
    rw [typeName_eq, uncut_eq_self_iff, unterminated_iff]
    cases c <;> decide +kernel
  unfold componentId
  rw [hname]
  exact ⟨rfl, fnv1a64View_bytesOf _⟩

end PrettyFunction

/-! ### Registration -/

/-- **Types with spellings that agree up to the first terminator cannot both be registered**: the
second has the id of the first. -/
theorem registerImpl_of_uncut_eq {Ty V : Type} [DecidableEq Ty] {p : PrettyFunction}
    {types : ComponentTypes Ty} {spelling : Ty → StringView}
    (hid : ∀ T, types.id T = p.componentId (spelling T)) {r : EntityRegistry Ty V}
    {origin : ComponentOrigin} {T T' : Ty} (hne : T ≠ T')
    (hcut : uncut (spelling T) = uncut (spelling T')) (hadmits : r.Admits origin)
    {store : ComponentStore Ty V} (hstore : r.stores (types.id T) = some store)
    (htag : store.typeTag = T) : r.registerImpl types origin T' = (r, .typeIdCollision) := by
  have hsame : types.id T' = types.id T := by
    rw [hid, hid]
    exact (PrettyFunction.componentId_eq hcut).symm
  rw [EntityRegistry.registerImpl_of_taken hadmits (hsame ▸ hstore), htag, if_neg hne]

/-- **Which types are told apart.** The names of two types come out whole, and so are distinct if
the spellings are, if and only if no terminator is in either spelling; and in general two types have
the same name, and with it the same id, if and only if their spellings agree up to the first one. -/
theorem type_name_iff (p : PrettyFunction) (a b : StringView) :
    ((p.typeName a = a ∧ p.typeName b = b ∧ (a ≠ b → p.typeName a ≠ p.typeName b) ∧
        (fnv1a64View a ≠ fnv1a64View b → p.componentId a ≠ p.componentId b)) ↔
      Unterminated a ∧ Unterminated b) ∧
    (p.typeName a = p.typeName b ↔ uncut a = uncut b) ∧
    (uncut a = uncut b → p.componentId a = p.componentId b) := by
  have ha : p.typeName a = a ↔ Unterminated a := by
    rw [p.typeName_eq, uncut_eq_self_iff]
  have hb : p.typeName b = b ↔ Unterminated b := by
    rw [p.typeName_eq, uncut_eq_self_iff]
  refine ⟨⟨?_, ?_⟩, by rw [p.typeName_eq, p.typeName_eq], PrettyFunction.componentId_eq⟩
  · rintro ⟨hwhole, hwhole', -⟩
    exact ⟨ha.mp hwhole, hb.mp hwhole'⟩
  · rintro ⟨hfree, hfree'⟩
    have hwhole := ha.mpr hfree
    have hwhole' := hb.mpr hfree'
    unfold PrettyFunction.componentId
    rw [hwhole, hwhole']
    exact ⟨rfl, rfl, id, id⟩

/-- Two arrays in a template, of different types, have one name. -/
theorem array_types_share_name :
    ¬ ∀ (p : PrettyFunction) (a b : StringView), a ≠ b →
      p.typeName a ≠ p.typeName b ∧ p.typeName a = a ∧ p.typeName b = b := by
  intro h
  have hsame : uncut (bytesOf "Samples<float [3]>") = uncut (bytesOf "Samples<float [3][3]>") := by
    decide
  obtain ⟨hne, -⟩ := h (PrettyFunction.gcc (bytesOf "std::basic_string_view<char>"))
    (bytesOf "Samples<float [3]>") (bytesOf "Samples<float [3][3]>") (by decide)
  rw [PrettyFunction.typeName_eq, PrettyFunction.typeName_eq] at hne
  exact hne hsame

end MithAtomas
