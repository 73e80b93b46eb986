import MithAtomas.Core.JsonWriter

/-!
# JsonTraceSink

`src/core/trace_sink.cpp`: an event is an object on a line of its own. `g17` is what `%.17g` prints.

`json_faithful` is about both the writer and the sink. What parses is settled by the grammar of
`Rfc8259` alone: a text of the writer stands for the tree that was written and for nothing else, and
it holds no raw control character, so no line break of an event's own can end its line.
-/

namespace MithAtomas

open Rfc8259

/-- `trace_level_str` -/
def traceLevelStr : TraceLevel → StringView
  | .off => [0x6F, 0x66, 0x66]
  | .warn => [0x77, 0x61, 0x72, 0x6E]
  | .info => [0x69, 0x6E, 0x66, 0x6F]
  | .debug => [0x64, 0x65, 0x62, 0x75, 0x67]

/-- `"level"` -/
def levelKey : StringView :=
  [0x6C, 0x65, 0x76, 0x65, 0x6C]

/-- `"event"` -/
def eventKey : StringView :=
  [0x65, 0x76, 0x65, 0x6E, 0x74]

/-- One round of the loop over the fields. -/
def JsonWriter.writeField (g17 : UInt64 → StringView) (w : JsonWriter) (f : EmitField) :
    JsonWriter :=
  let w := w.key f.key
  match f.value with
  | .str v => w.writeString v
  | .i64 v => w.writeI64 v
  | .u64 v => w.writeU64 v
  | .f64 bits => w.writeF64 g17 bits
  | .boolean v => w.writeBool v

/-- A sink, by what has been written to its `FILE`, if it has one. -/
structure JsonTraceSink where
  dest : Option StringView

namespace JsonTraceSink

variable (g17 : UInt64 → StringView)

def format (call : EmitCall) : StringView :=
  let w : JsonWriter := {}
  let w := w.beginObject
  let w := (w.key levelKey).writeString (traceLevelStr call.level)
  let w := (w.key eventKey).writeString call.event
  let w := call.fields.foldl (JsonWriter.writeField g17) w
  w.endObject.newline.take.1

def emit (sink : JsonTraceSink) (call : EmitCall) : JsonTraceSink :=
  if call.level = .off then sink
  else
    match sink.dest with
    | none => sink
    | some out => ⟨some (out ++ format g17 call)⟩

end JsonTraceSink

/-! ### What a line stands for -/

/-- No field is a double. -/
def EmitCall.WithoutF64 (call : EmitCall) : Prop :=
  ∀ f ∈ call.fields, ∀ bits, f.value ≠ .f64 bits

/-- Doubles have no tree. -/
def FieldValue.tree : FieldValue → Option JsonTree
  | .str v => some (.string v)
  | .i64 v => some (.i64 v)
  | .u64 v => some (.u64 v)
  | .f64 _ => none
  | .boolean v => some (.boolean v)

def EmitField.member (f : EmitField) : Option (StringView × JsonTree) :=
  f.value.tree.map fun t => (f.key, t)

/-- The level, the name of the event and the fields in their order. -/
def EmitCall.tree (call : EmitCall) : Option JsonTree :=
  (call.fields.mapM EmitField.member).map fun members =>
    .object ((levelKey, .string (traceLevelStr call.level)) :: (eventKey, .string call.event)
      :: members)

namespace JsonTraceSink

variable {g17 : UInt64 → StringView}

/-- A field is written like a member of an object. -/
theorem writeField_eq {f : EmitField} {k : StringView} {t : JsonTree} (h : f.member = some (k, t))
    (w : JsonWriter) : w.writeField g17 f = (w.key k).write t := by
  obtain ⟨key, value⟩ := f
  cases value <;> cases h <;> rfl

theorem foldl_writeField {fields : List EmitField} {members : List (StringView × JsonTree)}
    (h : fields.mapM EmitField.member = some members) (w : JsonWriter) :
    fields.foldl (JsonWriter.writeField g17) w = w.writeMembers members := by
  induction fields generalizing members w with
  | nil =>
    cases h
    rfl
  | cons f fields ih =>
    rw [List.mapM_cons] at h
    obtain ⟨⟨k, t⟩, hf, hrest⟩ := Option.bind_eq_some_iff.mp h
    obtain ⟨members', hmembers, hpure⟩ := Option.bind_eq_some_iff.mp hrest
    cases hpure
    rw [List.foldl_cons, writeField_eq hf]
    exact ih hmembers _

/-- A call without doubles has a tree. -/
theorem exists_tree {call : EmitCall} (h : call.WithoutF64) : ∃ t, call.tree = some t := by
  have hmembers : ∀ fields : List EmitField, (∀ f ∈ fields, ∀ bits, f.value ≠ .f64 bits) →
      ∃ members, fields.mapM EmitField.member = some members := by
    intro fields hfields
    induction fields with
    | nil => exact ⟨[], rfl⟩
    | cons f fields ih =>
      obtain ⟨members, hrest⟩ := ih fun f hf => hfields f (.tail _ hf)
      have hf : ∃ m, f.member = some m := by
        obtain ⟨key, value⟩ := f
        cases value with
        | f64 bits => exact absurd rfl (hfields _ List.mem_cons_self bits)
        | str v | i64 v | u64 v | boolean v => exact ⟨_, rfl⟩
      obtain ⟨m, hm⟩ := hf
      exact ⟨m :: members, by rw [List.mapM_cons, hm, hrest]; rfl⟩
  obtain ⟨members, hall⟩ := hmembers call.fields h
  exact ⟨_, by rw [EmitCall.tree, hall]; rfl⟩

/-- **An event is its tree**, on a line. -/
theorem format_eq {call : EmitCall} {t : JsonTree} (h : call.tree = some t) :
    format g17 call = t.text ++ [0x0A] := by
  obtain ⟨members, hmembers, rfl⟩ := Option.map_eq_some_iff.mp h
  have hwrite : format g17 call = (JsonWriter.write {} (.object
      ((levelKey, .string (traceLevelStr call.level)) :: (eventKey, .string call.event)
        :: members))).newline.take.1 := by
    unfold format
    simp only [foldl_writeField hmembers]
    rfl
  rw [hwrite, JsonWriter.write_reset .fresh]
  rfl

/-- No line break is inside a line. -/
theorem newline_not_mem (t : JsonTree) : 0x0A ∉ t.text := fun h =>
  absurd (t.printable_text 0x0A h) (by decide)

/-- **One line per event**, which stands for its tree. -/
theorem splitOn_format {calls : List EmitCall} (h : ∀ call ∈ calls, call.WithoutF64) :
    ∃ lines : List StringView, (calls.flatMap (format g17)).splitOn 0x0A = lines ++ [[]] ∧
      List.Forall₂ (fun call line => ∃ t, EmitCall.tree call = some t ∧ line = t.text)
        calls lines := by
  induction calls with
  | nil => exact ⟨[], rfl, .nil⟩
  | cons call calls ih =>
    obtain ⟨lines, hsplit, hlines⟩ := ih fun c hc => h c (.tail _ hc)
    obtain ⟨t, ht⟩ := exists_tree (h call List.mem_cons_self)
    refine ⟨t.text :: lines, ?_, .cons ⟨t, ht, rfl⟩ hlines⟩
    rw [List.flatMap_cons, format_eq ht, List.append_assoc, List.singleton_append,
      List.splitOn_append_cons_self_of_not_mem (newline_not_mem t), hsplit]
    rfl

/-- What a sink writes: its events, but for those that are off. -/
theorem dest_foldl_emit (calls : List EmitCall) (out : StringView) :
    (calls.foldl (emit g17) ⟨some out⟩).dest
      = some (out ++ (calls.filter fun call => call.level ≠ .off).flatMap (format g17)) := by
  induction calls generalizing out with
  | nil => rw [List.filter_nil, List.flatMap_nil, List.append_nil]; rfl
  | cons call calls ih =>
    rw [List.foldl_cons, List.filter_cons]
    unfold emit
    by_cases hoff : call.level = .off
    · rw [if_pos hoff, if_neg (by simp [hoff])]
      exact ih out
    · rw [if_neg hoff, if_pos (by simp [hoff]), List.flatMap_cons, ← List.append_assoc]
      exact ih _

end JsonTraceSink

/-- **JSON output is faithful and free of injection.** A tree that is written on a fresh or reused
writer is a text without raw control characters that stands for the tree and for nothing else; the
lines of a trace are its events, each of which stands for the level, the name and the fields. -/
theorem json_faithful (g17 : UInt64 → StringView) :
    (∀ (w : JsonWriter) (t : JsonTree), w.Reset →
      (∀ b ∈ (w.write t).buf, 0x20 ≤ b) ∧ (w.write t).wellFormed = true ∧
        ∀ j, JsonText (w.write t).buf j ↔ j = t.toJson) ∧
    ∀ calls : List EmitCall, (∀ call ∈ calls, call.WithoutF64) → ∃ lines : List StringView,
      (calls.flatMap (JsonTraceSink.format g17)).splitOn 0x0A = lines ++ [[]] ∧
      List.Forall₂ (fun call line => ∃ t, EmitCall.tree call = some t ∧
        ∀ j, JsonText line j ↔ j = t.toJson) calls lines := by
  constructor
  · intro w t hw
    rw [JsonWriter.write_reset hw]
    exact ⟨t.printable_text, rfl, fun j => JsonTree.jsonText_iff⟩
  · intro calls hcalls
    obtain ⟨lines, hsplit, hlines⟩ := JsonTraceSink.splitOn_format hcalls
    refine ⟨lines, hsplit, hlines.imp ?_⟩
    rintro call _ ⟨t, ht, rfl⟩
    exact ⟨t, ht, fun j => JsonTree.jsonText_iff⟩

/-- A call with a line break in the name of its event. -/
def brokenCall : EmitCall where
  level := .warn
  event := [0x61, 0x0A, 0x62]
  fields := [⟨[0x6B], .i64 (-1)⟩]

theorem brokenCall_faithful : ∃ (line : StringView) (t : JsonTree),
    ([brokenCall].flatMap (JsonTraceSink.format fun _ => [])).splitOn 0x0A = [line, []] ∧
      brokenCall.tree = some t ∧ JsonText line t.toJson ∧
      (JsonWriter.write {} t).wellFormed = true := by
  obtain ⟨hwriter, hsink⟩ := json_faithful fun _ => []
  have hcalls : ∀ call ∈ [brokenCall], call.WithoutF64 := by
    intro call hcall f hf bits
    rw [List.mem_singleton.mp hcall] at hf
    rw [List.mem_singleton.mp hf]
    rintro ⟨⟩
  obtain ⟨lines, hsplit, hlines⟩ := hsink [brokenCall] hcalls
  obtain ⟨line, _, ⟨t, ht, htext⟩, hnone, rfl⟩ := List.forall₂_cons_left_iff.mp hlines
  cases hnone
  exact ⟨line, t, hsplit, ht, (htext _).mpr rfl, (hwriter {} t .fresh).2.1⟩

end MithAtomas
