import MithAtomas.Core.JsonWriter
import MithAtomas.Core.TypeName
import MithAtomas.Core.World
import MithAtomas.Identity.IdText

/-!
# The dump of a world's state

`World::dump_state` of `src/core/world.cpp`: some sixty calls of a `JsonWriter`, with a loop over
the neighbours and one over the timings of the last tick.

`Writes` and `Adds` say what a piece of such a program does to any writer, and there is one rule for
each way to put pieces together. By them the text of a dump is JSON and stands for `stateJson`,
whatever the names of the systems are and whatever the positions, finite or not. Two worlds with the
same dump are therefore in the same state as far as it was dumped (`sameState_of_eq`), but for the
digits of the doubles, which `%.17g` prints.
-/

namespace MithAtomas

open Rfc8259

/-! ### Rules for programs that write JSON -/

/-- **One value.** Whatever has been written before, the calls in `f` add a separator, if one is
due, and a text that stands for `j`. -/
def Writes (f : JsonWriter → JsonWriter) (j : Json) : Prop :=
  ∃ s, (∀ w, f w = w.handleArraySeparator.append s) ∧ Value s j ∧ JsonTree.Printable s

/-- Items behind others, or the first ones. -/
def Separated {α : Type} (P : StringView → α → Prop) (first : Bool) (s : StringView) (as : List α) :
    Prop :=
  if first then Items P s as else More P s as

/-- **Items of one scope.** -/
def Adds {α : Type} (kind : ScopeKind) (P : StringView → α → Prop) (f : JsonWriter → JsonWriter)
    (as : List α) : Prop :=
  ∀ first, ∃ s, (∀ w : JsonWriter,
      f (w.inside kind first) = (w.append s).inside kind (first && as.isEmpty)) ∧
    Separated P first s as ∧ JsonTree.Printable s

section Items

variable {α : Type} {P : StringView → α → Prop}

theorem More.append {s t : StringView} {as bs : List α} (hs : More P s as) (ht : More P t bs) :
    More P (s ++ t) (as ++ bs) := by
  induction hs with
  | nil => exact ht
  | cons hsep ha hrest ih =>
    rw [List.append_assoc, List.append_assoc]
    exact .cons hsep ha ih

theorem Separated.append {first : Bool} {s t : StringView} {as bs : List α}
    (hs : Separated P first s as) (ht : Separated P (first && as.isEmpty) t bs) :
    Separated P first (s ++ t) (as ++ bs) := by
  cases first with
  | false => exact More.append hs ht
  | true =>
    cases hs with
    | nil => exact ht
    | cons ha hrest =>
      show Items P _ _
      rw [List.append_assoc]
      exact .cons ha (More.append hrest ht)

/-- One item, with the comma in front of it. -/
theorem Separated.one {first : Bool} {s : StringView} {a : α} (hs : P s a) :
    Separated P first ((if first then [] else [0x2C]) ++ s) [a] := by
  cases first with
  | false =>
    have h : More P ([0x2C] ++ (s ++ [])) [a] := .cons (.bare _) hs .nil
    rwa [List.append_nil] at h
  | true =>
    have h : Items P (s ++ []) [a] := .cons hs .nil
    rwa [List.append_nil] at h

end Items

namespace Adds

variable {α : Type} {kind : ScopeKind} {P : StringView → α → Prop} {f g : JsonWriter → JsonWriter}

theorem nil : Adds kind P (fun w => w) [] := by
  intro first
  refine ⟨[], fun w => ?_, ?_, by decide⟩
  · rw [JsonWriter.append_nil, List.isEmpty_nil, Bool.and_true]
  · cases first with
    | false => exact More.nil
    | true => exact Items.nil

theorem append {as bs : List α} (hf : Adds kind P f as) (hg : Adds kind P g bs) :
    Adds kind P (fun w => g (f w)) (as ++ bs) := by
  intro first
  obtain ⟨s, hs, hitems, hprint⟩ := hf first
  obtain ⟨t, ht, hitems', hprint'⟩ := hg (first && as.isEmpty)
  refine ⟨s ++ t, fun w => ?_, hitems.append hitems', JsonTree.printable_append hprint hprint'⟩
  have hempty : (as ++ bs).isEmpty = (as.isEmpty && bs.isEmpty) := by cases as <;> rfl
  show g (f (w.inside kind first)) = _
  rw [hs, ht, JsonWriter.append_append, hempty, Bool.and_assoc]

/-- A member of an object: its key, and then its value. -/
theorem member {ms : List (StringView × Json)} (hf : Adds .object (Member Value) f ms)
    (k : StringView) {j : Json} (hg : Writes g j) :
    Adds .object (Member Value) (fun w => g ((f w).key k)) (ms ++ [(k, j)]) := by
  refine append (g := fun w => g (w.key k)) hf fun first => ?_
  obtain ⟨s, hs, hvalue, hprint⟩ := hg
  have hcolon : JsonTree.Printable (quoted k ++ ([0x3A] ++ s)) :=
    JsonTree.printable_append (JsonTree.printable_quoted k)
      (JsonTree.printable_append (by decide) hprint)
  refine ⟨(if first then [] else [0x2C]) ++ (quoted k ++ ([0x3A] ++ s)), fun w => ?_,
    .one (.mk (str_quoted k) (.bare _) hvalue),
    JsonTree.printable_append (JsonTree.printable_comma first) hcolon⟩
  show g ((w.inside .object first).key k) = _
  rw [hs, JsonWriter.key_object, JsonWriter.separator_object, JsonWriter.append_inside,
    JsonWriter.append_append, List.append_assoc, List.append_assoc]
  cases first <;> rfl

/-- A loop over the elements of an array. -/
theorem elements {β : Type} {f : JsonWriter → β → JsonWriter} {j : β → Json}
    (hf : ∀ x, Writes (fun w => f w x) (j x)) (xs : List β) :
    Adds .array Value (fun w => xs.foldl f w) (xs.map j) := by
  induction xs with
  | nil => exact nil
  | cons x xs ih =>
    have hone : Adds .array Value (fun w => f w x) [j x] := by
      intro first
      obtain ⟨s, hs, hvalue, hprint⟩ := hf x
      refine ⟨(if first then [] else [0x2C]) ++ s, fun w => ?_, .one hvalue,
        JsonTree.printable_append (JsonTree.printable_comma first) hprint⟩
      rw [hs, JsonWriter.separator_array, JsonWriter.append_inside, JsonWriter.append_append]
      cases first <;> rfl
    exact hone.append ih

end Adds

namespace Writes

variable {f : JsonWriter → JsonWriter}

theorem object {ms : List (StringView × Json)} (hf : Adds .object (Member Value) f ms) :
    Writes (fun w => (f w.beginObject).endObject) (.object ms) := by
  obtain ⟨s, hs, hitems, hprint⟩ := hf true
  refine ⟨[0x7B] ++ (s ++ [0x7D]), fun w => ?_, .object (.bare _) hitems (.bare _),
    JsonTree.printable_append (by decide) (JsonTree.printable_append hprint (by decide))⟩
  show (f ((w.handleArraySeparator.append [0x7B]).inside .object true)).endObject = _
  rw [hs, JsonWriter.endObject_inside, JsonWriter.append_append, JsonWriter.append_append]

theorem array {js : List Json} (hf : Adds .array Value f js) :
    Writes (fun w => (f w.beginArray).endArray) (.array js) := by
  obtain ⟨s, hs, hitems, hprint⟩ := hf true
  refine ⟨[0x5B] ++ (s ++ [0x5D]), fun w => ?_, .array (.bare _) hitems (.bare _),
    JsonTree.printable_append (by decide) (JsonTree.printable_append hprint (by decide))⟩
  show (f ((w.handleArraySeparator.append [0x5B]).inside .array true)).endArray = _
  rw [hs, JsonWriter.endArray_inside, JsonWriter.append_append, JsonWriter.append_append]

/-- A value that a tree has as well. -/
theorem tree (t : JsonTree) : Writes (fun w => w.write t) t.toJson :=
  ⟨t.text, fun w => w.write_eq t, t.value_text, t.printable_text⟩

end Writes

/-- Numbers print without control characters. -/
theorem printable_number {s : StringView} {q : ℚ} (h : Number s q) : JsonTree.Printable s := by
  have hdigits : ∀ {t : StringView}, Digits t → JsonTree.Printable t := fun ht b hb =>
    UInt8.le_trans (by decide) (ht.2 b hb).1
  obtain ⟨hm, hi, hf, he⟩ := h
  refine JsonTree.printable_append ?_ (JsonTree.printable_append (hdigits hi.1)
    (JsonTree.printable_append ?_ ?_))
  · cases hm <;> decide
  · cases hf with
    | absent => decide
    | present hs => exact JsonTree.printable_append (s := [0x2E]) (by decide) (hdigits hs)
  · cases he with
    | absent => decide
    | @present e sign t v hletter hsign ht =>
      have hsigned : JsonTree.Printable (sign ++ t) := by
        refine JsonTree.printable_append ?_ (hdigits ht)
        cases hsign <;> decide
      refine JsonTree.printable_append (s := [e]) ?_ hsigned
      rcases hletter with rfl | rfl <;> decide

/-! ### Doubles -/

/-- **What `%.17g` is relied on for**: what it prints for a finite double is a number of JSON, which
stands for `value`. -/
def PrintsNumbers (g17 : UInt64 → StringView) (value : UInt64 → ℚ) : Prop :=
  ∀ bits, JsonWriter.isFinite bits = true → Number (g17 bits) (value bits)

/-- What `write_f64` stands for. -/
def f64Json (value : UInt64 → ℚ) (bits : UInt64) : Json :=
  if JsonWriter.isFinite bits then .number (value bits) else .null

theorem writes_f64 {g17 : UInt64 → StringView} {value : UInt64 → ℚ} (hg : PrintsNumbers g17 value)
    (bits : UInt64) : Writes (fun w => w.writeF64 g17 bits) (f64Json value bits) := by
  by_cases hfinite : JsonWriter.isFinite bits = true
  · have hnumber := hg bits hfinite
    refine ⟨g17 bits, fun w => ?_, ?_, printable_number hnumber⟩
    · show w.handleArraySeparator.append (if JsonWriter.isFinite bits then g17 bits else _) = _
      rw [if_pos hfinite]
    · rw [f64Json, if_pos hfinite]
      exact .number hnumber
  · refine ⟨_, fun w => ?_, ?_, JsonTree.printable_text .null⟩
    · show w.handleArraySeparator.append (if JsonWriter.isFinite bits then _ else _) = _
      rw [if_neg hfinite]
      rfl
    · rw [f64Json, if_neg hfinite]
      exact .null

/-- `static_cast<double>` of the float with these bits. -/
def doubleBits (bits : UInt32) : UInt64 :=
  let sign := bits.toNat / 2 ^ 31
  let exponent := bits.toNat / 2 ^ 23 % 2 ^ 8
  let fraction := bits.toNat % 2 ^ 23
  let magnitude :=
    -- infinities and NaNs
    if exponent = 255 then 2047 * 2 ^ 52 + fraction * 2 ^ 29
    else if 0 < exponent then (exponent + 896) * 2 ^ 52 + fraction * 2 ^ 29
    -- a subnormal float is a normal double
    else if 0 < fraction then
      (fraction.log2 + 873) * 2 ^ 52 + fraction * 2 ^ (52 - fraction.log2)
    else 0
  UInt64.ofNat (sign * 2 ^ 63 + magnitude)

example : [0x3F800000, 0x00000001, 0xC2480000].map doubleBits
    = [0x3FF0000000000000, 0x36A0000000000000, 0xC049000000000000] := by
  decide

theorem isFinite_iff (bits : UInt64) :
    JsonWriter.isFinite bits = true ↔ bits.toNat / 2 ^ 52 % 2 ^ 11 ≠ 2047 := by
  have hmask : ((bits >>> 52) &&& 0x7FF).toNat = bits.toNat / 2 ^ 52 % 2 ^ 11 := by
    rw [UInt64.toNat_and, UInt64.toNat_shiftRight]
    show bits.toNat >>> 52 &&& (2 ^ 11 - 1) = _
    rw [Nat.and_two_pow_sub_one_eq_mod, Nat.shiftRight_eq_div_pow]
  rw [JsonWriter.isFinite, bne_iff_ne, ne_eq, ne_eq, ← UInt64.toNat_inj, hmask]
  rfl

/-- The conversion keeps what is not finite. -/
theorem isFinite_doubleBits (bits : UInt32) :
    JsonWriter.isFinite (doubleBits bits) = true ↔ bits.toNat / 2 ^ 23 % 2 ^ 8 ≠ 255 := by
  have hbits := bits.toNat_lt
  have hfraction : bits.toNat % 2 ^ 23 < 2 ^ 23 := Nat.mod_lt _ (by norm_num)
  rw [isFinite_iff]
  unfold doubleBits
  rw [UInt64.toNat_ofNat']
  generalize hsign : bits.toNat / 2 ^ 31 = sign
  generalize hexponent : bits.toNat / 2 ^ 23 % 2 ^ 8 = exponent
  generalize bits.toNat % 2 ^ 23 = fraction at hfraction
  have hs : sign < 2 := by omega
  have he : exponent < 256 := by omega
  split
  · omega
  · split
    · omega
    · split
      · next hzero hpos =>
        -- a subnormal float
        have hlog : fraction.log2 < 23 := (Nat.log2_lt hpos.ne').mpr hfraction
        -- the leading digit of the fraction is the one that a double leaves out
        have hlow : 2 ^ 52 ≤ fraction * 2 ^ (52 - fraction.log2) := by
          have hself := Nat.log2_self_le hpos.ne'
          calc 2 ^ 52 = 2 ^ fraction.log2 * 2 ^ (52 - fraction.log2) := by
                rw [← pow_add]
                congr 1
                omega
            _ ≤ _ := Nat.mul_le_mul_right _ hself
        have hhigh : fraction * 2 ^ (52 - fraction.log2) < 2 ^ 53 := by
          have hself := Nat.lt_log2_self (n := fraction)
          calc fraction * 2 ^ (52 - fraction.log2)
              < 2 ^ (fraction.log2 + 1) * 2 ^ (52 - fraction.log2) :=
                Nat.mul_lt_mul_of_pos_right hself (by positivity)
            _ = 2 ^ 53 := by
                rw [← pow_add]
                congr 1
                omega
        omega
      · omega

/-! ### The dump -/

variable {F U : Type} [FloatScalar F]

/-- `SystemTiming`: the bytes of the name, and the bits of the doubles. -/
structure DumpedTiming where
  name : StringView
  startUs : UInt64
  durationUs : UInt64
  threadId : UInt32

/-- What `dump_state` reads of a `World`; before `init` its entity has no components. -/
structure DumpedWorld (F U : Type) where
  config : WorldConfig F
  initialized : Bool
  world : World F U
  systemCount : ℕ
  lastTickTimings : List DumpedTiming

namespace JsonWriter

variable (g17 : UInt64 → StringView)

/-- `write_f64(static_cast<double>(x))` -/
def writeFloat (w : JsonWriter) (x : F) : JsonWriter :=
  w.writeF64 g17 (doubleBits (FloatScalar.toBits x))

/-- `write_u64(static_cast<std::uint64_t>(n))` -/
def writeSize (w : JsonWriter) (n : ℕ) : JsonWriter :=
  w.writeU64 (UInt64.ofNat n)

/-- The object behind a key `"position"`. -/
def writePosition (w : JsonWriter) (p : PositionComponent F) : JsonWriter :=
  let w := w.beginObject
  let w := (w.key (bytesOf "x")).writeFloat g17 p.x
  let w := (w.key (bytesOf "y")).writeFloat g17 p.y
  let w := (w.key (bytesOf "z")).writeFloat g17 p.z
  w.endObject

def writeVelocity (w : JsonWriter) (v : VelocityComponent F) : JsonWriter :=
  let w := w.beginObject
  let w := (w.key (bytesOf "vx")).writeFloat g17 v.vx
  let w := (w.key (bytesOf "vy")).writeFloat g17 v.vy
  let w := (w.key (bytesOf "vz")).writeFloat g17 v.vz
  w.endObject

/-- The object behind `"self"`. -/
def writeSelf (w : JsonWriter) (self : World F U) : JsonWriter :=
  let w := w.beginObject
  let w := (w.key (bytesOf "id")).writeString self.identity.toString
  let w := (w.key (bytesOf "position")).writePosition g17 self.position
  let w := (w.key (bytesOf "velocity")).writeVelocity g17 self.velocity
  let w := (w.key (bytesOf "health")).writeU64 self.health.value.toUInt64
  let w := (w.key (bytesOf "role")).writeU64 self.role.role.toUInt64
  let w := (w.key (bytesOf "state")).writeU64 self.state.state.toUInt64
  let w := (w.key (bytesOf "action_queue_size")).writeSize self.actionQueue.queue.size
  let w := (w.key (bytesOf "action_queue_dropped")).writeU64
    self.actionQueue.queue.droppedCount.toUInt64
  let w := (w.key (bytesOf "permission_rejections")).writeU64
    self.actionQueue.permissionRejectionsTotal.toUInt64
  let w := (w.key (bytesOf "comm_buffer_size")).writeSize self.commBuffer.queue.size
  let w := (w.key (bytesOf "comm_buffer_dropped")).writeU64
    self.commBuffer.queue.droppedCount.toUInt64
  w.endObject

/-- One round of the loop over the neighbours. -/
def writeNeighbour (w : JsonWriter) (n : Entry F) : JsonWriter :=
  let w := w.beginObject
  let w := (w.key (bytesOf "id")).writeString n.hid.toString
  let w := (w.key (bytesOf "last_seen_s")).writeFloat g17 n.lastSeenS
  let w := (w.key (bytesOf "position")).writePosition g17 n.position
  w.endObject

/-- One round of the loop over the timings. -/
def writeTiming (w : JsonWriter) (t : DumpedTiming) : JsonWriter :=
  let w := w.beginObject
  let w := (w.key (bytesOf "name")).writeString t.name
  let w := (w.key (bytesOf "start_us")).writeF64 g17 t.startUs
  let w := (w.key (bytesOf "duration_us")).writeF64 g17 t.durationUs
  let w := (w.key (bytesOf "thread_id")).writeU64 t.threadId.toUInt64
  w.endObject

/-- The array behind `"neighbours"`. -/
def writeNeighbours (w : JsonWriter) (es : List (Entry F)) : JsonWriter :=
  (es.foldl (writeNeighbour g17) w.beginArray).endArray

/-- The array behind `"last_tick_timings"`. -/
def writeTimings (w : JsonWriter) (ts : List DumpedTiming) : JsonWriter :=
  (ts.foldl (writeTiming g17) w.beginArray).endArray

/-- The object behind `"scheduler"`. -/
def writeScheduler (w : JsonWriter) (s : DumpedWorld F U) : JsonWriter :=
  let w := w.beginObject
  let w := (w.key (bytesOf "system_count")).writeSize s.systemCount
  let w := (w.key (bytesOf "last_tick_timings")).writeTimings g17 s.lastTickTimings
  w.endObject

end JsonWriter

namespace DumpedWorld

variable (g17 : UInt64 → StringView) (value : UInt64 → ℚ)

/-- The calls of `dump_state`. -/
def writeState (w : JsonWriter) (s : DumpedWorld F U) : JsonWriter :=
  let w := w.beginObject
  let w := (w.key (bytesOf "swarm_id")).writeU64 s.config.swarmId.toUInt64
  let w := (w.key (bytesOf "tick")).writeU64 s.world.context.tickCount
  let w := (w.key (bytesOf "elapsed_time_s")).writeFloat g17 s.world.context.elapsedTimeS
  let w := (w.key (bytesOf "initialized")).writeBool s.initialized
  let w := if s.initialized then (w.key (bytesOf "self")).writeSelf g17 s.world else w
  let table := s.world.neighbourTable
  let w := (w.key (bytesOf "neighbour_count")).writeSize table.entries.length
  let w := (w.key (bytesOf "neighbour_observations")).writeU64 table.totalObservations
  let w := (w.key (bytesOf "neighbour_evictions")).writeU64 table.totalEvictions
  let w := (w.key (bytesOf "neighbours")).writeNeighbours g17 table.entries
  let w := (w.key (bytesOf "scheduler")).writeScheduler g17 s
  w.endObject

/-- `dump_state` -/
def dumpState (s : DumpedWorld F U) : StringView :=
  (writeState g17 {} s).take.1

/-! ### What a dump stands for -/

def u64Json (v : UInt64) : Json :=
  .number v.toNat

def floatJson (x : F) : Json :=
  f64Json value (doubleBits (FloatScalar.toBits x))

def positionJson (p : PositionComponent F) : Json :=
  .object [(bytesOf "x", floatJson value p.x), (bytesOf "y", floatJson value p.y),
    (bytesOf "z", floatJson value p.z)]

def velocityJson (v : VelocityComponent F) : Json :=
  .object [(bytesOf "vx", floatJson value v.vx), (bytesOf "vy", floatJson value v.vy),
    (bytesOf "vz", floatJson value v.vz)]

def selfJson (self : World F U) : Json :=
  .object [(bytesOf "id", .string self.identity.toString),
    (bytesOf "position", positionJson value self.position),
    (bytesOf "velocity", velocityJson value self.velocity),
    (bytesOf "health", u64Json self.health.value.toUInt64),
    (bytesOf "role", u64Json self.role.role.toUInt64),
    (bytesOf "state", u64Json self.state.state.toUInt64),
    (bytesOf "action_queue_size", u64Json (UInt64.ofNat self.actionQueue.queue.size)),
    (bytesOf "action_queue_dropped", u64Json self.actionQueue.queue.droppedCount.toUInt64),
    (bytesOf "permission_rejections",
      u64Json self.actionQueue.permissionRejectionsTotal.toUInt64),
    (bytesOf "comm_buffer_size", u64Json (UInt64.ofNat self.commBuffer.queue.size)),
    (bytesOf "comm_buffer_dropped", u64Json self.commBuffer.queue.droppedCount.toUInt64)]

def neighbourJson (n : Entry F) : Json :=
  .object [(bytesOf "id", .string n.hid.toString),
    (bytesOf "last_seen_s", floatJson value n.lastSeenS),
    (bytesOf "position", positionJson value n.position)]

def timingJson (t : DumpedTiming) : Json :=
  .object [(bytesOf "name", .string t.name), (bytesOf "start_us", f64Json value t.startUs),
    (bytesOf "duration_us", f64Json value t.durationUs),
    (bytesOf "thread_id", u64Json t.threadId.toUInt64)]

def schedulerJson (s : DumpedWorld F U) : Json :=
  .object [(bytesOf "system_count", u64Json (UInt64.ofNat s.systemCount)),
    (bytesOf "last_tick_timings", .array (s.lastTickTimings.map (timingJson value)))]

/-- **The state, as a value of JSON**: the neighbours in the order of the table, the systems in that
of the timings, and an entity only after `init`. -/
def stateJson (s : DumpedWorld F U) : Json :=
  .object ([(bytesOf "swarm_id", u64Json s.config.swarmId.toUInt64),
      (bytesOf "tick", u64Json s.world.context.tickCount),
      (bytesOf "elapsed_time_s", floatJson value s.world.context.elapsedTimeS),
      (bytesOf "initialized", .boolean s.initialized)] ++
    (if s.initialized then [(bytesOf "self", selfJson value s.world)] else []) ++
    [(bytesOf "neighbour_count", u64Json (UInt64.ofNat s.world.neighbourTable.entries.length)),
      (bytesOf "neighbour_observations", u64Json s.world.neighbourTable.totalObservations),
      (bytesOf "neighbour_evictions", u64Json s.world.neighbourTable.totalEvictions),
      (bytesOf "neighbours", .array (s.world.neighbourTable.entries.map (neighbourJson value))),
      (bytesOf "scheduler", schedulerJson value s)])

/-- Exactly what is not finite is shown as `null`. -/
theorem floatJson_eq_null_iff {x : F} : floatJson value x = .null ↔
    (FloatScalar.toBits x).toNat / 2 ^ 23 % 2 ^ 8 = 255 := by
  have hfinite := isFinite_doubleBits (FloatScalar.toBits x)
  unfold floatJson f64Json
  split
  · next h => simpa using hfinite.mp h
  · next h => simpa [h] using hfinite

section Writes

variable {g17 : UInt64 → StringView} {value : UInt64 → ℚ}

theorem writes_u64 (v : UInt64) : Writes (fun w => w.writeU64 v) (u64Json v) :=
  .tree (.u64 v)

theorem writes_size (n : ℕ) : Writes (fun w => w.writeSize n) (u64Json (UInt64.ofNat n)) :=
  writes_u64 _

theorem writes_string (s : StringView) : Writes (fun w => w.writeString s) (.string s) :=
  .tree (.string s)

theorem writes_boolean (v : Bool) : Writes (fun w => w.writeBool v) (.boolean v) :=
  .tree (.boolean v)

theorem writes_float (hg : PrintsNumbers g17 value) (x : F) :
    Writes (fun w => w.writeFloat g17 x) (floatJson value x) :=
  writes_f64 hg _

theorem writes_position (hg : PrintsNumbers g17 value) (p : PositionComponent F) :
    Writes (fun w => w.writePosition g17 p) (positionJson value p) := by
  have hx := Adds.nil.member (bytesOf "x") (writes_float hg p.x)
  have hy := hx.member (bytesOf "y") (writes_float hg p.y)
  have hz := hy.member (bytesOf "z") (writes_float hg p.z)
  unfold positionJson JsonWriter.writePosition
  simpa only [List.nil_append, List.cons_append] using Writes.object hz

theorem writes_velocity (hg : PrintsNumbers g17 value) (v : VelocityComponent F) :
    Writes (fun w => w.writeVelocity g17 v) (velocityJson value v) := by
  have hx := Adds.nil.member (bytesOf "vx") (writes_float hg v.vx)
  have hy := hx.member (bytesOf "vy") (writes_float hg v.vy)
  have hz := hy.member (bytesOf "vz") (writes_float hg v.vz)
  unfold velocityJson JsonWriter.writeVelocity
  simpa only [List.nil_append, List.cons_append] using Writes.object hz

theorem writes_self (hg : PrintsNumbers g17 value) (self : World F U) :
    Writes (fun w => w.writeSelf g17 self) (selfJson value self) := by
  have hid := Adds.nil.member (bytesOf "id") (writes_string self.identity.toString)
  have hposition := hid.member (bytesOf "position") (writes_position hg self.position)
  have hvelocity := hposition.member (bytesOf "velocity") (writes_velocity hg self.velocity)
  have hhealth := hvelocity.member (bytesOf "health") (writes_u64 self.health.value.toUInt64)
  have hrole := hhealth.member (bytesOf "role") (writes_u64 self.role.role.toUInt64)
  have hstate := hrole.member (bytesOf "state") (writes_u64 self.state.state.toUInt64)
  have hsize := hstate.member (bytesOf "action_queue_size")
    (writes_size self.actionQueue.queue.size)
  have hdropped := hsize.member (bytesOf "action_queue_dropped")
    (writes_u64 self.actionQueue.queue.droppedCount.toUInt64)
  have hrejections := hdropped.member (bytesOf "permission_rejections")
    (writes_u64 self.actionQueue.permissionRejectionsTotal.toUInt64)
  have hbuffer := hrejections.member (bytesOf "comm_buffer_size")
    (writes_size self.commBuffer.queue.size)
  have hlost := hbuffer.member (bytesOf "comm_buffer_dropped")
    (writes_u64 self.commBuffer.queue.droppedCount.toUInt64)
  unfold selfJson JsonWriter.writeSelf
  simpa only [List.nil_append, List.cons_append] using Writes.object hlost

theorem writes_neighbours (hg : PrintsNumbers g17 value) (es : List (Entry F)) :
    Writes (fun w => w.writeNeighbours g17 es) (.array (es.map (neighbourJson value))) := by
  have hneighbour : ∀ n : Entry F,
      Writes (fun w => w.writeNeighbour g17 n) (neighbourJson value n) := by
    intro n
    have hid := Adds.nil.member (bytesOf "id") (writes_string n.hid.toString)
    have hseen := hid.member (bytesOf "last_seen_s") (writes_float hg n.lastSeenS)
    have hposition := hseen.member (bytesOf "position") (writes_position hg n.position)
    unfold neighbourJson JsonWriter.writeNeighbour
    simpa only [List.nil_append, List.cons_append] using Writes.object hposition
  exact Writes.array (Adds.elements hneighbour es)

omit [FloatScalar F] in
theorem writes_scheduler (hg : PrintsNumbers g17 value) (s : DumpedWorld F U) :
    Writes (fun w => w.writeScheduler g17 s) (schedulerJson value s) := by
  have htiming : ∀ t, Writes (fun w => w.writeTiming g17 t) (timingJson value t) := by
    intro t
    have hname := Adds.nil.member (bytesOf "name") (writes_string t.name)
    have hstart := hname.member (bytesOf "start_us") (writes_f64 hg t.startUs)
    have hduration := hstart.member (bytesOf "duration_us") (writes_f64 hg t.durationUs)
    have hthread := hduration.member (bytesOf "thread_id") (writes_u64 t.threadId.toUInt64)
    unfold timingJson JsonWriter.writeTiming
    simpa only [List.nil_append, List.cons_append] using Writes.object hthread
  have htimings : Writes (fun w => w.writeTimings g17 s.lastTickTimings)
      (.array (s.lastTickTimings.map (timingJson value))) :=
    Writes.array (Adds.elements htiming s.lastTickTimings)
  have hcount := Adds.nil.member (bytesOf "system_count")
    (writes_size s.systemCount)
  unfold schedulerJson JsonWriter.writeScheduler
  simpa only [List.nil_append, List.cons_append] using
    Writes.object (hcount.member (bytesOf "last_tick_timings") htimings)

/-- The entity, if there is one yet. -/
theorem adds_self (hg : PrintsNumbers g17 value) (s : DumpedWorld F U) :
    Adds .object (Member Value)
      (fun w => if s.initialized then (w.key (bytesOf "self")).writeSelf g17 s.world else w)
      (if s.initialized then [(bytesOf "self", selfJson value s.world)] else []) := by
  cases s.initialized with
  | false => exact Adds.nil
  | true => exact Adds.nil.member (bytesOf "self") (writes_self hg s.world)

theorem writes_state (hg : PrintsNumbers g17 value) (s : DumpedWorld F U) :
    Writes (fun w => writeState g17 w s) (stateJson value s) := by
  have hswarm := Adds.nil.member (bytesOf "swarm_id") (writes_u64 s.config.swarmId.toUInt64)
  have htick := hswarm.member (bytesOf "tick") (writes_u64 s.world.context.tickCount)
  have helapsed := htick.member (bytesOf "elapsed_time_s")
    (writes_float hg s.world.context.elapsedTimeS)
  have hinitialized := helapsed.member (bytesOf "initialized") (writes_boolean s.initialized)
  have hself := hinitialized.append (adds_self hg s)
  -- what comes behind the entity, as a list of its own
  have hcount := Adds.nil.member (bytesOf "neighbour_count")
    (writes_size s.world.neighbourTable.entries.length)
  have hobservations := hcount.member (bytesOf "neighbour_observations")
    (writes_u64 s.world.neighbourTable.totalObservations)
  have hevictions := hobservations.member (bytesOf "neighbour_evictions")
    (writes_u64 s.world.neighbourTable.totalEvictions)
  have hneighbours := hevictions.member (bytesOf "neighbours")
    (writes_neighbours hg s.world.neighbourTable.entries)
  have hscheduler := hneighbours.member (bytesOf "scheduler") (writes_scheduler hg s)
  unfold stateJson writeState
  simpa only [List.nil_append, List.cons_append] using Writes.object (hself.append hscheduler)

/-- One value in a fresh writer, and every scope closed. -/
theorem writeState_eq (hg : PrintsNumbers g17 value) (s : DumpedWorld F U) :
    ∃ t, writeState g17 {} s = { buf := t, stack := [] } ∧ Value t (stateJson value s) ∧
      JsonTree.Printable t := by
  obtain ⟨t, ht, hvalue, hprint⟩ := writes_state hg s
  exact ⟨t, ht {}, hvalue, hprint⟩

theorem jsonText_dumpState (hg : PrintsNumbers g17 value) (s : DumpedWorld F U) :
    JsonText (s.dumpState g17) (stateJson value s) := by
  obtain ⟨t, ht, hvalue, -⟩ := writeState_eq hg s
  have htext : JsonText ([] ++ (t ++ [])) (stateJson value s) :=
    .mk (by rintro _ ⟨⟩) hvalue (by rintro _ ⟨⟩)
  rw [List.nil_append, List.append_nil] at htext
  unfold dumpState
  rw [ht]
  exact htext

end Writes

/-! ### What a dump tells -/

variable {value}

/-- The entities of two worlds, as far as a dump shows them. -/
structure SameSelf (value : UInt64 → ℚ) (a b : World F U) : Prop where
  identity : a.identity = b.identity
  position : positionJson value a.position = positionJson value b.position
  velocity : velocityJson value a.velocity = velocityJson value b.velocity
  health : a.health = b.health
  role : a.role = b.role
  state : a.state = b.state
  queued : a.actionQueue.queue.size = b.actionQueue.queue.size
  dropped : a.actionQueue.queue.droppedCount = b.actionQueue.queue.droppedCount
  rejections : a.actionQueue.permissionRejectionsTotal = b.actionQueue.permissionRejectionsTotal
  buffered : a.commBuffer.queue.size = b.commBuffer.queue.size
  lost : a.commBuffer.queue.droppedCount = b.commBuffer.queue.droppedCount

structure SameNeighbour (value : UInt64 → ℚ) (a b : Entry F) : Prop where
  hid : a.hid = b.hid
  lastSeen : floatJson value a.lastSeenS = floatJson value b.lastSeenS
  position : positionJson value a.position = positionJson value b.position

structure SameTiming (value : UInt64 → ℚ) (a b : DumpedTiming) : Prop where
  name : a.name = b.name
  start : f64Json value a.startUs = f64Json value b.startUs
  duration : f64Json value a.durationUs = f64Json value b.durationUs
  thread : a.threadId = b.threadId

/-- **All that a dump shows**: two doubles look the same if neither is finite, or if their digits
stand for one number. -/
structure SameState (value : UInt64 → ℚ) (a b : DumpedWorld F U) : Prop where
  swarm : a.config.swarmId = b.config.swarmId
  tick : a.world.context.tickCount = b.world.context.tickCount
  elapsed : floatJson value a.world.context.elapsedTimeS =
    floatJson value b.world.context.elapsedTimeS
  initialized : a.initialized = b.initialized
  self : a.initialized = true → SameSelf value a.world b.world
  observations : a.world.neighbourTable.totalObservations = b.world.neighbourTable.totalObservations
  evictions : a.world.neighbourTable.totalEvictions = b.world.neighbourTable.totalEvictions
  neighbours : List.Forall₂ (SameNeighbour value) a.world.neighbourTable.entries
    b.world.neighbourTable.entries
  systems : UInt64.ofNat a.systemCount = UInt64.ofNat b.systemCount
  timings : List.Forall₂ (SameTiming value) a.lastTickTimings b.lastTickTimings

theorem u64Json_inj {a b : UInt64} (h : u64Json a = u64Json b) : a = b := by
  have hnat : ((a.toNat : ℚ)) = b.toNat := Json.number.inj h
  exact UInt64.toNat_inj.mp (by exact_mod_cast hnat)

theorem toString_inj {a b : HierarchicalID} (h : a.toString = b.toString) : a = b := by
  have hread := HierarchicalID.fromString_toString a
  rw [h, HierarchicalID.fromString_toString] at hread
  exact (Option.some.inj hread).symm

/-- A size that fits. -/
theorem size_inj {m n k : ℕ} (hm : m ≤ k) (hn : n ≤ k) (hk : k < 2 ^ 64)
    (h : u64Json (UInt64.ofNat m) = u64Json (UInt64.ofNat n)) : m = n := by
  have hnat := congrArg UInt64.toNat (u64Json_inj h)
  rwa [UInt64.toNat_ofNat', UInt64.toNat_ofNat', Nat.mod_eq_of_lt (hm.trans_lt hk),
    Nat.mod_eq_of_lt (hn.trans_lt hk)] at hnat

/-- Two arrays with the same elements. -/
theorem forall₂_of_array {α : Type} {j : α → Json} {R : α → α → Prop}
    (hR : ∀ a b, j a = j b → R a b) {as bs : List α}
    (h : Json.array (as.map j) = .array (bs.map j)) : List.Forall₂ R as bs := by
  have hmap : List.Forall₂ (· = ·) (as.map j) (bs.map j) :=
    List.forall₂_eq_eq_eq ▸ Json.array.inj h
  rw [List.forall₂_map_left_iff, List.forall₂_map_right_iff] at hmap
  exact hmap.imp hR

theorem sameNeighbour_of_eq (a b : Entry F) (h : neighbourJson value a = neighbourJson value b) :
    SameNeighbour value a b := by
  simp only [neighbourJson, Json.object.injEq, List.cons.injEq, Prod.mk.injEq, true_and, and_true,
    Json.string.injEq] at h
  obtain ⟨hid, hseen, hposition⟩ := h
  exact ⟨toString_inj hid, hseen, hposition⟩

theorem sameTiming_of_eq (a b : DumpedTiming) (h : timingJson value a = timingJson value b) :
    SameTiming value a b := by
  simp only [timingJson, Json.object.injEq, List.cons.injEq, Prod.mk.injEq, true_and, and_true,
    Json.string.injEq] at h
  obtain ⟨hname, hstart, hduration, hthread⟩ := h
  exact ⟨hname, hstart, hduration, UInt32.toUInt64_inj.mp (u64Json_inj hthread)⟩

theorem sameSelf_of_eq {a b : World F U} (h : selfJson value a = selfJson value b) :
    SameSelf value a b := by
  simp only [selfJson, Json.object.injEq, List.cons.injEq, Prod.mk.injEq, true_and, and_true,
    Json.string.injEq] at h
  obtain ⟨hid, hposition, hvelocity, hhealth, hrole, hstate, hqueued, hdropped, hrejections,
    hbuffered, hlost⟩ := h
  exact {
    identity := toString_inj hid
    position := hposition
    velocity := hvelocity
    health := congrArg HealthComponent.mk (UInt8.toUInt64_inj.mp (u64Json_inj hhealth))
    role := congrArg RoleComponent.mk (UInt32.toUInt64_inj.mp (u64Json_inj hrole))
    state := congrArg BehaviourStateComponent.mk (UInt32.toUInt64_inj.mp (u64Json_inj hstate))
    queued := size_inj a.actionQueue.queue.size_le b.actionQueue.queue.size_le (by norm_num) hqueued
    dropped := UInt32.toUInt64_inj.mp (u64Json_inj hdropped)
    rejections := UInt32.toUInt64_inj.mp (u64Json_inj hrejections)
    buffered := size_inj a.commBuffer.queue.size_le b.commBuffer.queue.size_le (by norm_num)
      hbuffered
    lost := UInt32.toUInt64_inj.mp (u64Json_inj hlost) }

/-- One value, one state. -/
theorem sameState_of_eq {a b : DumpedWorld F U} (h : stateJson value a = stateJson value b) :
    SameState value a b := by
  simp only [stateJson, Json.object.injEq, List.cons_append, List.nil_append, List.cons.injEq,
    Prod.mk.injEq, true_and, Json.boolean.injEq] at h
  obtain ⟨hswarm, htick, helapsed, hinitialized, hrest⟩ := h
  -- the entity is in both or in neither
  have hself : (a.initialized = true → selfJson value a.world = selfJson value b.world) ∧
      [(bytesOf "neighbour_count", u64Json (UInt64.ofNat a.world.neighbourTable.entries.length)),
        (bytesOf "neighbour_observations", u64Json a.world.neighbourTable.totalObservations),
        (bytesOf "neighbour_evictions", u64Json a.world.neighbourTable.totalEvictions),
        (bytesOf "neighbours", .array (a.world.neighbourTable.entries.map (neighbourJson value))),
        (bytesOf "scheduler", schedulerJson value a)] =
      [(bytesOf "neighbour_count", u64Json (UInt64.ofNat b.world.neighbourTable.entries.length)),
        (bytesOf "neighbour_observations", u64Json b.world.neighbourTable.totalObservations),
        (bytesOf "neighbour_evictions", u64Json b.world.neighbourTable.totalEvictions),
        (bytesOf "neighbours", .array (b.world.neighbourTable.entries.map (neighbourJson value))),
        (bytesOf "scheduler", schedulerJson value b)] := by
    rw [← hinitialized] at hrest
    cases hcase : a.initialized with
    | false =>
      rw [hcase] at hrest
      exact ⟨nofun, hrest⟩
    | true =>
      rw [hcase] at hrest
      obtain ⟨hhead, htail⟩ := List.cons.inj hrest
      exact ⟨fun _ => congrArg Prod.snd hhead, htail⟩
  obtain ⟨hself, htail⟩ := hself
  simp only [List.cons.injEq, Prod.mk.injEq, true_and, and_true, schedulerJson,
    Json.object.injEq] at htail
  obtain ⟨-, hobservations, hevictions, hneighbours, hsystems, htimings⟩ := htail
  exact {
    swarm := UInt16.toUInt64_inj.mp (u64Json_inj hswarm)
    tick := u64Json_inj htick
    elapsed := helapsed
    initialized := hinitialized
    self := fun hinit => sameSelf_of_eq (hself hinit)
    observations := u64Json_inj hobservations
    evictions := u64Json_inj hevictions
    neighbours := forall₂_of_array sameNeighbour_of_eq hneighbours
    systems := u64Json_inj hsystems
    timings := forall₂_of_array sameTiming_of_eq htimings }

section Faithful

variable {g17 : UInt64 → StringView}

/-- **A dump is JSON, and stands for the state.** With any names of systems, any ids and any
positions, the text of `dump_state` has exactly one meaning, it holds no raw control character, and
every scope is closed. -/
theorem dump_faithful (hg : PrintsNumbers g17 value) (s : DumpedWorld F U) :
    (∀ j, JsonText (s.dumpState g17) j ↔ j = stateJson value s) ∧
    (∀ b ∈ s.dumpState g17, 0x20 ≤ b) ∧ (writeState g17 {} s).wellFormed = true := by
  have htext := jsonText_dumpState hg s
  obtain ⟨t, ht, -, hprint⟩ := writeState_eq hg s
  refine ⟨fun j => ⟨fun hj => hj.unique htext, ?_⟩, ?_, ?_⟩
  · rintro rfl
    exact htext
  · unfold dumpState
    rw [ht]
    exact hprint
  · rw [ht]
    rfl

/-- What `%.17g` prints of the doubles 1.5, -2.5 and 0. -/
def sampleG17 (bits : UInt64) : StringView :=
  if bits = 0x3FF8000000000000 then decimal 1 ++ 0x2E :: decimal 5
  else if bits = 0xC004000000000000 then 0x2D :: (decimal 2 ++ 0x2E :: decimal 5)
  else decimal 0

def sampleValue (bits : UInt64) : ℚ :=
  if bits = 0x3FF8000000000000 then 3 / 2 else if bits = 0xC004000000000000 then -(5 / 2) else 0

/-- Digits before and after the point. -/
theorem number_fraction {m : StringView} {sign : ℚ} (hm : Minus m sign) (n k : ℕ) :
    Number (m ++ (decimal n ++ 0x2E :: decimal k)) (sign * (n + k / 10 ^ (decimal k).length)) := by
  have h := Number.mk hm (intPart_decimal n) (.present (digits_decimal k)) .absent
  rw [natValue_decimal, natValue_decimal, List.append_nil, zpow_zero, mul_one] at h
  exact h

theorem printsNumbers_sample : PrintsNumbers sampleG17 sampleValue := by
  have hlength : (decimal 5).length = 1 := by simp [decimal]
  intro bits _
  unfold sampleG17 sampleValue
  split
  · have h := number_fraction .absent 1 5
    rw [hlength] at h
    norm_num at h
    exact h
  · split
    · have h := number_fraction .present 2 5
      rw [hlength] at h
      norm_num at h
      exact h
    · exact_mod_cast number_llu 0

/-- A world after a tick: it has heard a neighbour, it moves too fast for a `float`, and its only
system has a quotation mark and a line feed in its name. -/
def ticked (durationUs faults : UInt64) : DumpedWorld ℚ Unit where
  config := .default
  initialized := true
  world :=
    let world := World.init .default ⟨1, ⟨Vector.replicate 16 1⟩⟩ none [] none none ()
    { world with
      context := { world.context with tickCount := 1, elapsedTimeS := 3 / 2 }
      position := ⟨3 / 2, -5 / 2, 0⟩
      velocity := ⟨2 ^ 128, 0, 0⟩
      neighbourTable := world.neighbourTable.upsert { StateVector.empty with
        id := ⟨1, ⟨Vector.replicate 16 2⟩⟩, position := ⟨-5 / 2, 3 / 2, 0⟩ } (3 / 2) none
      faultCount := faults }
  systemCount := 1
  lastTickTimings := [⟨[0x61, 0x22, 0x0A], 0x3FF8000000000000, durationUs, 7⟩]

/-- One of its numbers is printed, and one is too large. -/
theorem ticked_doubles (durationUs faults : UInt64) :
    floatJson sampleValue (ticked durationUs faults).world.position.x = .number (3 / 2) ∧
      floatJson sampleValue (ticked durationUs faults).world.velocity.vx = .null := by
  have hfinite : doubleBits (FloatScalar.toBits (3 / 2 : ℚ)) = 0x3FF8000000000000 := by
    decide +kernel
  have hinfinite : doubleBits (FloatScalar.toBits (2 ^ 128 : ℚ)) = 0x7FF0000000000000 := by
    decide +kernel
  constructor
  · show f64Json sampleValue (doubleBits (FloatScalar.toBits (3 / 2 : ℚ))) = _
    rw [hfinite]
    rfl
  · show f64Json sampleValue (doubleBits (FloatScalar.toBits (2 ^ 128 : ℚ))) = _
    rw [hinfinite]
    rfl

theorem dump_faithful_ticked :
    (∀ j, JsonText ((ticked 0xC004000000000000 0).dumpState sampleG17) j ↔
      j = stateJson sampleValue (ticked 0xC004000000000000 0)) ∧
    (∀ b ∈ (ticked 0xC004000000000000 0).dumpState sampleG17, 0x20 ≤ b) ∧
    (writeState sampleG17 {} (ticked 0xC004000000000000 0)).wellFormed = true :=
  dump_faithful printsNumbers_sample (ticked 0xC004000000000000 0)

/-- **A dump tells the state.** Two worlds whose dumps are the same text are in the same state, as
far as `dump_state` reads it. -/
theorem dump_determines (hg : PrintsNumbers g17 value) {a b : DumpedWorld F U}
    (h : a.dumpState g17 = b.dumpState g17) : SameState value a b := by
  have ha := jsonText_dumpState hg a
  rw [h] at ha
  exact sameState_of_eq (ha.unique (jsonText_dumpState hg b))

/-- A duration that is not finite shows as `null`, and a fault that was reported does not show. -/
theorem dump_determines_ticked :
    ticked 0x7FF0000000000000 0 ≠ ticked 0x7FF8000000000000 1 ∧
    (ticked 0x7FF0000000000000 0).dumpState sampleG17 =
      (ticked 0x7FF8000000000000 1).dumpState sampleG17 ∧
    SameState sampleValue (ticked 0x7FF0000000000000 0) (ticked 0x7FF8000000000000 1) := by
  have hsame : (ticked 0x7FF0000000000000 0).dumpState sampleG17 =
      (ticked 0x7FF8000000000000 1).dumpState sampleG17 := rfl
  have hother : ticked 0x7FF0000000000000 0 ≠ ticked 0x7FF8000000000000 1 := fun h =>
    absurd (congrArg (fun s => s.world.faultCount) h) (by decide : (0 : UInt64) ≠ 1)
  exact ⟨hother, hsame, dump_determines printsNumbers_sample hsame⟩

end Faithful

end DumpedWorld

end MithAtomas
