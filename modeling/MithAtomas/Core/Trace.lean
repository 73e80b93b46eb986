import Mathlib

/-!
# Trace events

`include/mith/core/trace_sink.h`: what the runtime tells a sink. A double travels as its bit
pattern.

The runtime's own events have texts (`TraceEvent`). What a sink is handed is a call of `emit` with
`string_view`s, that is with any bytes (`EmitCall`).
-/

namespace MithAtomas

inductive TraceLevel where
  | off
  | warn
  | info
  | debug
  deriving DecidableEq, Repr

/-- The tagged union of a `TraceField`. -/
inductive TraceValue where
  | str (v : String)
  | i64 (v : Int64)
  | u64 (v : UInt64)
  | f64 (bits : UInt64)
  | boolean (v : Bool)
  deriving DecidableEq

structure TraceField where
  key : String
  value : TraceValue
  deriving DecidableEq

/-- The arguments of one call of `emit`. -/
structure TraceEvent where
  level : TraceLevel
  event : String
  fields : List TraceField
  deriving DecidableEq

/-- A sink, as the events it has been given. -/
abbrev TraceSink := List TraceEvent

/-! ### Calls of `emit` -/

/-- A `std::string_view`, as its bytes. -/
abbrev StringView := List UInt8

/-- The tagged union of a field, as a sink reads it. -/
inductive FieldValue where
  | str (v : StringView)
  | i64 (v : Int64)
  | u64 (v : UInt64)
  | f64 (bits : UInt64)
  | boolean (v : Bool)
  deriving DecidableEq

structure EmitField where
  key : StringView
  value : FieldValue
  deriving DecidableEq

/-- The arguments of a call of `emit`. -/
structure EmitCall where
  level : TraceLevel
  event : StringView
  fields : List EmitField
  deriving DecidableEq

/-- `static_cast<std::uint8_t>(level)`. -/
def TraceLevel.toUInt8 : TraceLevel → UInt8
  | .off => 0
  | .warn => 1
  | .info => 2
  | .debug => 3

end MithAtomas
