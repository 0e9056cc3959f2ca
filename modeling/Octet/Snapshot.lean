import Octet.Config
import Octet.Machine.Basic

/-!
# Snapshots

A `Snapshot` is the state of a machine as it is saved: instruction set, registers, run state and
both memories, without trace and output. Its JSON has the fields in a fixed order. Reading asks for
every field, but for the memories any number of bytes will do; whether there are 256 of them is seen
when the snapshot is restored.
-/

namespace Octet

/-- A saved state. -/
structure Snapshot where
  isa : Isa
  registers : Registers
  state : RunState
  instructions : List UInt8
  data : List UInt8
  deriving DecidableEq

namespace Snapshot

/-! ## Writing -/

/-- The flags as a JSON value. -/
def flagsToJson : Flags → Json
  | .comparison order => .tagged "Comparison" (.name (Flags.orderName order))
  | .status zero negative carry =>
    .tagged "Status"
      (.record [("zero", .bool zero), ("negative", .bool negative), ("carry", .bool carry)])

/-- Registers as a JSON value. -/
def registersToJson (registers : Registers) : Json :=
  .record [("pc", .byte registers.pc), ("regs", .bytes registers.file.toList),
    ("flags", flagsToJson registers.flags)]

/-- A fault as a JSON value. -/
def faultToJson : Fault → Json
  | .invalidOpcode pc opcode =>
    .tagged "InvalidOpcode" (.record [("pc", .byte pc), ("opcode", .byte opcode)])
  | .addressOutOfRange pc register value =>
    .tagged "AddressOutOfRange"
      (.record [("pc", .byte pc), ("register", .byte register), ("value", .byte value)])

/-- A run state as a JSON value. -/
def stateToJson : RunState → Json
  | .running => .name "Running"
  | .halted => .name "Halted"
  | .errored fault => .tagged "Errored" (faultToJson fault)

/-- A snapshot as a JSON value. -/
def toJson (snapshot : Snapshot) : Json :=
  .record [("isa", .name snapshot.isa.name), ("registers", registersToJson snapshot.registers),
    ("state", stateToJson snapshot.state), ("instructions", .bytes snapshot.instructions),
    ("data", .bytes snapshot.data)]

/-- The text of a snapshot, on one line. -/
def render (snapshot : Snapshot) : String :=
  snapshot.toJson.render

/-- The text of a snapshot, with every item on a line of its own. -/
def renderPretty (snapshot : Snapshot) : String :=
  snapshot.toJson.renderPretty

/-! ## Reading -/

/-- The outcomes of a comparison under their names. -/
def orderOfJson? (v : Json) : Option Ordering :=
  v.choice? ([Ordering.lt, .eq, .gt].map fun order => (Flags.orderName order, order))

/-- The three status bits. -/
def statusOfJson? (v : Json) : Option Flags :=
  match v.fields? ["zero", "negative", "carry"] with
  | some [some zero, some negative, some carry] => do
    return .status (← zero.bool?) (← negative.bool?) (← carry.bool?)
  | _ => none

/-- The flags that a JSON value holds. -/
def flagsOfJson? (v : Json) : Option Flags :=
  match v.alternative? with
  | some (tag, some content) =>
    if tag = "Comparison".toList then (orderOfJson? content).map .comparison
    else if tag = "Status".toList then statusOfJson? content
    else none
  | _ => none

/-- The registers that a JSON value holds. -/
def registersOfJson? (v : Json) : Option Registers :=
  match v.fields? ["pc", "regs", "flags"] with
  | some [some pc, some file, some flags] => do
    return { pc := ← pc.byte?, file := ← RegisterFile.ofList? (← file.bytes?)
             flags := ← flagsOfJson? flags }
  | _ => none

/-- The fault that a JSON value holds. -/
def faultOfJson? (v : Json) : Option Fault :=
  match v.alternative? with
  | some (tag, some content) =>
    if tag = "InvalidOpcode".toList then
      match content.fields? ["pc", "opcode"] with
      | some [some pc, some opcode] => do return .invalidOpcode (← pc.byte?) (← opcode.byte?)
      | _ => none
    else if tag = "AddressOutOfRange".toList then
      match content.fields? ["pc", "register", "value"] with
      | some [some pc, some register, some value] => do
        return .addressOutOfRange (← pc.byte?) (← register.byte?) (← value.byte?)
      | _ => none
    else none
  | _ => none

/-- The run state that a JSON value holds. -/
def stateOfJson? (v : Json) : Option RunState :=
  match v.alternative? with
  | some (tag, content) =>
    if tag = "Errored".toList then (content.bind faultOfJson?).map .errored
    else v.choice? [("Running", .running), ("Halted", .halted)]
  | none => none

/-- The snapshot that a JSON value holds. -/
def ofJson? (v : Json) : Option Snapshot :=
  match v.fields? ["isa", "registers", "state", "instructions", "data"] with
  | some [some isa, some registers, some state, some instructions, some data] => do
    return { isa := ← Config.isaOfJson? isa, registers := ← registersOfJson? registers
             state := ← stateOfJson? state, instructions := ← instructions.bytes?
             data := ← data.bytes? }
  | _ => none

/-- The snapshot in a text. -/
def ofText? (text : String) : Option Snapshot :=
  (Json.ofText? text).bind ofJson?

end Snapshot

end Octet
