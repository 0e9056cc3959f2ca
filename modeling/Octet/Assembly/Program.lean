import Octet.Assembly.Placement

/-!
# Programs

`assemble` turns a source text into a `Program`, or into everything that is wrong with it. Once the
labels are known, the lines are gone over a second time: an instruction is encoded at its address
under the complete label table, a data line goes into the data memory as the lines before it left
it. This pass counts the bytes by itself. What is wrong with one line does not keep the others from
being looked at.
-/

namespace Octet.Assembly

/-- The two memories while they are being filled. -/
structure Image where
  instructions : Bank := .zero
  data : Bank := .zero
  /-- The number of bytes of the instructions so far. -/
  address : Nat := 0
  /-- Whether there has been a data line. -/
  inData : Bool := false
  deriving DecidableEq

namespace Image

/-- Encodes an instruction where the ones before it end. -/
def addInstruction (isa : Isa) (labels : LabelTable) (image : Image) (mnemonic : Token)
    (operands : List Char) : Image × Option Cause :=
  match isa.size? mnemonic with
  | none => (image, none)
  | some size =>
    let address := UInt8.ofNat image.address
    let next := { image with address := image.address + size.toNat }
    match isa.encode { address, labels } mnemonic (tokens operands) with
    | .ok code =>
      ({ next with instructions := image.instructions.writeBytes address code.bytes }, none)
    | .error cause => (next, some cause)

/-- Loads a data line. -/
def addData (image : Image) (operands : List Char) : Image × Option Cause :=
  match loadData image.data operands with
  | (data, .ok _) => ({ image with data, inData := true }, none)
  | (data, .error cause) => ({ image with data, inData := true }, some cause)

/-- Puts the bytes of a line in their place. After a data line, lines that are none are skipped. -/
def add (isa : Isa) (labels : LabelTable) (image : Image) (line : Line) : Image × Option Cause :=
  match line.mnemonic with
  | none => (image, none)
  | some mnemonic =>
    if mnemonic = dataMnemonic then image.addData line.operands
    else if image.inData then (image, none)
    else image.addInstruction isa labels mnemonic line.operands

/-- Puts the bytes of all lines in their places, and collects what is wrong. -/
def fill (isa : Isa) (labels : LabelTable) (image : Image) : List Line → Image × List Diagnostic
  | [] => (image, [])
  | line :: rest =>
    match image.add isa labels line with
    | (next, none) => next.fill isa labels rest
    | (next, some cause) =>
      let (final, diagnostics) := next.fill isa labels rest
      (final, ⟨line.number, cause⟩ :: diagnostics)

end Image

/-- An assembled program. -/
structure Program where
  instructions : Bank
  data : Bank
  /-- The number of instruction bytes. -/
  length : Nat
  labels : LabelTable
  deriving DecidableEq

/-- The instruction bytes. -/
def Program.bytes (program : Program) : List UInt8 :=
  program.instructions.toList.take program.length

/-- Assembles lines whose labels are known. -/
def emit (isa : Isa) (lines : List Line) (labels : LabelTable) :
    Except (List Diagnostic) Program :=
  let (image, diagnostics) := Image.fill isa labels {} lines
  if diagnostics.isEmpty then
    .ok { instructions := image.instructions, data := image.data, length := image.address, labels }
  else .error diagnostics

/-- Assembles a source text. What is wrong with labels and mnemonics is reported before any operand
is looked at. -/
def assemble (isa : Isa) (source : String) : Except (List Diagnostic) Program :=
  let lines := lines isa.commentMarks source.toList
  match collectLabels isa lines with
  | .ok labels => emit isa lines labels
  | .error diagnostics => .error diagnostics

end Octet.Assembly
