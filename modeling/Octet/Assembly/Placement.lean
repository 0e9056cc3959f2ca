import Octet.Assembly.DataLine
import Octet.Assembly.Line
import Octet.Isa

/-!
# Placing labels

Before an instruction can be encoded, the addresses of all labels have to be known. The size of an
instruction depends on its mnemonic only, so the addresses follow from the mnemonics, one line after
another: `survey` goes over the lines, declares the labels and counts the bytes.

* From the first data line on, other lines are skipped, and the address stands still.
* A line whose label is empty or declared before is skipped as a whole, whatever else is on it.
* An instruction that does not fit in the memory ends the survey.

There is at most one diagnostic for a line. `collectLabels` gives the labels only if there is none.
-/

namespace Octet.Assembly

/-- The number of bytes that instructions may take. -/
def programLimit : Nat := Bank.capacity

/-- What is known before a line is looked at. -/
structure Position where
  labels : LabelTable := []
  /-- The number of bytes of the instructions so far. -/
  address : Nat := 0
  /-- Whether there has been a data line. -/
  inData : Bool := false

namespace Position

/-- Declares the label of a line, if it has one, at the present address modulo 256. -/
def declare (p : Position) (label : Option Token) : Except Cause Position :=
  match label with
  | none => .ok p
  | some name =>
    if name.isEmpty then .error .emptyLabel
    else if (p.labels.address? name).isSome then .error (.duplicateLabel name)
    else .ok { p with labels := (name, UInt8.ofNat p.address) :: p.labels }

/-- Goes past the instruction or the data of a line. -/
def advance (isa : Isa) (p : Position) (mnemonic : Token) : Except Cause Position :=
  if mnemonic = dataMnemonic then .ok { p with inData := true }
  else if p.inData then .ok p
  else
    match isa.size? mnemonic with
    | none => .error (.unknownInstruction mnemonic)
    | some size =>
      let needed := p.address + size.toNat
      if programLimit < needed then .error (.programTooLarge needed)
      else .ok { p with address := needed }

/-- Looks at one line. A label stays declared if something is wrong behind it. -/
def visit (isa : Isa) (p : Position) (line : Line) : Position × Option Cause :=
  match p.declare line.label with
  | .error cause => (p, some cause)
  | .ok p =>
    match line.mnemonic with
    | none => (p, none)
    | some mnemonic =>
      match p.advance isa mnemonic with
      | .ok next => (next, none)
      | .error cause => (p, some cause)

end Position

/-- Whether nothing is looked at after this cause. -/
def Cause.isFinal : Cause → Bool
  | programTooLarge _ => true
  | _ => false

/-- Looks at the lines in order. Gives what is known at the end, and what is wrong. -/
def survey (isa : Isa) (p : Position) : List Line → Position × List Diagnostic
  | [] => (p, [])
  | line :: rest =>
    match p.visit isa line with
    | (next, none) => survey isa next rest
    | (next, some cause) =>
      if cause.isFinal then (next, [⟨line.number, cause⟩])
      else
        let (final, diagnostics) := survey isa next rest
        (final, ⟨line.number, cause⟩ :: diagnostics)

/-- The labels of the lines, if nothing is wrong with any of them. -/
def collectLabels (isa : Isa) (lines : List Line) : Except (List Diagnostic) LabelTable :=
  let (final, diagnostics) := survey isa {} lines
  if diagnostics.isEmpty then .ok final.labels else .error diagnostics

end Octet.Assembly
