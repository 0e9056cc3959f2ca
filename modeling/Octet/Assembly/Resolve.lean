import Octet.Assembly.Literal

/-!
# Resolving operands

What the operands of an instruction stand for, given the address of the instruction and the labels
of the program.

A label names the address of the instruction that follows it. An operand is looked up among the
labels first and read as a literal only if there is no such label; a token that looks like a label
but is not declared is reported as that, and not as a bad number.

* `Context.value` — a byte;
* `Context.target` — the address that a jump or a branch goes to;
* `Context.displacement` — the distance to it;
* `registerNamed` — a register.
-/

namespace Octet.Assembly

/-- The declared labels and their addresses. No name is declared twice. -/
abbrev LabelTable := List (Token × UInt8)

/-- The address of a label. -/
def LabelTable.address? (labels : LabelTable) (name : Token) : Option UInt8 :=
  List.lookup name labels

/-- What the operands of an instruction are read against. -/
structure Context where
  /-- The address of the instruction. -/
  address : UInt8 := 0
  labels : LabelTable := []

/-- Jump targets given as numbers have to be below this. -/
def directTargetLimit : UInt8 := 32

/-- Whether a token starts the way the name of a label does. -/
def looksLikeLabel (token : Token) : Bool :=
  match token with
  | [] => false
  | c :: _ => c.isAlpha || c == '_' || c == '.'

/-- The byte that an operand stands for: the address of a label, or a literal. -/
def Context.value (ctx : Context) (token : Token) : Except Cause UInt8 :=
  match ctx.labels.address? token with
  | some address => .ok address
  | none =>
    if looksLikeLabel token then .error (.undefinedLabel token)
    else (literal token).mapError .invalidOperand

/-- The address that a jump goes to: a label anywhere, or a number below the limit. -/
def Context.target (ctx : Context) (token : Token) : Except Cause UInt8 :=
  match ctx.labels.address? token with
  | some address => .ok address
  | none =>
    match ctx.value token with
    | .ok v =>
      if v < directTargetLimit then .ok v else .error (.invalidOperand (.targetTooLarge v))
    | .error cause => .error cause

/-- The distance from the end of an instruction of the given size to a target, as a signed byte. -/
def Context.displacement (ctx : Context) (target size : UInt8) : Except Cause UInt8 :=
  let offset : Int := target.toNat - (ctx.address.toNat + size.toNat)
  if -128 ≤ offset ∧ offset ≤ 127 then .ok (Int8.ofInt offset).toUInt8
  else .error (.branchTooFar offset)

/-- The register that an operand names. -/
def registerNamed (layout : RegisterLayout) (name : Token) : Except Cause Reg :=
  match layout.register? name with
  | some r => .ok r
  | none => .error (.invalidOperand (.unknownRegister name))

end Octet.Assembly
