import Octet.Cdc6504.Opcodes

/-!
# The CDC6504: the text of an instruction

An instruction is shown the way it would be written: values in base ten after `#`, addresses as two
hexadecimal digits after `$`, the distance of a branch with its sign. An instruction whose name says
all is shown as its name.
-/

namespace Octet.Cdc6504

/-- The index register after an address. -/
def indexText : Option Reg → String
  | some r => "," ++ layout.name r
  | none => ""

/-- The operand of an instruction that reads a value. -/
def sourceText : Source → String
  | .immediate value => "#" ++ Text.decimal value
  | .memory address index => "$" ++ Text.hexUpper address ++ indexText index
  | .register r => layout.name r

/-- A distance with its sign, a plus for zero. -/
def signed (offset : Int8) : String :=
  if 0 ≤ offset.toInt then "+" ++ toString offset.toInt else toString offset.toInt

/-- The text of an instruction. -/
def text (i : Instruction) : String :=
  match i.op with
  | .load _ src | .compare _ src | .add _ src | .sub _ src => i.name ++ " " ++ sourceText src
  | .store _ address index => i.name ++ " $" ++ Text.hexUpper address ++ indexText index
  | .branch _ offset => i.name ++ " " ++ signed offset
  | .jump _ target => i.name ++ " " ++ Text.decimal target
  | .unknown => "Unknown (0x" ++ Text.hexUpper i.raw ++ ")"
  | .halt | .nop | .clear _ | .inc _ | .dec _ | .transfer .. => i.name

end Octet.Cdc6504
