import Octet.Cdc8512.Opcodes

/-!
# The CDC8512: the text of an instruction

An instruction is shown the way it would be written: its name, then registers and numbers in base
ten, separated by a comma and a space. Operations that this machine never decodes to are shown
without their operands.
-/

namespace Octet.Cdc8512

/-- A value as the second operand of an instruction. -/
def sourceText : Source → String
  | .immediate value => Text.decimal value
  | .register r => layout.name r
  | .memory address _ => "[" ++ Text.decimal address ++ "]"

/-- The text of an instruction. -/
def text (i : Instruction) : String :=
  match i.op with
  | .halt | .nop => i.name
  | .clear r | .inc r | .dec r => i.name ++ " " ++ layout.name r
  | .compare r src =>
    if i.name = "CMPZ" then i.name ++ " " ++ layout.name r
    else i.name ++ " " ++ layout.name r ++ ", " ++ sourceText src
  | .load r src | .add r src | .sub r src =>
    i.name ++ " " ++ layout.name r ++ ", " ++ sourceText src
  | .transfer dst src => i.name ++ " " ++ layout.name dst ++ ", " ++ layout.name src
  | .jump _ target => i.name ++ " " ++ Text.decimal target
  | .store .. | .branch .. => i.name
  | .unknown => "Unknown (0x" ++ Text.hexUpper i.raw ++ ")"

end Octet.Cdc8512
