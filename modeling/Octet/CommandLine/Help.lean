import Octet.Isa

/-!
# Help

What the command says about itself: a summary with one line for each argument, and a full text in
which every argument has a paragraph of its own and the instruction sets are described.
-/

namespace Octet.CommandLine

/-- An argument, as it is written and what it is for. -/
structure ArgumentHelp where
  written : String
  purpose : String
  /-- What may stand there and what it means, if there are few choices. -/
  choices : List (String × String) := []

/-- The name and version of the command. -/
def versionText : String := "cdc_vm_cli 0.1.0"

/-- What the command does. -/
def aboutText : String := "Assemble and run a program on an 8-bit teaching CPU"

/-- How the command is called. -/
def usageText : String := "Usage: cdc_vm_cli [OPTIONS] <FILE>"

/-- What an instruction set is like. -/
def isaPurpose : Isa → String
  | .cdc8512 => "4 个地址寄存器 + 4 个数据寄存器，三态比较标志"
  | .cdc6504 => "6502 风格的累加器机器，Z/N/C 标志"

/-- The file to be assembled. -/
def fileHelp : ArgumentHelp where
  written := "<FILE>"
  purpose := "汇编源文件"

/-- The options; `helpPurpose` is said of the option that asks for help. -/
def optionHelps (helpPurpose : String) : List ArgumentHelp :=
  [{ written := "    --isa <ISA>", purpose := "指令集"
     choices := Isa.all.map fun isa => (isa.name, isaPurpose isa) },
    { written := "    --config <CONFIG>", purpose := "JSON 配置文件，命令行参数优先" },
    { written := "    --max-steps <MAX_STEPS>", purpose := "同步运行的最大步数" },
    { written := "    --clock-ms <CLOCK_MS>", purpose := "以此节拍（毫秒）定时运行" },
    { written := "    --trace", purpose := "打印执行轨迹" },
    { written := "    --dump", purpose := "以 JSON 打印最终整机状态" },
    { written := "    --disassemble", purpose := "只打印反汇编，不运行" },
    { written := "-v, --verbose", purpose := "调试日志" },
    { written := "-h, --help", purpose := helpPurpose },
    { written := "-V, --version", purpose := "Print version" }]

/-- Arguments with what they are for in a column of its own. -/
def summarize (arguments : List ArgumentHelp) : List String :=
  let width := (arguments.map fun a => a.written.length).foldl max 0
  arguments.map fun a =>
    let choices :=
      if a.choices.isEmpty then ""
      else " [possible values: " ++ ", ".intercalate (a.choices.map (·.1)) ++ "]"
    "  " ++ Text.padEnd width a.written ++ "  " ++ a.purpose ++ choices

/-- The paragraph for an argument. -/
def ArgumentHelp.paragraph (a : ArgumentHelp) : List String :=
  let choices :=
    if a.choices.isEmpty then []
    else "" :: "Possible values:" :: a.choices.map fun c => "- " ++ c.1 ++ ": " ++ c.2
  ("  " ++ a.written)
    :: (a.purpose :: choices).map fun line => if line.isEmpty then "" else "          " ++ line

/-- Paragraphs with an empty line between them. -/
def paragraphs (arguments : List ArgumentHelp) : List String :=
  [""].intercalate (arguments.map (·.paragraph))

/-- The lines of the help; `full` asks for the full text. -/
def helpLines (full : Bool) : List String :=
  let helpPurpose :=
    if full then "Print help (see a summary with '-h')" else "Print help (see more with '--help')"
  let write := if full then paragraphs else summarize
  [aboutText, "", usageText, "", "Arguments:"] ++ write [fileHelp]
    ++ ["", "Options:"] ++ write (optionHelps helpPurpose)

end Octet.CommandLine
