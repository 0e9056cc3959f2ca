import Octet.Config

/-!
# Arguments

The command line names one source file and any of a number of options, in any order. An option is
given at most once. `Arguments.read` goes over the arguments from left to right and stops at the
first one that is wrong, or that asks for the version or for help.

* An option with a value is followed by it, or written with `=` before it. A value that follows does
  not start with a dash, unless it is a single dash.
* Options without a value have one letter in some cases; such letters may be written together.
* After `--` everything names a file.
-/

namespace Octet.CommandLine

/-- What the command line asks for. -/
structure Arguments where
  file : String
  isa : Option Isa := none
  /-- The file with the configuration. -/
  config : Option String := none
  maxSteps : Option Nat := none
  /-- The period of the clock, if the program is to be run by one. -/
  clock : Option Nat := none
  trace : Bool := false
  dump : Bool := false
  disassemble : Bool := false
  deriving DecidableEq

/-- Why reading the arguments ends early. -/
inductive Stop where
  /-- An argument is wrong or missing. -/
  | usage
  | version
  /-- The help is asked for, in full or as a summary. -/
  | help (full : Bool)
  deriving DecidableEq

/-- What has been read so far. -/
structure Draft where
  file : Option String := none
  isa : Option Isa := none
  config : Option String := none
  maxSteps : Option Nat := none
  clock : Option Nat := none
  trace : Bool := false
  dump : Bool := false
  disassemble : Bool := false
  verbose : Bool := false

/-! ## Single arguments -/

/-- Fills a place that has to be empty. -/
def once {α : Type} (place value : Option α) : Except Stop (Option α) :=
  match place, value with
  | none, some v => .ok (some v)
  | _, _ => .error .usage

/-- Sets a switch that has to be off. -/
def switchOn (isOn : Bool) : Except Stop Bool :=
  if isOn then .error .usage else .ok true

/-- The name of a file, which is not empty. -/
def fileName? (value : String) : Option String :=
  if value.isEmpty then none else some value

/-- A number. -/
def number? (value : String) : Option Nat :=
  Text.unsigned? 10 Config.numberBound value.toList

/-- An instruction set, by its exact name. -/
def isa? (value : String) : Option Isa :=
  Isa.all.find? fun isa => isa.name == value

/-- Whether an argument may be the value of the option before it. -/
def isValue (argument : String) : Bool :=
  argument == "-" || argument.toList.head? != some '-'

namespace Draft

/-- Takes the name of a file. -/
def addFile (d : Draft) (value : String) : Except Stop Draft := do
  return { d with file := ← once d.file (fileName? value) }

/-- Whether an option has a value. -/
def takesValue (name : String) : Bool :=
  ["isa", "config", "max-steps", "clock-ms"].contains name

/-- Takes an option with its value. -/
def addOption (d : Draft) (name value : String) : Except Stop Draft :=
  match name with
  | "isa" => do return { d with isa := ← once d.isa (isa? value) }
  | "config" => do return { d with config := ← once d.config (fileName? value) }
  | "max-steps" => do return { d with maxSteps := ← once d.maxSteps (number? value) }
  | "clock-ms" => do return { d with clock := ← once d.clock (number? value) }
  | _ => .error .usage

/-- Takes an option without a value. -/
def addSwitch (d : Draft) (name : String) : Except Stop Draft :=
  match name with
  | "trace" => do return { d with trace := ← switchOn d.trace }
  | "dump" => do return { d with dump := ← switchOn d.dump }
  | "disassemble" => do return { d with disassemble := ← switchOn d.disassemble }
  | "verbose" => do return { d with verbose := ← switchOn d.verbose }
  | "version" => .error .version
  | "help" => .error (.help true)
  | _ => .error .usage

/-- Takes options that are written as letters. -/
def addLetters (d : Draft) : List Char → Except Stop Draft
  | [] => .ok d
  | 'v' :: rest => do (← d.addSwitch "verbose").addLetters rest
  | 'V' :: _ => .error .version
  | 'h' :: _ => .error (.help false)
  | _ => .error .usage

/-- The arguments, once all of them have been read. -/
def finish (d : Draft) : Except Stop Arguments :=
  match d.file with
  | some file =>
    .ok
      { file, isa := d.isa, config := d.config, maxSteps := d.maxSteps, clock := d.clock
        trace := d.trace, dump := d.dump, disassemble := d.disassemble }
  | none => .error .usage

/-! ## All arguments -/

/-- Reads arguments that all name files. -/
def readFiles (d : Draft) : List String → Except Stop Arguments
  | [] => d.finish
  | argument :: rest =>
    match d.addFile argument with
    | .ok d => d.readFiles rest
    | .error stop => .error stop

/-- Reads an option that is written as a word: its name, and its value if it is written after `=`. -/
def addWord (d : Draft) (word : List Char) : Except Stop Draft :=
  let name := String.ofList (word.takeWhile (· ≠ '='))
  match word.dropWhile (· ≠ '=') with
  | [] => d.addSwitch name
  | _ :: value => d.addOption name (String.ofList value)

/-- Reads arguments from left to right. -/
def readAll (d : Draft) : List String → Except Stop Arguments
  | [] => d.finish
  | argument :: rest =>
    match argument.toList with
    | ['-', '-'] => d.readFiles rest
    | '-' :: '-' :: word =>
      if takesValue (String.ofList word) then
        match rest with
        | value :: rest =>
          if isValue value then
            match d.addOption (String.ofList word) value with
            | .ok d => d.readAll rest
            | .error stop => .error stop
          else .error .usage
        | [] => .error .usage
      else
        match d.addWord word with
        | .ok d => d.readAll rest
        | .error stop => .error stop
    | '-' :: letter :: letters =>
      match d.addLetters (letter :: letters) with
      | .ok d => d.readAll rest
      | .error stop => .error stop
    | _ =>
      match d.addFile argument with
      | .ok d => d.readAll rest
      | .error stop => .error stop

end Draft

/-- Reads the arguments of the command line. -/
def Arguments.read (arguments : List String) : Except Stop Arguments :=
  Draft.readAll {} arguments

end Octet.CommandLine
