import Octet.Assembly.Cause

/-!
# Vocabularies

The instructions that an assembler knows, each with the form in which its operands are written and
encoded. A name is in the table once; where it may be written in either case, the text is compared
letter by letter.
-/

namespace Octet

/-- The names of instructions and their forms. -/
abbrev Vocabulary (Form : Type) := List (String × Form)

namespace Vocabulary

variable {Form : Type}

/-- The form of an instruction whose name is written in upper case. -/
def form? (vocabulary : Vocabulary Form) (mnemonic : Token) : Option Form :=
  (vocabulary.find? fun entry => entry.1.toList == mnemonic).map (·.2)

/-- The form of an instruction whose name is written in either case. -/
def formAnyCase? (vocabulary : Vocabulary Form) (mnemonic : Token) : Option Form :=
  (vocabulary.find? fun entry => Text.sameLetters entry.1.toList mnemonic).map (·.2)

end Vocabulary

end Octet
