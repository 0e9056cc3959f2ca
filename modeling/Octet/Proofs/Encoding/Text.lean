import Octet.Proofs.Encoding.Transfers
import Octet.Proofs.Reading.Numerals
import Octet.Proofs.Reading.Written

/-!
# The text of an instruction

An instruction that is known is shown by its name and what it works on (`Isa.prefix_text`).

What is shown can be encoded again: registers are shown by names, addresses in hexadecimal and values
in base ten, and all of these are read as what they are, wherever the instruction stands. `Isa.Shows` is
this relation between a code and the operands in the text of its instruction. It does not hold for
branches, since the distance that they are shown with is no operand, nor for jumps to where only labels
can lead.

The main statement is `Isa.exists_shows`.
-/

namespace Octet

open Assembly (Context Plain operandText directTargetLimit registerNamed_eq_ok)

variable {isa : Isa} {i : Instruction} {ctx : Context} {name : String} {mnemonic : Token}
  {operands shown : List Token} {op : Op} {code : Code}

theorem Cdc8512.prefix_text (h : i.op ≠ .unknown) :
    i.name.toList <+: (Cdc8512.text i).toList := by
  unfold Cdc8512.text
  cases hop : i.op with
  | unknown => exact absurd hop h
  | compare r src =>
    simp only
    split <;> simp
  | _ => simp

theorem Cdc6504.prefix_text (h : i.op ≠ .unknown) :
    i.name.toList <+: (Cdc6504.text i).toList := by
  unfold Cdc6504.text
  cases hop : i.op with
  | unknown => exact absurd hop h
  | _ => simp

/-- The text of an instruction that is known starts with its name. -/
theorem Isa.prefix_text (h : i.op ≠ .unknown) : i.name.toList <+: (isa.text i).toList := by
  cases isa with
  | cdc8512 => exact Cdc8512.prefix_text h
  | cdc6504 => exact Cdc6504.prefix_text h

/-! ## Texts that are operands -/

namespace Isa

/-- What is shown between operands. -/
def separator : Isa → List Char
  | cdc8512 => [',', ' ']
  | cdc6504 => [',']

/-- The names of the branches. They are shown with a distance, and written with a target. -/
def branches : Isa → List String
  | cdc8512 => []
  | cdc6504 => ["BEQ", "BNE", "BMI", "BPL", "BCC", "BCS"]

/-- The operands in the text of the instruction that a code stands for. Where there are no labels, the
name with these operands is encoded as the same code. -/
structure Shows (isa : Isa) (name : String) (code : Code) (shown : List Token) : Prop where
  plain : ∀ token ∈ shown, Plain isa.commentMarks token
  text : ∀ next, (isa.text (isa.decode code.first (code.second next))).toList =
    name.toList ++ operandText isa.separator shown
  encode : ∀ ctx : Context, ctx.labels = [] → isa.encode ctx name.toList shown = .ok code

theorem Shows.of_decodesTo (hplain : ∀ token ∈ shown, Plain isa.commentMarks token)
    (hdecodes : isa.table.DecodesTo name op code)
    (htext : ∀ i : Instruction, i.name = name → i.op = op →
      (isa.text i).toList = i.name.toList ++ operandText isa.separator shown)
    (hencode : ∀ ctx : Context, ctx.labels = [] → isa.encode ctx name.toList shown = .ok code) :
    isa.Shows name code shown := by
  refine ⟨hplain, fun next => ?_, hencode⟩
  rw [decode, hdecodes.decode]
  exact htext _ rfl rfl

theorem isAlphanum_of_mem_commentMarks (isa : Isa) : ∀ c ∈ isa.commentMarks, c.isAlphanum = false := by
  cases isa <;> simp [commentMarks]

theorem plain_decimal (isa : Isa) (v : UInt8) : Plain isa.commentMarks (Text.decimal v).toList :=
  .of_isAlphanum isa.isAlphanum_of_mem_commentMarks (Text.decimal_ne_nil v) fun c hc => by
    simp [Char.isAlphanum, Text.isDigit_of_mem_decimal hc]

theorem plain_hexUpper (isa : Isa) (b : UInt8) : Plain isa.commentMarks (Text.hexUpper b).toList :=
  .of_isAlphanum isa.isAlphanum_of_mem_commentMarks (by simp [Text.toList_hexUpper]) fun _ hc =>
    Text.isAlphanum_of_mem_hexUpper hc

end Isa

/-! ## The CDC8512 -/

namespace Cdc8512

/-- The operands that an operation is shown with under a sense. -/
inductive Sense.Spells : Sense → Op → List Token → Prop where
  | bare {op : Op} : Spells (.bare op) op []
  | onRegister {op : Reg → Op} {r : Reg} (hr : r < 8) :
      Spells (.onRegister op) (op r) [(layout.name r).toList]
  | onValue {op : Reg → Source → Op} {r : Reg} (hr : r < 8) (v : UInt8) :
      Spells (.onValue op) (op r (.immediate v))
        [(layout.name r).toList, (Text.decimal v).toList]
  | jump {condition : Condition} (target : UInt8) :
      Spells (.jump condition) (.jump condition target) [(Text.decimal target).toList]
  | move {dst src : Reg} (hdst : dst < 8) (hsrc : src < 8) :
      Spells .move (.transfer dst src) [(layout.name dst).toList, (layout.name src).toList]

theorem register?_name {r : Reg} (hr : r < 8) : layout.register? (layout.name r).toList = some r := by
  rcases register_cases hr with rfl | rfl | rfl | rfl | rfl | rfl | rfl | rfl <;> decide

theorem plain_name {r : Reg} (hr : r < 8) :
    Plain Isa.cdc8512.commentMarks (layout.name r).toList := by
  rcases register_cases hr with rfl | rfl | rfl | rfl | rfl | rfl | rfl | rfl <;> decide

theorem Sense.Spells.plain {sense : Sense} (h : sense.Spells op shown) :
    ∀ token ∈ shown, Plain Isa.cdc8512.commentMarks token := by
  cases h with
  | bare => exact nofun
  | onRegister hr => simpa using plain_name hr
  | onValue hr v => simpa using ⟨plain_name hr, Isa.cdc8512.plain_decimal v⟩
  | jump target => simpa using Isa.cdc8512.plain_decimal target
  | move hdst hsrc => simpa using ⟨plain_name hdst, plain_name hsrc⟩

/-- How the instructions with a name are shown that have operands of their own. -/
def Sense.Shown (name : String) : Sense → Prop
  | bare op => ∀ i, i.name = name → i.op = op → text i = name
  | onRegister op => ∀ i r, i.name = name → i.op = op r → text i = name ++ " " ++ layout.name r
  | onValue op => ∀ i r src, i.name = name → i.op = op r src →
    text i = name ++ " " ++ layout.name r ++ ", " ++ sourceText src
  | jump _ | move => True

/-- A comparison with zero is shown without the zero, and is known by its name. -/
theorem senses_shown : ∀ entry ∈ senses, entry.2.Shown entry.1 := by
  simp +contextual [senses, Sense.Shown, text]

theorem Sense.Spells.text {sense : Sense} (hsense : (i.name, sense) ∈ senses)
    (h : sense.Spells i.op shown) :
    (text i).toList = i.name.toList ++ operandText Isa.cdc8512.separator shown := by
  have hshown := senses_shown _ hsense
  generalize hop : i.op = op at h
  cases h with
  | bare => rw [hshown i rfl hop, operandText, List.append_nil]
  | onRegister hr => simp [hshown i _ rfl hop, operandText]
  | onValue hr v => simp [hshown i _ _ rfl hop, operandText, Isa.separator, sourceText]
  | jump target => simp [Cdc8512.text, hop, operandText]
  | move hdst hsrc => simp [Cdc8512.text, hop, operandText, Isa.separator]

/-- What a form encodes can be spelled out, if it is not a jump to where only labels can lead. -/
theorem Form.spells_of_encode {form : Form} {sense : Sense} (himp : Implements name form sense)
    (htarget : ∀ condition, sense = .jump condition → ∀ token ∈ operands, ∀ target,
      ctx.target token = .ok target → target < directTargetLimit)
    (h : form.encode ctx mnemonic operands = .ok code) :
    ∃ op shown, sense.Spells op shown ∧ table.DecodesTo name op code ∧
      ∀ ctx' : Context, ctx'.labels = [] → form.encode ctx' mnemonic shown = .ok code := by
  have hregister : ∀ {r : Reg}, r < 8 → register (layout.name r).toList = .ok r :=
    fun hr => registerNamed_eq_ok.mpr (register?_name hr)
  -- the form fixes the sense; what the operands have been read as is what is shown
  cases form <;> cases sense <;> try exact himp.elim
  case bare.bare opcode op =>
    match operands, h with
    | [], h =>
      obtain rfl := Except.ok.inj h
      exact ⟨op, [], .bare, himp, fun _ _ => rfl⟩
  case onRegister.onRegister opcode op =>
    match operands, h with
    | [token], h =>
      obtain ⟨r, hr, h⟩ := bind_eq_ok.mp h
      obtain rfl := Except.ok.inj h
      have hlt := register?_lt (registerNamed_eq_ok.mp hr)
      refine ⟨op r, _, .onRegister hlt, himp r hlt, fun _ _ => ?_⟩
      exact bind_eq_ok.mpr ⟨r, hregister hlt, rfl⟩
  case withByte.onValue opcode op =>
    match operands, h with
    | [token, value], h =>
      obtain ⟨r, hr, h⟩ := bind_eq_ok.mp h
      obtain ⟨v, _, h⟩ := bind_eq_ok.mp h
      obtain rfl := Except.ok.inj h
      have hlt := register?_lt (registerNamed_eq_ok.mp hr)
      refine ⟨op r (.immediate v), _, .onValue hlt v, himp r hlt v, fun ctx' hlabels => ?_⟩
      exact bind_eq_ok.mpr ⟨r, hregister hlt, bind_eq_ok.mpr ⟨v, ctx'.value_decimal hlabels v, rfl⟩⟩
  case jump.jump opcode condition =>
    match operands, h with
    | [token], h =>
      obtain ⟨target, ht, h⟩ := bind_eq_ok.mp h
      obtain rfl := Except.ok.inj h
      have hlt := htarget condition rfl token List.mem_cons_self target ht
      refine ⟨.jump condition target, _, .jump target, himp target, fun ctx' hlabels => ?_⟩
      exact bind_eq_ok.mpr ⟨target, ctx'.target_decimal hlabels hlt, rfl⟩
  case move.move opcode =>
    match operands, h with
    | [first, second], h =>
      obtain ⟨dst, hd, h⟩ := bind_eq_ok.mp h
      obtain ⟨src, hs, h⟩ := bind_eq_ok.mp h
      obtain rfl := Except.ok.inj h
      have hdst := register?_lt (registerNamed_eq_ok.mp hd)
      have hsrc := register?_lt (registerNamed_eq_ok.mp hs)
      refine ⟨.transfer dst src, _, .move hdst hsrc, himp dst hdst src hsrc, fun _ _ => ?_⟩
      exact bind_eq_ok.mpr ⟨dst, hregister hdst, bind_eq_ok.mpr ⟨src, hregister hsrc, rfl⟩⟩

theorem mem_transfers_of_jump :
    ∀ entry ∈ senses, ∀ condition, entry.2 = .jump condition → entry.1 ∈ Isa.cdc8512.transfers := by
  simp [senses, Isa.transfers]

theorem exists_shows (h : encode ctx name.toList operands = .ok code)
    (htarget : name ∈ Isa.cdc8512.transfers → ∀ token ∈ operands, ∀ target,
      ctx.target token = .ok target → target < directTargetLimit) :
    ∃ shown, Isa.cdc8512.Shows name code shown := by
  unfold encode at h
  split at h
  · next form hform =>
    obtain ⟨name', sense, hname, _, hsense, himp⟩ :=
      Vocabulary.exists_of_form? vocabulary_implements hform
    obtain rfl := String.toList_inj.mp hname
    obtain ⟨op, shown, hspells, hdecodes, hencode⟩ := Form.spells_of_encode himp
      (fun condition hjump => htarget (mem_transfers_of_jump _ hsense condition hjump)) h
    refine ⟨shown, .of_decodesTo hspells.plain hdecodes ?_ fun ctx' hlabels => ?_⟩
    · rintro i rfl rfl
      exact Sense.Spells.text hsense hspells
    · show encode ctx' _ shown = _
      rw [encode, hform]
      exact hencode ctx' hlabels
  · cases h

end Cdc8512

/-! ## The CDC6504 -/

namespace Cdc6504

/-- An operand as it is shown: a value with its mark, an address in hexadecimal. -/
inductive Spelled : List Token → Assembly.Operand → Prop where
  | value (v : UInt8) : Spelled ['#' :: (Text.decimal v).toList] (.immediate v true)
  | address (a : UInt8) : Spelled ['$' :: (Text.hexUpper a).toList] (.zeroPage a)
  | indexed (a : UInt8) {r : Reg} (hr : r = x ∨ r = y) :
      Spelled ['$' :: (Text.hexUpper a).toList, (layout.name r).toList] (.indexed a r)

/-- The operands that an operation is shown with under a sense. -/
inductive Sense.Spells : Sense → Op → List Token → Prop where
  | implied {op : Op} : Spells (.implied op) op []
  | jump (target : UInt8) : Spells .jump (.jump .always target) [(Text.decimal target).toList]
  | reads {works : Reg} {op : Source → Op} {tokens : List Token} {o : Assembly.Operand}
      (ho : Spelled tokens o) : Spells (.reads works op) (op (source o)) tokens
  | stores {works : Reg} {tokens : List Token} {o : Assembly.Operand} {a : UInt8}
      {index : Option Reg} (ho : Spelled tokens o) (hsource : source o = .memory a index) :
      Spells (.stores works) (.store works a index) tokens

variable {o : Assembly.Operand} {modes : Modes}

theorem Spelled.plain (h : Spelled shown o) :
    ∀ token ∈ shown, Plain Isa.cdc6504.commentMarks token := by
  cases h with
  | value v => simpa using (Isa.cdc6504.plain_decimal v).cons (by decide)
  | address a => simpa using (Isa.cdc6504.plain_hexUpper a).cons (by decide)
  | @indexed a r hr =>
    have hname : Plain Isa.cdc6504.commentMarks (layout.name r).toList := by
      rcases hr with rfl | rfl <;> decide
    simpa using ⟨(Isa.cdc6504.plain_hexUpper a).cons (by decide), hname⟩

theorem register?_dollar (digits : List Char) : layout.register? ('$' :: digits) = none := by
  rfl

/-- What is shown is read as what it is. -/
theorem Spelled.read (h : Spelled shown o) (hlabels : ctx.labels = []) (works : Reg) :
    Operands ctx works shown o := by
  cases h with
  | value v => exact .plain (by simp) (.hashed (ctx.value_decimal hlabels v))
  | address a => exact .plain (by simp) (.zeroPage (Assembly.hexByte_hexUpper a))
  | @indexed a r hr =>
    refine .plain ?_ (.indexedHex (Assembly.hexByte_hexUpper a) ?_ ?_)
    · rintro _ _ _ ⟨⟩
      exact register?_dollar _
    · rcases hr with rfl | rfl <;> decide
    · rcases hr with rfl | rfl <;> decide

theorem Spelled.sourceText (h : Spelled shown o) :
    ' ' :: (sourceText (source o)).toList = operandText Isa.cdc6504.separator shown := by
  cases h <;> simp [source, Cdc6504.sourceText, indexText, operandText, Isa.separator]

/-- An operand to read is shown with the mark of a value, if it is one. -/
theorem exists_spelled_source (hindex : ∀ a r, o = .indexed a r → r = x ∨ r = y)
    (hmodes : modes.immediate.isSome) :
    ∃ o' shown, Spelled shown o' ∧ source o' = source o ∧ modes.code? o' = modes.code? o := by
  cases o with
  | immediate v hashed =>
    obtain ⟨opcode, hopcode⟩ := Option.isSome_iff_exists.mp hmodes
    exact ⟨_, _, .value v, rfl, by simp [Modes.code?, hopcode]⟩
  | zeroPage a => exact ⟨_, _, .address a, rfl, rfl⟩
  | indexed a r => exact ⟨_, _, .indexed a (hindex a r rfl), rfl, rfl⟩

/-- A place to store at is shown as an address. -/
theorem exists_spelled_place {a : UInt8} {index : Option Reg}
    (hindex : ∀ a r, o = .indexed a r → r = x ∨ r = y) (hmodes : modes.immediate = none)
    (hplace : place? o = some (a, index)) :
    ∃ o' shown, Spelled shown o' ∧ source o' = .memory a index ∧ modes.code? o' = modes.code? o := by
  cases o with
  | immediate v hashed =>
    cases hashed <;> cases hplace
    exact ⟨_, _, .address a, rfl, by simp [Modes.code?, hmodes]⟩
  | zeroPage a => cases hplace; exact ⟨_, _, .address a, rfl, rfl⟩
  | indexed a r => cases hplace; exact ⟨_, _, .indexed a (hindex a r rfl), rfl, rfl⟩

theorem Sense.Spells.plain {sense : Sense} (h : sense.Spells op shown) :
    ∀ token ∈ shown, Plain Isa.cdc6504.commentMarks token := by
  cases h with
  | implied => exact nofun
  | jump target => simpa using Isa.cdc6504.plain_decimal target
  | reads ho => exact ho.plain
  | stores ho _ => exact ho.plain

/-- How the instructions of a sense are shown. -/
def Sense.Shown : Sense → Prop
  | implied op => ∀ i, i.op = op → text i = i.name
  | reads _ op => ∀ i src, i.op = op src → text i = i.name ++ " " ++ sourceText src
  | branch _ | jump | stores _ => True

theorem senses_shown : ∀ entry ∈ senses, entry.2.Shown := by
  simp +contextual [senses, Sense.Shown, text]

theorem Sense.Spells.text {sense : Sense} (hsense : (i.name, sense) ∈ senses)
    (h : sense.Spells i.op shown) :
    (text i).toList = i.name.toList ++ operandText Isa.cdc6504.separator shown := by
  have hshown := senses_shown _ hsense
  generalize hop : i.op = op at h
  cases h with
  | implied => rw [hshown i hop, operandText, List.append_nil]
  | jump target => simp [Cdc6504.text, hop, operandText]
  | reads ho => simp [← ho.sourceText, hshown i _ hop]
  | stores ho hsource => simp [← ho.sourceText, hsource, Cdc6504.text, hop, Cdc6504.sourceText]

/-- Whether the operand of an instruction on data may be a value. -/
def Form.takesValues? : Form → Option Bool
  | data _ modes => some modes.immediate.isSome
  | implied _ | relative _ | absolute _ => none

/-- Whether the operand of an instruction on data is read. -/
def Sense.takesValues? : Sense → Option Bool
  | reads .. => some true
  | stores _ => some false
  | implied _ | branch _ | jump => none

/-- Instructions take values exactly if they read their operand. -/
theorem takesValues?_eq {form : Form} {sense : Sense} (hform : (name, form) ∈ vocabulary)
    (hsense : (name, sense) ∈ senses) : form.takesValues? = sense.takesValues? := by
  have htables : (vocabulary.map fun entry => (entry.1, entry.2.takesValues?)) =
      senses.map fun entry => (entry.1, entry.2.takesValues?) := rfl
  have hform' := List.mem_map_of_mem (f := fun entry => (entry.1, entry.2.takesValues?)) hform
  have hsense' := List.mem_map_of_mem (f := fun entry => (entry.1, entry.2.takesValues?)) hsense
  rw [htables] at hform'
  exact Vocabulary.eq_of_mem (by decide) hform' hsense'

/-- What a form encodes can be spelled out, if it is neither a branch nor a jump to where only labels
can lead. -/
theorem Form.spells_of_encode {form : Form} {sense : Sense} (himp : Implements name form sense)
    (hvalues : form.takesValues? = sense.takesValues?) (hbranch : ∀ condition, sense ≠ .branch condition)
    (htarget : sense = .jump → ∀ token ∈ operands, ∀ target,
      ctx.target token = .ok target → target < directTargetLimit)
    (h : form.encode ctx mnemonic operands = .ok code) :
    ∃ op shown, sense.Spells op shown ∧ table.DecodesTo name op code ∧
      ∀ ctx' : Context, ctx'.labels = [] → form.encode ctx' mnemonic shown = .ok code := by
  cases form <;> cases sense <;> try exact himp.elim
  case implied.implied opcode op =>
    match operands, h with
    | [], h =>
      obtain rfl := Except.ok.inj h
      exact ⟨op, [], .implied, himp, fun _ _ => rfl⟩
  case relative.branch opcode condition => exact absurd rfl (hbranch condition)
  case absolute.jump opcode =>
    match operands, h with
    | [token], h =>
      obtain ⟨target, ht, h⟩ := bind_eq_ok.mp h
      obtain rfl := Except.ok.inj h
      have hlt := htarget rfl token List.mem_cons_self target ht
      refine ⟨.jump .always target, _, .jump target, himp target, fun ctx' hlabels => ?_⟩
      exact bind_eq_ok.mpr ⟨target, ctx'.target_decimal hlabels hlt, rfl⟩
  -- the operand may be shown as another one, but only as one with the same code
  case data.reads works modes works' op =>
    obtain ⟨rfl, himp⟩ := himp
    obtain ⟨o, ho, hcode⟩ := Form.encode_data_eq_ok_iff.mp h
    obtain ⟨o', shown, hspelled, hsource, hsame⟩ :=
      exists_spelled_source ho.index_cases (Option.some.inj hvalues)
    refine ⟨op (source o), shown, hsource ▸ .reads hspelled, himp o code ho.index_cases hcode,
      fun ctx' hlabels => ?_⟩
    exact Form.encode_data_eq_ok_iff.mpr ⟨o', hspelled.read hlabels _, hsame.trans hcode⟩
  case data.stores works modes works' =>
    obtain ⟨rfl, himp⟩ := himp
    obtain ⟨o, ho, hcode⟩ := Form.encode_data_eq_ok_iff.mp h
    obtain ⟨address, index, hplace, hdecode⟩ := himp o code ho.index_cases hcode
    have hmodes : modes.immediate = none := by simpa using Option.some.inj hvalues
    obtain ⟨o', shown, hspelled, hsource, hsame⟩ :=
      exists_spelled_place ho.index_cases hmodes hplace
    refine ⟨_, shown, .stores hspelled hsource, hdecode, fun ctx' hlabels => ?_⟩
    exact Form.encode_data_eq_ok_iff.mpr ⟨o', hspelled.read hlabels _, hsame.trans hcode⟩

theorem mem_branches_of_branch :
    ∀ entry ∈ senses, ∀ condition, entry.2 = .branch condition → entry.1 ∈ Isa.cdc6504.branches := by
  simp [senses, Isa.branches]

theorem mem_transfers_of_jump :
    ∀ entry ∈ senses, entry.2 = .jump → entry.1 ∈ Isa.cdc6504.transfers := by
  simp [senses, Isa.transfers]

theorem exists_shows (h : encode ctx name.toList operands = .ok code)
    (hbranch : name ∉ Isa.cdc6504.branches)
    (htarget : name ∈ Isa.cdc6504.transfers → ∀ token ∈ operands, ∀ target,
      ctx.target token = .ok target → target < directTargetLimit) :
    ∃ shown, Isa.cdc6504.Shows name code shown := by
  unfold encode at h
  split at h
  · next form hform =>
    obtain ⟨name', sense, hname, hmem, hsense, himp⟩ :=
      Vocabulary.exists_of_form? vocabulary_implements hform
    obtain rfl := String.toList_inj.mp hname
    obtain ⟨op, shown, hspells, hdecodes, hencode⟩ := Form.spells_of_encode himp
      (takesValues?_eq hmem hsense)
      (fun condition hsame => hbranch (mem_branches_of_branch _ hsense condition hsame))
      (fun hjump => htarget (mem_transfers_of_jump _ hsense hjump)) h
    refine ⟨shown, .of_decodesTo hspells.plain hdecodes ?_ fun ctx' hlabels => ?_⟩
    · rintro i rfl rfl
      exact Sense.Spells.text hsense hspells
    · show encode ctx' _ shown = _
      rw [encode, hform]
      exact hencode ctx' hlabels
  · cases h

end Cdc6504

/-! ## Both -/

namespace Isa

/-- **What is shown can be encoded again.** The text of an instruction that has been encoded is its name
with operands that are encoded as the same code, under no labels and at any address. Branches are left
out, and so are jumps to an address that is too large for a number. -/
theorem exists_shows (h : isa.encode ctx name.toList operands = .ok code)
    (hbranch : name ∉ isa.branches)
    (htarget : name ∈ isa.transfers → ∀ token ∈ operands, ∀ target,
      ctx.target token = .ok target → target < directTargetLimit) :
    ∃ shown, isa.Shows name code shown := by
  cases isa with
  | cdc8512 => exact Cdc8512.exists_shows h htarget
  | cdc6504 => exact Cdc6504.exists_shows h hbranch htarget

theorem separator_spec (isa : Isa) :
    Assembly.Separators isa.separator ∧ isa.separator ≠ [] ∧ '\n' ∉ isa.separator := by
  cases isa <;> decide

/-- Names are words. -/
theorem plain_of_mem_mnemonics {size : UInt8} (h : (name, size) ∈ isa.mnemonics) :
    Plain isa.commentMarks name.toList ∧ Assembly.labelOf? name.toList = none := by
  have hnames : ∀ entry ∈ isa.mnemonics,
      Plain isa.commentMarks entry.1.toList ∧ Assembly.labelOf? entry.1.toList = none := by
    cases isa <;> decide
  exact hnames _ h

/-- The text of an instruction is a line with its name and its operands. -/
theorem Shows.read? {size : UInt8} (h : isa.Shows name code shown)
    (hname : (name, size) ∈ isa.mnemonics) (next : UInt8) (number : Nat) :
    ∃ line, Assembly.Line.read? isa.commentMarks number
        (isa.text (isa.decode code.first (code.second next))).toList = some line ∧
      line.label = none ∧ line.mnemonic = some name.toList ∧
      Assembly.tokens line.operands = shown := by
  have hmarks : ∀ c ∈ isa.commentMarks, c ≠ ',' ∧ Text.isBlank c = false := by
    cases isa <;> simp [commentMarks, Text.isBlank, Text.blankRanges]
  obtain ⟨hplain, hlabel⟩ := plain_of_mem_mnemonics hname
  obtain ⟨hsep, hne, _⟩ := isa.separator_spec
  have hread := Assembly.read?_written hmarks hsep hplain hlabel h.plain number
  rw [← h.text next, upper_name hname] at hread
  exact ⟨_, hread, rfl, rfl, Assembly.tokens_trim_operandText hsep hne h.plain⟩

theorem Shows.notMem_text {size : UInt8} (h : isa.Shows name code shown)
    (hname : (name, size) ∈ isa.mnemonics) (next : UInt8) :
    '\n' ∉ (isa.text (isa.decode code.first (code.second next))).toList := by
  rw [h.text]
  exact Assembly.notMem_written isa.separator_spec.2.2 (plain_of_mem_mnemonics hname).1 h.plain

end Isa

end Octet
