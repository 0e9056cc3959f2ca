import Octet.Cdc6504.Encoding
import Octet.Proofs.Encoding.Basic

/-!
# The CDC6504: what instructions denote

As for the other instruction set, `Denotes ctx name operands op` is the language without its codes.
The operand of an instruction on data is a grammar of its own: `Written` is one operand in one of
its spellings, and `Operands` allows the register that the instruction works on in front of it.

* `operand_eq_ok_iff` — operands are read by the encoder exactly as the grammar says.
* `decode_of_encode` — what the encoder writes is decoded to the operation denoted.
* `Denotes.unique` — operands denote at most one operation.
-/

namespace Octet.Cdc6504

open Assembly (Context Cause Operand BlamesOperands registerNamed_eq_ok
  blamesOperands_registerNamed)

/-! ## The language -/

/-- An operand as it is written, without the register that the instruction works on. -/
inductive Written (ctx : Context) : List Token → Operand → Prop where
  /-- `#v` -/
  | hashed {token v} (hv : ctx.value token = .ok v) : Written ctx ['#' :: token] (.immediate v true)
  /-- `v` -/
  | bare {token v} (hdollar : token.head? ≠ some '$') (hhash : token.head? ≠ some '#')
      (hv : ctx.value token = .ok v) : Written ctx [token] (.immediate v false)
  /-- `$hh` -/
  | zeroPage {digits address} (ha : Assembly.hexByte digits = .ok address) :
      Written ctx ['$' :: digits] (.zeroPage address)
  /-- `$hh,X` -/
  | indexedHex {digits address name r} (ha : Assembly.hexByte digits = .ok address)
      (hr : layout.register? name = some r) (hacc : r ≠ acc) :
      Written ctx ['$' :: digits, name] (.indexed address r)
  /-- `v,X` -/
  | indexed {token address name r} (hdollar : token.head? ≠ some '$')
      (ha : ctx.value token = .ok address) (hr : layout.register? name = some r) (hacc : r ≠ acc) :
      Written ctx [token, name] (.indexed address r)

/-- The operands of an instruction that works on a register. That register may stand in front; what
stands in front of another operand and is no register belongs to the operand. -/
inductive Operands (ctx : Context) (works : Reg) : List Token → Operand → Prop where
  | plain {tokens o} (hfirst : ∀ first second rest, tokens = first :: second :: rest →
      layout.register? first = none) (ho : Written ctx tokens o) : Operands ctx works tokens o
  | led {first rest o} (hfirst : layout.register? first = some works) (ho : Written ctx rest o) :
      Operands ctx works (first :: rest) o

/-- An operand as something to read: a value, or a data byte. -/
def source : Operand → Source
  | .immediate value _ => .immediate value
  | .zeroPage address => .memory address none
  | .indexed address r => .memory address (some r)

/-- An operand as a place to store at, which a value marked as one is not. -/
def place? : Operand → Option (UInt8 × Option Reg)
  | .immediate value hashed => if hashed then none else some (value, none)
  | .zeroPage address => some (address, none)
  | .indexed address r => some (address, some r)

/-- How an instruction uses its operands. -/
inductive Sense where
  /-- There are none. -/
  | implied (op : Op)
  /-- The target of a branch. -/
  | branch (condition : Condition)
  /-- The target of a jump. -/
  | jump
  /-- Something to read, for an instruction that works on a register. -/
  | reads (works : Reg) (op : Source → Op)
  /-- A place to store a register at. -/
  | stores (works : Reg)

/-- The instructions and their senses. -/
def senses : Vocabulary Sense :=
  [("BRK", .implied .halt),
    ("TAX", .implied (.transfer x acc)),
    ("TAY", .implied (.transfer y acc)),
    ("TXA", .implied (.transfer acc x)),
    ("TYA", .implied (.transfer acc y)),
    ("INX", .implied (.inc x)),
    ("INY", .implied (.inc y)),
    ("DEX", .implied (.dec x)),
    ("DEY", .implied (.dec y)),
    ("CLX", .implied (.clear x)),
    ("CLY", .implied (.clear y)),
    ("LDA", .reads acc (.load acc)),
    ("LDX", .reads x (.load x)),
    ("LDY", .reads y (.load y)),
    ("STA", .stores acc),
    ("STX", .stores x),
    ("STY", .stores y),
    ("CMP", .reads acc (.compare acc)),
    ("CPX", .reads x (.compare x)),
    ("CPY", .reads y (.compare y)),
    ("ADC", .reads acc (.add acc)),
    ("SBC", .reads acc (.sub acc)),
    ("BEQ", .branch .zero),
    ("BNE", .branch .notZero),
    ("BMI", .branch .negative),
    ("BPL", .branch .positive),
    ("BCC", .branch .carryClear),
    ("BCS", .branch .carrySet),
    ("JMP", .jump)]

/-- The operation that operands stand for under a sense. The distance of a branch is counted from
the end of its two bytes. -/
inductive Sense.Reads (ctx : Context) : Sense → List Token → Op → Prop where
  | implied {op} : Reads ctx (.implied op) [] op
  | branch {condition token target} {offset : Int8} (ht : ctx.target token = .ok target)
      (hoffset : offset.toInt = target.toNat - (ctx.address.toNat + 2)) :
      Reads ctx (.branch condition) [token] (.branch condition offset)
  | jump {token target} (ht : ctx.target token = .ok target) :
      Reads ctx .jump [token] (.jump .always target)
  | reads {works op operands o} (ho : Operands ctx works operands o) :
      Reads ctx (.reads works op) operands (op (source o))
  | stores {works operands o address index} (ho : Operands ctx works operands o)
      (hplace : place? o = some (address, index)) :
      Reads ctx (.stores works) operands (.store works address index)

/-- The operation that a name with its operands stands for. -/
def Denotes (ctx : Context) (name : String) (operands : List Token) (op : Op) : Prop :=
  ∃ sense, (name, sense) ∈ senses ∧ sense.Reads ctx operands op

/-! ## Reading one operand -/

variable {ctx : Context} {name : String} {mnemonic : Token} {operands tokens : List Token}
  {o : Operand} {op : Op} {code : Code}

theorem single_of_head?_ne {token : Token} (hdollar : token.head? ≠ some '$')
    (hhash : token.head? ≠ some '#') :
    single ctx token = (do let v ← ctx.value token; return .immediate v false) := by
  unfold single
  split
  · exact absurd rfl hdollar
  · exact absurd rfl hhash
  · rfl

theorem base_of_head?_ne {token : Token} (hdollar : token.head? ≠ some '$') :
    base ctx token = ctx.value token := by
  unfold base
  split
  · exact absurd rfl hdollar
  · rfl

theorem single_eq_ok_iff {token : Token} : single ctx token = .ok o ↔ Written ctx [token] o := by
  constructor
  · intro h
    by_cases hdollar : token.head? = some '$'
    · obtain ⟨digits, rfl⟩ := List.head?_eq_some_iff.mp hdollar
      obtain ⟨address, ha, h⟩ := bind_eq_ok.mp h
      obtain rfl := Except.ok.inj h
      exact .zeroPage (mapError_eq_ok.mp ha)
    by_cases hhash : token.head? = some '#'
    · obtain ⟨value, rfl⟩ := List.head?_eq_some_iff.mp hhash
      obtain ⟨v, hv, h⟩ := bind_eq_ok.mp h
      obtain rfl := Except.ok.inj h
      exact .hashed hv
    · rw [single_of_head?_ne hdollar hhash] at h
      obtain ⟨v, hv, h⟩ := bind_eq_ok.mp h
      obtain rfl := Except.ok.inj h
      exact .bare hdollar hhash hv
  · intro h
    cases h with
    | hashed hv => exact bind_eq_ok.mpr ⟨_, hv, rfl⟩
    | bare hdollar hhash hv =>
      rw [single_of_head?_ne hdollar hhash]
      exact bind_eq_ok.mpr ⟨_, hv, rfl⟩
    | zeroPage ha => exact bind_eq_ok.mpr ⟨_, mapError_eq_ok.mpr ha, rfl⟩

theorem index_eq_ok_iff {token : Token} {r : Reg} :
    index token = .ok r ↔ layout.register? token = some r ∧ r ≠ acc := by
  unfold index
  rw [bind_eq_ok]
  constructor
  · rintro ⟨r', hr, h⟩
    rw [registerNamed_eq_ok] at hr
    split at h
    · cases h
    · next hacc =>
      obtain rfl := Except.ok.inj h
      exact ⟨hr, hacc⟩
  · rintro ⟨hr, hacc⟩
    refine ⟨r, registerNamed_eq_ok.mpr hr, ?_⟩
    rw [if_neg hacc]
    rfl

theorem indexed_eq_ok_iff {token second : Token} {address : UInt8} {r : Reg} :
    base ctx token = .ok address ∧ index second = .ok r ↔
      Written ctx [token, second] (.indexed address r) := by
  rw [index_eq_ok_iff]
  constructor
  · rintro ⟨ha, hr, hacc⟩
    by_cases hdollar : token.head? = some '$'
    · obtain ⟨digits, rfl⟩ := List.head?_eq_some_iff.mp hdollar
      exact .indexedHex (mapError_eq_ok.mp ha) hr hacc
    · rw [base_of_head?_ne hdollar] at ha
      exact .indexed hdollar ha hr hacc
  · intro h
    cases h with
    | indexedHex ha hr hacc => exact ⟨mapError_eq_ok.mpr ha, hr, hacc⟩
    | indexed hdollar ha hr hacc => exact ⟨(base_of_head?_ne hdollar).trans ha, hr, hacc⟩

/-! ## Reading operands -/

/-- Fewer than two tokens are taken as they are. -/
theorem dropWorking_of_length {works : Reg} (h : tokens.length < 2) :
    dropWorking mnemonic works tokens = .ok tokens := by
  match tokens, h with
  | [], _ => rfl
  | [_], _ => rfl

theorem dropWorking_cons_cons {works : Reg} {first second : Token} {later : List Token} :
    dropWorking mnemonic works (first :: second :: later) =
      match layout.register? first with
      | some r =>
        if r = works then .ok (second :: later)
        else .error (.invalidOperand (.foreignRegister mnemonic (layout.name works) first))
      | none => .ok (first :: second :: later) := rfl

/-- What is left of the operands once the register in front is dropped, if it is there. -/
theorem operand_of_dropWorking {works : Reg} {rest : List Token}
    (h : dropWorking mnemonic works tokens = .ok rest) :
    operand ctx mnemonic works tokens = .ok o ↔ Written ctx rest o := by
  unfold operand
  rw [h]
  match rest with
  | [] => exact ⟨nofun, nofun⟩
  | [token] => exact single_eq_ok_iff
  | [token, second] =>
    show (do
      let address ← base ctx token
      let r ← index second
      return Operand.indexed address r) = .ok o ↔ _
    constructor
    · intro h
      obtain ⟨address, ha, h⟩ := bind_eq_ok.mp h
      obtain ⟨r, hr, h⟩ := bind_eq_ok.mp h
      obtain rfl := Except.ok.inj h
      exact indexed_eq_ok_iff.mp ⟨ha, hr⟩
    · intro h
      obtain ⟨address, r, rfl⟩ : ∃ address r, o = .indexed address r := by
        cases h <;> exact ⟨_, _, rfl⟩
      obtain ⟨ha, hr⟩ := indexed_eq_ok_iff.mpr h
      exact bind_eq_ok.mpr ⟨address, ha, bind_eq_ok.mpr ⟨r, hr, rfl⟩⟩
  | _ :: _ :: _ :: _ => exact ⟨nofun, nofun⟩

/-- **Operands are read exactly as the grammar says.** -/
theorem operand_eq_ok_iff (mnemonic : Token) {works : Reg} :
    operand ctx mnemonic works operands = .ok o ↔ Operands ctx works operands o := by
  match operands with
  | [] =>
    rw [operand_of_dropWorking (dropWorking_of_length (by simp))]
    exact ⟨nofun, fun h => by cases h with | plain _ ho => exact ho⟩
  | [token] =>
    rw [operand_of_dropWorking (dropWorking_of_length (by simp))]
    constructor
    · exact .plain (by simp)
    · intro h
      cases h with
      | plain _ ho => exact ho
      | led _ ho => cases ho
  | first :: second :: later =>
    cases hr : layout.register? first with
    | none =>
      have hdrop : dropWorking mnemonic works (first :: second :: later) =
          .ok (first :: second :: later) := by rw [dropWorking_cons_cons, hr]
      rw [operand_of_dropWorking hdrop]
      constructor
      · exact .plain fun _ _ _ h => (List.cons.inj h).1 ▸ hr
      · intro h
        cases h with
        | plain _ ho => exact ho
        | led hfirst _ => rw [hr] at hfirst; cases hfirst
    | some r =>
      by_cases hworks : r = works
      · have hdrop : dropWorking mnemonic works (first :: second :: later) =
            .ok (second :: later) := by rw [dropWorking_cons_cons, hr]; exact if_pos hworks
        rw [operand_of_dropWorking hdrop]
        constructor
        · exact .led (hworks ▸ hr)
        · intro h
          cases h with
          | plain hfirst _ => rw [hfirst first second later rfl] at hr; cases hr
          | led _ ho => exact ho
      · have hdrop : dropWorking mnemonic works (first :: second :: later) =
            .error (.invalidOperand (.foreignRegister mnemonic (layout.name works) first)) := by
          rw [dropWorking_cons_cons, hr]; exact if_neg hworks
        constructor
        · intro h
          rw [operand, hdrop] at h
          cases h
        · intro h
          cases h with
          | plain hfirst _ => rw [hfirst first second later rfl] at hr; cases hr
          | led hfirst _ => rw [hr] at hfirst; exact absurd (Option.some.inj hfirst) hworks

theorem Operands.unique {works : Reg} {o' : Operand} (h : Operands ctx works operands o)
    (h' : Operands ctx works operands o') : o' = o := by
  rw [← operand_eq_ok_iff []] at h h'
  exact Except.ok.inj (h'.symm.trans h)

theorem register?_cases {token : Token} {r : Reg} (h : layout.register? token = some r) :
    r = acc ∨ r = x ∨ r = y := by
  rcases RegisterLayout.declared_of_register? h with ⟨i, hi, rfl⟩ | ⟨a, ha, rfl⟩
  · match i, hi with
    | 0, _ => exact .inl rfl
    | 1, _ => exact .inr (.inl rfl)
    | 2, _ => exact .inr (.inr rfl)
  · rw [List.mem_singleton.mp ha]
    exact .inl rfl

/-- An index is one of the two index registers. -/
theorem Operands.index_cases {works : Reg} (h : Operands ctx works operands o) :
    ∀ address r, o = .indexed address r → r = x ∨ r = y := by
  rintro address r rfl
  have hwritten : ∃ tokens, Written ctx tokens (.indexed address r) := by
    cases h with
    | plain _ ho => exact ⟨_, ho⟩
    | led _ ho => exact ⟨_, ho⟩
  obtain ⟨tokens, ho⟩ := hwritten
  cases ho with
  | indexedHex _ hr hacc => exact (register?_cases hr).resolve_left hacc
  | indexed _ _ hr hacc => exact (register?_cases hr).resolve_left hacc

/-! ## Operands denote one operation -/

theorem Sense.Reads.unique {sense : Sense} {op' : Op} (h : sense.Reads ctx operands op)
    (h' : sense.Reads ctx operands op') : op' = op := by
  cases h with
  | implied => cases h'; rfl
  | branch ht hoffset =>
    cases h' with
    | branch ht' hoffset' =>
      obtain rfl := Except.ok.inj (ht.symm.trans ht')
      rw [Int8.toInt_inj.mp (hoffset'.trans hoffset.symm)]
  | jump ht =>
    cases h' with
    | jump ht' =>
      obtain rfl := Except.ok.inj (ht.symm.trans ht')
      rfl
  | reads ho =>
    cases h' with
    | reads ho' => rw [ho.unique ho']
  | stores ho hplace =>
    cases h' with
    | stores ho' hplace' =>
      obtain rfl := ho.unique ho'
      obtain ⟨rfl, rfl⟩ := Prod.mk.inj (Option.some.inj (hplace.symm.trans hplace'))
      rfl

theorem Denotes.unique {op' : Op} (h : Denotes ctx name operands op)
    (h' : Denotes ctx name operands op') : op' = op := by
  obtain ⟨sense, hmem, hreads⟩ := h
  obtain ⟨sense', hmem', hreads'⟩ := h'
  obtain rfl := Vocabulary.eq_of_mem (by decide) hmem hmem'
  exact hreads.unique hreads'

/-! ## The operations of a sense -/

/-- Whether all operations that a sense gives have a property. -/
def Sense.All (P : Op → Prop) : Sense → Prop
  | implied op => P op
  | branch condition => ∀ offset, P (.branch condition offset)
  | jump => ∀ target, P (.jump .always target)
  | reads _ op => ∀ src, P (op src)
  | stores works => ∀ address index, P (.store works address index)

theorem Sense.All.of_reads {P : Op → Prop} {sense : Sense} (h : sense.All P)
    (hreads : sense.Reads ctx operands op) : P op := by
  cases hreads with
  | implied => exact h
  | branch _ _ => exact h _
  | jump _ => exact h _
  | reads _ => exact h _
  | stores _ _ => exact h _ _

theorem senses_known : ∀ entry ∈ senses, entry.2.All (· ≠ .unknown) := by
  simp [senses, Sense.All]

theorem Denotes.ne_unknown (h : Denotes ctx name operands op) : op ≠ .unknown := by
  obtain ⟨sense, hmem, hreads⟩ := h
  exact (senses_known _ hmem).of_reads hreads

/-! ## The opcodes -/

/-- The opcodes of a form are decoded the way a sense reads operands. -/
def Implements (name : String) : Form → Sense → Prop
  | .implied opcode, .implied op => table.DecodesTo name op (.one opcode)
  | .relative opcode, .branch condition =>
    ∀ distance, table.DecodesTo name (.branch condition distance.toInt8) (.two opcode distance)
  | .absolute opcode, .jump =>
    ∀ target, table.DecodesTo name (.jump .always target) (.two opcode target)
  | .data works modes, .reads works' op =>
    works' = works ∧ ∀ o code, (∀ address r, o = .indexed address r → r = x ∨ r = y) →
      modes.code? o = some code → table.DecodesTo name (op (source o)) code
  | .data works modes, .stores works' =>
    works' = works ∧ ∀ o code, (∀ address r, o = .indexed address r → r = x ∨ r = y) →
      modes.code? o = some code → ∃ address index, place? o = some (address, index) ∧
        table.DecodesTo name (.store works address index) code
  | _, _ => False

/-- Every entry of the vocabulary is implemented by the decode table. -/
theorem vocabulary_implements :
    List.Forall₂ (fun entry sense => entry.1 = sense.1 ∧ Implements entry.1 entry.2 sense.2)
      vocabulary senses := by
  refine .cons ⟨rfl, ?brk⟩ <| .cons ⟨rfl, ?tax⟩ <| .cons ⟨rfl, ?tay⟩ <| .cons ⟨rfl, ?txa⟩ <|
    .cons ⟨rfl, ?tya⟩ <| .cons ⟨rfl, ?inx⟩ <| .cons ⟨rfl, ?iny⟩ <| .cons ⟨rfl, ?dex⟩ <|
    .cons ⟨rfl, ?dey⟩ <| .cons ⟨rfl, ?clx⟩ <| .cons ⟨rfl, ?cly⟩ <| .cons ⟨rfl, ?lda⟩ <|
    .cons ⟨rfl, ?ldx⟩ <| .cons ⟨rfl, ?ldy⟩ <| .cons ⟨rfl, ?sta⟩ <| .cons ⟨rfl, ?stx⟩ <|
    .cons ⟨rfl, ?sty⟩ <| .cons ⟨rfl, ?cmp⟩ <| .cons ⟨rfl, ?cpx⟩ <| .cons ⟨rfl, ?cpy⟩ <|
    .cons ⟨rfl, ?adc⟩ <| .cons ⟨rfl, ?sbc⟩ <| .cons ⟨rfl, ?beq⟩ <| .cons ⟨rfl, ?bne⟩ <|
    .cons ⟨rfl, ?bmi⟩ <| .cons ⟨rfl, ?bpl⟩ <| .cons ⟨rfl, ?bcc⟩ <| .cons ⟨rfl, ?bcs⟩ <|
    .cons ⟨rfl, ?jmp⟩ .nil
  case brk | tax | tay | txa | tya | inx | iny | dex | dey | clx | cly => exact fun next => rfl
  case beq | bne | bmi | bpl | bcc | bcs => exact fun distance => rfl
  case jmp => exact fun target => rfl
  -- one opcode for each kind of operand, and for each index register
  case lda | ldx | ldy | cmp | cpx | cpy | adc | sbc =>
    refine ⟨rfl, fun o code hindex hcode => ?_⟩
    cases o with
    | immediate value hashed => cases hcode; rfl
    | zeroPage address => cases hcode; rfl
    | indexed address r => rcases hindex address r rfl with rfl | rfl <;> cases hcode <;> rfl
  case sta | stx | sty =>
    refine ⟨rfl, fun o code hindex hcode => ?_⟩
    cases o with
    | immediate value hashed =>
      cases hashed <;> cases hcode
      exact ⟨value, none, rfl, rfl⟩
    | zeroPage address => cases hcode; exact ⟨address, none, rfl, rfl⟩
    | indexed address r =>
      rcases hindex address r rfl with rfl | rfl <;> cases hcode <;> exact ⟨address, _, rfl, rfl⟩

/-! ## Encoding -/

theorem size_of_code? {modes : Modes} (h : modes.code? o = some code) : code.size = 2 := by
  unfold Modes.code? at h
  split at h
  · split at h
    · obtain rfl := Option.some.inj h
      rfl
    · split at h
      · cases h
      · obtain ⟨opcode, _, rfl⟩ := Option.map_eq_some_iff.mp h
        rfl
  · obtain ⟨opcode, _, rfl⟩ := Option.map_eq_some_iff.mp h
    rfl
  · obtain ⟨opcode, _, rfl⟩ := Option.map_eq_some_iff.mp h
    rfl

/-- The distance that is written for a branch leads to its target. -/
theorem displacement_eq_ok {target distance : UInt8} (h : ctx.displacement target 2 = .ok distance) :
    distance.toInt8.toInt = target.toNat - (ctx.address.toNat + 2) := by
  unfold Context.displacement at h
  simp only at h
  split at h
  · next hrange =>
    obtain rfl := Except.ok.inj h
    rw [Int8.toInt8_toUInt8, Int8.toInt_ofInt_of_le hrange.1 (by omega)]
    rfl
  · cases h

/-- The operand of an instruction on data selects its opcode. -/
theorem Form.encode_data_eq_ok_iff {works : Reg} {modes : Modes} :
    (Form.data works modes).encode ctx mnemonic operands = .ok code ↔
      ∃ o, Operands ctx works operands o ∧ modes.code? o = some code := by
  show (operand ctx mnemonic works operands >>= _) = _ ↔ _
  rw [bind_eq_ok]
  refine exists_congr fun o => and_congr (operand_eq_ok_iff mnemonic) ?_
  cases modes.code? o with
  | none => exact ⟨nofun, nofun⟩
  | some code' => exact ⟨fun h => congrArg some (Except.ok.inj h), fun h => by cases h; rfl⟩

/-- What a form encodes is read by the sense that the form implements, and is decoded to the
operation that the operands denote. -/
theorem Form.reads_of_encode {form : Form} {sense : Sense} (himp : Implements name form sense)
    (h : form.encode ctx mnemonic operands = .ok code) :
    code.size = form.size ∧ ∃ op, sense.Reads ctx operands op ∧ table.DecodesTo name op code := by
  -- the form fixes the sense, and each form but the last succeeds on one number of operands
  cases form <;> cases sense <;> try exact himp.elim
  case implied.implied opcode op =>
    match operands, h with
    | [], h =>
      obtain rfl := Except.ok.inj h
      exact ⟨rfl, op, .implied, himp⟩
  case relative.branch opcode condition =>
    match operands, h with
    | [token], h =>
      obtain ⟨target, ht, h⟩ := bind_eq_ok.mp h
      obtain ⟨distance, hd, h⟩ := bind_eq_ok.mp h
      obtain rfl := Except.ok.inj h
      exact ⟨rfl, _, .branch ht (displacement_eq_ok hd), himp distance⟩
  case absolute.jump opcode =>
    match operands, h with
    | [token], h =>
      obtain ⟨target, ht, h⟩ := bind_eq_ok.mp h
      obtain rfl := Except.ok.inj h
      exact ⟨rfl, _, .jump ht, himp target⟩
  -- the operand is what the grammar says it is, and its kind selects the opcode
  case data.reads works modes works' op =>
    obtain ⟨rfl, himp⟩ := himp
    obtain ⟨o, ho, hcode⟩ := Form.encode_data_eq_ok_iff.mp h
    exact ⟨size_of_code? hcode, _, .reads ho, himp o code ho.index_cases hcode⟩
  case data.stores works modes works' =>
    obtain ⟨rfl, himp⟩ := himp
    obtain ⟨o, ho, hcode⟩ := Form.encode_data_eq_ok_iff.mp h
    obtain ⟨address, index, hplace, hdecode⟩ := himp o code ho.index_cases hcode
    exact ⟨size_of_code? hcode, _, .stores ho hplace, hdecode⟩

/-- **What the encoder writes is decoded to what the operands denote.** -/
theorem decode_of_encode (h : encode ctx mnemonic operands = .ok code) :
    ∃ name form op, mnemonic = name.toList ∧ (name, form) ∈ vocabulary ∧ code.size = form.size ∧
      Denotes ctx name operands op ∧ table.DecodesTo name op code := by
  unfold encode at h
  split at h
  · next form hform =>
    obtain ⟨name, sense, rfl, hmem, hsense, himp⟩ :=
      Vocabulary.exists_of_form? vocabulary_implements hform
    obtain ⟨hsize, op, hreads, hdecode⟩ := Form.reads_of_encode himp h
    exact ⟨name, form, op, rfl, hmem, hsize, ⟨sense, hsense, hreads⟩, hdecode⟩
  · cases h

/-! ## Failures -/

theorem blamesOperands_dropWorking (mnemonic : Token) (works : Reg) (tokens : List Token) :
    BlamesOperands (dropWorking mnemonic works tokens) := by
  unfold dropWorking
  split
  · split
    · split
      · exact .ok _
      · exact .error rfl
    · exact .ok _
  · exact .ok _

theorem blamesOperands_single (token : Token) : BlamesOperands (single ctx token) := by
  unfold single
  split
  · exact .bind (.invalidOperand _) fun _ => .ok _
  · exact .bind (ctx.blamesOperands_value _) fun _ => .ok _
  · exact .bind (ctx.blamesOperands_value _) fun _ => .ok _

theorem blamesOperands_base (token : Token) : BlamesOperands (base ctx token) := by
  unfold base
  split
  · exact .invalidOperand _
  · exact ctx.blamesOperands_value _

theorem blamesOperands_index (token : Token) : BlamesOperands (index token) := by
  refine .bind (blamesOperands_registerNamed _ _) fun r => ?_
  split
  · exact .error rfl
  · exact .ok _

theorem blamesOperands_operand (mnemonic : Token) (works : Reg) (tokens : List Token) :
    BlamesOperands (operand ctx mnemonic works tokens) := by
  refine .bind (blamesOperands_dropWorking mnemonic works tokens) fun rest => ?_
  split
  · exact blamesOperands_single _
  · exact .bind (blamesOperands_base _) fun _ => .bind (blamesOperands_index _) fun _ => .ok _
  · exact .error rfl

theorem Form.blamesOperands_encode (form : Form) (mnemonic : Token) (operands : List Token) :
    BlamesOperands (form.encode ctx mnemonic operands) := by
  unfold Form.encode
  split
  case h_1 => exact .ok _
  case h_3 =>
    exact .bind (ctx.blamesOperands_target _) fun _ =>
      .bind (ctx.blamesOperands_displacement _ _) fun _ => .ok _
  case h_5 => exact .bind (ctx.blamesOperands_target _) fun _ => .ok _
  case h_7 =>
    refine .bind (blamesOperands_operand _ _ _) fun o => ?_
    split
    · exact .ok _
    · exact .error rfl
  -- a number of operands that the form does not take
  all_goals exact .error rfl

/-- No instruction of the vocabulary is unknown to the encoder. -/
theorem blamesOperands_encode {form : Form} (h : (name, form) ∈ vocabulary) :
    BlamesOperands (encode ctx name.toList operands) := by
  rw [encode, Vocabulary.form?_of_mem (by decide) h]
  exact form.blamesOperands_encode name.toList operands

end Octet.Cdc6504
