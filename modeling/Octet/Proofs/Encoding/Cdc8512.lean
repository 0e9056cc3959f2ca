import Mathlib.Data.List.Forall2
import Octet.Cdc8512.Encoding
import Octet.Proofs.Encoding.Basic

/-!
# The CDC8512: what instructions denote

`Denotes ctx name operands op` says that an instruction with this name and these operands stands for
the operation `op`. The relation knows nothing of opcodes and bit fields: it is read off the
language, a table of names with the `Sense` of each.

* `decode_of_encode` — what the encoder writes is decoded to the operation denoted.
* `Denotes.unique` — operands denote at most one operation.

The link between the two tables is `vocabulary_implements`: every entry of the vocabulary has opcodes
that the decode table reads the way the sense of the name says.
-/

namespace Octet.Cdc8512

open Assembly (Context Cause BlamesOperands registerNamed_eq_ok blamesOperands_registerNamed)

/-! ## The language -/

/-- How an instruction uses its operands. -/
inductive Sense where
  /-- There are none. -/
  | bare (op : Op)
  /-- A register. -/
  | onRegister (op : Reg → Op)
  /-- A register and a value. -/
  | onValue (op : Reg → Source → Op)
  /-- The target of a jump. -/
  | jump (condition : Condition)
  /-- The register that is written, and the one that is read. -/
  | move

/-- The instructions and their senses. -/
def senses : Vocabulary Sense :=
  [("HALT", .bare .halt),
    ("ZERO", .onRegister .clear),
    ("CMPZ", .onRegister fun r => .compare r (.immediate 0)),
    ("INC", .onRegister .inc),
    ("DEC", .onRegister .dec),
    ("MOV", .move),
    ("SET", .onValue .load),
    ("CMP", .onValue .compare),
    ("ADD", .onValue .add),
    ("SUB", .onValue .sub),
    ("JE", .jump .equal),
    ("JL", .jump .less),
    ("JG", .jump .greater),
    ("JP", .jump .always)]

/-- The operation that operands stand for under a sense. -/
inductive Sense.Reads (ctx : Context) : Sense → List Token → Op → Prop where
  | bare {op} : Reads ctx (.bare op) [] op
  | onRegister {op token r} (hr : layout.register? token = some r) :
      Reads ctx (.onRegister op) [token] (op r)
  | onValue {op token r value v} (hr : layout.register? token = some r)
      (hv : ctx.value value = .ok v) : Reads ctx (.onValue op) [token, value] (op r (.immediate v))
  | jump {condition token target} (ht : ctx.target token = .ok target) :
      Reads ctx (.jump condition) [token] (.jump condition target)
  | move {first second dst src} (hd : layout.register? first = some dst)
      (hs : layout.register? second = some src) :
      Reads ctx .move [first, second] (.transfer dst src)

/-- The operation that a name with its operands stands for. -/
def Denotes (ctx : Context) (name : String) (operands : List Token) (op : Op) : Prop :=
  ∃ sense, (name, sense) ∈ senses ∧ sense.Reads ctx operands op

variable {ctx : Context} {name : String} {operands : List Token} {op : Op} {code : Code}

theorem Sense.Reads.unique {sense : Sense} {op' : Op} (h : sense.Reads ctx operands op)
    (h' : sense.Reads ctx operands op') : op' = op := by
  cases h with
  | bare => cases h'; rfl
  | onRegister hr =>
    cases h' with
    | onRegister hr' =>
      obtain rfl := Option.some.inj (hr.symm.trans hr')
      rfl
  | onValue hr hv =>
    cases h' with
    | onValue hr' hv' =>
      obtain rfl := Option.some.inj (hr.symm.trans hr')
      obtain rfl := Except.ok.inj (hv.symm.trans hv')
      rfl
  | jump ht =>
    cases h' with
    | jump ht' =>
      obtain rfl := Except.ok.inj (ht.symm.trans ht')
      rfl
  | move hd hs =>
    cases h' with
    | move hd' hs' =>
      obtain rfl := Option.some.inj (hd.symm.trans hd')
      obtain rfl := Option.some.inj (hs.symm.trans hs')
      rfl

theorem Denotes.unique {op' : Op} (h : Denotes ctx name operands op)
    (h' : Denotes ctx name operands op') : op' = op := by
  obtain ⟨sense, hmem, hreads⟩ := h
  obtain ⟨sense', hmem', hreads'⟩ := h'
  obtain rfl := Vocabulary.eq_of_mem (by decide) hmem hmem'
  exact hreads.unique hreads'

/-! ## The operations of a sense -/

/-- Whether all operations that a sense gives have a property. -/
def Sense.All (P : Op → Prop) : Sense → Prop
  | bare op => P op
  | onRegister op => ∀ r, P (op r)
  | onValue op => ∀ r src, P (op r src)
  | jump condition => ∀ target, P (.jump condition target)
  | move => ∀ dst src, P (.transfer dst src)

theorem Sense.All.of_reads {P : Op → Prop} {sense : Sense} (h : sense.All P)
    (hreads : sense.Reads ctx operands op) : P op := by
  cases hreads with
  | bare => exact h
  | onRegister _ => exact h _
  | onValue _ _ => exact h _ _
  | jump _ => exact h _
  | move _ _ => exact h _ _

theorem senses_known : ∀ entry ∈ senses, entry.2.All (· ≠ .unknown) := by
  simp [senses, Sense.All]

theorem Denotes.ne_unknown (h : Denotes ctx name operands op) : op ≠ .unknown := by
  obtain ⟨sense, hmem, hreads⟩ := h
  exact (senses_known _ hmem).of_reads hreads

/-! ## The opcodes -/

theorem register?_lt {token : Token} {r : Reg} (h : layout.register? token = some r) : r < 8 := by
  rcases RegisterLayout.declared_of_register? h with ⟨i, hi, rfl⟩ | ⟨a, ha, _⟩
  · have hlt : i < 8 := hi
    rw [UInt8.lt_iff_toNat_lt, UInt8.toNat_ofNat_of_lt' (Nat.lt_trans hlt (by decide))]
    exact hlt
  · cases ha

theorem register_cases {r : Reg} (hr : r < 8) :
    r = 0 ∨ r = 1 ∨ r = 2 ∨ r = 3 ∨ r = 4 ∨ r = 5 ∨ r = 6 ∨ r = 7 := by
  have hlt : r.toNat < 8 := UInt8.lt_iff_toNat_lt.mp hr
  simp only [← UInt8.toNat_inj]
  change r.toNat = 0 ∨ r.toNat = 1 ∨ r.toNat = 2 ∨ r.toNat = 3 ∨ r.toNat = 4 ∨ r.toNat = 5 ∨
    r.toNat = 6 ∨ r.toNat = 7
  omega

/-- The opcodes of a form are decoded the way a sense reads operands. -/
def Implements (name : String) : Form → Sense → Prop
  | .bare opcode, .bare op => table.DecodesTo name op (.one opcode)
  | .onRegister opcode, .onRegister op =>
    ∀ r : Reg, r < 8 → table.DecodesTo name (op r) (.one (opcode ||| r))
  | .withByte opcode, .onValue op =>
    ∀ r : Reg, r < 8 → ∀ v, table.DecodesTo name (op r (.immediate v)) (.two (opcode ||| r) v)
  | .jump opcode, .jump condition =>
    ∀ target, table.DecodesTo name (.jump condition target) (.two opcode target)
  | .move opcode, .move =>
    ∀ dst : Reg, dst < 8 → ∀ src : Reg, src < 8 →
      table.DecodesTo name (.transfer dst src) (.one (opcode ||| dst <<< 3 ||| src))
  | _, _ => False

/-- Every entry of the vocabulary is implemented by the decode table. A register field has eight
values, and the rule that applies is looked up for each of them. -/
theorem vocabulary_implements :
    List.Forall₂ (fun entry sense => entry.1 = sense.1 ∧ Implements entry.1 entry.2 sense.2)
      vocabulary senses := by
  refine .cons ⟨rfl, ?halt⟩ <| .cons ⟨rfl, ?zero⟩ <| .cons ⟨rfl, ?cmpz⟩ <| .cons ⟨rfl, ?inc⟩ <|
    .cons ⟨rfl, ?dec⟩ <| .cons ⟨rfl, ?mov⟩ <| .cons ⟨rfl, ?set⟩ <| .cons ⟨rfl, ?cmp⟩ <|
    .cons ⟨rfl, ?add⟩ <| .cons ⟨rfl, ?sub⟩ <| .cons ⟨rfl, ?je⟩ <| .cons ⟨rfl, ?jl⟩ <|
    .cons ⟨rfl, ?jg⟩ <| .cons ⟨rfl, ?jp⟩ .nil
  case halt => exact fun next => rfl
  case zero | cmpz | inc | dec =>
    intro r hr next
    rcases register_cases hr with rfl | rfl | rfl | rfl | rfl | rfl | rfl | rfl <;> rfl
  case set | cmp | add | sub =>
    intro r hr v
    rcases register_cases hr with rfl | rfl | rfl | rfl | rfl | rfl | rfl | rfl <;> rfl
  case je | jl | jg | jp => exact fun target => rfl
  case mov =>
    intro dst hd src hs next
    rcases register_cases hd with rfl | rfl | rfl | rfl | rfl | rfl | rfl | rfl <;>
      rcases register_cases hs with rfl | rfl | rfl | rfl | rfl | rfl | rfl | rfl <;> rfl

/-! ## Encoding -/

/-- What a form encodes is read by the sense that the form implements, and is decoded to the
operation that the operands denote. -/
theorem Form.reads_of_encode {form : Form} {sense : Sense} {mnemonic : Token}
    (himp : Implements name form sense) (h : form.encode ctx mnemonic operands = .ok code) :
    code.size = form.size ∧ ∃ op, sense.Reads ctx operands op ∧ table.DecodesTo name op code := by
  -- the form fixes the sense, and each form succeeds on one number of operands
  cases form <;> cases sense <;> try exact himp.elim
  case bare.bare opcode op =>
    match operands, h with
    | [], h =>
      obtain rfl := Except.ok.inj h
      exact ⟨rfl, op, .bare, himp⟩
  case onRegister.onRegister opcode op =>
    match operands, h with
    | [token], h =>
      obtain ⟨r, hr, h⟩ := bind_eq_ok.mp h
      obtain rfl := Except.ok.inj h
      rw [register, registerNamed_eq_ok] at hr
      exact ⟨rfl, op r, .onRegister hr, himp r (register?_lt hr)⟩
  case withByte.onValue opcode op =>
    match operands, h with
    | [token, value], h =>
      obtain ⟨r, hr, h⟩ := bind_eq_ok.mp h
      obtain ⟨v, hv, h⟩ := bind_eq_ok.mp h
      obtain rfl := Except.ok.inj h
      rw [register, registerNamed_eq_ok] at hr
      exact ⟨rfl, op r (.immediate v), .onValue hr hv, himp r (register?_lt hr) v⟩
  case jump.jump opcode condition =>
    match operands, h with
    | [token], h =>
      obtain ⟨target, ht, h⟩ := bind_eq_ok.mp h
      obtain rfl := Except.ok.inj h
      exact ⟨rfl, .jump condition target, .jump ht, himp target⟩
  case move.move opcode =>
    match operands, h with
    | [first, second], h =>
      obtain ⟨dst, hd, h⟩ := bind_eq_ok.mp h
      obtain ⟨src, hs, h⟩ := bind_eq_ok.mp h
      obtain rfl := Except.ok.inj h
      rw [register, registerNamed_eq_ok] at hd hs
      exact ⟨rfl, .transfer dst src, .move hd hs, himp dst (register?_lt hd) src (register?_lt hs)⟩

/-- **What the encoder writes is decoded to what the operands denote.** -/
theorem decode_of_encode {mnemonic : Token} (h : encode ctx mnemonic operands = .ok code) :
    ∃ name form op, mnemonic = name.toList ∧ (name, form) ∈ vocabulary ∧ code.size = form.size ∧
      Denotes ctx name operands op ∧ table.DecodesTo name op code := by
  unfold encode at h
  split at h
  · next form hform =>
    obtain ⟨name, sense, rfl, hmem, hsense, himp⟩ :=
      Vocabulary.exists_of_form? vocabulary_implements hform
    obtain ⟨hsize, op, hreads, hdecode⟩ := Form.reads_of_encode himp h
    exact ⟨name, form, op, rfl, hmem, hsize, ⟨sense, hsense, hreads⟩, hdecode⟩
  · cases h

/-! ## Failures -/

theorem Form.blamesOperands_encode (form : Form) (mnemonic : Token) (operands : List Token) :
    BlamesOperands (form.encode ctx mnemonic operands) := by
  unfold Form.encode
  split
  case h_1 => exact .ok _
  case h_3 => exact .bind (blamesOperands_registerNamed _ _) fun _ => .ok _
  case h_5 =>
    exact .bind (blamesOperands_registerNamed _ _) fun _ =>
      .bind (ctx.blamesOperands_value _) fun _ => .ok _
  case h_7 => exact .bind (ctx.blamesOperands_target _) fun _ => .ok _
  case h_9 =>
    exact .bind (blamesOperands_registerNamed _ _) fun _ =>
      .bind (blamesOperands_registerNamed _ _) fun _ => .ok _
  -- a number of operands that the form does not take
  all_goals exact .error rfl

/-- No instruction of the vocabulary is unknown to the encoder. -/
theorem blamesOperands_encode {form : Form} (h : (name, form) ∈ vocabulary) :
    BlamesOperands (encode ctx name.toList operands) := by
  rw [encode, Vocabulary.form?_of_mem (by decide) h]
  exact form.blamesOperands_encode name.toList operands

end Octet.Cdc8512
