import Mathlib.Tactic.IntervalCases
import Octet.Proofs.Encoding.RoundTrip
import Octet.Proofs.Reading.Literals

/-!
# Literals as operands

No register has the name of a literal, so an operand that is one stands for a value or for the target
of a jump or branch. It is encoded in the second byte of its instruction, as the byte that it stands
for, unless there is a label of the same name: labels are looked up first (`Context.resolved`).

The main statement is `Isa.exists_encodes`.
-/

namespace Octet

namespace Assembly

variable {ctx : Context} {token : Token} {v w : UInt8}

/-- What a literal comes to as an operand: the address of the label with this name, if there is one. -/
def Context.resolved (ctx : Context) (token : Token) (v : UInt8) : UInt8 :=
  (ctx.labels.address? token).getD v

theorem Context.resolved_of_some {address : UInt8} (h : ctx.labels.address? token = some address) :
    ctx.resolved token v = address := by
  simp [resolved, h]

theorem Context.resolved_of_none (h : ctx.labels.address? token = none) :
    ctx.resolved token v = v := by
  simp [resolved, h]

theorem value_of_literal (h : ctx.value token = .ok w) (hliteral : literal token = .ok v) :
    w = ctx.resolved token v := by
  unfold Context.value at h
  cases hlabel : ctx.labels.address? token with
  | some address =>
    rw [hlabel] at h
    rw [Context.resolved_of_some hlabel]
    exact (Except.ok.inj h).symm
  | none =>
    rw [hlabel] at h
    rw [Context.resolved_of_none hlabel]
    simp only at h
    split at h
    · cases h
    · rw [hliteral] at h
      exact (Except.ok.inj h).symm

theorem target_of_literal (h : ctx.target token = .ok w) (hliteral : literal token = .ok v) :
    w = ctx.resolved token v := by
  unfold Context.target at h
  cases hlabel : ctx.labels.address? token with
  | some address =>
    rw [hlabel] at h
    rw [Context.resolved_of_some hlabel]
    exact (Except.ok.inj h).symm
  | none =>
    rw [hlabel] at h
    simp only at h
    split at h
    · next value hvalue =>
      split at h
      · obtain rfl := Except.ok.inj h
        exact value_of_literal hvalue hliteral
      · cases h
    · cases h

/-! ## Literals are not marked, and name no registers -/

/-- What starts with the mark of an address or of a value is no literal by itself. -/
theorem literal_marked {mark : Char} (hmark : mark = '$' ∨ mark = '#') (rest : Token) :
    literal (mark :: rest) ≠ .ok v := by
  rcases hmark with rfl | rfl <;> exact nofun

/-- Names of registers start with letters, and literals with quotes, digits or plus signs. -/
theorem register?_of_literal (isa : Isa) (h : literal token = .ok v) :
    isa.layout.register? token = none := by
  have hdigits {digits : List Char} {n : Nat} (h : Text.Numeral 10 digits n) :
      isa.layout.register? digits = none := by
    obtain ⟨hne, ds, hds, _⟩ := h
    cases hds with
    | nil => exact absurd rfl hne
    | @cons c d _ _ hd _ =>
      obtain ⟨hlt, hc⟩ := hd
      interval_cases d <;> rcases hc with rfl | rfl <;> cases isa <;> rfl
  rcases literal_eq_ok_iff.mp h with h | h
  · cases h with
    | character => cases isa <;> rfl
    | hexadecimal => cases isa <;> rfl
    | decimal h => exact hdigits h
  · cases h <;> cases isa <;> rfl

theorem not_registerNamed_of_literal (isa : Isa) {r : Reg} (hliteral : literal token = .ok v) :
    registerNamed isa.layout token ≠ .ok r := by
  rw [Ne, registerNamed_eq_ok, register?_of_literal isa hliteral]
  exact nofun

end Assembly

open Assembly (Context Operand literal value_of_literal target_of_literal literal_marked
  register?_of_literal not_registerNamed_of_literal)

variable {ctx : Context} {mnemonic token : Token} {operands : List Token} {v : UInt8} {code : Code}

/-! ## The CDC8512 -/

namespace Cdc8512

theorem Form.exists_code_of_literal {form : Form}
    (hcode : form.encode ctx mnemonic operands = .ok code) (hmem : token ∈ operands)
    (hliteral : literal token = .ok v) : ∃ opcode, code = .two opcode (ctx.resolved token v) := by
  have hregister {r : Reg} {first : Token} (h : register first = .ok r) : token ≠ first := by
    rintro rfl
    exact not_registerNamed_of_literal .cdc8512 hliteral h
  cases form with
  | bare opcode =>
    cases operands with
    | nil => cases hmem
    | cons => cases hcode
  | onRegister opcode =>
    match operands with
    | [] => cases hmem
    | [first] =>
      obtain ⟨r, hr, _⟩ := bind_eq_ok.mp hcode
      exact absurd (List.mem_singleton.mp hmem) (hregister hr)
    | _ :: _ :: _ => cases hcode
  | withByte opcode =>
    match operands with
    | [] => cases hmem
    | [_] => cases hcode
    | [first, second] =>
      obtain ⟨r, hr, hcode⟩ := bind_eq_ok.mp hcode
      obtain ⟨w, hw, hcode⟩ := bind_eq_ok.mp hcode
      obtain rfl := Except.ok.inj hcode
      obtain rfl := List.mem_singleton.mp ((List.mem_cons.mp hmem).resolve_left (hregister hr))
      exact ⟨_, by rw [value_of_literal hw hliteral]⟩
    | _ :: _ :: _ :: _ => cases hcode
  | jump opcode =>
    match operands with
    | [] => cases hmem
    | [first] =>
      obtain ⟨w, hw, hcode⟩ := bind_eq_ok.mp hcode
      obtain rfl := Except.ok.inj hcode
      obtain rfl := List.mem_singleton.mp hmem
      exact ⟨_, by rw [target_of_literal hw hliteral]⟩
    | _ :: _ :: _ => cases hcode
  | move opcode =>
    match operands with
    | [] => cases hmem
    | [_] => cases hcode
    | [first, second] =>
      obtain ⟨_, hd, hcode⟩ := bind_eq_ok.mp hcode
      obtain ⟨_, hs, _⟩ := bind_eq_ok.mp hcode
      rcases List.mem_pair.mp hmem with h | h
      · exact absurd h (hregister hd)
      · exact absurd h (hregister hs)
    | _ :: _ :: _ :: _ => cases hcode

end Cdc8512

/-! ## The CDC6504 -/

namespace Cdc6504

/-- The byte that an operand is encoded in. -/
def operandByte : Operand → UInt8
  | .immediate value _ => value
  | .zeroPage address => address
  | .indexed address _ => address

theorem exists_of_code? {modes : Modes} {o : Operand} (h : modes.code? o = some code) :
    ∃ opcode, code = .two opcode (operandByte o) := by
  unfold Modes.code? at h
  split at h
  · split at h
    · exact ⟨_, (Option.some.inj h).symm⟩
    · split at h
      · cases h
      · obtain ⟨opcode, _, rfl⟩ := Option.map_eq_some_iff.mp h
        exact ⟨opcode, rfl⟩
  · obtain ⟨opcode, _, rfl⟩ := Option.map_eq_some_iff.mp h
    exact ⟨opcode, rfl⟩
  · obtain ⟨opcode, _, rfl⟩ := Option.map_eq_some_iff.mp h
    exact ⟨opcode, rfl⟩

/-- The token is one of the operands, or the value behind its mark in the last one. -/
def InOperands (operands : List Token) (token : Token) : Prop :=
  token ∈ operands ∨ operands.getLast? = some ('#' :: token)

theorem Written.operandByte_eq {o : Operand} (ho : Written ctx operands o)
    (htoken : InOperands operands token) (hliteral : literal token = .ok v) :
    operandByte o = ctx.resolved token v := by
  have hregister {r : Reg} {name : Token} (h : layout.register? name = some r) : token ≠ name := by
    rintro rfl
    cases (register?_of_literal .cdc6504 hliteral).symm.trans h
  cases ho with
  | hashed hv =>
    rcases htoken with hmem | hlast
    · obtain rfl := List.mem_singleton.mp hmem
      exact absurd hliteral (literal_marked (.inr rfl) _)
    · obtain rfl := (List.cons.inj (Option.some.inj hlast)).2
      exact value_of_literal hv hliteral
  | bare _ hhash hv =>
    rcases htoken with hmem | hlast
    · obtain rfl := List.mem_singleton.mp hmem
      exact value_of_literal hv hliteral
    · obtain rfl := Option.some.inj hlast
      exact absurd rfl hhash
  | zeroPage =>
    rcases htoken with hmem | hlast
    · obtain rfl := List.mem_singleton.mp hmem
      exact absurd hliteral (literal_marked (.inl rfl) _)
    · cases hlast
  | indexedHex _ hr _ =>
    rcases htoken with hmem | hlast
    · rcases List.mem_pair.mp hmem with rfl | hname
      · exact absurd hliteral (literal_marked (.inl rfl) _)
      · exact absurd hname (hregister hr)
    · obtain rfl := Option.some.inj hlast
      cases hr
  | indexed _ ha hr _ =>
    rcases htoken with hmem | hlast
    · rcases List.mem_pair.mp hmem with rfl | hname
      · exact value_of_literal ha hliteral
      · exact absurd hname (hregister hr)
    · obtain rfl := Option.some.inj hlast
      cases hr

theorem Written.ne_nil {o : Operand} (h : Written ctx operands o) : operands ≠ [] := by
  cases h <;> exact List.cons_ne_nil _ _

theorem Operands.operandByte_eq {works : Reg} {o : Operand} (ho : Operands ctx works operands o)
    (htoken : InOperands operands token) (hliteral : literal token = .ok v) :
    operandByte o = ctx.resolved token v := by
  cases ho with
  | plain _ ho => exact ho.operandByte_eq htoken hliteral
  | @led first rest _ hfirst ho =>
    -- the register in front is none of the two
    refine ho.operandByte_eq ?_ hliteral
    rcases htoken with hmem | hlast
    · rcases List.mem_cons.mp hmem with rfl | hmem
      · cases (register?_of_literal .cdc6504 hliteral).symm.trans hfirst
      · exact .inl hmem
    · rw [List.getLast?_cons_of_ne_nil ho.ne_nil] at hlast
      exact .inr hlast

theorem Form.exists_distance_of_literal {opcode : UInt8}
    (hcode : (Form.relative opcode).encode ctx mnemonic operands = .ok code)
    (hmem : token ∈ operands) (hliteral : literal token = .ok v) :
    ∃ distance, code = .two opcode distance ∧
      distance.toInt8.toInt = (ctx.resolved token v).toNat - (ctx.address.toNat + 2) := by
  match operands with
  | [] => cases hmem
  | [first] =>
    obtain ⟨w, hw, hcode⟩ := bind_eq_ok.mp hcode
    obtain ⟨distance, hdistance, hcode⟩ := bind_eq_ok.mp hcode
    obtain rfl := Except.ok.inj hcode
    obtain rfl := List.mem_singleton.mp hmem
    rw [← target_of_literal hw hliteral]
    exact ⟨distance, rfl, displacement_eq_ok hdistance⟩
  | _ :: _ :: _ => cases hcode

theorem Form.target_of_literal {opcode : UInt8}
    (hcode : (Form.absolute opcode).encode ctx mnemonic operands = .ok code)
    (hmem : token ∈ operands) (hliteral : literal token = .ok v) :
    code = .two opcode (ctx.resolved token v) := by
  match operands with
  | [] => cases hmem
  | [first] =>
    obtain ⟨w, hw, hcode⟩ := bind_eq_ok.mp hcode
    obtain rfl := Except.ok.inj hcode
    obtain rfl := List.mem_singleton.mp hmem
    rw [Assembly.target_of_literal hw hliteral]
  | _ :: _ :: _ => cases hcode

theorem Form.exists_value_of_literal {works : Reg} {modes : Modes}
    (hcode : (Form.data works modes).encode ctx mnemonic operands = .ok code)
    (htoken : InOperands operands token) (hliteral : literal token = .ok v) :
    ∃ opcode, code = .two opcode (ctx.resolved token v) := by
  obtain ⟨o, ho, hcode⟩ := Form.encode_data_eq_ok_iff.mp hcode
  rw [← ho.operandByte_eq htoken hliteral]
  exact exists_of_code? hcode

end Cdc6504

/-! ## Both -/

namespace Isa

/-- The name of a branch, which is encoded with the distance to its target. -/
def IsBranch : Isa → Token → Prop
  | cdc8512, _ => False
  | cdc6504, mnemonic => ∃ opcode, Cdc6504.vocabulary.form? mnemonic = some (.relative opcode)

/-- The name of an instruction on data, whose operand may have the mark of a value. -/
def TakesMark : Isa → Token → Prop
  | cdc8512, _ => False
  | cdc6504, mnemonic =>
    ∃ works modes, Cdc6504.vocabulary.form? mnemonic = some (.data works modes)

/-- The token is an operand of the instruction, by itself or behind the mark of a value. -/
def HasOperand (isa : Isa) (mnemonic : Token) (operands : List Token) (token : Token) : Prop :=
  token ∈ operands ∨ isa.TakesMark mnemonic ∧ operands.getLast? = some ('#' :: token)

/-- The byte is what the instruction at an address has for an operand that comes to `v`. Distances
are counted from the end of the two bytes of a branch. -/
def Encodes (isa : Isa) (mnemonic : Token) (address : Nat) (v byte : UInt8) : Prop :=
  (isa.IsBranch mnemonic → byte.toInt8.toInt = v.toNat - (address + 2)) ∧
    (¬ isa.IsBranch mnemonic → byte = v)

variable {isa : Isa}

theorem HasOperand.mem {form : Cdc6504.Form} (h : cdc6504.HasOperand mnemonic operands token)
    (hform : Cdc6504.vocabulary.form? mnemonic = some form)
    (hother : ∀ works modes, form ≠ .data works modes) : token ∈ operands := by
  rcases h with hmem | ⟨⟨works, modes, hdata⟩, _⟩
  · exact hmem
  · exact absurd (Option.some.inj (hform.symm.trans hdata)) (hother works modes)

theorem Encodes.of_not_branch {form : Cdc6504.Form} {address : Nat}
    (hform : Cdc6504.vocabulary.form? mnemonic = some form)
    (hother : ∀ opcode, form ≠ .relative opcode) : cdc6504.Encodes mnemonic address v v := by
  refine ⟨?_, fun _ => rfl⟩
  rintro ⟨opcode, hbranch⟩
  exact absurd (Option.some.inj (hform.symm.trans hbranch)) (hother opcode)

/-- **Literals as operands.** An instruction that is encoded with a literal as an operand has a
second byte, and this byte is what the literal comes to. -/
theorem exists_encodes (hcode : isa.encode ctx mnemonic operands = .ok code)
    (htoken : isa.HasOperand mnemonic operands token) (hliteral : literal token = .ok v) :
    ∃ opcode byte, code = .two opcode byte ∧
      isa.Encodes mnemonic ctx.address.toNat (ctx.resolved token v) byte := by
  cases isa with
  | cdc8512 =>
    simp only [encode, Cdc8512.encode] at hcode
    split at hcode
    · have hmem := htoken.resolve_right And.left
      obtain ⟨opcode, rfl⟩ := Cdc8512.Form.exists_code_of_literal hcode hmem hliteral
      exact ⟨opcode, _, rfl, False.elim, fun _ => rfl⟩
    · cases hcode
  | cdc6504 =>
    simp only [encode, Cdc6504.encode] at hcode
    split at hcode
    · next form hform =>
      cases form with
      | implied opcode =>
        have hmem := htoken.mem hform (by simp)
        cases operands with
        | nil => cases hmem
        | cons => cases hcode
      | relative opcode =>
        have hmem := htoken.mem hform (by simp)
        obtain ⟨distance, rfl, hdistance⟩ :=
          Cdc6504.Form.exists_distance_of_literal hcode hmem hliteral
        exact ⟨opcode, distance, rfl, fun _ => hdistance, fun h => absurd ⟨opcode, hform⟩ h⟩
      | absolute opcode =>
        have hmem := htoken.mem hform (by simp)
        obtain rfl := Cdc6504.Form.target_of_literal hcode hmem hliteral
        exact ⟨opcode, _, rfl, .of_not_branch hform (by simp)⟩
      | data works modes =>
        obtain ⟨opcode, rfl⟩ :=
          Cdc6504.Form.exists_value_of_literal hcode (htoken.imp_right And.right) hliteral
        exact ⟨opcode, _, rfl, .of_not_branch hform (by simp)⟩
    · cases hcode

end Isa

end Octet
