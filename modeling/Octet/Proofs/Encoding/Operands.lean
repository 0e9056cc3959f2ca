import Octet.Proofs.Encoding.RoundTrip

/-!
# What operands are written as

`Isa.Readable` lists the spellings that an operand can have. The operands of whatever denotes an
operation are all of them spelled so (`Isa.Denotes.readable`), whichever instruction it is.
-/

namespace Octet

open Assembly (Context hexByte)

namespace Isa

/-- An operand that some instruction can be written with. -/
inductive Readable (isa : Isa) (ctx : Context) : Token → Prop where
  | register {token r} (h : isa.layout.register? token = some r) : Readable isa ctx token
  | value {token v} (h : ctx.value token = .ok v) : Readable isa ctx token
  /-- `#v` -/
  | hashed {token v} (h : ctx.value token = .ok v) : Readable isa ctx ('#' :: token)
  /-- `$hh` -/
  | hex {digits address} (h : hexByte digits = .ok address) : Readable isa ctx ('$' :: digits)

end Isa

variable {isa : Isa} {ctx : Context} {name : String} {operands : List Token} {op : Op}

/-- What a jump goes to is a value. -/
theorem Isa.Readable.target {token : Token} {address : UInt8} (h : ctx.target token = .ok address) :
    isa.Readable ctx token := by
  cases hlabel : ctx.labels.address? token with
  | some address' =>
    have hvalue : ctx.value token = .ok address' := by simp [Context.value, hlabel]
    exact .value hvalue
  | none =>
    unfold Context.target at h
    rw [hlabel] at h
    cases hvalue : ctx.value token with
    | ok v => exact .value hvalue
    | error cause =>
      rw [hvalue] at h
      cases h

theorem Cdc8512.Denotes.readable (h : Cdc8512.Denotes ctx name operands op) :
    ∀ token ∈ operands, Isa.cdc8512.Readable ctx token := by
  obtain ⟨sense, _, hreads⟩ := h
  cases hreads with
  | bare => simp
  | onRegister hr => simpa using .register hr
  | onValue hr hv => simpa using ⟨.register hr, .value hv⟩
  | jump ht => simpa using .target ht
  | move hd hs => simpa using ⟨.register hd, .register hs⟩

theorem Cdc6504.Written.readable {o : Assembly.Operand} (h : Cdc6504.Written ctx operands o) :
    ∀ token ∈ operands, Isa.cdc6504.Readable ctx token := by
  cases h with
  | hashed hv => simpa using .hashed hv
  | bare _ _ hv => simpa using .value hv
  | zeroPage ha => simpa using .hex ha
  | indexedHex ha hr _ => simpa using ⟨.hex ha, .register hr⟩
  | indexed _ ha hr _ => simpa using ⟨.value ha, .register hr⟩

theorem Cdc6504.Operands.readable {works : Reg} {o : Assembly.Operand}
    (h : Cdc6504.Operands ctx works operands o) :
    ∀ token ∈ operands, Isa.cdc6504.Readable ctx token := by
  cases h with
  | plain _ ho => exact ho.readable
  | led hfirst ho => exact List.forall_mem_cons.mpr ⟨.register hfirst, ho.readable⟩

theorem Cdc6504.Denotes.readable (h : Cdc6504.Denotes ctx name operands op) :
    ∀ token ∈ operands, Isa.cdc6504.Readable ctx token := by
  obtain ⟨sense, _, hreads⟩ := h
  cases hreads with
  | implied => simp
  | branch ht _ => simpa using .target ht
  | jump ht => simpa using .target ht
  | reads ho => exact ho.readable
  | stores ho _ => exact ho.readable

/-- Every operand of an instruction is spelled in one of these ways. -/
theorem Isa.Denotes.readable (h : isa.Denotes ctx name operands op) :
    ∀ token ∈ operands, isa.Readable ctx token := by
  cases isa with
  | cdc8512 => exact Cdc8512.Denotes.readable h
  | cdc6504 => exact Cdc6504.Denotes.readable h

end Octet
