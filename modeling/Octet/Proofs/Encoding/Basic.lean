import Mathlib.Data.List.Forall2
import Octet.Assembly.Resolve
import Octet.Opcode
import Octet.Vocabulary

/-!
# Reading operands: what can come of it

Facts on the parts that the encoders of both instruction sets are made of.

* `bind_eq_ok`, `mapError_eq_ok` — when a composed reading succeeds.
* `BlamesOperands` — a reading that fails with a cause about operands only. It is closed under
  composition, so each encoder inherits it from its parts.
* `Vocabulary.form?_of_mem`, `Vocabulary.mem_of_form?` — looking a mnemonic up finds its entry.
* `DecodeTable.DecodesTo` — a code is decoded to an operation, whatever byte follows it.
-/

namespace Octet

/-! ## Composed readings -/

theorem bind_eq_ok {ε α β : Type} {x : Except ε α} {f : α → Except ε β} {b : β} :
    (x >>= f) = .ok b ↔ ∃ a, x = .ok a ∧ f a = .ok b := by
  cases x <;> simp [bind, Except.bind]

theorem mapError_eq_ok {ε ε' α : Type} {x : Except ε α} {f : ε → ε'} {a : α} :
    x.mapError f = .ok a ↔ x = .ok a := by
  cases x <;> simp [Except.mapError]

/-- A list that matches another one member by member has a partner for each of its members. -/
theorem exists_mem_of_forall₂ {α β : Type} {R : α → β → Prop} {l : List α} {l' : List β}
    (h : List.Forall₂ R l l') {a : α} (ha : a ∈ l) : ∃ b ∈ l', R a b := by
  induction h with
  | nil => cases ha
  | cons hab _ ih =>
    rcases List.mem_cons.mp ha with rfl | ha
    · exact ⟨_, List.mem_cons_self, hab⟩
    · obtain ⟨b, hb, hr⟩ := ih ha
      exact ⟨b, List.mem_cons_of_mem _ hb, hr⟩

/-! ## What readings of operands fail with -/

namespace Assembly

/-- Whether a cause is about the operands of an instruction. -/
def Cause.isAboutOperands : Cause → Bool
  | undefinedLabel _ => true
  | invalidOperand _ => true
  | branchTooFar _ => true
  | unknownInstruction _ => false
  | duplicateLabel _ => false
  | emptyLabel => false
  | programTooLarge _ => false
  | textTooLong _ => false
  | listTooLong => false

/-- A reading that fails with causes about operands only. -/
def BlamesOperands {α : Type} (x : Except Cause α) : Prop :=
  ∀ cause, x = .error cause → cause.isAboutOperands = true

namespace BlamesOperands

variable {α β : Type}

theorem ok (a : α) : BlamesOperands (.ok a) := by
  intro cause h
  cases h

theorem error {cause : Cause} (h : cause.isAboutOperands = true) :
    BlamesOperands (.error cause : Except Cause α) := by
  intro cause' h'
  cases h'
  exact h

theorem bind {x : Except Cause α} {f : α → Except Cause β} (hx : BlamesOperands x)
    (hf : ∀ a, BlamesOperands (f a)) : BlamesOperands (x >>= f) := by
  cases x with
  | ok a => exact hf a
  | error cause => exact error (hx cause rfl)

theorem invalidOperand (x : Except OperandCause α) :
    BlamesOperands (x.mapError .invalidOperand) := by
  cases x with
  | ok a => exact ok a
  | error cause => exact error rfl

end BlamesOperands

theorem Context.blamesOperands_value (ctx : Context) (token : Token) :
    BlamesOperands (ctx.value token) := by
  unfold Context.value
  split
  · exact .ok _
  · split
    · exact .error rfl
    · exact .invalidOperand _

theorem Context.blamesOperands_target (ctx : Context) (token : Token) :
    BlamesOperands (ctx.target token) := by
  unfold Context.target
  split
  · exact .ok _
  · split
    · split
      · exact .ok _
      · exact .error rfl
    · next cause h => exact .error (ctx.blamesOperands_value token cause h)

theorem Context.blamesOperands_displacement (ctx : Context) (target size : UInt8) :
    BlamesOperands (ctx.displacement target size) := by
  unfold Context.displacement
  simp only
  split
  · exact .ok _
  · exact .error rfl

theorem blamesOperands_registerNamed (layout : RegisterLayout) (name : Token) :
    BlamesOperands (registerNamed layout name) := by
  unfold registerNamed
  split
  · exact .ok _
  · exact .error rfl

theorem registerNamed_eq_ok {layout : RegisterLayout} {name : Token} {r : Reg} :
    registerNamed layout name = .ok r ↔ layout.register? name = some r := by
  unfold registerNamed
  split <;> simp_all

end Assembly

/-! ## Names of registers -/

/-- What a name stands for is declared: under this name, or as an alias. -/
theorem RegisterLayout.declared_of_register? {layout : RegisterLayout} {token : Token} {r : Reg}
    (h : layout.register? token = some r) :
    (∃ i, i < layout.count ∧ r = UInt8.ofNat i) ∨ ∃ a ∈ layout.aliases, r = a.2 := by
  unfold register? at h
  split at h
  · next i hi =>
    obtain rfl := Option.some.inj h
    exact .inl ⟨i, (List.findIdx?_eq_some_iff_findIdx_eq.mp hi).1, rfl⟩
  · obtain ⟨a, ha, rfl⟩ := Option.map_eq_some_iff.mp h
    exact .inr ⟨a, List.mem_of_find?_eq_some ha, rfl⟩

/-! ## Vocabularies -/

namespace Vocabulary

variable {Form : Type}

/-- What is found under a mnemonic stands in the vocabulary under that name. -/
theorem mem_of_form? {vocabulary : Vocabulary Form} {mnemonic : Token} {form : Form}
    (h : vocabulary.form? mnemonic = some form) :
    ∃ name, name.toList = mnemonic ∧ (name, form) ∈ vocabulary := by
  unfold form? at h
  obtain ⟨⟨name, form'⟩, hfind, rfl⟩ := Option.map_eq_some_iff.mp h
  have hname := List.find?_some hfind
  exact ⟨name, by simpa using hname, List.mem_of_find?_eq_some hfind⟩

/-- Among entries with different keys, a search for the key of one of them finds that one. -/
theorem find?_key_of_mem {α β : Type} [BEq β] [LawfulBEq β] {key : α → β} {l : List α}
    (hnodup : (l.map key).Nodup) {a : α} (h : a ∈ l) :
    l.find? (fun b => key b == key a) = some a := by
  induction l with
  | nil => cases h
  | cons b rest ih =>
    rw [List.map_cons, List.nodup_cons] at hnodup
    rcases List.mem_cons.mp h with rfl | hrest
    · simp
    · have hne : key b ≠ key a := fun heq => hnodup.1 (heq ▸ List.mem_map_of_mem hrest)
      rw [List.find?_cons_of_neg (by simpa using hne)]
      exact ih hnodup.2 hrest

/-- A name stands for one form. -/
theorem eq_of_mem {vocabulary : Vocabulary Form} (hnodup : (vocabulary.map (·.1)).Nodup)
    {name : String} {form form' : Form} (h : (name, form) ∈ vocabulary)
    (h' : (name, form') ∈ vocabulary) : form = form' := by
  have hfind := find?_key_of_mem hnodup h
  have hfind' := find?_key_of_mem hnodup h'
  exact congrArg Prod.snd (Option.some.inj (hfind.symm.trans hfind'))

theorem form?_of_mem {vocabulary : Vocabulary Form}
    (hnodup : (vocabulary.map fun entry => entry.1.toList).Nodup)
    {name : String} {form : Form} (h : (name, form) ∈ vocabulary) :
    vocabulary.form? name.toList = some form := by
  have hfind := find?_key_of_mem hnodup h
  rw [form?, hfind]
  rfl

/-- If no two names differ in case only, an entry is found under its name in either case. -/
theorem formAnyCase?_of_mem {vocabulary : Vocabulary Form}
    (hnodup : (vocabulary.map fun entry => Text.upper entry.1.toList).Nodup)
    {name : String} {form : Form} (h : (name, form) ∈ vocabulary) :
    vocabulary.formAnyCase? name.toList = some form := by
  have hfind := find?_key_of_mem hnodup h
  unfold formAnyCase? Text.sameLetters
  rw [hfind]
  rfl

/-- Two tables that agree entry by entry: what is found in the one has a partner in the other, under
the same name. -/
theorem exists_of_form? {Form' : Type} {vocabulary : Vocabulary Form} {vocabulary' : Vocabulary Form'}
    {R : String → Form → Form' → Prop}
    (hagree : List.Forall₂ (fun entry entry' => entry.1 = entry'.1 ∧ R entry.1 entry.2 entry'.2)
      vocabulary vocabulary')
    {mnemonic : Token} {form : Form} (h : vocabulary.form? mnemonic = some form) :
    ∃ name form', mnemonic = name.toList ∧ (name, form) ∈ vocabulary ∧
      (name, form') ∈ vocabulary' ∧ R name form form' := by
  obtain ⟨name, rfl, hmem⟩ := mem_of_form? h
  obtain ⟨⟨_, form'⟩, hmem', rfl, hr⟩ := exists_mem_of_forall₂ hagree hmem
  exact ⟨name, form', rfl, hmem, hmem', hr⟩

end Vocabulary

/-! ## Codes as a decoder sees them -/

namespace Code

/-- The first byte. -/
def first : Code → UInt8
  | one opcode => opcode
  | two opcode _ => opcode

/-- The byte after the first one, given the byte after the code. -/
def second (next : UInt8) : Code → UInt8
  | one _ => next
  | two _ operand => operand

end Code

/-- The code is decoded to an instruction of this name that does `op`. What follows a code of one
byte does not matter. -/
def DecodeTable.DecodesTo (table : DecodeTable) (name : String) (op : Op) : Code → Prop
  | .one opcode =>
    ∀ next, table.decode opcode next = { raw := opcode, next, name, size := 1, op }
  | .two opcode operand =>
    table.decode opcode operand = { raw := opcode, next := operand, name, size := 2, op }

theorem DecodeTable.DecodesTo.decode {table : DecodeTable} {name : String} {op : Op} {code : Code}
    (h : table.DecodesTo name op code) (next : UInt8) :
    table.decode code.first (code.second next) =
      { raw := code.first, next := code.second next, name, size := code.size, op } := by
  cases code with
  | one opcode => exact h next
  | two opcode operand => exact h

end Octet
