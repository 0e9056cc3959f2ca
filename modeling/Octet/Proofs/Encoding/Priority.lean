import Octet.Isa

/-!
# More specific rules first

A table is asked whether no rule looks at more bits than the one before it. This compares neighbours
only, but it is so for any two of its rules then (`isOrderedList_iff`), wherever they stand.

A byte falls to the first rule that applies to it (`First`). In an ordered table no rule behind that one
looks at more bits, and no rule in front of it applies, so it is the most specific of all that apply.

A byte that no rule applies to is no instruction. The converse is a matter of the rules, as a rule may
make no instruction of a byte itself (`known_byte_is_unknown`). No rule of the two instruction sets does
(`Isa.op_decode_eq_unknown_iff`).

The main statement is `most_specific_wins`.
-/

namespace Octet

namespace DecodeTable

variable {rules : List Opcode} {rule other : Opcode} {raw next : UInt8} {k : Nat}

/-! ## Any two rules -/

/-- No rule looks at more bits than any rule in front of it. -/
def Descending (rules : List Opcode) : Prop :=
  rules.Pairwise fun earlier later => later.specificity ≤ earlier.specificity

theorem isOrderedList_iff : isOrderedList rules = true ↔ Descending rules := by
  induction rules with
  | nil => exact iff_of_true rfl .nil
  | cons a rest ih =>
    cases rest with
    | nil => exact iff_of_true rfl (List.pairwise_singleton _ a)
    | cons b rest =>
      rw [isOrderedList, Bool.and_eq_true, decide_eq_true_iff, ih]
      constructor
      · rintro ⟨hle, hrest⟩
        refine List.pairwise_cons.mpr ⟨fun later hlater => ?_, hrest⟩
        -- what holds for the neighbour holds for all that come behind it
        rcases List.mem_cons.mp hlater with rfl | hlater
        · exact hle
        · exact Nat.le_trans ((List.pairwise_cons.mp hrest).1 later hlater) hle
      · intro hall
        obtain ⟨hhead, hrest⟩ := List.pairwise_cons.mp hall
        exact ⟨hhead b List.mem_cons_self, hrest⟩

theorem descending_iff :
    Descending rules ↔ ∀ (i j : Nat) (earlier later : Opcode), i < j → rules[i]? = some earlier →
      rules[j]? = some later → later.specificity ≤ earlier.specificity := by
  rw [Descending, List.pairwise_iff_getElem]
  constructor
  · intro h i j earlier later hij hearlier hlater
    obtain ⟨hi, rfl⟩ := List.getElem?_eq_some_iff.mp hearlier
    obtain ⟨hj, rfl⟩ := List.getElem?_eq_some_iff.mp hlater
    exact h i j hi hj hij
  · intro h i j hi hj hij
    exact h i j _ _ hij (List.getElem?_eq_getElem hi) (List.getElem?_eq_getElem hj)

/-! ## The first rule that applies -/

/-- The rule stands at this place, it applies to the byte, and none in front of it does. -/
structure First (rules : List Opcode) (raw : UInt8) (k : Nat) (rule : Opcode) : Prop where
  place : rules[k]? = some rule
  applies : rule.applies raw = true
  front : ∀ j < k, ∀ earlier, rules[j]? = some earlier → earlier.applies raw = false

theorem find?_eq_some_iff_first :
    rules.find? (·.applies raw) = some rule ↔ ∃ k, First rules raw k rule := by
  rw [List.find?_eq_some_iff_getElem]
  constructor
  · rintro ⟨happlies, k, hk, rfl, hfront⟩
    refine ⟨k, List.getElem?_eq_getElem hk, happlies, fun j hj earlier hearlier => ?_⟩
    obtain ⟨_, rfl⟩ := List.getElem?_eq_some_iff.mp hearlier
    exact Bool.not_eq_true' _ ▸ hfront j hj
  · rintro ⟨k, hplace, happlies, hfront⟩
    obtain ⟨hk, rfl⟩ := List.getElem?_eq_some_iff.mp hplace
    refine ⟨happlies, k, hk, rfl, fun j hj => ?_⟩
    have hearlier := List.getElem?_eq_getElem (Nat.lt_trans hj hk)
    rw [hfront j hj _ hearlier]
    rfl

/-- Where a rule applies, there is a first one. -/
theorem exists_first (hrule : rule ∈ rules) (happlies : rule.applies raw = true) :
    ∃ k first, First rules raw k first := by
  have hsome : (rules.find? (·.applies raw)).isSome = true :=
    List.find?_isSome.mpr ⟨rule, hrule, happlies⟩
  obtain ⟨first, hfind⟩ := Option.isSome_iff_exists.mp hsome
  obtain ⟨k, hfirst⟩ := find?_eq_some_iff_first.mp hfind
  exact ⟨k, first, hfirst⟩

/-- In an ordered list the first rule that applies is the most specific one, since all others that apply
stand behind it. -/
theorem First.le_specificity (h : First rules raw k rule) (hrules : Descending rules)
    (hother : other ∈ rules) (happlies : other.applies raw = true) :
    other.specificity ≤ rule.specificity := by
  obtain ⟨j, hj⟩ := List.getElem?_of_mem hother
  rcases Nat.lt_trichotomy j k with hlt | rfl | hgt
  · rw [h.front j hlt other hj] at happlies
    cases happlies
  · obtain rfl := Option.some.inj (hj.symm.trans h.place)
    exact Nat.le_refl _
  · exact descending_iff.mp hrules k j rule other hgt h.place hj

theorem decode_of_first {table : DecodeTable} (h : First table.opcodes raw k rule) :
    table.decode raw next = rule.decode raw next := by
  rw [decode, find?_eq_some_iff_first.mpr ⟨k, h⟩]

theorem decode_of_none {table : DecodeTable} (h : ∀ rule ∈ table.opcodes, rule.applies raw = false) :
    table.decode raw next = .unknown raw next := by
  have hfind : table.opcodes.find? (·.applies raw) = none := by
    rw [List.find?_eq_none]
    intro rule hrule
    simp [h rule hrule]
  rw [decode, hfind]

/-- Bytes are no instruction just if no rule applies, where the rule that comes first makes one of
them. -/
theorem op_decode_eq_unknown_iff {table : DecodeTable}
    (hfirst : ∀ k rule, First table.opcodes raw k rule → rule.meaning raw next ≠ .unknown) :
    (table.decode raw next).op = .unknown ↔
      ∀ rule ∈ table.opcodes, rule.applies raw = false := by
  constructor
  · intro hunknown rule hrule
    rw [Bool.eq_false_iff]
    intro happlies
    obtain ⟨k, first, h⟩ := exists_first hrule happlies
    rw [decode_of_first h] at hunknown
    exact hfirst k first h hunknown
  · intro hnone
    rw [decode_of_none hnone]
    rfl

/-- **The most specific rule wins.** A table passes for ordered exactly if no rule looks at more bits than
a rule in front of it, at whatever two places they stand. Where rules apply to a byte, two bytes are decoded
by the first of them, and if the table is ordered, none of the others looks at more bits than that one.
Where none applies, the two bytes are no instruction, of size one. That they are no instruction exactly
where none applies is so just if the first rule that applies, where there is one, does make an instruction
of them. -/
theorem most_specific_wins (table : DecodeTable) :
    (table.isPriorityOrdered = true ↔
      ∀ (i j : Nat) (earlier later : Opcode), i < j → table.opcodes[i]? = some earlier →
        table.opcodes[j]? = some later → later.specificity ≤ earlier.specificity) ∧
    ∀ raw next : UInt8,
      ((∃ rule ∈ table.opcodes, rule.applies raw = true) →
        ∃ k rule, First table.opcodes raw k rule ∧ table.decode raw next = rule.decode raw next ∧
          (table.isPriorityOrdered = true → ∀ other ∈ table.opcodes, other.applies raw = true →
            other.specificity ≤ rule.specificity)) ∧
      ((∀ rule ∈ table.opcodes, rule.applies raw = false) →
        table.decode raw next = .unknown raw next ∧ (table.decode raw next).size = 1) ∧
      (((table.decode raw next).op = .unknown ↔
          ∀ rule ∈ table.opcodes, rule.applies raw = false) ↔
        ∀ k rule, First table.opcodes raw k rule → rule.meaning raw next ≠ .unknown) := by
  have hordered : table.isPriorityOrdered = true ↔ Descending table.opcodes := isOrderedList_iff
  refine ⟨hordered.trans descending_iff, fun raw next => ⟨?applies, ?none, ?unknown⟩⟩
  case applies =>
    rintro ⟨rule, hrule, happlies⟩
    obtain ⟨k, first, hfirst⟩ := exists_first hrule happlies
    refine ⟨k, first, hfirst, decode_of_first hfirst, fun h other hother happlies => ?_⟩
    exact hfirst.le_specificity (hordered.mp h) hother happlies
  case none =>
    intro hnone
    rw [decode_of_none hnone]
    exact ⟨rfl, rfl⟩
  case unknown =>
    refine ⟨fun h k rule hfirst hunknown => ?_, op_decode_eq_unknown_iff⟩
    have hop : (table.decode raw next).op = .unknown := by
      rw [decode_of_first hfirst]
      exact hunknown
    have hfalse := h.mp hop rule (List.mem_of_getElem? hfirst.place)
    cases hfirst.applies.symm.trans hfalse

/-- A rule for one byte stands in front of one for a quarter of all bytes, so it wins that byte. -/
theorem most_specific_wins_narrow :
    let narrow : Opcode := ⟨"NARROW", 0xFF, 0xC5, 1, fun _ _ => .halt⟩
    let wide : Opcode := ⟨"WIDE", 0xC0, 0xC0, 1, fun _ _ => .nop⟩
    let table : DecodeTable := ⟨"overlap", [narrow, wide]⟩
    table.isPriorityOrdered = true ∧ wide.applies 0xC5 = true ∧
      ∃ k rule, First table.opcodes 0xC5 k rule ∧ table.decode 0xC5 0 = rule.decode 0xC5 0 ∧
        wide.specificity ≤ rule.specificity := by
  intro narrow wide table
  have hordered : table.isPriorityOrdered = true := by decide
  have hwide : wide.applies 0xC5 = true := by decide
  have hmem : wide ∈ table.opcodes := .tail _ (.head _)
  obtain ⟨k, rule, hfirst, hdecode, hmost⟩ :=
    ((most_specific_wins table).2 0xC5 0).1 ⟨wide, hmem, hwide⟩
  exact ⟨hordered, hwide, k, rule, hfirst, hdecode, hmost hordered wide hmem hwide⟩

/-- A rule applies to the byte 1, in an ordered table, and the byte is no instruction all the same, as
this is what the rule makes of it. -/
theorem known_byte_is_unknown :
    let blank : Opcode := ⟨"Unknown", 0xFF, 0x01, 1, fun _ _ => .unknown⟩
    let table : DecodeTable := ⟨"blank", [blank]⟩
    table.isPriorityOrdered = true ∧ table.decode 0x01 0 = .unknown 0x01 0 ∧
      ¬ ((table.decode 0x01 0).op = .unknown ↔
        ∀ rule ∈ table.opcodes, rule.applies 0x01 = false) := by
  intro blank table
  have happlies : blank.applies 0x01 = true := by decide
  have hfirst : First table.opcodes 0x01 0 blank := ⟨rfl, happlies, nofun⟩
  have hdecode : table.decode 0x01 0 = .unknown 0x01 0 := decode_of_first hfirst
  refine ⟨by decide, hdecode, fun h => ?_⟩
  have hnone : blank.applies 0x01 = false := h.mp (by rw [hdecode]; rfl) blank (.head _)
  cases happlies.symm.trans hnone

end DecodeTable

/-! ## The two instruction sets -/

namespace Isa

theorem meaning_ne_unknown (isa : Isa) :
    ∀ rule ∈ isa.table.opcodes, ∀ raw next, rule.meaning raw next ≠ .unknown := by
  cases isa with
  | cdc8512 => simp [table, Cdc8512.table, Cdc8512.jump, Cdc8512.onRegister, Cdc8512.withByte,
      Cdc8512.onData]
  | cdc6504 => simp [table, Cdc6504.table, Cdc6504.implied, Cdc6504.withByte, Cdc6504.onValue,
      Cdc6504.onMemory, Cdc6504.storing, Cdc6504.branch]

/-- Bytes are no instruction exactly if no rule of the instruction set applies to the first of them. -/
theorem op_decode_eq_unknown_iff (isa : Isa) (raw next : UInt8) :
    (isa.decode raw next).op = .unknown ↔
      ∀ rule ∈ isa.table.opcodes, rule.applies raw = false := by
  apply DecodeTable.op_decode_eq_unknown_iff
  intro k rule hfirst
  exact isa.meaning_ne_unknown rule (List.mem_of_getElem? hfirst.place) raw next

end Isa

end Octet
