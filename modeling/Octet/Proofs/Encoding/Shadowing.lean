import Mathlib.Data.List.Forall2
import Octet.Isa
import Octet.Proofs.Encoding.Overlaps

/-!
# Which rules share a byte

Two rules overlap if their patterns agree on the bits that both look at. If neither pattern has bits outside
its mask (`Opcode.InMask`), both patterns together are a byte that both rules apply to, so that rules which
overlap are rules which share a byte (`Opcode.overlaps_iff_exists`).

`DecodeTable.shadowed` lists rules, and a table may hold the same rule at many places. `placesAfter` lists the
places in the same order, each pair once (`pairwise_placesAfter`), and the rules that stand there are the
ones that are listed (`forall₂_shadowedAfter`).

The main statement is `DecodeTable.shadowed_lists_places`.
-/

namespace Octet

namespace Opcode

variable {a b : Opcode} {raw : UInt8}

/-- The pattern has no bits but those that are looked at. -/
def InMask (rule : Opcode) : Prop :=
  rule.pattern &&& rule.mask = rule.pattern

instance (rule : Opcode) : Decidable rule.InMask :=
  inferInstanceAs (Decidable (_ = _))

theorem overlaps_comm (a b : Opcode) : a.overlaps b = b.overlaps a := by
  rw [overlaps, overlaps, UInt8.and_comm b.mask, Bool.beq_comm]

/-- A rule applies to its own pattern and that of a rule which it overlaps with, taken together. -/
theorem applies_or (ha : a.InMask) (hb : b.InMask) (h : a.overlaps b = true) :
    a.applies (a.pattern ||| b.pattern) = true := by
  have hcommon : a.pattern &&& (a.mask &&& b.mask) = b.pattern &&& (a.mask &&& b.mask) := beq_iff_eq.mp h
  rw [applies_iff]
  rw [InMask] at ha hb
  simp only [← UInt8.toNat_inj, UInt8.toNat_and, UInt8.toNat_or] at ha hb hcommon ⊢
  apply Nat.eq_of_testBit_eq
  intro i
  -- A bit of the other pattern that is looked at is one of this pattern, too.
  have ha := congrArg (·.testBit i) ha
  have hb := congrArg (·.testBit i) hb
  have hcommon := congrArg (·.testBit i) hcommon
  simp only [Nat.testBit_and, Nat.testBit_or] at ha hb hcommon ⊢
  grind

/-- Rules overlap exactly if there is a byte to which both apply. -/
theorem overlaps_iff_exists (ha : a.InMask) (hb : b.InMask) :
    a.overlaps b = true ↔ ∃ raw, a.applies raw = true ∧ b.applies raw = true := by
  constructor
  · intro h
    refine ⟨a.pattern ||| b.pattern, applies_or ha hb h, ?_⟩
    rw [UInt8.or_comm]
    exact applies_or hb ha (overlaps_comm a b ▸ h)
  · rintro ⟨raw, hraw, hraw'⟩
    exact overlaps_of_applies hraw hraw'

end Opcode

/-- The rules of both instruction sets look at all the bits of their patterns. -/
theorem Isa.inMask_opcodes (isa : Isa) : ∀ rule ∈ isa.table.opcodes, rule.InMask := by
  cases isa <;> decide

namespace DecodeTable

variable {before rest : List Opcode} {rule : Opcode} {i j : Nat}

/-! ## Places of rules that overlap -/

/-- The places of the rules that overlap with one behind them. -/
def placesOf (before : List Opcode) (rule : Opcode) : List Nat :=
  (before.zipIdx.filter (·.1.overlaps rule)).map (·.2)

/-- The pairs of places of overlapping rules, given that `before` come before the rest. -/
def placesAfter (before : List Opcode) : List Opcode → List (Nat × Nat)
  | [] => []
  | rule :: rest =>
    (placesOf before rule).map (·, before.length) ++ placesAfter (before ++ [rule]) rest

/-- One pair of places is listed before another: by the later place, then by the earlier one. -/
def Precedes (p q : Nat × Nat) : Prop :=
  p.2 < q.2 ∨ p.2 = q.2 ∧ p.1 < q.1

/-- Such rules stand at two places. -/
def StandAt (rules : List Opcode) (place : Nat × Nat) (pair : Opcode × Opcode) : Prop :=
  rules[place.1]? = some pair.1 ∧ rules[place.2]? = some pair.2

theorem mem_placesOf : i ∈ placesOf before rule ↔ ∃ a, before[i]? = some a ∧ a.overlaps rule = true := by
  simp [placesOf, List.mem_zipIdx_iff_getElem?]

theorem lt_of_mem_placesOf (h : i ∈ placesOf before rule) : i < before.length := by
  obtain ⟨a, ha, -⟩ := mem_placesOf.mp h
  exact (List.getElem?_eq_some_iff.mp ha).1

theorem pairwise_placesOf (before : List Opcode) (rule : Opcode) :
    (placesOf before rule).Pairwise (· < ·) := by
  have hall : (before.zipIdx.map (·.2)).Pairwise (· < ·) := by
    rw [List.zipIdx_map_snd]
    exact List.pairwise_lt_range'
  exact hall.sublist (List.filter_sublist.map _)

/-- The rules at these places are those that are listed. -/
theorem forall₂_placesOf (before : List Opcode) (rule : Opcode) :
    List.Forall₂ (fun i a => before[i]? = some a) (placesOf before rule)
      (before.filter (·.overlaps rule)) := by
  have hfilter : before.filter (·.overlaps rule) =
      (before.zipIdx.filter (·.1.overlaps rule)).map (·.1) := by
    conv_lhs => rw [← before.zipIdx_map_fst 0, List.filter_map]
    rfl
  rw [hfilter, placesOf, List.forall₂_map_left_iff, List.forall₂_map_right_iff, List.forall₂_same]
  intro entry hentry
  exact List.mem_zipIdx_iff_getElem?.mp (List.mem_of_mem_filter hentry)

/-- A rule is overlapped by those in front of it that it is listed with. -/
theorem mem_placesOf_iff_standAt :
    i ∈ placesOf before rule ↔ i < before.length ∧
      ∃ pair, StandAt (before ++ rule :: rest) (i, before.length) pair ∧
        pair.1.overlaps pair.2 = true := by
  constructor
  · intro hi
    have hlt := lt_of_mem_placesOf hi
    obtain ⟨a, ha, hoverlaps⟩ := mem_placesOf.mp hi
    refine ⟨hlt, (a, rule), ⟨?_, ?_⟩, hoverlaps⟩
    · rw [List.getElem?_append_left hlt, ha]
    · simp
  · rintro ⟨hlt, ⟨a, b⟩, ⟨ha, hb⟩, hoverlaps⟩
    obtain rfl : rule = b := by simpa using hb
    rw [List.getElem?_append_left hlt] at ha
    exact mem_placesOf.mpr ⟨a, ha, hoverlaps⟩

/-- All pairs of places of overlapping rules are listed, as far as the later place is in the rest. -/
theorem mem_placesAfter :
    (i, j) ∈ placesAfter before rest ↔ i < j ∧ before.length ≤ j ∧
      ∃ pair, StandAt (before ++ rest) (i, j) pair ∧ pair.1.overlaps pair.2 = true := by
  induction rest generalizing before with
  | nil =>
    refine iff_of_false List.not_mem_nil ?_
    rintro ⟨-, hle, pair, ⟨-, hlater⟩, -⟩
    have hlt := (List.getElem?_eq_some_iff.mp hlater).1
    rw [List.append_nil] at hlt
    exact Nat.not_lt_of_le hle hlt
  | cons rule rest ih =>
    rw [placesAfter, List.mem_append, ih, ← List.append_cons, List.length_append, List.length_singleton]
    constructor
    · rintro (hrow | ⟨hlt, hle, hpair⟩)
      · obtain ⟨_, hi, heq⟩ := List.mem_map.mp hrow
        obtain ⟨rfl, rfl⟩ := Prod.mk.inj heq
        obtain ⟨hlt, hpair⟩ := mem_placesOf_iff_standAt.mp hi
        exact ⟨hlt, Nat.le_refl _, hpair⟩
      · exact ⟨hlt, Nat.le_of_succ_le hle, hpair⟩
    · rintro ⟨hlt, hle, hpair⟩
      -- the later place is that of the first of the rest, or behind it
      rcases Nat.eq_or_lt_of_le hle with rfl | hbehind
      · exact .inl (List.mem_map.mpr ⟨i, mem_placesOf_iff_standAt.mpr ⟨hlt, hpair⟩, rfl⟩)
      · exact .inr ⟨hlt, hbehind, hpair⟩

theorem pairwise_placesAfter (before rest : List Opcode) :
    (placesAfter before rest).Pairwise Precedes := by
  induction rest generalizing before with
  | nil => exact .nil
  | cons rule rest ih =>
    refine List.pairwise_append.mpr ⟨?_, ih _, ?_⟩
    · exact (pairwise_placesOf before rule).map _ fun _ _ hlt => .inr ⟨rfl, hlt⟩
    · rintro p hp ⟨i, j⟩ hq
      obtain ⟨_, _, rfl⟩ := List.mem_map.mp hp
      have hlater := (mem_placesAfter.mp hq).2.1
      rw [List.length_append, List.length_singleton] at hlater
      exact .inl hlater

theorem forall₂_shadowedAfter (before rest : List Opcode) :
    List.Forall₂ (StandAt (before ++ rest)) (placesAfter before rest) (shadowedAfter before rest) := by
  induction rest generalizing before with
  | nil => exact .nil
  | cons rule rest ih =>
    have hrest := ih (before ++ [rule])
    rw [← List.append_cons] at hrest
    refine List.rel_append ?_ hrest
    rw [List.forall₂_map_left_iff, List.forall₂_map_right_iff]
    refine (forall₂_placesOf before rule).imp fun i earlier hi => ⟨?_, ?_⟩
    · rw [List.getElem?_append_left (List.getElem?_eq_some_iff.mp hi).1, hi]
    · simp

/-- Two places of a list hold rules that apply to the same byte, one behind the other. -/
def ShareByte (rules : List Opcode) (i j : Nat) : Prop :=
  i < j ∧ ∃ (a b : Opcode) (raw : UInt8), rules[i]? = some a ∧ rules[j]? = some b ∧
    a.applies raw = true ∧ b.applies raw = true

/-- **What is shadowed.** Let no rule of a table have pattern bits outside its mask, as it is for both
instruction sets. Then the pairs of rules that are listed stand at pairs of places, an earlier one with a
later one, and these are all the pairs of places whose rules apply to some byte in common: ordered by the
later place, then by the earlier one, and so each of them once. -/
theorem shadowed_lists_places :
    (∀ isa : Isa, ∀ rule ∈ isa.table.opcodes, rule.InMask) ∧
      ∀ table : DecodeTable, (∀ rule ∈ table.opcodes, rule.InMask) →
        ∃ places : List (Nat × Nat),
          List.Forall₂ (StandAt table.opcodes) places table.shadowed ∧
          (∀ i j, (i, j) ∈ places ↔ ShareByte table.opcodes i j) ∧
          places.Pairwise Precedes := by
  refine ⟨Isa.inMask_opcodes, fun table hrules => ?_⟩
  refine ⟨placesAfter [] table.opcodes, forall₂_shadowedAfter [] table.opcodes, fun i j => ?_,
    pairwise_placesAfter [] table.opcodes⟩
  rw [mem_placesAfter, List.nil_append, ShareByte]
  refine and_congr_right fun _ => ⟨?_, ?_⟩
  · rintro ⟨-, ⟨a, b⟩, ⟨ha, hb⟩, hoverlaps⟩
    have hamask := hrules a (List.mem_of_getElem? ha)
    have hbmask := hrules b (List.mem_of_getElem? hb)
    obtain ⟨raw, hraw, hraw'⟩ := (Opcode.overlaps_iff_exists hamask hbmask).mp hoverlaps
    exact ⟨a, b, raw, ha, hb, hraw, hraw'⟩
  · rintro ⟨a, b, raw, ha, hb, hraw, hraw'⟩
    exact ⟨Nat.zero_le j, (a, b), ⟨ha, hb⟩, Opcode.overlaps_of_applies hraw hraw'⟩

/-- A rule that stands in front of another one and behind it is listed with that one twice, and once with
itself. -/
theorem shadowed_lists_places_repeated :
    let wide : Opcode := ⟨"WIDE", 0xC0, 0xC0, 1, fun _ _ => .nop⟩
    let narrow : Opcode := ⟨"NARROW", 0xFF, 0xC5, 1, fun _ _ => .halt⟩
    let table : DecodeTable := ⟨"overlap", [wide, narrow, wide]⟩
    (∀ rule ∈ table.opcodes, rule.InMask) ∧ ∃ places : List (Nat × Nat),
      List.Forall₂ (StandAt table.opcodes) places table.shadowed ∧ places.length = 3 ∧
        (0, 2) ∈ places := by
  intro wide narrow table
  have hrules : ∀ rule ∈ table.opcodes, rule.InMask := by decide
  obtain ⟨places, hlisted, hplaces, -⟩ := shadowed_lists_places.2 table hrules
  have hlength : places.length = 3 := hlisted.length_eq.trans (by decide)
  have hshare : ShareByte table.opcodes 0 2 :=
    ⟨by decide, wide, wide, 0xC0, rfl, rfl, by decide, by decide⟩
  exact ⟨hrules, places, hlisted, hlength, (hplaces 0 2).mpr hshare⟩

end DecodeTable

end Octet
