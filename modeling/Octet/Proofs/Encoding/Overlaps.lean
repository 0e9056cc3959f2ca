import Octet.Cdc8512.Opcodes

/-!
# Rules that overlap

Two rules overlap if they ask for the same values of the bits that both look at. Whatever byte both of
them apply to tells these values, so that rules which do not overlap apply to no byte in common
(`Opcode.overlaps_of_applies`). This needs nothing of the rules: where a pattern has bits outside its
mask, the rule applies to nothing.

A table without overlapping rules has at most one rule for each byte, and the first one that applies is
the only one. So its rules may stand in any order: `DecodeTable.decode_of_perm`.
-/

namespace Octet

namespace Opcode

variable {a b : Opcode} {raw : UInt8}

theorem applies_iff : a.applies raw = true ↔ raw &&& a.mask = a.pattern :=
  beq_iff_eq

/-- Of the bits that a rule looks at, any selection has in its pattern the values that it has in a byte
to which the rule applies. -/
theorem pattern_and (h : a.applies raw = true) (bits : UInt8) :
    a.pattern &&& (a.mask &&& bits) = raw &&& (a.mask &&& bits) := by
  rw [← applies_iff.mp h, UInt8.and_assoc, ← UInt8.and_assoc a.mask, UInt8.and_self]

/-- Rules that apply to the same byte overlap. -/
theorem overlaps_of_applies (ha : a.applies raw = true) (hb : b.applies raw = true) :
    a.overlaps b = true := by
  have hleft : a.pattern &&& (a.mask &&& b.mask) = raw &&& (a.mask &&& b.mask) := pattern_and ha b.mask
  have hright : b.pattern &&& (a.mask &&& b.mask) = raw &&& (a.mask &&& b.mask) := by
    rw [UInt8.and_comm a.mask]
    exact pattern_and hb a.mask
  apply beq_iff_eq.mpr
  rw [hleft, hright]

end Opcode

namespace DecodeTable

variable {before rest rules rules' : List Opcode} {raw : UInt8}

/-! ## Tables without overlapping rules -/

/-- Neither of two rules in a list overlaps with the other. -/
def Disjoint (rules : List Opcode) : Prop :=
  rules.Pairwise fun earlier later => earlier.overlaps later = false

theorem disjoint_snoc {rule : Opcode} :
    Disjoint (rules ++ [rule]) ↔ Disjoint rules ∧ rules.filter (·.overlaps rule) = [] := by
  simp [Disjoint, List.pairwise_append]

/-- Going on behind rules of which no two overlap lists nothing exactly if all of them together are
such rules. -/
theorem disjoint_append :
    Disjoint (before ++ rest) ↔ Disjoint before ∧ shadowedAfter before rest = [] := by
  induction rest generalizing before with
  | nil => simp [shadowedAfter]
  | cons rule rest ih =>
    rw [List.append_cons, ih, disjoint_snoc, shadowedAfter, List.append_eq_nil_iff,
      List.map_eq_nil_iff, and_assoc]

theorem shadowed_eq_nil_iff (table : DecodeTable) :
    table.shadowed = [] ↔ Disjoint table.opcodes := by
  have hall : Disjoint ([] ++ table.opcodes) ↔ Disjoint [] ∧ shadowedAfter [] table.opcodes = [] :=
    disjoint_append
  rw [List.nil_append, and_iff_right (show Disjoint [] from .nil)] at hall
  exact hall.symm

/-- At most one of the rules applies to a byte. -/
theorem Disjoint.length_filter_le (h : Disjoint rules) (raw : UInt8) :
    (rules.filter (·.applies raw)).length ≤ 1 := by
  have hapart : Disjoint (rules.filter (·.applies raw)) := h.filter _
  have happlies : ∀ rule ∈ rules.filter (·.applies raw), rule.applies raw = true := by
    intro rule hrule
    exact (List.mem_filter.mp hrule).2
  generalize rules.filter (·.applies raw) = found at hapart happlies ⊢
  rcases found with _ | ⟨first, _ | ⟨second, others⟩⟩
  · exact Nat.zero_le 1
  · exact Nat.le_refl 1
  · -- the byte tells that the first two overlap
    have hfirst : first.applies raw = true := happlies first (by simp)
    have hsecond : second.applies raw = true := happlies second (by simp)
    have hoverlap : first.overlaps second = true := Opcode.overlaps_of_applies hfirst hsecond
    have hnot : first.overlaps second = false :=
      (List.pairwise_cons.mp hapart).1 second List.mem_cons_self
    rw [hoverlap] at hnot
    cases hnot

/-- The rules that apply to a byte are the same in any order, since there is one at most. -/
theorem Disjoint.filter_eq_of_perm (h : Disjoint rules) (hperm : rules'.Perm rules) (raw : UInt8) :
    rules'.filter (·.applies raw) = rules.filter (·.applies raw) := by
  have hfilter : (rules'.filter (·.applies raw)).Perm (rules.filter (·.applies raw)) :=
    hperm.filter _
  have hle := h.length_filter_le raw
  generalize rules.filter (·.applies raw) = found at hfilter hle ⊢
  rcases found with _ | ⟨rule, _ | ⟨_, _⟩⟩
  · exact hfilter.eq_nil
  · exact hfilter.eq_singleton
  · simp at hle

/-- **The order of rules.** If no two rules of a table overlap, then a table of the same rules in any
other order decodes all bytes to the same instructions. -/
theorem decode_of_perm (table table' : DecodeTable) (h : table.shadowed = [])
    (hperm : table'.opcodes.Perm table.opcodes) (raw next : UInt8) :
    table'.decode raw next = table.decode raw next := by
  have hdisjoint : Disjoint table.opcodes := table.shadowed_eq_nil_iff.mp h
  have hfind : table'.opcodes.find? (·.applies raw) = table.opcodes.find? (·.applies raw) := by
    rw [← List.head?_filter, ← List.head?_filter, hdisjoint.filter_eq_of_perm hperm raw]
  unfold decode
  rw [hfind]

/-- The rules of the CDC8512 do not overlap, so they may be tried from the last one on. -/
theorem decode_of_perm_reversed :
    let table := Cdc8512.table
    let reversed : DecodeTable := { table with opcodes := table.opcodes.reverse }
    table.shadowed = [] ∧ reversed.opcodes.Perm table.opcodes ∧
      ∀ raw next, reversed.decode raw next = table.decode raw next := by
  intro table reversed
  have hshadowed : table.shadowed = [] := by rfl
  have hperm : reversed.opcodes.Perm table.opcodes := table.opcodes.reverse_perm
  exact ⟨hshadowed, hperm, decode_of_perm table reversed hshadowed hperm⟩

end DecodeTable

end Octet
