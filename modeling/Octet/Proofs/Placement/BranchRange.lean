import Octet.Proofs.Placement.Diagnostics

/-!
# How far branches reach

A branch says how far its target is from its end, in a signed byte. For a label the distance is counted
to the address in the label table. This is the number of instruction bytes in front of the label, as long
as there are fewer than 256. A label behind the last byte of a full memory has the address 0, so that the
branches that can reach it are those at the start of the program.

The main statement is `branch_refused_iff`.
-/

namespace Octet

/-- The distances that fit in a signed byte. -/
def InReach (offset : Int) : Prop := -128 ≤ offset ∧ offset ≤ 127

instance (offset : Int) : Decidable (InReach offset) :=
  inferInstanceAs (Decidable (-128 ≤ offset ∧ offset ≤ 127))

open Assembly

namespace Cdc6504

variable {name : String} {opcode : UInt8} {token : Token} {target : UInt8}

/-- A branch to a label can be encoded exactly if the address of the label is in reach. -/
theorem failure?_encode_branch (ctx : Context) (hbranch : (name, .relative opcode) ∈ vocabulary)
    (htarget : ctx.labels.address? token = some target) :
    failure? (encode ctx name.toList [token]) =
      if InReach (target.toNat - (ctx.address.toNat + 2)) then none
      else some (.branchTooFar (target.toNat - (ctx.address.toNat + 2))) := by
  have hform : vocabulary.form? name.toList = some (.relative opcode) :=
    Vocabulary.form?_of_mem (by decide) hbranch
  have hcode : encode ctx name.toList [token] =
      (do let distance ← ctx.displacement target 2; return .two opcode distance) := by
    simp only [encode, hform, Form.encode, Context.target, htarget]
    rfl
  rw [hcode]
  by_cases hreach : InReach (target.toNat - (ctx.address.toNat + 2))
  · have hok : ctx.displacement target 2 = .ok _ := if_pos hreach
    rw [hok, if_pos hreach]
    rfl
  · have herror : ctx.displacement target 2 = .error _ := if_neg hreach
    rw [herror, if_neg hreach]
    rfl

theorem size_of_branch (hbranch : (name, .relative opcode) ∈ vocabulary) :
    Isa.cdc6504.size? name.toList = some 2 := by
  apply Isa.size?_of_mem
  exact List.mem_map_of_mem (f := fun entry => (entry.1, entry.2.size)) hbranch

end Cdc6504

namespace Assembly

variable {source : String} {labels : LabelTable} {before after before' after' : List Line}
  {line line' : Line} {name : String} {opcode : UInt8} {label : Token}

/-- What is wrong with a branch to a label that `goal` instruction bytes stand in front of. -/
theorem flaw?_of_branch {ls : List Line} {goal : Nat} (hplace : Placeable .cdc6504 ls)
    (hline : ls = before ++ line :: after) (hmnemonic : line.instruction? before = some name.toList)
    (hbranch : (name, .relative opcode) ∈ Cdc6504.vocabulary)
    (hoperand : tokens line.operands = [label])
    (hlabel : (labelTable .cdc6504 ls).address? label = some (UInt8.ofNat goal)) :
    let offset : Int := (goal % 256 : Nat) - (extent .cdc6504 before + 2)
    line.flaw? .cdc6504 (labelTable .cdc6504 ls) before =
      if InReach offset then none else some (.branchTooFar offset) := by
  -- there is room for the branch, so its address is below 256
  have hroom : extent .cdc6504 before + 2 ≤ 256 := by
    rw [hline, List.append_cons] at hplace
    obtain ⟨size, hsize, hfits⟩ := hplace.of_append.follows.instruction _ hmnemonic
    obtain rfl := Option.some.inj ((Cdc6504.size_of_branch hbranch).symm.trans hsize)
    exact hfits
  have haddress : (UInt8.ofNat (extent .cdc6504 before)).toNat = extent .cdc6504 before := by
    rw [UInt8.toNat_ofNat']
    omega
  have hencode := Cdc6504.failure?_encode_branch
    { address := UInt8.ofNat (extent .cdc6504 before), labels := labelTable .cdc6504 ls } hbranch hlabel
  rw [haddress, UInt8.toNat_ofNat'] at hencode
  intro offset
  rw [Line.flaw?_of_some hmnemonic, hoperand]
  exact hencode

/-- **Branches to labels.** Take a text whose labels can be placed, and in it a branch to a label. As long
as fewer than 256 instruction bytes stand in front of the label, the text is refused for this branch
exactly if the distance from the end of the branch to the label does not fit in a signed byte. A label
behind 256 bytes is taken to be at address 0, and the text is refused exactly if the branch is too far
behind this address. -/
theorem branch_refused_iff
    (hlabels : collectLabels .cdc6504 (lines Isa.cdc6504.commentMarks source.toList) = .ok labels)
    (hline : lines Isa.cdc6504.commentMarks source.toList = before ++ line :: after)
    (hmnemonic : line.instruction? before = some name.toList)
    (hbranch : (name, .relative opcode) ∈ Cdc6504.vocabulary)
    (hoperand : tokens line.operands = [label])
    (hdeclared : lines Isa.cdc6504.commentMarks source.toList = before' ++ line' :: after')
    (hlabel : line'.label = some label) :
    let address := extent .cdc6504 before
    let goal := extent .cdc6504 before'
    goal ≤ 256 ∧
      (goal < 256 → ∀ cause, Blames .cdc6504 source line cause ↔
        cause = .branchTooFar (goal - (address + 2)) ∧ ¬ InReach (goal - (address + 2))) ∧
      (goal = 256 → ∀ cause, Blames .cdc6504 source line cause ↔
        cause = .branchTooFar (0 - (address + 2)) ∧ 126 < address) := by
  intro address goal
  have hplace := placeable_of_collectLabels hlabels
  have hgoal : goal ≤ 256 := by
    rw [hdeclared] at hplace
    exact hplace.of_append.fits
  have hfound : (labelTable .cdc6504 (lines Isa.cdc6504.commentMarks source.toList)).address? label =
      some (UInt8.ofNat goal) :=
    (address?_labelTable hplace.labels_nodup).mpr ⟨before', line', after', hdeclared, hlabel, rfl⟩
  have hflaw := flaw?_of_branch hplace hline hmnemonic hbranch hoperand hfound
  have hblames : ∀ cause, Blames .cdc6504 source line cause ↔
      cause = .branchTooFar ((goal % 256 : Nat) - (address + 2)) ∧
        ¬ InReach ((goal % 256 : Nat) - (address + 2)) := by
    intro cause
    rw [blames_iff hplace hline, ← hline, hflaw, Option.ite_none_left_eq_some, Option.some.injEq,
      and_comm]
    exact and_congr_left' eq_comm
  refine ⟨hgoal, ?_, ?_⟩
  · intro hlt
    rwa [Nat.mod_eq_of_lt hlt] at hblames
  · intro hfull
    have hzero : goal % 256 = 0 := by omega
    have hreach : ¬ InReach (0 - (address + 2)) ↔ 126 < address := by
      unfold InReach
      omega
    rw [hzero] at hblames
    simpa only [Int.natCast_zero, hreach] using hblames

/-- `n` instructions of two bytes, a branch, `m` instructions of one byte, and the label that the branch
goes to. -/
def branchAhead (n m : Nat) : List Char :=
  (List.replicate n "LDA #0\n".toList).flatten ++ "BEQ end\n".toList ++
    (List.replicate m "INX\n".toList).flatten ++ "end:".toList

/-- The branch of `branchAhead`, on the line with this number. -/
def branchLine (number : Nat) : Line :=
  { number, label := none, mnemonic := some "BEQ".toList, operands := "end".toList }

/-- The label of `branchAhead`, on the line with this number. -/
def endLine (number : Nat) : Line :=
  { number, label := some "end".toList, mnemonic := none, operands := [] }

/-- These are the lines of `branchAhead n m`. The branch stands behind `2 * n` bytes, and the label behind
its own two bytes and `m` more. -/
abbrev BranchesAhead (n m : Nat) (ls : List Line) : Prop :=
  collectLabels .cdc6504 ls = .ok [("end".toList, UInt8.ofNat (2 * n + 2 + m))] ∧
    ls = ls.take n ++ branchLine (n + 1) :: ls.drop (n + 1) ∧
    ls = ls.take (n + 1 + m) ++ endLine (n + m + 2) :: [] ∧
    (branchLine (n + 1)).instruction? (ls.take n) = some "BEQ".toList ∧
    extent .cdc6504 (ls.take n) = 2 * n ∧ extent .cdc6504 (ls.take (n + 1 + m)) = 2 * n + 2 + m

/-- A branch goes 127 bytes ahead, and not 128. -/
theorem branch_refused_iff_limit :
    (∀ cause, ¬ Blames .cdc6504 (String.ofList (branchAhead 0 127)) (branchLine 1) cause) ∧
      ∀ cause, Blames .cdc6504 (String.ofList (branchAhead 0 128)) (branchLine 1) cause ↔
        cause = .branchTooFar 128 := by
  have hbranch : ("BEQ", .relative 0xF0) ∈ Cdc6504.vocabulary := by decide
  have hoperand (number : Nat) : tokens (branchLine number).operands = ["end".toList] := rfl
  constructor
  · have hlines : BranchesAhead 0 127 (lines Isa.cdc6504.commentMarks (branchAhead 0 127)) := by
      decide +kernel
    rw [← String.toList_ofList (l := branchAhead 0 127)] at hlines
    obtain ⟨hlabels, hline, hdeclared, hinstruction, haddress, hgoal⟩ := hlines
    obtain ⟨_, hrefused, _⟩ :=
      branch_refused_iff hlabels hline hinstruction hbranch (hoperand 1) hdeclared rfl
    rw [haddress, hgoal] at hrefused
    intro cause hblames
    exact ((hrefused (by decide) cause).mp hblames).2 (by decide)
  · have hlines : BranchesAhead 0 128 (lines Isa.cdc6504.commentMarks (branchAhead 0 128)) := by
      decide +kernel
    rw [← String.toList_ofList (l := branchAhead 0 128)] at hlines
    obtain ⟨hlabels, hline, hdeclared, hinstruction, haddress, hgoal⟩ := hlines
    obtain ⟨_, hrefused, _⟩ :=
      branch_refused_iff hlabels hline hinstruction hbranch (hoperand 1) hdeclared rfl
    rw [haddress, hgoal] at hrefused
    intro cause
    rw [hrefused (by decide) cause]
    exact and_iff_left (by decide)

/-- A branch at address 254 to the label right behind it is refused, as the memory is full and the label
has the address 0. The distance to the label is 0, which is in reach. -/
theorem branch_to_end_refused :
    let ls := lines Isa.cdc6504.commentMarks (String.ofList (branchAhead 127 0)).toList
    BranchesAhead 127 0 ls ∧
      InReach (extent .cdc6504 (ls.take 128) - (extent .cdc6504 (ls.take 127) + 2)) ∧
      Blames .cdc6504 (String.ofList (branchAhead 127 0)) (branchLine 128) (.branchTooFar (-256)) := by
  intro ls
  have hlines : BranchesAhead 127 0 ls := by
    unfold ls
    rw [String.toList_ofList]
    decide +kernel
  obtain ⟨hlabels, hline, hdeclared, hinstruction, haddress, hgoal⟩ := hlines
  refine ⟨⟨hlabels, hline, hdeclared, hinstruction, haddress, hgoal⟩, ?_, ?_⟩
  · rw [haddress, hgoal]
    decide
  · have hplace := placeable_of_collectLabels hlabels
    have hfound : (labelTable .cdc6504 ls).address? "end".toList = some (UInt8.ofNat 256) :=
      (address?_labelTable hplace.labels_nodup).mpr ⟨_, _, _, hdeclared, rfl, by rw [hgoal]⟩
    have hbranch : ("BEQ", .relative 0xF0) ∈ Cdc6504.vocabulary := by decide
    have hflaw := flaw?_of_branch hplace hline hinstruction hbranch rfl hfound
    rw [blames_iff hplace hline, ← hline, hflaw, haddress]
    decide

end Assembly

end Octet
