import Octet.Proofs.Json.Shape
import Octet.Snapshot

/-!
# A snapshot is read as it was written

Every part of a snapshot makes a round trip: flags, registers, faults, run states, and the snapshot itself.
So both texts of a snapshot are read as the snapshot: `text_round_trip`.
-/

namespace Octet.Snapshot

open Json

/-! ## Flags and registers -/

theorem roundTrip_isa : RoundTrip (fun isa : Isa => .name isa.name) Config.isaOfJson? where
  exact isa := exact_name (by cases isa <;> decide)
  read isa := by
    refine choice?_name (by decide) (List.mem_map.mpr ⟨isa, ?_, rfl⟩)
    cases isa <;> decide

theorem roundTrip_order : RoundTrip (fun order => .name (Flags.orderName order)) orderOfJson? where
  exact order := exact_name (by cases order <;> decide)
  read order := by
    refine choice?_name (by decide) (List.mem_map.mpr ⟨order, ?_, rfl⟩)
    cases order <;> decide

theorem roundTrip_flags : RoundTrip flagsToJson flagsOfJson? where
  exact flags := by
    cases flags with
    | comparison order => exact exact_tagged (by decide) (roundTrip_order.exact order)
    | status zero negative carry =>
      refine exact_tagged (by decide) (exact_record ["zero", "negative", "carry"] rfl (by decide) ?_)
      simp [roundTrip_bool.exact]
  read flags := by
    cases flags with
    | comparison order =>
      simp only [flagsToJson, flagsOfJson?, alternative?_tagged, if_true]
      rw [roundTrip_order.read order]
      rfl
    | status zero negative carry =>
      have hne : "Status".toList ≠ "Comparison".toList := by decide
      have hfields : (Json.record
          [("zero", .bool zero), ("negative", .bool negative), ("carry", .bool carry)]).fields?
            ["zero", "negative", "carry"] =
          some [some (.bool zero), some (.bool negative), some (.bool carry)] :=
        fields?_record rfl (by decide)
      simp only [flagsToJson, flagsOfJson?, alternative?_tagged, if_neg hne, if_true, statusOfJson?,
        hfields, roundTrip_bool.read]
      rfl

theorem roundTrip_registers : RoundTrip registersToJson registersOfJson? where
  exact registers := by
    refine exact_record ["pc", "regs", "flags"] rfl (by decide) ?_
    simp [roundTrip_byte.exact, roundTrip_bytes.exact, roundTrip_flags.exact]
  read registers := by
    have hfields : (registersToJson registers).fields? ["pc", "regs", "flags"] =
        some [some (.byte registers.pc), some (.bytes registers.file.toList),
          some (flagsToJson registers.flags)] := fields?_record rfl (by decide)
    simp only [registersOfJson?, hfields, roundTrip_byte.read, roundTrip_bytes.read, Option.bind_some,
      RegisterFile.ofList?_toList, roundTrip_flags.read, bind]
    rfl

/-! ## Faults and run states -/

theorem roundTrip_fault : RoundTrip faultToJson faultOfJson? where
  exact fault := by
    cases fault with
    | invalidOpcode pc opcode =>
      refine exact_tagged (by decide) (exact_record ["pc", "opcode"] rfl (by decide) ?_)
      simp [roundTrip_byte.exact]
    | addressOutOfRange pc register value =>
      refine exact_tagged (by decide) (exact_record ["pc", "register", "value"] rfl (by decide) ?_)
      simp [roundTrip_byte.exact]
  read fault := by
    cases fault with
    | invalidOpcode pc opcode =>
      have hfields : (Json.record [("pc", .byte pc), ("opcode", .byte opcode)]).fields?
          ["pc", "opcode"] = some [some (.byte pc), some (.byte opcode)] :=
        fields?_record rfl (by decide)
      simp only [faultToJson, faultOfJson?, alternative?_tagged, if_true, hfields, roundTrip_byte.read]
      rfl
    | addressOutOfRange pc register value =>
      have hne : "AddressOutOfRange".toList ≠ "InvalidOpcode".toList := by decide
      have hfields : (Json.record
          [("pc", .byte pc), ("register", .byte register), ("value", .byte value)]).fields?
            ["pc", "register", "value"] =
          some [some (.byte pc), some (.byte register), some (.byte value)] :=
        fields?_record rfl (by decide)
      simp only [faultToJson, faultOfJson?, alternative?_tagged, if_neg hne, if_true, hfields,
        roundTrip_byte.read]
      rfl

theorem roundTrip_state : RoundTrip stateToJson stateOfJson? where
  exact state := by
    cases state with
    | running => exact exact_name (by decide)
    | halted => exact exact_name (by decide)
    | errored fault => exact exact_tagged (by decide) (roundTrip_fault.exact fault)
  read state := by
    cases state with
    | running =>
      have hne : "Running".toList ≠ "Errored".toList := by decide
      simp only [stateToJson, stateOfJson?, alternative?_name, if_neg hne]
      exact choice?_name (by decide) (.head _)
    | halted =>
      have hne : "Halted".toList ≠ "Errored".toList := by decide
      simp only [stateToJson, stateOfJson?, alternative?_name, if_neg hne]
      exact choice?_name (by decide) (.tail _ (.head _))
    | errored fault =>
      simp only [stateToJson, stateOfJson?, alternative?_tagged, if_true, Option.bind_some,
        roundTrip_fault.read, Option.map_some]

/-! ## Snapshots -/

theorem roundTrip_snapshot : RoundTrip toJson ofJson? where
  exact s := by
    refine exact_record ["isa", "registers", "state", "instructions", "data"] rfl (by decide) ?_
    simp [roundTrip_isa.exact, roundTrip_registers.exact, roundTrip_state.exact,
      roundTrip_bytes.exact]
  read s := by
    have hfields : s.toJson.fields? ["isa", "registers", "state", "instructions", "data"] =
        some [some (.name s.isa.name), some (registersToJson s.registers),
          some (stateToJson s.state), some (.bytes s.instructions), some (.bytes s.data)] :=
      fields?_record rfl (by decide)
    have hisa : Config.isaOfJson? (.name s.isa.name) = some s.isa := roundTrip_isa.read s.isa
    simp only [ofJson?, hfields, hisa, roundTrip_registers.read, roundTrip_state.read,
      roundTrip_bytes.read]
    rfl

/-- **A snapshot is read as it was written.** Whatever the instruction set, the registers, the flags, the
run state and the memories of a snapshot are, and however long the memories are, the text of the snapshot
on one line is read as the snapshot, and so is its text with every item on a line of its own. -/
theorem text_round_trip (s : Snapshot) : ofText? s.render = some s ∧ ofText? s.renderPretty = some s :=
  ⟨roundTrip_snapshot.text s, roundTrip_snapshot.textPretty s⟩

end Octet.Snapshot
