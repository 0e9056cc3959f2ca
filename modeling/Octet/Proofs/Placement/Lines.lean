import Mathlib.Algebra.GroupWithZero.Nat
import Mathlib.Data.List.Induction
import Mathlib.Data.List.Nodup
import Mathlib.Data.List.TakeWhile
import Octet.Assembly.Placement

/-!
# The layout of lines

Where the bytes of a text belong, said of its lines as a whole and without going over them with a
counter.

* `instructionLines`, `dataLines` — the lines that become bytes of the one or the other memory.
* `extent` — the number of instruction bytes of a text. The instruction lines of a prefix are a
  prefix of the instruction lines (`instructionLines_append`), so `extent isa before` is also the
  address at which the line after `before` stands.
* `Line.instruction?` — the instruction that a line is, given the lines before it.
* `withBefore` — each line with all lines before it, which decide what becomes of it.
* `labelTable` — the labels with their addresses.
-/

namespace Octet.Assembly

/-! ## Lines that become bytes -/

/-- Whether a line holds data. -/
def Line.isData (line : Line) : Bool := line.mnemonic == some dataMnemonic

/-- Whether there is a data line among the lines. -/
def hasData (ls : List Line) : Bool := ls.any Line.isData

/-- The lines with instructions. They come before the first data line. -/
def instructionLines (ls : List Line) : List Line :=
  (ls.takeWhile fun line => !line.isData).filter fun line => line.mnemonic.isSome

/-- The data lines. -/
def dataLines (ls : List Line) : List Line := ls.filter Line.isData

/-- The mnemonic of a line, if the line is an instruction: if it holds no data, and none stand before
it. -/
def Line.instruction? (before : List Line) (line : Line) : Option Token :=
  if hasData before || line.isData then none else line.mnemonic

/-- The names that are declared as labels. -/
def labelNames (ls : List Line) : List Token := ls.filterMap (·.label)

/-- The number of instruction bytes that the mnemonic of a line stands for. -/
def Line.size (isa : Isa) (line : Line) : Nat :=
  match line.mnemonic.bind isa.size? with
  | some size => size.toNat
  | none => 0

/-- The number of instruction bytes of a text. -/
def extent (isa : Isa) (ls : List Line) : Nat :=
  ((instructionLines ls).map (Line.size isa)).sum

/-- Where the instruction line with this index starts: behind the ones before it. -/
def start (isa : Isa) (ls : List Line) (k : Nat) : Nat :=
  (((instructionLines ls).take k).map (Line.size isa)).sum

variable {isa : Isa} {ls ls' before : List Line} {line : Line}

@[simp]
theorem hasData_append : hasData (ls ++ ls') = (hasData ls || hasData ls') := by
  simp [hasData]

@[simp]
theorem hasData_singleton : hasData [line] = line.isData := by
  simp [hasData]

@[simp]
theorem labelNames_append : labelNames (ls ++ ls') = labelNames ls ++ labelNames ls' := by
  simp [labelNames]

theorem instructionLines_append :
    instructionLines (ls ++ ls') =
      instructionLines ls ++ if hasData ls then [] else instructionLines ls' := by
  -- a data line among the first lines cuts off all the others
  induction ls with
  | nil => simp [instructionLines, hasData]
  | cons line rest ih =>
    unfold instructionLines hasData at ih ⊢
    by_cases hdata : line.isData
    · simp [hdata]
    · by_cases hmnemonic : line.mnemonic.isSome <;> simp [hdata, hmnemonic, ih]

theorem of_mem_instructionLines (h : line ∈ instructionLines ls) :
    line.isData = false ∧ line.mnemonic.isSome := by
  obtain ⟨hmem, hmnemonic⟩ := List.mem_filter.mp h
  exact ⟨by simpa using List.mem_takeWhile_imp hmem, hmnemonic⟩

theorem instructionLines_eq_self (h : ∀ line ∈ ls, line.isData = false ∧ line.mnemonic.isSome) :
    instructionLines ls = ls := by
  have htake : (ls.takeWhile fun line => !line.isData) = ls :=
    List.takeWhile_eq_self_iff.mpr fun line hline => by simp [(h line hline).1]
  rw [instructionLines, htake, List.filter_eq_self.mpr fun line hline => (h line hline).2]

theorem Line.instruction?_eq_some_iff {mnemonic : Token} :
    line.instruction? before = some mnemonic ↔
      hasData before = false ∧ line.isData = false ∧ line.mnemonic = some mnemonic := by
  unfold instruction?
  cases hasData before <;> cases line.isData <;> simp

theorem instructionLines_snoc :
    instructionLines (before ++ [line]) =
      instructionLines before ++ if (line.instruction? before).isSome then [line] else [] := by
  rw [instructionLines_append]
  unfold Line.instruction? instructionLines
  cases hasData before <;> cases hdata : line.isData <;> cases hmnemonic : line.mnemonic <;>
    simp [hdata, hmnemonic]

theorem extent_snoc_of_some {mnemonic : Token} (h : line.instruction? before = some mnemonic) :
    extent isa (before ++ [line]) = extent isa before + line.size isa := by
  unfold extent
  rw [instructionLines_snoc, h]
  simp

theorem extent_snoc_of_none (h : line.instruction? before = none) :
    extent isa (before ++ [line]) = extent isa before := by
  unfold extent
  rw [instructionLines_snoc, h]
  simp

theorem extent_le_append : extent isa ls ≤ extent isa (ls ++ ls') := by
  unfold extent
  rw [instructionLines_append, List.map_append, List.sum_append]
  exact Nat.le_add_right _ _

theorem extent_nil : extent isa [] = 0 := rfl

/-- An instruction line has as many instruction lines before it as its index says. -/
theorem getElem?_instructionLines_iff {k : Nat} :
    (instructionLines ls)[k]? = some line ↔
      ∃ before after mnemonic, ls = before ++ line :: after ∧
        line.instruction? before = some mnemonic ∧ k = (instructionLines before).length := by
  constructor
  · intro h
    -- from the end on: the last line is the one in question, or it does not matter
    induction ls using List.reverseRecOn with
    | nil => simp [instructionLines] at h
    | append_singleton front last ih =>
      rw [instructionLines_snoc] at h
      by_cases hk : k < (instructionLines front).length
      · rw [List.getElem?_append_left hk] at h
        obtain ⟨before, after, mnemonic, rfl, hmnemonic, hlength⟩ := ih h
        exact ⟨before, after ++ [last], mnemonic, by simp, hmnemonic, hlength⟩
      · rw [List.getElem?_append_right (Nat.le_of_not_lt hk)] at h
        cases hmnemonic : last.instruction? front with
        | none => simp [hmnemonic] at h
        | some mnemonic =>
          rw [hmnemonic, Option.isSome_some, if_pos rfl, List.getElem?_singleton] at h
          split at h
          · next hzero =>
            obtain rfl := Option.some.inj h
            exact ⟨front, [], mnemonic, rfl, hmnemonic, by omega⟩
          · cases h
  · rintro ⟨before, after, mnemonic, rfl, hmnemonic, rfl⟩
    rw [show before ++ line :: after = before ++ [line] ++ after by simp, instructionLines_append,
      instructionLines_snoc, hmnemonic]
    simp

/-- The instruction line after `before` starts at the extent of `before`. -/
theorem start_length_instructionLines (ls ls' : List Line) :
    start isa (ls ++ ls') (instructionLines ls).length = extent isa ls := by
  unfold start extent
  rw [instructionLines_append, List.take_left]

theorem start_length : start isa ls (instructionLines ls).length = extent isa ls := by
  unfold start extent
  rw [List.take_length]

theorem start_succ {k : Nat} (h : (instructionLines ls)[k]? = some line) :
    start isa ls (k + 1) = start isa ls k + line.size isa := by
  unfold start
  rw [List.take_add_one, h]
  simp

theorem start_le_extent (k : Nat) : start isa ls k ≤ extent isa ls := by
  unfold start extent
  calc (((instructionLines ls).take k).map (Line.size isa)).sum
      ≤ (((instructionLines ls).take k).map (Line.size isa)).sum +
          (((instructionLines ls).drop k).map (Line.size isa)).sum := Nat.le_add_right _ _
    _ = ((instructionLines ls).map (Line.size isa)).sum := by
        rw [← List.sum_append, ← List.map_append, List.take_append_drop]

/-! ## Lines and the lines before them -/

/-- Each line with all lines before it. -/
def withBefore (before : List Line) : List Line → List (List Line × Line)
  | [] => []
  | line :: after => (before, line) :: withBefore (before ++ [line]) after

theorem withBefore_append :
    withBefore before (ls ++ ls') = withBefore before ls ++ withBefore (before ++ ls) ls' := by
  induction ls generalizing before with
  | nil => simp [withBefore]
  | cons line rest ih => simp [withBefore, ih]

theorem mem_withBefore {front : List Line} :
    (front, line) ∈ withBefore before ls ↔
      ∃ passed after, ls = passed ++ line :: after ∧ front = before ++ passed := by
  constructor
  · intro h
    induction ls generalizing before with
    | nil => cases h
    | cons first rest ih =>
      rcases List.mem_cons.mp h with h | h
      · obtain ⟨rfl, rfl⟩ := Prod.mk.inj h
        exact ⟨[], rest, rfl, (List.append_nil _).symm⟩
      · obtain ⟨passed, after, rfl, rfl⟩ := ih h
        exact ⟨first :: passed, after, rfl, by simp⟩
  · rintro ⟨passed, after, rfl, rfl⟩
    rw [withBefore_append]
    exact List.mem_append_right _ List.mem_cons_self

/-! ## Labels -/

/-- The label that a line declares, at the address behind the instructions before it. -/
def Line.declaration? (isa : Isa) (before : List Line) (line : Line) : Option (Token × UInt8) :=
  line.label.map fun name => (name, UInt8.ofNat (extent isa before))

/-- The labels of a text with their addresses. The one declared last stands first. -/
def labelTable (isa : Isa) (ls : List Line) : LabelTable :=
  ((withBefore [] ls).filterMap fun entry => entry.2.declaration? isa entry.1).reverse

theorem labelTable_snoc :
    labelTable isa (before ++ [line]) =
      (line.declaration? isa before).toList ++ labelTable isa before := by
  unfold labelTable
  rw [withBefore_append, List.filterMap_append, List.reverse_append]
  cases hdeclaration : line.declaration? isa before <;> simp [withBefore, hdeclaration]

theorem mem_labelTable {name : Token} {a : UInt8} :
    (name, a) ∈ labelTable isa ls ↔
      ∃ before line after, ls = before ++ line :: after ∧ line.label = some name ∧
        a = UInt8.ofNat (extent isa before) := by
  unfold labelTable Line.declaration?
  rw [List.mem_reverse, List.mem_filterMap]
  constructor
  · rintro ⟨⟨before, line⟩, hmem, hlabel⟩
    obtain ⟨_, after, hls, rfl⟩ := mem_withBefore.mp hmem
    obtain ⟨name', hname, heq⟩ := Option.map_eq_some_iff.mp hlabel
    obtain ⟨rfl, rfl⟩ := Prod.mk.inj heq
    exact ⟨_, line, after, hls, hname, rfl⟩
  · rintro ⟨before, line, after, hls, hname, rfl⟩
    exact ⟨(before, line), mem_withBefore.mpr ⟨before, after, hls, rfl⟩, by simp [hname]⟩

theorem map_fst_labelTable : (labelTable isa ls).map (·.1) = (labelNames ls).reverse := by
  unfold labelTable
  rw [List.map_reverse]
  congr 1
  -- the names do not depend on the addresses, so the lines before may be any
  generalize ([] : List Line) = before
  induction ls generalizing before with
  | nil => rfl
  | cons line rest ih =>
    cases hlabel : line.label <;>
      simpa [withBefore, Line.declaration?, labelNames, hlabel] using ih (before ++ [line])

theorem LabelTable.address?_eq_none_iff {labels : LabelTable} {name : Token} :
    labels.address? name = none ↔ name ∉ labels.map (·.1) := by
  unfold address?
  rw [List.lookup_eq_none_iff, List.mem_map]
  constructor
  · rintro h ⟨⟨_, a⟩, hmem, rfl⟩
    simpa using h _ hmem
  · intro h entry hmem
    have hne : name ≠ entry.1 := fun heq => h ⟨entry, hmem, heq.symm⟩
    simpa using hne

theorem LabelTable.address?_eq_some_iff {labels : LabelTable} (hnodup : (labels.map (·.1)).Nodup)
    {name : Token} {a : UInt8} : labels.address? name = some a ↔ (name, a) ∈ labels := by
  unfold address?
  induction labels with
  | nil => simp
  | cons entry rest ih =>
    obtain ⟨name', a'⟩ := entry
    rw [List.map_cons, List.nodup_cons] at hnodup
    rw [List.lookup_cons, List.mem_cons, Prod.mk.injEq]
    by_cases hname : name = name'
    · -- the name stands in front, and so nowhere else
      subst hname
      have hnot : (name, a) ∉ rest := fun hmem =>
        hnodup.1 (List.mem_map.mpr ⟨(name, a), hmem, rfl⟩)
      simp [hnot, eq_comm]
    · have hbeq : (name == name') = false := by simpa using hname
      simp [hbeq, hname, ih hnodup.2]

/-- A label names the address behind the instructions before its line. -/
theorem address?_labelTable (hnodup : (labelNames ls).Nodup) {name : Token} {a : UInt8} :
    (labelTable isa ls).address? name = some a ↔
      ∃ before line after, ls = before ++ line :: after ∧ line.label = some name ∧
        a = UInt8.ofNat (extent isa before) := by
  rw [LabelTable.address?_eq_some_iff, mem_labelTable]
  rw [map_fst_labelTable]
  exact List.nodup_reverse.mpr hnodup

end Octet.Assembly
