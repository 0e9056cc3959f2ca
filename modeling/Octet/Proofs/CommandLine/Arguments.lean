import Octet.CommandLine.Arguments

/-!
# Arguments with a period

A period of the clock may be put in front of arguments that have none: what they are read as is the same
but for the period (`read_clock_ms`). Every step of the reading goes the same way whether or not a period
has been taken, as long as it takes none itself: it is `Timeless`.
-/

namespace Octet.CommandLine

namespace Draft

/-- Where the step leaves a draft without a period there was none before, and with any period the step
comes to the same but for it. -/
def Timeless (step : Draft → Except Stop Draft) : Prop :=
  ∀ ⦃d next⦄, step d = .ok next → next.clock = none →
    d.clock = none ∧
      ∀ period, step { d with clock := some period } = .ok { next with clock := some period }

/-! ## Single arguments -/

theorem timeless_error (stop : Stop) : Timeless fun _ => .error stop := by
  intro d next h
  cases h

/-- A step that fills in another part of the draft. -/
theorem timeless_fill {α : Type} (part : Draft → Except Stop α) (fill : Draft → α → Draft)
    (hpart : ∀ d clock, part { d with clock } = part d)
    (hkeeps : ∀ d value, (fill d value).clock = d.clock)
    (hfill : ∀ d clock value, fill { d with clock } value = { fill d value with clock }) :
    Timeless fun d => do return fill d (← part d) := by
  intro d next h hclock
  cases hvalue : part d with
  | error stop => simp [hvalue, bind, Except.bind] at h
  | ok value =>
    simp only [hvalue, bind, Except.bind, pure, Except.pure, Except.ok.injEq] at h
    subst h
    refine ⟨(hkeeps d value).symm.trans hclock, ?_⟩
    intro period
    have hvalue := (hpart d (some period)).trans hvalue
    simp only [hvalue, hfill d (some period) value, bind, Except.bind, pure, Except.pure]

theorem timeless_addFile (value : String) : Timeless (addFile · value) :=
  timeless_fill (fun d => once d.file (fileName? value)) (fun d file => { d with file })
    (fun _ _ => rfl) (fun _ _ => rfl) (fun _ _ _ => rfl)

theorem ne_none_of_once {place value filled : Option Nat} (h : once place value = .ok filled) :
    filled ≠ none := by
  cases place <;> cases value <;> cases h
  exact Option.some_ne_none _

theorem timeless_addOption (name value : String) : Timeless (addOption · name value) := by
  unfold addOption
  split
  · exact timeless_fill (fun d => once d.isa (isa? value)) (fun d isa => { d with isa })
      (fun _ _ => rfl) (fun _ _ => rfl) (fun _ _ _ => rfl)
  · exact timeless_fill (fun d => once d.config (fileName? value)) (fun d config => { d with config })
      (fun _ _ => rfl) (fun _ _ => rfl) (fun _ _ _ => rfl)
  · exact timeless_fill (fun d => once d.maxSteps (number? value))
      (fun d maxSteps => { d with maxSteps }) (fun _ _ => rfl) (fun _ _ => rfl) (fun _ _ _ => rfl)
  · intro d next h hclock
    cases honce : once d.clock (number? value) with
    | error stop => simp [honce, bind, Except.bind] at h
    | ok clock =>
      simp only [honce, bind, Except.bind, pure, Except.pure, Except.ok.injEq] at h
      subst h
      exact absurd hclock (ne_none_of_once honce)
  · exact timeless_error .usage

theorem timeless_addSwitch (name : String) : Timeless (addSwitch · name) := by
  unfold addSwitch
  split
  · exact timeless_fill (fun d => switchOn d.trace) (fun d trace => { d with trace })
      (fun _ _ => rfl) (fun _ _ => rfl) (fun _ _ _ => rfl)
  · exact timeless_fill (fun d => switchOn d.dump) (fun d dump => { d with dump })
      (fun _ _ => rfl) (fun _ _ => rfl) (fun _ _ _ => rfl)
  · exact timeless_fill (fun d => switchOn d.disassemble) (fun d disassemble => { d with disassemble })
      (fun _ _ => rfl) (fun _ _ => rfl) (fun _ _ _ => rfl)
  · exact timeless_fill (fun d => switchOn d.verbose) (fun d verbose => { d with verbose })
      (fun _ _ => rfl) (fun _ _ => rfl) (fun _ _ _ => rfl)
  · exact timeless_error .version
  · exact timeless_error (.help true)
  · exact timeless_error .usage

/-- One timeless step after another. -/
theorem Timeless.bind {first second : Draft → Except Stop Draft} (hfirst : Timeless first)
    (hsecond : Timeless second) : Timeless fun d => (do second (← first d)) := by
  intro d last h hclock
  cases hnext : first d with
  | error stop => simp [hnext, Bind.bind, Except.bind] at h
  | ok next =>
    simp only [hnext, Bind.bind, Except.bind] at h
    obtain ⟨hnone, hlast⟩ := hsecond h hclock
    obtain ⟨hnone, hfirst⟩ := hfirst hnext hnone
    refine ⟨hnone, ?_⟩
    intro period
    simp only [hfirst period, Bind.bind, Except.bind, hlast period]

theorem timeless_addLetters (letters : List Char) : Timeless (addLetters · letters) := by
  induction letters with
  | nil =>
    intro d next h hclock
    cases h
    exact ⟨hclock, fun _ => rfl⟩
  | cons letter rest ih =>
    unfold addLetters
    split
    · cases ‹_›
    · cases ‹_›; exact (timeless_addSwitch "verbose").bind ih
    · exact timeless_error .version
    · exact timeless_error (.help false)
    · exact timeless_error .usage

theorem timeless_addWord (word : List Char) : Timeless (addWord · word) := by
  unfold addWord
  split
  · exact timeless_addSwitch _
  · exact timeless_addOption _ _

/-! ## All arguments -/

/-- Like `Timeless`, of a reading to the end. -/
def TimelessToEnd (read : Draft → Except Stop Arguments) : Prop :=
  ∀ ⦃d a⦄, read d = .ok a → a.clock = none →
    d.clock = none ∧
      ∀ period, read { d with clock := some period } = .ok { a with clock := some period }

theorem timelessToEnd_error (stop : Stop) : TimelessToEnd fun _ => .error stop := by
  intro d a h
  cases h

theorem timelessToEnd_finish : TimelessToEnd finish := by
  intro d a h hclock
  unfold finish at h ⊢
  cases hfile : d.file with
  | none => rw [hfile] at h; cases h
  | some file =>
    rw [hfile] at h
    cases h
    exact ⟨hclock, fun _ => rfl⟩

theorem Timeless.toEnd {step : Draft → Except Stop Draft} {read : Draft → Except Stop Arguments}
    (hstep : Timeless step) (hread : TimelessToEnd read) :
    TimelessToEnd fun d => match step d with | .ok d => read d | .error stop => .error stop := by
  intro d a h hclock
  cases hnext : step d with
  | error stop => simp [hnext] at h
  | ok next =>
    simp only [hnext] at h
    obtain ⟨hnone, hread⟩ := hread h hclock
    obtain ⟨hnone, hstep⟩ := hstep hnext hnone
    refine ⟨hnone, ?_⟩
    intro period
    simp only [hstep period, hread period]

theorem timelessToEnd_readFiles (arguments : List String) :
    TimelessToEnd (readFiles · arguments) := by
  induction arguments with
  | nil => exact timelessToEnd_finish
  | cons argument rest ih => exact (timeless_addFile argument).toEnd ih

theorem timelessToEnd_readAll (arguments : List String) : TimelessToEnd (readAll · arguments) := by
  -- An option may take the argument after it, so the induction is on the length.
  induction hlength : arguments.length using Nat.strongRecOn generalizing arguments with
  | _ length ih =>
    cases arguments with
    | nil => exact timelessToEnd_finish
    | cons argument rest =>
      have hlt : rest.length < length := by rw [← hlength]; exact Nat.lt_succ_self _
      unfold readAll
      split
      · exact timelessToEnd_readFiles rest
      · split
        · split
          · next value rest =>
            have hlt : rest.length < length := Nat.lt_of_succ_lt hlt
            split
            · exact (timeless_addOption _ value).toEnd (ih _ hlt rest rfl)
            · exact timelessToEnd_error .usage
          · exact timelessToEnd_error .usage
        · exact (timeless_addWord _).toEnd (ih _ hlt rest rfl)
      · exact (timeless_addLetters _).toEnd (ih _ hlt rest rfl)
      · exact (timeless_addFile argument).toEnd (ih _ hlt rest rfl)

end Draft

/-! ## The period in front -/

theorem isValue_of_number? {written : String} {period : Nat} (h : number? written = some period) :
    isValue written = true := by
  have hhead : written.toList.head? ≠ some '-' := by
    intro hdash
    obtain ⟨rest, hwritten⟩ := List.head?_eq_some_iff.mp hdash
    unfold number? at h
    rw [hwritten] at h
    cases h
  simp [isValue, hhead]

theorem read_clock_ms {arguments : List String} {a : Arguments} {written : String} {period : Nat}
    (hread : Arguments.read arguments = .ok a) (hclock : a.clock = none)
    (hwritten : number? written = some period) :
    Arguments.read ("--clock-ms" :: written :: arguments) = .ok { a with clock := some period } := by
  have htaken : ({} : Draft).addOption "clock-ms" written = .ok { clock := some period } := by
    simp only [Draft.addOption, hwritten]
    rfl
  have hrest := (Draft.timelessToEnd_readAll arguments hread hclock).2 period
  unfold Arguments.read
  rw [Draft.readAll]
  simpa [Draft.takesValue, isValue_of_number? hwritten, htaken] using hrest

end Octet.CommandLine
