import Octet.Assembly.Resolve
import Octet.Proofs.Reading.Blank

/-!
# Tokens that a comment has run into

A comment that is read as a part of the operands leaves its mark in one of the tokens: the token
starts with the mark, or the mark stands in it behind a quoted blank (`Marked`). There is such a token
wherever text that starts with a mark is appended to operands (`exists_marked`), and it is no number
in any spelling (`notMem_of_hexByte`, `not_marked_of_literal`).
-/

namespace Octet.Assembly

open Text (Blanks isBlank)

variable {cs gap rest : List Char} {token : Token} {quoted : Bool}

/-- The token holds the mark of a comment where a comment puts it: in front, or behind a blank. -/
def Marked (token : Token) : Prop :=
  token.head? = some ';' ∨ (∃ b ∈ token, isBlank b = true) ∧ ';' ∈ token

theorem Marked.mem (h : Marked token) : ';' ∈ token :=
  h.elim (fun hhead => List.mem_of_head? hhead) (·.2)

/-! ## Where they come from -/

theorem runs_cons (quoted : Bool) (c : Char) (cs : List Char) :
    runs quoted (c :: cs) =
      if separates quoted c then
        ([], consRun (runs (quotedAfter quoted c) cs).1 (runs (quotedAfter quoted c) cs).2)
      else (c :: (runs (quotedAfter quoted c) cs).1, (runs (quotedAfter quoted c) cs).2) := rfl

theorem consRun_of_ne_nil {run : Token} (h : run ≠ []) (later : List Token) :
    consRun run later = run :: later := by
  simp [consRun, h]

theorem mem_consRun_of_mem (run : Token) {later : List Token} (h : token ∈ later) :
    token ∈ consRun run later := by
  unfold consRun
  split
  · exact h
  · exact List.mem_cons_of_mem _ h

/-- A run holds a blank and a mark behind it, or one of the tokens after the run is marked. -/
def RunsMarked (runs : Token × List Token) : Prop :=
  ((∃ b ∈ runs.1, isBlank b = true) ∧ ';' ∈ runs.1) ∨ ∃ token ∈ runs.2, Marked token

theorem RunsMarked.exists_consRun {runs : Token × List Token} (h : RunsMarked runs) :
    ∃ token ∈ consRun runs.1 runs.2, Marked token := by
  rcases h with hrun | ⟨token, hmem, hmarked⟩
  · rw [consRun_of_ne_nil (List.ne_nil_of_mem hrun.2)]
    exact ⟨_, List.mem_cons_self, .inr hrun⟩
  · exact ⟨token, mem_consRun_of_mem _ hmem, hmarked⟩

theorem RunsMarked.cons (c : Char) (h : RunsMarked (runs (quotedAfter quoted c) cs)) :
    RunsMarked (runs quoted (c :: cs)) := by
  rw [runs_cons]
  split
  · exact .inr h.exists_consRun
  · rcases h with ⟨⟨b, hb, hblank⟩, hmark⟩ | hlater
    · exact .inl ⟨⟨b, List.mem_cons_of_mem c hb, hblank⟩, List.mem_cons_of_mem c hmark⟩
    · exact .inr hlater

theorem runs_mark (quoted : Bool) (rest : List Char) :
    ∃ run, (runs quoted (';' :: rest)).1 = ';' :: run := by
  have hseparates : separates quoted ';' = false := by cases quoted <;> decide
  rw [runs_cons, hseparates]
  exact ⟨_, rfl⟩

/-- Outside of quotes a mark behind a blank starts a token, and between quotes the blank belongs to
the same token. -/
theorem runsMarked_blank (quoted : Bool) {b : Char} (hb : isBlank b = true) (rest : List Char) :
    RunsMarked (runs quoted (b :: ';' :: rest)) := by
  have hquote : b ≠ quote := by
    rintro rfl
    exact absurd hb (by decide)
  have hafter : quotedAfter quoted b = quoted := if_neg hquote
  obtain ⟨run, hrun⟩ := runs_mark quoted rest
  rw [runs_cons, hafter, hrun]
  cases quoted with
  | false =>
    have hseparates : separates false b = true := by simp [separates, hb]
    rw [if_pos hseparates, consRun_of_ne_nil (List.cons_ne_nil _ _)]
    exact .inr ⟨_, List.mem_cons_self, .inl rfl⟩
  | true =>
    rw [if_neg (by simp [separates])]
    exact .inl ⟨⟨b, List.mem_cons_self, hb⟩, by simp⟩

/-- A comment that is read as a part of the operands leaves its mark in one of them. -/
theorem exists_marked (hgap : Blanks gap) (h : gap = [] → cs = []) (rest : List Char) :
    ∃ token ∈ tokens (cs ++ gap ++ ';' :: rest), Marked token := by
  by_cases hnil : gap = []
  · obtain ⟨run, hrun⟩ := runs_mark false rest
    rw [hnil, h hnil]
    show ∃ token ∈ consRun (runs false (';' :: rest)).1 _, Marked token
    rw [hrun, consRun_of_ne_nil (List.cons_ne_nil _ _)]
    exact ⟨_, List.mem_cons_self, .inl rfl⟩
  · have hsplit : cs ++ gap ++ ';' :: rest =
        (cs ++ gap.dropLast) ++ gap.getLast hnil :: ';' :: rest := by
      conv_lhs => rw [← List.dropLast_append_getLast hnil]
      simp
    have hlast : isBlank (gap.getLast hnil) = true := hgap _ (List.getLast_mem hnil)
    -- whatever the quotes in front say, the last blank and the mark are read together
    have hruns : ∀ (quoted : Bool) (front : List Char),
        RunsMarked (runs quoted (front ++ gap.getLast hnil :: ';' :: rest)) := by
      intro quoted front
      induction front generalizing quoted with
      | nil => exact runsMarked_blank quoted hlast rest
      | cons c front ih => exact (ih _).cons c
    rw [hsplit]
    exact (hruns false _).exists_consRun

/-! ## What they are not -/

theorem digitValue?_mark (base : Nat) : Text.digitValue? base ';' = none := rfl

theorem digitsValue?_of_mem {base : Nat} (h : ';' ∈ cs) (read : Nat) :
    Text.digitsValue? base read cs = none := by
  induction cs generalizing read with
  | nil => cases h
  | cons c cs ih =>
    unfold Text.digitsValue?
    rcases List.mem_cons.mp h with rfl | h
    · rw [digitValue?_mark]
    · split
      · exact ih h _
      · rfl

theorem numeral?_of_mem {base : Nat} (h : ';' ∈ cs) : Text.numeral? base cs = none := by
  cases cs with
  | nil => cases h
  | cons c cs => exact digitsValue?_of_mem h 0

theorem unsigned?_of_mem {base bound : Nat} (h : ';' ∈ cs) :
    Text.unsigned? base bound cs = none := by
  unfold Text.unsigned?
  split
  · next rest =>
    have hrest : ';' ∈ rest := by simpa using h
    simp [numeral?_of_mem hrest]
  · simp [numeral?_of_mem h]

theorem mem_of_afterHexMark? {digits : List Char} (h : Text.afterHexMark? token = some digits)
    (hmark : ';' ∈ token) : ';' ∈ digits := by
  unfold Text.afterHexMark? at h
  split at h
  · obtain rfl := Option.some.inj h
    simpa using hmark
  · obtain rfl := Option.some.inj h
    simpa using hmark
  · cases h

/-- No hexadecimal number holds a mark. -/
theorem notMem_of_hexByte {v : UInt8} (h : hexByte token = .ok v) : ';' ∉ token := by
  intro hmark
  have hdigits : ';' ∈ (Text.afterHexMark? token).getD token := by
    cases hhex : Text.afterHexMark? token with
    | none => exact hmark
    | some digits => exact mem_of_afterHexMark? hhex hmark
  unfold hexByte at h
  simp only [numeral?_of_mem hdigits] at h
  cases h

theorem eq_of_character {v : UInt8} (h : character token = .ok v) :
    ∃ c, token = [quote, c, quote] := by
  unfold character at h
  split at h
  · next c hc =>
    unfold unquoted? at hc
    split at hc
    · cases hc
    · next first rest =>
      split at hc
      · next hquotes =>
        obtain ⟨hfirst, hlast⟩ := hquotes
        obtain ⟨front, rfl⟩ := List.getLast?_eq_some_iff.mp hlast
        rw [List.dropLast_concat] at hc
        rw [hfirst, Option.some.inj hc]
        exact ⟨c, rfl⟩
      · cases hc
  · cases h

/-- A number may be a mark between quotes, but then there is no blank. -/
theorem not_marked_of_literal {v : UInt8} (h : literal token = .ok v) : ¬ Marked token := by
  intro hmarked
  unfold literal at h
  split at h
  · obtain ⟨c, rfl⟩ := eq_of_character h
    rcases hmarked with hhead | ⟨⟨b, hb, hblank⟩, hmark⟩
    · exact absurd (Option.some.inj hhead) (by decide)
    · -- the character between the quotes would have to be both the blank and the mark
      have hc : ';' = c := by simpa [quote] using hmark
      have hcases : b = quote ∨ b = ';' ∨ b = quote := by simpa [← hc] using hb
      rcases hcases with rfl | rfl | rfl <;> exact absurd hblank (by decide)
  · cases hhex : Text.afterHexMark? token with
    | some digits =>
      simp only [hhex, unsigned?_of_mem (mem_of_afterHexMark? hhex hmarked.mem)] at h
      cases h
    | none =>
      simp only [hhex, unsigned?_of_mem hmarked.mem] at h
      cases h

/-- Nor is it a value, if it is no label. -/
theorem not_marked_of_value {ctx : Context} {v : UInt8}
    (hlabels : ∀ name, (ctx.labels.address? name).isSome → ¬ Marked name)
    (h : ctx.value token = .ok v) : ¬ Marked token := by
  unfold Context.value at h
  split at h
  · next address haddress => exact hlabels token (by rw [haddress]; rfl)
  · split at h
    · cases h
    · unfold Except.mapError at h
      split at h
      · cases h
      · next hliteral => exact not_marked_of_literal hliteral

theorem mem_upper_of_mem (h : ';' ∈ cs) : ';' ∈ Text.upper cs :=
  List.mem_map.mpr ⟨';', h, by decide⟩

/-- A name that is compared letter by letter holds a mark if the text does. -/
theorem mem_upper_of_sameLetters {name : List Char} (h : Text.sameLetters name token = true)
    (hmark : ';' ∈ token) : ';' ∈ Text.upper name := by
  have heq : Text.upper name = Text.upper token := by simpa [Text.sameLetters] using h
  rw [heq]
  exact mem_upper_of_mem hmark

end Octet.Assembly
