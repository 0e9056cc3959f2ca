import Octet.Proofs.Reading.Separators

/-!
# Instructions that are written out

A mnemonic, a blank, and operands with separators between them: what is written in this way is read
again as the same mnemonic (`read?_written`) and the same operands (`tokens_trim_operandText`), if all
of these hold only characters that stand for themselves (`Plain`).
-/

namespace Octet.Assembly

open Text (Blanks Solid isBlank trim upper)

variable {marks cs sep rest : List Char} {name token : Token} {operands : List Token}

/-- A character that stands for itself, wherever it is in an operand: it is no separator and no quote,
and does not start a comment. -/
def PlainChar (marks : List Char) (c : Char) : Prop :=
  isBlank c = false ∧ c ≠ ',' ∧ c ≠ quote ∧ c ∉ marks

instance (marks : List Char) (c : Char) : Decidable (PlainChar marks c) :=
  inferInstanceAs (Decidable (isBlank c = false ∧ c ≠ ',' ∧ c ≠ quote ∧ c ∉ marks))

/-- A word in which every character stands for itself. -/
structure Plain (marks : List Char) (token : Token) : Prop where
  ne_nil : token ≠ []
  chars : ∀ c ∈ token, PlainChar marks c

instance (marks : List Char) (token : Token) : Decidable (Plain marks token) :=
  have : Decidable (∀ c ∈ token, PlainChar marks c) := List.decidableBAll _ token
  decidable_of_iff (token ≠ [] ∧ ∀ c ∈ token, PlainChar marks c)
    ⟨fun h => ⟨h.1, h.2⟩, fun h => ⟨h.1, h.2⟩⟩

/-- The operands behind a mnemonic: a blank, and the operands with separators between them. -/
def operandText (sep : List Char) : List Token → List Char
  | [] => []
  | first :: rest => [' '] ++ first ++ rest.flatMap (sep ++ ·)

/-! ## Words -/

namespace Plain

theorem cons {c : Char} (hc : PlainChar marks c) (h : Plain marks token) :
    Plain marks (c :: token) :=
  ⟨List.cons_ne_nil c token, List.forall_mem_cons.mpr ⟨hc, h.chars⟩⟩

/-- Letters and digits stand for themselves, if comments do not start with them. -/
theorem of_isAlphanum (hmarks : ∀ c ∈ marks, c.isAlphanum = false) (hne : token ≠ [])
    (h : ∀ c ∈ token, c.isAlphanum = true) : Plain marks token := by
  refine ⟨hne, fun c hc => ⟨Text.isBlank_of_isAlphanum (h c hc), ?_, ?_, ?_⟩⟩
  · rintro rfl
    exact absurd (h _ hc) (by decide)
  · rintro rfl
    exact absurd (h _ hc) (by decide)
  · intro hmark
    cases (hmarks c hmark).symm.trans (h c hc)

theorem solid (h : Plain marks token) : Solid token :=
  fun c hc => (h.chars c hc).1

theorem notMem_quote (h : Plain marks token) : quote ∉ token :=
  fun hmem => (h.chars quote hmem).2.2.1 rfl

theorem notMem_marks (h : Plain marks token) : ∀ c ∈ token, c ∉ marks :=
  fun c hc => (h.chars c hc).2.2.2

theorem runs_eq (h : ∀ c ∈ cs, PlainChar marks c) : runs false cs = (cs, []) := by
  induction cs with
  | nil => rfl
  | cons c cs ih =>
    obtain ⟨⟨hblank, hcomma, hquote, _⟩, hcs⟩ := List.forall_mem_cons.mp h
    have hseparates : separates false c = false := by simp [separates, hblank, hcomma]
    have hafter : quotedAfter false c = false := if_neg hquote
    rw [runs_cons, hseparates, hafter, ih hcs]
    rfl

theorem tokens_eq (h : Plain marks token) : tokens token = [token] := by
  unfold tokens
  rw [runs_eq h.chars]
  exact consRun_of_ne_nil h.ne_nil []

/-- A word between separators is an operand. -/
theorem tokens_append (h : Plain marks token) (hsep : Separators sep)
    (hrest : ∀ c, rest.head? = some c → separates false c = true) :
    tokens (sep ++ token ++ rest) = token :: tokens rest := by
  have heven : Even (token.count quote) := by
    rw [List.count_eq_zero.mpr h.notMem_quote]
    exact Even.zero
  rw [List.append_assoc, tokens_separators_append hsep, Assembly.tokens_append heven hrest,
    h.tokens_eq]
  rfl

end Plain

/-! ## Operands -/

theorem separates_of_head?_flatMap (hsep : Separators sep) (hne : sep ≠ []) {c : Char}
    (hc : (operands.flatMap (sep ++ ·)).head? = some c) : separates false c = true := by
  cases operands with
  | nil => cases hc
  | cons first rest =>
    rw [List.flatMap_cons, List.append_assoc, List.head?_append_of_ne_nil _ hne] at hc
    exact separates_iff.mpr (hsep c (List.mem_of_head? hc))

theorem tokens_flatMap (hsep : Separators sep) (hne : sep ≠ [])
    (h : ∀ token ∈ operands, Plain marks token) :
    tokens (operands.flatMap (sep ++ ·)) = operands := by
  induction operands with
  | nil => rfl
  | cons first rest ih =>
    obtain ⟨hfirst, hrest⟩ := List.forall_mem_cons.mp h
    rw [List.flatMap_cons, hfirst.tokens_append hsep fun _ => separates_of_head?_flatMap hsep hne,
      ih hrest]

theorem tokens_operandText (hsep : Separators sep) (hne : sep ≠ [])
    (h : ∀ token ∈ operands, Plain marks token) : tokens (operandText sep operands) = operands := by
  cases operands with
  | nil => rfl
  | cons first rest =>
    obtain ⟨hfirst, hrest⟩ := List.forall_mem_cons.mp h
    have hblank : Separators [' '] := by decide
    rw [operandText, hfirst.tokens_append hblank fun _ => separates_of_head?_flatMap hsep hne,
      tokens_flatMap hsep hne hrest]

theorem mem_operandText {c : Char} (hc : c ∈ operandText sep operands) :
    c = ' ' ∨ c ∈ sep ∨ ∃ token ∈ operands, c ∈ token := by
  cases operands with
  | nil => cases hc
  | cons first rest =>
    simp only [operandText, List.mem_append, List.mem_singleton, List.mem_flatMap] at hc
    rcases hc with (hc | hc) | ⟨token, htoken, hc | hc⟩
    · exact .inl hc
    · exact .inr (.inr ⟨first, List.mem_cons_self, hc⟩)
    · exact .inr (.inl hc)
    · exact .inr (.inr ⟨token, List.mem_cons_of_mem _ htoken, hc⟩)

/-- **Operands that are written out are read again.** -/
theorem tokens_trim_operandText (hsep : Separators sep) (hne : sep ≠ [])
    (h : ∀ token ∈ operands, Plain marks token) :
    tokens (trim (operandText sep operands)) = operands := by
  have hquote : quote ∉ operandText sep operands := by
    intro hmem
    rcases mem_operandText hmem with hblank | hmem | ⟨token, htoken, hmem⟩
    · exact absurd hblank (by decide)
    · exact hsep.notMem_quote hmem
    · exact (h token htoken).notMem_quote hmem
  rw [tokens_trim, tokens_operandText hsep hne h]
  rw [List.count_eq_zero.mpr hquote]
  exact Even.zero

/-! ## Lines -/

/-- A mnemonic with operands behind it is read as a line with this mnemonic. -/
theorem read?_written (hmarks : ∀ c ∈ marks, c ≠ ',' ∧ isBlank c = false) (hsep : Separators sep)
    (hname : Plain marks name) (hlabel : labelOf? name = none)
    (h : ∀ token ∈ operands, Plain marks token) (number : Nat) :
    Line.read? marks number (name ++ operandText sep operands) =
      some { number, label := none, mnemonic := some (upper name)
             operands := trim (operandText sep operands) } := by
  have hoperands : ∀ c ∈ operandText sep operands, c ∉ marks := by
    intro c hc hmark
    rcases mem_operandText hc with rfl | hc | ⟨token, htoken, hc⟩
    · cases (hmarks _ hmark).2
    · exact hsep.notMem_marks hmarks c hc hmark
    · exact (h token htoken).notMem_marks c hc hmark
  have hparts : HasParts marks none [] name (operandText sep operands) [] := by
    refine ⟨.word Text.Blanks.nil hlabel, hname.solid, hname.ne_nil, ?_, ?_⟩
    · intro c hc
      cases operands with
      | nil => cases hc
      | cons first rest =>
        obtain rfl := Option.some.inj hc
        rfl
    · rw [List.append_nil, List.nil_append]
      exact beforeComment_of_notMem fun c hc =>
        (List.mem_append.mp hc).elim (hname.notMem_marks c) (hoperands c)
  have hread := hparts.read? number
  rwa [List.append_nil, List.nil_append] at hread

/-- What is written out is one line. -/
theorem notMem_written (hsep : '\n' ∉ sep) (hname : Plain marks name)
    (h : ∀ token ∈ operands, Plain marks token) : '\n' ∉ name ++ operandText sep operands := by
  have hplain : ∀ {token}, Plain marks token → '\n' ∉ token := fun htoken hmem =>
    absurd (htoken.solid _ hmem) (by decide)
  intro hmem
  rcases List.mem_append.mp hmem with hmem | hmem
  · exact hplain hname hmem
  · rcases mem_operandText hmem with hblank | hmem | ⟨token, htoken, hmem⟩
    · exact absurd hblank (by decide)
    · exact hsep hmem
    · exact hplain (h token htoken) hmem

end Octet.Assembly
