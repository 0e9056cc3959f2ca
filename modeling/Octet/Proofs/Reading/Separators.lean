import Octet.Proofs.Reading.Parts
import Octet.Proofs.Reading.Tokens

/-!
# What stands between operands

Commas and blanks outside of quotes separate operands, and it does not matter which of them or how
many do: the operands on both sides are read by themselves (`tokens_append_separators_append`), also
where the blanks at the ends of a line are dropped (`tokens_trim_separators`), and comments start where
they did (`beforeComment_separators`).
-/

namespace Octet.Assembly

open Text (Blanks Trimmed isBlank trim)

variable {marks first second gap sep sep' cs rest lead word comment : List Char} {c : Char}
  {quoted : Bool} {label : Option Token}

/-- A run of commas and blanks. -/
def Separators (sep : List Char) : Prop :=
  ∀ c ∈ sep, c = ',' ∨ isBlank c = true

instance (sep : List Char) : Decidable (Separators sep) :=
  List.decidableBAll _ sep

theorem Separators.append (h : Separators first) (h' : Separators second) :
    Separators (first ++ second) :=
  fun c hc => (List.mem_append.mp hc).elim (h c) (h' c)

theorem Separators.of_blanks (h : Blanks gap) : Separators gap :=
  fun c hc => .inr (h c hc)

theorem separates_iff : separates false c = true ↔ c = ',' ∨ isBlank c = true := by
  simp [separates]

theorem quotedAfter_of_separates (h : separates false c = true) : quotedAfter quoted c = quoted := by
  refine if_neg ?_
  rintro rfl
  exact absurd h (by decide)

theorem Separators.notMem_quote (h : Separators sep) : quote ∉ sep :=
  fun hmem => absurd (h quote hmem) (by decide)

theorem Separators.notMem_marks (h : Separators sep)
    (hmarks : ∀ c ∈ marks, c ≠ ',' ∧ isBlank c = false) : ∀ c ∈ sep, c ∉ marks := by
  intro c hc hmark
  obtain ⟨hcomma, hblank⟩ := hmarks c hmark
  rcases h c hc with rfl | hc
  · exact hcomma rfl
  · cases hblank.symm.trans hc

/-! ## Tokens -/

theorem consRun_append (run : Token) (later later' : List Token) :
    consRun run (later ++ later') = consRun run later ++ later' := by
  unfold consRun
  split <;> rfl

/-- A separator ends the run before it, if no quote is open. -/
theorem runs_append (hclosed : first.foldl quotedAfter quoted = false)
    (hrest : ∀ c, rest.head? = some c → separates false c = true) :
    runs quoted (first ++ rest) =
      ((runs quoted first).1, (runs quoted first).2 ++ tokens rest) := by
  induction first generalizing quoted with
  | nil =>
    obtain rfl : quoted = false := hclosed
    cases rest with
    | nil => rfl
    | cons c rest =>
      unfold tokens
      rw [List.nil_append, runs_cons, if_pos (hrest c rfl)]
      rfl
  | cons c first ih =>
    rw [List.cons_append, runs_cons, runs_cons, ih hclosed]
    split
    · rw [consRun_append]
    · rfl

theorem tokens_append (heven : Even (first.count quote))
    (hrest : ∀ c, rest.head? = some c → separates false c = true) :
    tokens (first ++ rest) = tokens first ++ tokens rest := by
  have hclosed : first.foldl quotedAfter false = false := by
    rw [foldl_quotedAfter]
    simpa using heven
  unfold tokens
  rw [runs_append hclosed hrest]
  exact consRun_append _ _ _

theorem tokens_separators_append (h : Separators sep) (rest : List Char) :
    tokens (sep ++ rest) = tokens rest := by
  induction sep with
  | nil => rfl
  | cons c sep ih =>
    obtain ⟨hc, hsep⟩ := List.forall_mem_cons.mp h
    have hseparates : separates false c = true := separates_iff.mpr hc
    rw [← ih hsep]
    unfold tokens
    rw [List.cons_append, runs_cons, if_pos hseparates, quotedAfter_of_separates hseparates]
    rfl

theorem tokens_separators (h : Separators sep) : tokens sep = [] := by
  have hall := tokens_separators_append h []
  rwa [List.append_nil] at hall

/-- Operands are read by themselves on both sides of separators. -/
theorem tokens_append_separators_append (heven : Even (first.count quote)) (hsep : Separators sep)
    (hne : sep ≠ []) (second : List Char) :
    tokens (first ++ sep ++ second) = tokens first ++ tokens second := by
  rw [List.append_assoc, tokens_append heven, tokens_separators_append hsep]
  intro c hc
  rw [List.head?_append_of_ne_nil _ hne] at hc
  exact separates_iff.mpr (hsep c (List.mem_of_head? hc))

/-! ## Lines -/

theorem count_quote_trim (cs : List Char) : (trim cs).count quote = cs.count quote := by
  obtain ⟨front, back, hfront, hback, hcs, _⟩ := Text.exists_trim cs
  have hnone : ∀ gap, Blanks gap → gap.count quote = 0 := fun gap hgap =>
    List.count_eq_zero.mpr (Separators.of_blanks hgap).notMem_quote
  conv_rhs => rw [hcs]
  rw [List.count_append, List.count_append, hnone front hfront, hnone back hback, Nat.zero_add,
    Nat.add_zero]

/-- The blanks at the ends of a text do not count, if all quotes are closed. -/
theorem tokens_trim (heven : Even (cs.count quote)) : tokens (trim cs) = tokens cs := by
  obtain ⟨front, back, hfront, hback, hcs, _⟩ := Text.exists_trim cs
  have htrim : Even ((trim cs).count quote) := by rwa [count_quote_trim]
  conv_rhs => rw [hcs]
  rw [List.append_assoc, tokens_separators_append (.of_blanks hfront), tokens_append htrim,
    tokens_separators (.of_blanks hback), List.append_nil]
  exact fun c hc => separates_iff.mpr (.inr (hback c (List.mem_of_head? hc)))

/-- What separates two operands is also all the blanks at their ends. -/
theorem exists_trim_separators (hfirst : ¬ Blanks first) (hsecond : ¬ Blanks second)
    (hsep : Separators sep) (hne : sep ≠ []) :
    ∃ sep', Separators sep' ∧ sep' ≠ [] ∧
      trim (first ++ sep ++ second) = trim first ++ sep' ++ trim second := by
  obtain ⟨front, back, hfront, hback, hparts, htrimmed⟩ := Text.exists_trim first
  obtain ⟨front', back', hfront', hback', hparts', htrimmed'⟩ := Text.exists_trim second
  have hnil : trim first ≠ [] := mt Text.trim_eq_nil_iff.mp hfirst
  have hnil' : trim second ≠ [] := mt Text.trim_eq_nil_iff.mp hsecond
  refine ⟨back ++ sep ++ front',
    ((Separators.of_blanks hback).append hsep).append (.of_blanks hfront'), by simp [hne], ?_⟩
  calc trim (first ++ sep ++ second)
      = trim (front ++ (trim first ++ (back ++ sep ++ front') ++ trim second) ++ back') := by
        conv_lhs => rw [hparts, hparts']
        simp only [List.append_assoc]
    _ = trim first ++ (back ++ sep ++ front') ++ trim second :=
        Text.trim_eq hfront hback' (htrimmed.append hnil htrimmed' hnil' _)

/-- The operands of a line are the ones on both sides of separators. -/
theorem tokens_trim_separators (heven : Even (first.count quote)) (hfirst : ¬ Blanks first)
    (hsecond : ¬ Blanks second) (hsep : Separators sep) (hne : sep ≠ []) :
    tokens (trim (first ++ sep ++ second)) = tokens (trim first) ++ tokens (trim second) := by
  obtain ⟨sep', hsep', hne', htrim⟩ := exists_trim_separators hfirst hsecond hsep hne
  rw [htrim, tokens_append_separators_append (by rwa [count_quote_trim]) hsep' hne']

/-- Separators on a line can be replaced without a change to where its comment starts. -/
theorem beforeComment_separators (hmarks : ∀ c ∈ marks, c ≠ ',' ∧ isBlank c = false)
    (hsep : Separators sep) (hsep' : Separators sep')
    (h : beforeComment marks false (first ++ sep ++ second ++ comment) = first ++ sep ++ second) :
    beforeComment marks false (first ++ sep' ++ second ++ comment) = first ++ sep' ++ second := by
  simp only [List.append_assoc, beforeComment_append_eq_iff,
    foldl_quotedAfter_of_notMem hsep.notMem_quote, foldl_quotedAfter_of_notMem hsep'.notMem_quote,
    beforeComment_of_notMem (hsep'.notMem_marks hmarks), true_and] at h ⊢
  exact ⟨h.1, h.2.2⟩

end Octet.Assembly
