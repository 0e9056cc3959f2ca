import Octet.Proofs.Reading.Separators

/-!
# Operands are maximal runs

A character separates operands if it is a comma or a blank with an even number of quotes in front of it
(`SeparatorAt`). The operands in a text are its maximal runs of other characters (`MaximalRun`), from the
first one to the last (`areRuns_tokens`). Written again with separators between them they are the same
operands, also if the last of them leaves a quote open (`tokens_intercalate`).

The main statement is `tokens_maximalRuns`.
-/

namespace Octet.Assembly

open Text (isBlank)

/-- The character at an index separates operands: it is a comma or a blank, and the quotes in front of
it are even in number. -/
def SeparatorAt (cs : List Char) (i : Nat) : Prop :=
  (∃ c, cs[i]? = some c ∧ (c = ',' ∨ isBlank c = true)) ∧ Even ((cs.take i).count quote)

/-- A piece of a text, from one index up to another. -/
@[ext]
structure Span where
  start : Nat
  stop : Nat

namespace Span

/-- The character at an index belongs to the piece. -/
def Covers (run : Span) (i : Nat) : Prop :=
  run.start ≤ i ∧ i < run.stop

/-- The characters of the piece. -/
def text (run : Span) (cs : List Char) : Token :=
  (cs.drop run.start).take (run.stop - run.start)

end Span

/-- Characters one behind the other, none of which separates. -/
structure IsRun (cs : List Char) (run : Span) : Prop where
  start_lt : run.start < run.stop
  stop_le : run.stop ≤ cs.length
  notMem : ∀ i, run.Covers i → ¬ SeparatorAt cs i

/-- A run that is not a part of a longer one. -/
structure MaximalRun (cs : List Char) (run : Span) : Prop extends IsRun cs run where
  eq_of_isRun : ∀ longer, IsRun cs longer → longer.start ≤ run.start → run.stop ≤ longer.stop →
    longer = run

variable {cs rest sep : List Char} {c : Char} {i first : Nat} {run run' : Span}
  {read : Token × List Token} {words : List Token}

/-! ## Where maximal runs end -/

namespace MaximalRun

theorem before (h : MaximalRun cs run) (hi : run.start = i + 1) : SeparatorAt cs i := by
  by_contra hnot
  have hstart : i < run.start := hi ▸ Nat.lt_succ_self i
  have hlonger : IsRun cs ⟨i, run.stop⟩ := by
    refine ⟨Nat.lt_trans hstart h.start_lt, h.stop_le, ?_⟩
    rintro j ⟨hle, hlt⟩
    rcases Nat.eq_or_lt_of_le hle with rfl | hgt
    · exact hnot
    · exact h.notMem j ⟨hi ▸ hgt, hlt⟩
  have heq := h.eq_of_isRun _ hlonger (Nat.le_of_lt hstart) (Nat.le_refl _)
  exact absurd (congrArg Span.start heq) (Nat.ne_of_lt hstart)

theorem behind (h : MaximalRun cs run) (hlt : run.stop < cs.length) : SeparatorAt cs run.stop := by
  by_contra hnot
  have hlonger : IsRun cs ⟨run.start, run.stop + 1⟩ := by
    refine ⟨Nat.lt_succ_of_lt h.start_lt, hlt, ?_⟩
    rintro j ⟨hle, hj⟩
    rcases Nat.eq_or_lt_of_le (Nat.le_of_lt_succ hj) with rfl | hj
    · exact hnot
    · exact h.notMem j ⟨hle, hj⟩
  have heq := h.eq_of_isRun _ hlonger (Nat.le_refl _) (Nat.le_succ _)
  exact absurd (congrArg Span.stop heq) (Nat.succ_ne_self _)

/-- A run is maximal if it ends at separators, or where the text does. -/
theorem of_ends (h : IsRun cs run) (hbefore : ∀ i, run.start = i + 1 → SeparatorAt cs i)
    (hbehind : run.stop < cs.length → SeparatorAt cs run.stop) : MaximalRun cs run := by
  refine ⟨h, ?_⟩
  intro longer hlonger hstart hstop
  have hrun := h.start_lt
  have hle := hlonger.stop_le
  have hstart' : longer.start = run.start := by
    by_contra hne
    exact hlonger.notMem (run.start - 1) ⟨by omega, by omega⟩ (hbefore _ (by omega))
  have hstop' : longer.stop = run.stop := by
    by_contra hne
    exact hlonger.notMem run.stop ⟨by omega, by omega⟩ (hbehind (by omega))
  exact Span.ext hstart' hstop'

/-- Between two runs there is a separator. -/
theorem stop_lt_start (h : MaximalRun cs run) (h' : MaximalRun cs run')
    (hlt : run.start < run'.start) : run.stop < run'.start := by
  obtain ⟨i, hi⟩ : ∃ i, run'.start = i + 1 := ⟨run'.start - 1, by omega⟩
  by_contra hle
  exact h.notMem i ⟨by omega, by omega⟩ (h'.before hi)

theorem eq_of_start_eq (h : MaximalRun cs run) (h' : MaximalRun cs run')
    (heq : run.start = run'.start) : run = run' := by
  rcases Nat.le_total run.stop run'.stop with hle | hle
  · exact (h.eq_of_isRun run' h'.toIsRun heq.ge hle).symm
  · exact h'.eq_of_isRun run h.toIsRun heq.le hle

end MaximalRun

/-! ## Every other character is in a maximal run -/

/-- Every run is a part of a maximal one. -/
theorem IsRun.exists_maximalRun (h : IsRun cs run) :
    ∃ longest, MaximalRun cs longest ∧ longest.start ≤ run.start ∧ run.stop ≤ longest.stop := by
  -- by the number of characters that a longer run could gain
  induction hfree : cs.length - (run.stop - run.start) using Nat.strong_induction_on
    generalizing run with
  | _ free ih =>
    by_cases hmaximal : ∀ longer, IsRun cs longer → longer.start ≤ run.start →
        run.stop ≤ longer.stop → longer = run
    · exact ⟨run, ⟨h, hmaximal⟩, Nat.le_refl _, Nat.le_refl _⟩
    · push Not at hmaximal
      obtain ⟨longer, hlonger, hstart, hstop, hne⟩ := hmaximal
      have hgain : run.stop - run.start < longer.stop - longer.start := by
        by_contra hle
        have hlt := h.start_lt
        exact hne (Span.ext (by omega) (by omega))
      have hlength := hlonger.stop_le
      obtain ⟨longest, hlongest, hstart', hstop'⟩ := ih _ (by omega) hlonger rfl
      exact ⟨longest, hlongest, Nat.le_trans hstart' hstart, Nat.le_trans hstop hstop'⟩

theorem exists_covers (hlt : i < cs.length) (hnot : ¬ SeparatorAt cs i) :
    ∃ run, MaximalRun cs run ∧ run.Covers i := by
  have hsingle : IsRun cs ⟨i, i + 1⟩ := by
    refine ⟨Nat.lt_succ_self i, hlt, ?_⟩
    rintro j ⟨hle, hj⟩
    rwa [Nat.le_antisymm (Nat.le_of_lt_succ hj) hle]
  obtain ⟨run, hrun, hstart, hstop⟩ := hsingle.exists_maximalRun
  exact ⟨run, hrun, hstart, hstop⟩

/-! ## Reading from an index on -/

/-- The words are the maximal runs that start at an index or behind it, in their order. -/
def AreRuns (cs : List Char) (first : Nat) (words : List Token) : Prop :=
  ∃ runs : List Span, words = runs.map (·.text cs) ∧ runs.Pairwise (·.start < ·.start) ∧
    ∀ run, run ∈ runs ↔ MaximalRun cs run ∧ first ≤ run.start

/-- What is read from an index on: the characters up to the next separator, and the runs that start
behind the index. -/
structure ReadsFrom (cs : List Char) (first : Nat) (read : Token × List Token) : Prop where
  text : (Span.mk first (first + read.1.length)).text cs = read.1
  le : first + read.1.length ≤ cs.length
  notMem : ∀ i, first ≤ i → i < first + read.1.length → ¬ SeparatorAt cs i
  behind : first + read.1.length < cs.length → SeparatorAt cs (first + read.1.length)
  later : AreRuns cs (first + 1) read.2

namespace ReadsFrom

/-- Behind a separator the characters up to the next one are a maximal run, unless there are none. -/
theorem areRuns (h : ReadsFrom cs first read) (hbefore : ∀ i, first = i + 1 → SeparatorAt cs i) :
    AreRuns cs first (consRun read.1 read.2) := by
  obtain ⟨runs, hwords, hsorted, hmem⟩ := h.later
  by_cases hnil : read.1 = []
  · -- no run starts at the index itself
    have hnone : ∀ run, MaximalRun cs run → run.start ≠ first := by
      intro run hrun heq
      have hbehind := h.behind
      rw [hnil, List.length_nil, Nat.add_zero] at hbehind
      have hlt := hrun.start_lt
      have hle := hrun.stop_le
      exact hrun.notMem first ⟨heq.le, by omega⟩ (hbehind (by omega))
    refine ⟨runs, by simp [consRun, hnil, hwords], hsorted, ?_⟩
    intro run
    rw [hmem]
    refine and_congr_right fun hrun => ?_
    have hne := hnone run hrun
    omega
  · have hlength : 0 < read.1.length := List.length_pos_iff.mpr hnil
    have hhead : MaximalRun cs ⟨first, first + read.1.length⟩ :=
      .of_ends ⟨Nat.lt_add_of_pos_right hlength, h.le, fun i hi => h.notMem i hi.1 hi.2⟩
        hbefore h.behind
    refine ⟨⟨first, first + read.1.length⟩ :: runs, ?_, ?_, ?_⟩
    · rw [consRun_of_ne_nil hnil, List.map_cons, h.text, hwords]
    · refine List.pairwise_cons.mpr ⟨?_, hsorted⟩
      intro run hrun
      exact ((hmem run).mp hrun).2
    · intro run
      rw [List.mem_cons, hmem]
      constructor
      · rintro (rfl | ⟨hrun, hle⟩)
        · exact ⟨hhead, Nat.le_refl _⟩
        · exact ⟨hrun, Nat.le_of_succ_le hle⟩
      · rintro ⟨hrun, hle⟩
        rcases Nat.eq_or_lt_of_le hle with heq | hlt
        · exact .inl (hrun.eq_of_start_eq hhead heq.symm)
        · exact .inr ⟨hrun, hlt⟩

theorem nil (cs : List Char) : ReadsFrom cs cs.length ([], []) := by
  refine ⟨by simp [Span.text], Nat.le_refl _, ?_, fun h => absurd h (Nat.lt_irrefl _), [], rfl, .nil,
    ?_⟩
  · intro i hle hlt
    exact absurd hle (Nat.not_le_of_lt hlt)
  · intro run
    refine ⟨nofun, ?_⟩
    rintro ⟨hrun, hle⟩
    have hlt := hrun.start_lt
    have hstop := hrun.stop_le
    omega

/-- Nothing of a run is at a separator, and what has been read behind it is complete. -/
theorem of_separator (h : ReadsFrom cs (first + 1) read) (hsep : SeparatorAt cs first) :
    ReadsFrom cs first ([], consRun read.1 read.2) := by
  refine ⟨by simp [Span.text], ?_, ?_, fun _ => hsep, h.areRuns ?_⟩
  · have hle := h.le
    simp only [List.length_nil]
    omega
  · intro i hle hlt
    exact absurd hle (Nat.not_le_of_lt hlt)
  · intro i hi
    rwa [← Nat.succ.inj hi]

/-- Any other character belongs to the run behind it. -/
theorem of_not_separator (h : ReadsFrom cs (first + 1) read) (hc : cs[first]? = some c)
    (hnot : ¬ SeparatorAt cs first) : ReadsFrom cs first (c :: read.1, read.2) := by
  have hstop : first + (c :: read.1).length = first + 1 + read.1.length := by
    rw [List.length_cons]
    omega
  obtain ⟨runs, hwords, hsorted, hmem⟩ := h.later
  refine ⟨?_, hstop ▸ h.le, ?_, hstop ▸ h.behind, runs, hwords, hsorted, ?_⟩
  · have htext := h.text
    unfold Span.text at htext ⊢
    rw [Nat.add_sub_cancel_left] at htext ⊢
    rw [List.drop_eq_getElem?_toList_append, hc, Option.toList_some, List.singleton_append,
      List.length_cons, List.take_succ_cons, htext]
  · intro i hle hlt
    rcases Nat.eq_or_lt_of_le hle with rfl | hgt
    · exact hnot
    · exact h.notMem i hgt (hstop ▸ hlt)
  · intro run
    rw [hmem]
    refine and_congr_right fun hrun => ?_
    -- no run starts behind a character that does not separate
    have hne : run.start ≠ first + 1 := fun heq => hnot (hrun.before heq)
    omega

end ReadsFrom

/-- What the quotes in front of a character have opened and closed tells whether it separates. -/
theorem separates_foldl_iff (front rest : List Char) :
    separates (front.foldl quotedAfter false) c = true ↔
      SeparatorAt (front ++ c :: rest) front.length := by
  have hchar : (front ++ c :: rest)[front.length]? = some c := by simp
  unfold SeparatorAt
  rw [foldl_quotedAfter, Bool.false_bne, List.take_left, hchar]
  by_cases heven : Even (front.count quote)
  · have hodd : decide (Odd (front.count quote)) = false := by simpa using heven
    rw [hodd, separates_iff]
    simp [heven]
  · have hodd : decide (Odd (front.count quote)) = true := by simpa using heven
    rw [hodd]
    simp [separates, heven]

theorem readsFrom_runs (front rest : List Char) :
    ReadsFrom (front ++ rest) front.length (runs (front.foldl quotedAfter false) rest) := by
  -- the text stays the same while the characters go over to the front one by one
  induction rest generalizing front with
  | nil =>
    rw [List.append_nil]
    exact .nil front
  | cons c rest ih =>
    have hread := ih (front ++ [c])
    rw [List.append_assoc, List.singleton_append, List.length_append, List.length_singleton,
      List.foldl_append] at hread
    rw [runs_cons]
    split
    · next hsep => exact hread.of_separator ((separates_foldl_iff front rest).mp hsep)
    · next hsep =>
      refine hread.of_not_separator (by simp) ?_
      rwa [← separates_foldl_iff]

theorem areRuns_tokens (cs : List Char) : AreRuns cs 0 (tokens cs) :=
  (readsFrom_runs [] cs).areRuns nofun

/-! ## Operands written again -/

theorem runs_separators_append (hsep : Separators sep) (hne : sep ≠ []) (rest : List Char) :
    runs false (sep ++ rest) = ([], tokens rest) := by
  cases sep with
  | nil => exact absurd rfl hne
  | cons c sep =>
    obtain ⟨hc, hsep⟩ := List.forall_mem_cons.mp hsep
    have hseparates : separates false c = true := separates_iff.mpr hc
    rw [List.cons_append, runs_cons, if_pos hseparates, quotedAfter_of_separates hseparates,
      ← tokens_separators_append hsep rest]
    rfl

theorem runs_flatMap_consRun (hsep : Separators sep) (hne : sep ≠ []) {run : Token}
    (h : runs false (run ++ words.flatMap (sep ++ ·)) = (run, words)) :
    runs false ((consRun run words).flatMap (sep ++ ·)) = ([], consRun run words) := by
  by_cases hnil : run = []
  · subst hnil
    exact h
  · rw [consRun_of_ne_nil hnil, List.flatMap_cons, List.append_assoc,
      runs_separators_append hsep hne, tokens, h]
    simp only [consRun_of_ne_nil hnil]

/-- What is read of a text is read again with other separators between the runs. -/
theorem runs_flatMap (hsep : Separators sep) (hne : sep ≠ []) (quoted : Bool) (cs : List Char) :
    runs quoted ((runs quoted cs).1 ++ (runs quoted cs).2.flatMap (sep ++ ·)) = runs quoted cs := by
  induction cs generalizing quoted with
  | nil => rfl
  | cons c cs ih =>
    rw [runs_cons]
    split
    · next hseparates =>
      obtain rfl : quoted = false := by
        cases quoted with
        | false => rfl
        | true => cases hseparates
      rw [quotedAfter_of_separates hseparates]
      exact runs_flatMap_consRun hsep hne (ih false)
    · next hseparates =>
      rw [List.cons_append, runs_cons, if_neg hseparates, ih]

theorem tokens_flatMap_append (hsep : Separators sep) (hne : sep ≠ []) (cs : List Char) :
    tokens ((tokens cs).flatMap (sep ++ ·)) = tokens cs := by
  have hread := runs_flatMap_consRun hsep hne (runs_flatMap hsep hne false cs)
  unfold tokens
  simp only [hread]
  rfl

theorem append_intercalate (hne : words ≠ []) :
    sep ++ sep.intercalate words = words.flatMap (sep ++ ·) := by
  induction words with
  | nil => exact absurd rfl hne
  | cons word words ih =>
    cases words with
    | nil => simp
    | cons word' words =>
      rw [List.intercalate_cons_cons, List.flatMap_cons, ← ih (List.cons_ne_nil _ _)]
      simp only [List.append_assoc]

/-- **Operands that are written again.** Whatever separators are put between the operands of a text,
they are its operands. -/
theorem tokens_intercalate (hsep : Separators sep) (hne : sep ≠ []) (cs : List Char) :
    tokens (sep.intercalate (tokens cs)) = tokens cs := by
  by_cases hnil : tokens cs = []
  · rw [hnil]
    rfl
  · rw [← tokens_separators_append hsep, append_intercalate hnil, tokens_flatMap_append hsep hne]

/-! ## Operands -/

namespace AreRuns

theorem nil_notMem (h : AreRuns cs first words) : [] ∉ words := by
  obtain ⟨runs, rfl, -, hmem⟩ := h
  intro hnil
  obtain ⟨run, hrun, htext⟩ := List.mem_map.mp hnil
  have hmaximal := ((hmem run).mp hrun).1
  have hlt := hmaximal.start_lt
  have hle := hmaximal.stop_le
  have hlength := congrArg List.length htext
  rw [Span.text, List.length_take, List.length_drop, List.length_nil] at hlength
  omega

/-- The first of two runs ends before the other one starts. -/
theorem exists_spans (h : AreRuns cs 0 words) :
    ∃ runs : List Span, words = runs.map (·.text cs) ∧ (∀ run, run ∈ runs ↔ MaximalRun cs run) ∧
      runs.Pairwise (fun run later => run.stop < later.start) := by
  obtain ⟨runs, hwords, hsorted, hmem⟩ := h
  have hmaximal : ∀ run, run ∈ runs ↔ MaximalRun cs run := by
    intro run
    rw [hmem, and_iff_left (Nat.zero_le _)]
  refine ⟨runs, hwords, hmaximal, hsorted.imp_of_mem ?_⟩
  intro run later hrun hlater hlt
  exact ((hmaximal run).mp hrun).stop_lt_start ((hmaximal later).mp hlater) hlt

end AreRuns

section Apart

variable {runs : List Span} {k k' : Nat}

theorem not_lt_of_covers (hapart : runs.Pairwise (fun run later => run.stop < later.start))
    (hk : runs[k]? = some run) (hi : run.Covers i) (hk' : runs[k']? = some run')
    (hi' : run'.Covers i) : ¬ k < k' := by
  intro hlt
  obtain ⟨hlength, rfl⟩ := List.getElem?_eq_some_iff.mp hk
  obtain ⟨hlength', rfl⟩ := List.getElem?_eq_some_iff.mp hk'
  have hbetween := List.pairwise_iff_getElem.mp hapart k k' hlength hlength' hlt
  have hstop := hi.2
  have hstart := hi'.1
  omega

/-- An index is in one piece at most, if the pieces stand apart. -/
theorem eq_of_covers (hapart : runs.Pairwise (fun run later => run.stop < later.start))
    (hk : runs[k]? = some run) (hi : run.Covers i) (hk' : runs[k']? = some run')
    (hi' : run'.Covers i) : k = k' :=
  Nat.le_antisymm (Nat.le_of_not_lt (not_lt_of_covers hapart hk' hi' hk hi))
    (Nat.le_of_not_lt (not_lt_of_covers hapart hk hi hk' hi'))

end Apart

/-- **Operands are the maximal runs.** The operands of a text are the characters of its maximal runs
without separators, in the order in which they stand there. So none of them is empty, and each
character that does not separate is in exactly one of them, while a separator is in none. Written
again with a comma and a blank between them they are the same operands, and none of this depends on
the quotes being closed. -/
theorem tokens_maximalRuns (cs : List Char) :
    (∃ runs : List Span, tokens cs = runs.map (·.text cs) ∧
        (∀ run, run ∈ runs ↔ MaximalRun cs run) ∧
        runs.Pairwise (fun run later => run.stop < later.start) ∧
        ∀ i, (i < cs.length ∧ ¬ SeparatorAt cs i) ↔
          ∃! k : Nat, ∃ run, runs[k]? = some run ∧ run.Covers i) ∧
      [] ∉ tokens cs ∧
      tokens ([',', ' '].intercalate (tokens cs)) = tokens cs := by
  obtain ⟨runs, hwords, hmem, hapart⟩ := (areRuns_tokens cs).exists_spans
  refine ⟨⟨runs, hwords, hmem, hapart, fun i => ⟨?_, ?_⟩⟩, (areRuns_tokens cs).nil_notMem,
    tokens_intercalate (by decide) (by decide) cs⟩
  · rintro ⟨hlt, hnot⟩
    obtain ⟨run, hrun, hcovers⟩ := exists_covers hlt hnot
    obtain ⟨k, hk⟩ := List.getElem?_of_mem ((hmem run).mpr hrun)
    refine ⟨k, ⟨run, hk, hcovers⟩, ?_⟩
    rintro k' ⟨run', hk', hcovers'⟩
    exact eq_of_covers hapart hk' hcovers' hk hcovers
  · rintro ⟨k, ⟨run, hk, hcovers⟩, -⟩
    have hrun := (hmem run).mp (List.mem_of_getElem? hk)
    exact ⟨Nat.lt_of_lt_of_le hcovers.2 hrun.stop_le, hrun.notMem i hcovers⟩

/-- The quote in front of the last operand is left open. -/
example : tokens "A0,, ','  'a, b".toList = ["A0".toList, "','".toList, "'a, b".toList] := by decide

end Octet.Assembly
