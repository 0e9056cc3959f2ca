import Octet.Proofs.Reading.Lines
import Octet.Proofs.Reading.Tokens

/-!
# Comments behind an open quote

Where a quote is left open on a line, what is meant for a comment is read as more of the line
(`read?_of_endsQuoted`): it becomes a mnemonic where there was none, and otherwise more operands
(`Extended`).
-/

namespace Octet.Assembly

open Text (Blanks Trimmed splitWord isBlank)

variable {marks code gap rest line : List Char} {number : Nat} {name : Token}

/-! ## The parts of a longer line -/

/-- A text with nothing but blanks between it and a mark, and then more text. There are no blanks if
the text is empty. -/
def Extends (cs longer : List Char) : Prop :=
  ∃ gap rest, Blanks gap ∧ (gap = [] ↔ cs = []) ∧ longer = cs ++ gap ++ ';' :: rest

/-- What becomes of a line if text that starts with a mark is read as more of it. -/
structure Line.Extended (line longer : Line) : Prop where
  label : longer.label = line.label
  word : line.mnemonic = none → ∃ word, longer.mnemonic = some (';' :: word)
  mnemonic : ∀ mnemonic, line.mnemonic = some mnemonic →
    longer.mnemonic = some mnemonic ∧ Extends line.operands longer.operands

theorem splitWord_fst_ne_nil (h : Trimmed code) (hne : code ≠ []) : (splitWord code).1 ≠ [] := by
  obtain ⟨c, rest, rfl⟩ := List.exists_cons_of_ne_nil hne
  have hc : isBlank c = false := h.head c rfl
  simp [splitWord, hc]

theorem splitWord_mark (rest : List Char) :
    ∃ word, (splitWord (';' :: rest)).1 = ';' :: word := by
  have hmark : (!isBlank ';') = true := by decide
  unfold splitWord
  rw [List.takeWhile_cons, if_pos hmark]
  exact ⟨_, rfl⟩

theorem ofCode_extended (h : Trimmed code) (hcode : code ≠ []) (hgap : Blanks gap) (hne : gap ≠ [])
    (hrest : Trimmed (';' :: rest)) :
    (Line.ofCode number code).Extended (Line.ofCode number (code ++ gap ++ ';' :: rest)) := by
  obtain ⟨gap', hgap', hempty, hsplit⟩ := h.splitWord_append hgap hne hrest (List.cons_ne_nil _ _)
  have hword := splitWord_fst_ne_nil h hcode
  generalize hparts : splitWord code = parts at hword hempty hsplit
  obtain ⟨word, body⟩ := parts
  cases hlabel : labelOf? word with
  | none =>
    rw [Line.ofCode_of_word hparts hlabel, Line.ofCode_of_word hsplit hlabel]
    refine ⟨rfl, ?_, ?_⟩
    · intro hmnemonic
      simp [hword] at hmnemonic
    · intro mnemonic hmnemonic
      exact ⟨hmnemonic, gap', rest, hgap', hempty, rfl⟩
  | some name =>
    have hbody : Trimmed body := by
      have htrim : Trimmed (splitWord code).2 := Text.trimmed_trim _
      rwa [hparts] at htrim
    by_cases hnil : body = []
    · -- there is nothing behind the label, so the mark starts the mnemonic
      obtain ⟨word', hword'⟩ := splitWord_mark rest
      rw [hnil, hempty.mpr hnil] at hsplit
      rw [hnil] at hparts
      rw [Line.ofCode_of_label hparts hlabel rfl, Line.ofCode_of_label hsplit hlabel rfl]
      refine ⟨rfl, fun _ => ⟨Text.upper word', ?_⟩, ?_⟩
      · show (if (splitWord (';' :: rest)).1.isEmpty then none
          else some (Text.upper (splitWord (';' :: rest)).1)) = _
        rw [hword']
        rfl
      · intro mnemonic hmnemonic
        cases hmnemonic
    · obtain ⟨gap'', hgap'', hempty', hsplit'⟩ :=
        hbody.splitWord_append hgap' (mt hempty.mp hnil) hrest (List.cons_ne_nil _ _)
      have hword' := splitWord_fst_ne_nil hbody hnil
      generalize hparts' : splitWord body = parts' at hword' hempty' hsplit'
      obtain ⟨word', operands⟩ := parts'
      have hmnemonic : ¬ word'.isEmpty = true := by simpa using hword'
      rw [Line.ofCode_of_label hparts hlabel hparts', Line.ofCode_of_label hsplit hlabel hsplit',
        if_neg hmnemonic]
      refine ⟨rfl, ?_, ?_⟩
      · intro hnone
        cases hnone
      · intro mnemonic hsome
        exact ⟨hsome, gap'', rest, hgap'', hempty', rfl⟩

/-- The blanks at the ends of a text that starts with a mark are behind the mark. -/
theorem exists_trimmed_mark (more : List Char) :
    ∃ rest back, Blanks back ∧ ';' :: more = ';' :: rest ++ back ∧ Trimmed (';' :: rest) := by
  obtain ⟨front, back, hfront, hback, hparts, htrimmed⟩ := Text.exists_trim (';' :: more)
  have hmark : isBlank ';' = false := by decide
  have hnil : front = [] := by
    cases front with
    | nil => rfl
    | cons b front =>
      rw [List.cons_append, List.cons_append] at hparts
      have hb := hfront b List.mem_cons_self
      rw [← (List.cons.inj hparts).1, hmark] at hb
      cases hb
  subst hnil
  cases htext : Text.trim (';' :: more) with
  | nil =>
    have hb := Text.trim_eq_nil_iff.mp htext ';' List.mem_cons_self
    rw [hmark] at hb
    cases hb
  | cons c rest =>
    rw [htext] at hparts htrimmed
    obtain rfl : ';' = c := (List.cons.inj hparts).1
    exact ⟨rest, back, hback, hparts, htrimmed⟩

/-- A line that leaves a quote open is read with what stands behind it. -/
theorem read?_of_endsQuoted (h : endsQuoted marks line = true) (number : Nat) (more : List Char) :
    ∃ read longer, Line.read? marks number line = some read ∧
      Line.read? marks number (line ++ ' ' :: ';' :: more) = some longer ∧ read.Extended longer := by
  have hline := beforeComment_of_endsQuoted h
  have hlonger := beforeComment_append_of_endsQuoted h (' ' :: ';' :: more)
  rw [show beforeComment marks true (' ' :: ';' :: more) =
    ' ' :: ';' :: beforeComment marks true more from rfl] at hlonger
  obtain ⟨front, back, hfront, hback, hparts, hcode⟩ := Text.exists_trim line
  obtain ⟨rest, back', hback', hmore, hrest⟩ :=
    exists_trimmed_mark (beforeComment marks true more)
  have hne : Text.trim line ≠ [] := by
    intro hnil
    have hquote : quote ∉ line := by
      intro hmem
      have hblank := Text.trim_eq_nil_iff.mp hnil quote hmem
      exact absurd hblank (by decide)
    unfold endsQuoted at h
    rw [hline, foldl_quotedAfter_of_notMem hquote] at h
    cases h
  have hgap : Blanks (back ++ [' ']) := hback.append (.singleton (by decide))
  have hwhole : Trimmed (Text.trim line ++ (back ++ [' ']) ++ ';' :: rest) :=
    hcode.append hne hrest (List.cons_ne_nil _ _) _
  have htrim : Text.trim (beforeComment marks false (line ++ ' ' :: ';' :: more)) =
      Text.trim line ++ (back ++ [' ']) ++ ';' :: rest := by
    calc Text.trim (beforeComment marks false (line ++ ' ' :: ';' :: more))
        = Text.trim (line ++ ' ' :: (';' :: rest ++ back')) := by rw [hlonger, hmore]
      _ = Text.trim (front ++ (Text.trim line ++ (back ++ [' ']) ++ ';' :: rest) ++ back') := by
          congr 1
          conv_lhs => rw [hparts]
          simp
      _ = Text.trim line ++ (back ++ [' ']) ++ ';' :: rest := Text.trim_eq hfront hback' hwhole
  refine ⟨_, _, read?_of_code (by rw [hline]) hne, read?_of_code htrim (by simp), ?_⟩
  exact ofCode_extended hcode hne hgap (by simp) hrest

/-! ## Labels -/

/-- The first character on a line that is not blank is no mark. -/
theorem notMem_of_beforeComment {raw front : List Char} {c : Char}
    (h : beforeComment marks false raw = front ++ c :: rest) (hfront : Blanks front) :
    c ∉ marks := by
  induction front generalizing raw with
  | nil =>
    cases raw with
    | nil => cases h
    | cons d raw =>
      rw [beforeComment] at h
      split at h
      · cases h
      · next hmark =>
        obtain rfl : d = c := (List.cons.inj h).1
        simpa using hmark
  | cons b front ih =>
    cases raw with
    | nil => cases h
    | cons d raw =>
      rw [beforeComment] at h
      split at h
      · cases h
      · obtain ⟨hd, hrest⟩ := List.cons.inj h
        have hquote : d ≠ quote := by
          rintro rfl
          have hblank := hfront b List.mem_cons_self
          rw [← hd] at hblank
          exact absurd hblank (by decide)
        rw [quotedAfter, if_neg hquote] at hrest
        exact ih hrest fun c hc => hfront c (List.mem_cons_of_mem b hc)

/-- No label has a blank in it, or starts with the mark of a comment. -/
theorem not_marked_label {raw : List Char} {read : Line} (hmark : ';' ∈ marks)
    (hread : Line.read? marks number raw = some read) (hname : read.label = some name) :
    ¬ Marked name := by
  obtain ⟨front, back, hfront, _, hparts, _⟩ := Text.exists_trim (beforeComment marks false raw)
  unfold Line.read? at hread
  simp only at hread
  generalize Text.trim (beforeComment marks false raw) = code at hparts hread
  split at hread
  · cases hread
  · obtain rfl := Option.some.inj hread
    obtain ⟨word, rest, hsolid, _, rfl, hsplit⟩ := Text.exists_splitWord code
    have hlabel : labelOf? word = some name := by
      simp only [Line.ofCode, hsplit] at hname
      exact hname
    rw [eq_of_labelOf? hlabel] at hsolid hparts
    rintro (hhead | ⟨⟨b, hb, hblank⟩, _⟩)
    · obtain ⟨more, rfl⟩ := List.head?_eq_some_iff.mp hhead
      rw [List.append_assoc, List.append_assoc, List.cons_append, List.cons_append] at hparts
      exact notMem_of_beforeComment hparts hfront hmark
    · have hnot := hsolid b (List.mem_append_left _ hb)
      rw [hblank] at hnot
      cases hnot

end Octet.Assembly
