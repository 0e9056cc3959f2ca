import Mathlib.Algebra.Ring.Parity
import Octet.Assembly.Line
import Octet.Proofs.Reading.Blank

/-!
# Lines and their comments

* `splitLines_append` — a line feed splits a text in two, whose lines are its lines.
* `IsLine`, `exists_lines` — one line of a text can be changed without touching the others.
* `beforeComment_append` — what stands behind a line is read as the quotes before it say. A line
  whose quotes are all closed is not changed by a comment (`read?_comment`); where a quote is left
  open, a mark is a character like any other (`beforeComment_append_of_endsQuoted`).
-/

namespace Octet.Assembly

open Text (Blanks isBlank)

variable {marks cs line front back gap rest tail : List Char} {quoted : Bool} {number : Nat}

/-! ## Splitting at line feeds -/

theorem splitLines_ne_nil (cs : List Char) : splitLines cs ≠ [] := by
  cases cs with
  | nil => exact List.cons_ne_nil _ _
  | cons c cs =>
    unfold splitLines
    split
    · exact List.cons_ne_nil _ _
    · split <;> exact List.cons_ne_nil _ _

/-- A line feed splits a text in two. -/
theorem splitLines_append (cs rest : List Char) :
    splitLines (cs ++ '\n' :: rest) = splitLines cs ++ splitLines rest := by
  induction cs with
  | nil => rfl
  | cons c cs ih =>
    rw [List.cons_append, splitLines, splitLines, ih]
    split
    · rfl
    · cases hlines : splitLines cs with
      | nil => exact absurd hlines (splitLines_ne_nil cs)
      | cons l ls => rfl

theorem splitLines_of_notMem (h : '\n' ∉ cs) : splitLines cs = [cs] := by
  induction cs with
  | nil => rfl
  | cons c cs ih =>
    rw [List.mem_cons, not_or] at h
    rw [splitLines, if_neg (Ne.symm h.1), ih h.2]

theorem linesFrom_append (marks : List Char) (number : Nat) (raws raws' : List (List Char)) :
    linesFrom marks number (raws ++ raws') =
      linesFrom marks number raws ++ linesFrom marks (number + raws.length) raws' := by
  induction raws generalizing number with
  | nil => rfl
  | cons raw rest ih =>
    rw [List.cons_append, linesFrom, linesFrom, ih, List.length_cons, Nat.add_right_comm number 1,
      ← Nat.add_assoc]
    split <;> rfl

theorem linesFrom_cons (marks : List Char) (number : Nat) (raw : List Char)
    (raws : List (List Char)) :
    linesFrom marks number (raw :: raws) =
      (Line.read? marks number raw).toList ++ linesFrom marks (number + 1) raws := by
  rw [linesFrom]
  cases Line.read? marks number raw <;> rfl

/-- A line counts under the number of its place. -/
theorem mem_linesFrom_iff {read : Line} {raws : List (List Char)} :
    read ∈ linesFrom marks number raws ↔
      ∃ k raw, raws[k]? = some raw ∧ Line.read? marks (number + k) raw = some read := by
  induction raws generalizing number with
  | nil => simp [linesFrom]
  | cons first rest ih =>
    rw [linesFrom_cons, List.mem_append, Option.mem_toList, ih]
    constructor
    · rintro (hfirst | ⟨k, raw, hraw, hread⟩)
      · exact ⟨0, first, rfl, hfirst⟩
      · exact ⟨k + 1, raw, hraw, by rwa [Nat.add_comm k, ← Nat.add_assoc]⟩
    · rintro ⟨_ | k, raw, hraw, hread⟩
      · obtain rfl := Option.some.inj hraw
        exact .inl hread
      · exact .inr ⟨k, raw, hraw, by rwa [Nat.add_assoc, Nat.add_comm 1]⟩

/-- Where every line counts, the lines that count are all of them. -/
theorem getElem?_linesFrom {raws : List (List Char)}
    (h : ∀ raw ∈ raws, ∀ number, (Line.read? marks number raw).isSome) (k : Nat) :
    (linesFrom marks number raws)[k]? = raws[k]?.bind (Line.read? marks (number + k)) := by
  induction raws generalizing number k with
  | nil => rfl
  | cons first rest ih =>
    rw [List.forall_mem_cons] at h
    obtain ⟨line, hline⟩ := Option.isSome_iff_exists.mp (h.1 number)
    rw [linesFrom_cons, hline]
    cases k with
    | zero => exact hline.symm
    | succ k =>
      rw [Nat.add_comm k, ← Nat.add_assoc, Nat.add_comm 1]
      exact ih h.2 k

theorem length_linesFrom {raws : List (List Char)}
    (h : ∀ raw ∈ raws, ∀ number, (Line.read? marks number raw).isSome) :
    (linesFrom marks number raws).length = raws.length := by
  induction raws generalizing number with
  | nil => rfl
  | cons first rest ih =>
    rw [List.forall_mem_cons] at h
    obtain ⟨line, hline⟩ := Option.isSome_iff_exists.mp (h.1 number)
    rw [linesFrom_cons, hline]
    exact congrArg (· + 1) (ih h.2)

theorem splitLines_intercalate {raws : List (List Char)} (hne : raws ≠ [])
    (h : ∀ raw ∈ raws, '\n' ∉ raw) : splitLines (['\n'].intercalate raws) = raws := by
  induction raws with
  | nil => exact absurd rfl hne
  | cons first rest ih =>
    rw [List.forall_mem_cons] at h
    cases rest with
    | nil => rw [List.intercalate_singleton, splitLines_of_notMem h.1]
    | cons second rest =>
      rw [List.intercalate_cons_cons, List.append_assoc, List.singleton_append,
        splitLines_append, splitLines_of_notMem h.1, ih (List.cons_ne_nil _ _) h.2]
      rfl

/-- Lines that are joined by line feeds are the lines of the whole. -/
theorem lines_intercalate {raws : List (List Char)} (h : ∀ raw ∈ raws, '\n' ∉ raw)
    (marks : List Char) : lines marks (['\n'].intercalate raws) = linesFrom marks 1 raws := by
  cases raws with
  | nil => rfl
  | cons first rest => rw [lines, splitLines_intercalate (List.cons_ne_nil _ _) h]

/-- `line` is one of the lines of the text `front ++ line ++ back`: it starts where the text does or
behind a line feed, and ends where the text does or where a line can end. -/
structure IsLine (front line back : List Char) : Prop where
  starts : front = [] ∨ ∃ cs, front = cs ++ ['\n']
  single : '\n' ∉ line
  ends : back = [] ∨ (∃ rest, back = '\n' :: rest) ∨ ∃ rest, back = '\r' :: '\n' :: rest

/-- What stands between a line and its line feed. -/
def LineEnding (cs : List Char) : Prop :=
  cs = [] ∨ cs = ['\r']

theorem LineEnding.blanks (h : LineEnding gap) : Blanks gap := by
  rcases h with rfl | rfl
  · exact .nil
  · exact .singleton (by decide)

theorem IsLine.exists_front (h : IsLine front line back) :
    ∃ before, (∀ rest, splitLines (front ++ rest) = before ++ splitLines rest) ∧
      ∀ marks, lines marks front = linesFrom marks 1 before := by
  rcases h.starts with rfl | ⟨cs, rfl⟩
  · exact ⟨[], fun _ => rfl, fun _ => rfl⟩
  · refine ⟨splitLines cs, ?_, ?_⟩
    · intro rest
      rw [List.append_assoc, List.singleton_append, splitLines_append]
    · intro marks
      rw [lines, splitLines_append, linesFrom_append]
      exact List.append_nil _

theorem IsLine.exists_back (h : IsLine front line back) :
    ∃ ending after, LineEnding ending ∧
      ∀ line', '\n' ∉ line' → splitLines (line' ++ back) = (line' ++ ending) :: after := by
  rcases h.ends with rfl | ⟨rest, rfl⟩ | ⟨rest, rfl⟩
  · refine ⟨[], [], .inl rfl, fun line' hline' => ?_⟩
    rw [List.append_nil, splitLines_of_notMem hline']
  · refine ⟨[], splitLines rest, .inl rfl, fun line' hline' => ?_⟩
    rw [List.append_nil, splitLines_append, splitLines_of_notMem hline']
    rfl
  · refine ⟨['\r'], splitLines rest, .inr rfl, fun line' hline' => ?_⟩
    have hnot : '\n' ∉ line' ++ ['\r'] := by simpa using hline'
    rw [List.append_cons, splitLines_append, splitLines_of_notMem hnot]
    rfl

/-- A line can be replaced without a change to the lines before and after it. -/
theorem IsLine.exists_lines (h : IsLine front line back) (marks : List Char) :
    ∃ number ending after, LineEnding ending ∧
      ∀ line', '\n' ∉ line' →
        lines marks (front ++ line' ++ back) =
          lines marks front ++ (Line.read? marks number (line' ++ ending)).toList ++ after := by
  obtain ⟨before, hbefore, hfront⟩ := h.exists_front
  obtain ⟨ending, after, hending, hafter⟩ := h.exists_back
  refine ⟨1 + before.length, ending, linesFrom marks (1 + before.length + 1) after, hending, ?_⟩
  intro line' hline'
  rw [hfront, List.append_assoc, lines, hbefore, hafter line' hline', linesFrom_append,
    linesFrom_cons, List.append_assoc]

/-! ## Comments -/

theorem beforeComment_of_notMem (h : ∀ c ∈ cs, c ∉ marks) :
    beforeComment marks quoted cs = cs := by
  induction cs generalizing quoted with
  | nil => rfl
  | cons c cs ih =>
    have hc : c ∉ marks := h c List.mem_cons_self
    rw [beforeComment, if_neg (by simp [hc]), ih fun d hd => h d (List.mem_cons_of_mem c hd)]

theorem foldl_quotedAfter_of_notMem (h : quote ∉ cs) : cs.foldl quotedAfter quoted = quoted := by
  induction cs generalizing quoted with
  | nil => rfl
  | cons c cs ih =>
    rw [List.mem_cons, not_or] at h
    rw [List.foldl_cons, quotedAfter, if_neg (Ne.symm h.1), ih h.2]

theorem prefix_beforeComment (marks : List Char) (quoted : Bool) (cs : List Char) :
    beforeComment marks quoted cs <+: cs := by
  induction cs generalizing quoted with
  | nil => exact List.nil_prefix
  | cons c cs ih =>
    rw [beforeComment]
    split
    · exact List.nil_prefix
    · exact (List.prefix_cons_inj c).mpr (ih _)

theorem not_blanks_of_read? {raw : List Char} {read : Line}
    (h : Line.read? marks number raw = some read) : ¬ Blanks raw := by
  intro hblanks
  have hnil : Text.trim (beforeComment marks false raw) = [] :=
    Text.trim_eq_nil_iff.mpr fun c hc => hblanks c ((prefix_beforeComment marks false raw).subset hc)
  simp [Line.read?, hnil] at h

/-- Every quote opens or closes. -/
theorem foldl_quotedAfter (quoted : Bool) (cs : List Char) :
    cs.foldl quotedAfter quoted = (quoted != decide (Odd (cs.count quote))) := by
  induction cs generalizing quoted with
  | nil => simp
  | cons c cs ih =>
    rw [List.foldl_cons, ih, quotedAfter]
    by_cases hc : c = quote
    · subst hc
      rw [if_pos rfl, List.count_cons_self]
      by_cases hodd : Odd (cs.count quote)
      · simp [hodd, Nat.odd_add_one]
      · simp [hodd, Nat.odd_add_one]
    · rw [if_neg hc, List.count_cons_of_ne hc]

theorem beforeComment_of_quoted (h : quote ∉ cs) : beforeComment marks true cs = cs := by
  induction cs with
  | nil => rfl
  | cons c cs ih =>
    rw [List.mem_cons, not_or] at h
    rw [beforeComment, quotedAfter, if_neg (Ne.symm h.1), ih h.2]
    rfl

/-- Text behind a line that has no comment is read as the quotes on the line say. -/
theorem beforeComment_append (h : beforeComment marks quoted cs = cs) :
    beforeComment marks quoted (cs ++ rest) =
      cs ++ beforeComment marks (cs.foldl quotedAfter quoted) rest := by
  induction cs generalizing quoted with
  | nil => rfl
  | cons c cs ih =>
    rw [beforeComment] at h
    split at h
    · cases h
    · next hmark =>
      rw [List.cons_append, beforeComment, if_neg hmark, ih (List.cons.inj h).2]
      rfl

/-- The comment starts behind `front` exactly if it starts neither in `front` nor before its place
in the rest. -/
theorem beforeComment_append_eq_iff :
    beforeComment marks quoted (front ++ rest) = front ++ tail ↔
      beforeComment marks quoted front = front ∧
        beforeComment marks (front.foldl quotedAfter quoted) rest = tail := by
  induction front generalizing quoted with
  | nil => simp [beforeComment]
  | cons c front ih =>
    rw [List.cons_append, List.cons_append, beforeComment, beforeComment, List.foldl_cons]
    split
    · simp
    · rw [List.cons_inj_right, List.cons_inj_right, ih]

/-- Text behind a comment belongs to it. -/
theorem beforeComment_append_of_ne (h : beforeComment marks quoted cs ≠ cs) :
    beforeComment marks quoted (cs ++ rest) = beforeComment marks quoted cs := by
  induction cs generalizing quoted with
  | nil => exact absurd rfl h
  | cons c cs ih =>
    rw [beforeComment] at h
    rw [List.cons_append, beforeComment, beforeComment]
    split at h
    · next hmark => rw [if_pos hmark, if_pos hmark]
    · next hmark =>
      rw [if_neg hmark, if_neg hmark, ih fun heq => h (congrArg (c :: ·) heq)]

/-- Comments start outside of quotes. -/
theorem foldl_beforeComment_of_ne (h : beforeComment marks quoted cs ≠ cs) :
    (beforeComment marks quoted cs).foldl quotedAfter quoted = false := by
  induction cs generalizing quoted with
  | nil => exact absurd rfl h
  | cons c cs ih =>
    rw [beforeComment] at h ⊢
    split at h
    · next hmark =>
      rw [if_pos hmark]
      rw [Bool.and_eq_true, Bool.not_eq_true'] at hmark
      exact hmark.1
    · next hmark =>
      rw [if_neg hmark]
      exact ih fun heq => h (congrArg (c :: ·) heq)

/-- Whether a quote that is opened on a line is left open. -/
def endsQuoted (marks line : List Char) : Bool :=
  (beforeComment marks false line).foldl quotedAfter false

/-- It is if the number of quotes is odd. -/
theorem endsQuoted_iff :
    endsQuoted marks line = true ↔ Odd ((beforeComment marks false line).count quote) := by
  unfold endsQuoted
  rw [foldl_quotedAfter]
  simp

/-- Where a quote is left open there is no comment. -/
theorem beforeComment_of_endsQuoted (h : endsQuoted marks line = true) :
    beforeComment marks false line = line := by
  by_contra hne
  have hend : endsQuoted marks line = false := foldl_beforeComment_of_ne hne
  cases hend.symm.trans h

/-- A mark behind it starts none either. -/
theorem beforeComment_append_of_endsQuoted (h : endsQuoted marks line = true)
    (rest : List Char) :
    beforeComment marks false (line ++ rest) = line ++ beforeComment marks true rest := by
  have hall := beforeComment_of_endsQuoted h
  unfold endsQuoted at h
  rw [hall] at h
  rw [beforeComment_append hall, h]

/-- Blanks at the end of a line do not count. -/
theorem read?_append_blanks (hgap : Blanks gap) (hmarks : ∀ c ∈ gap, c ∉ marks) :
    Line.read? marks number (line ++ gap) = Line.read? marks number line := by
  unfold Line.read?
  by_cases hall : beforeComment marks false line = line
  · rw [beforeComment_append hall, hall, beforeComment_of_notMem hmarks,
      Text.trim_append_blanks line hgap]
  · rw [beforeComment_append_of_ne hall]

/-- **A comment does not count**, if no quote is open before it. -/
theorem read?_comment (hmark : ';' ∈ marks) (hblank : ' ' ∉ marks)
    (h : endsQuoted marks line = false) :
    Line.read? marks number (line ++ ' ' :: ';' :: rest) = Line.read? marks number line := by
  unfold Line.read?
  by_cases hall : beforeComment marks false line = line
  · unfold endsQuoted at h
    rw [hall] at h
    have hcut : beforeComment marks false (' ' :: ';' :: rest) = [' '] := by
      simp [beforeComment, quotedAfter, quote, hmark, hblank]
    rw [beforeComment_append hall, h, hcut, hall,
      Text.trim_append_blanks line (.singleton (by decide))]
  · rw [beforeComment_append_of_ne hall]

/-! ## The parts of a line -/

theorem eq_of_labelOf? {word name : Token} (h : labelOf? word = some name) : word = name ++ [':'] := by
  unfold labelOf? at h
  split at h
  · next hlast =>
    obtain ⟨front, rfl⟩ := List.getLast?_eq_some_iff.mp hlast
    rw [List.dropLast_concat] at h
    rw [Option.some.inj h]
  · cases h

theorem read?_of_code {raw code : List Char}
    (h : Text.trim (beforeComment marks false raw) = code) (hne : code ≠ []) :
    Line.read? marks number raw = some (.ofCode number code) := by
  subst h
  exact if_neg (by simpa using hne)

/-- A line whose first word is no label. -/
theorem Line.ofCode_of_word {code word : List Char} (hsplit : Text.splitWord code = (word, rest))
    (hlabel : labelOf? word = none) :
    Line.ofCode number code =
      { number, label := none, operands := rest
        mnemonic := if word.isEmpty then none else some (Text.upper word) } := by
  simp only [Line.ofCode, hsplit, hlabel, Option.isSome_none, Bool.false_eq_true, if_false]

/-- A line whose first word is a label. -/
theorem Line.ofCode_of_label {code word body name mnemonic operands : List Char}
    (hsplit : Text.splitWord code = (word, body)) (hlabel : labelOf? word = some name)
    (hbody : Text.splitWord body = (mnemonic, operands)) :
    Line.ofCode number code =
      { number, label := some name, operands
        mnemonic := if mnemonic.isEmpty then none else some (Text.upper mnemonic) } := by
  simp only [Line.ofCode, hsplit, hlabel, hbody, Option.isSome_some, if_true]

end Octet.Assembly
