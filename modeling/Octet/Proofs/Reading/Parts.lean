import Octet.Proofs.Reading.Lines

/-!
# The parts of a line, as they are written

A line is written as blanks, a label with a colon, blanks, a mnemonic, operands and a comment, and
most of it may be left out. `Introduces` is what may stand in front of a mnemonic, and `HasParts` are
the parts of a line that has one. They fix what the line is read as (`HasParts.read?`).

What is written in another case of letters has its blanks, quotes and marks in the same places
(`Solid.of_upper`, `beforeComment_of_upper`).
-/

namespace Octet

namespace Text

variable {cs cs' gap word rest : List Char} {c d : Char}

/-! ## Case -/

theorem toNat_toUpper (c : Char) :
    c.toUpper.toNat = if 97 ≤ c.toNat ∧ c.toNat ≤ 122 then c.toNat - 32 else c.toNat := by
  unfold Char.toUpper
  split
  · next h =>
    have hlower : 97 ≤ c.toNat ∧ c.toNat ≤ 122 := h
    have hsum : (c.val + ('A'.val - 'a'.val)).toNat = (c.toNat + 4294967264) % 2 ^ 32 :=
      UInt32.toNat_add ..
    rw [if_pos hlower]
    show (c.val + ('A'.val - 'a'.val)).toNat = _
    rw [hsum]
    omega
  · next h => exact (if_neg (show ¬ (97 ≤ c.toNat ∧ c.toNat ≤ 122) from h)).symm

theorem isAlpha_iff :
    c.isAlpha = true ↔ 65 ≤ c.toNat ∧ c.toNat ≤ 90 ∨ 97 ≤ c.toNat ∧ c.toNat ≤ 122 := by
  have hupper : c.isUpper = true ↔ 65 ≤ c.toNat ∧ c.toNat ≤ 90 := decide_eq_true_iff
  have hlower : c.isLower = true ↔ 97 ≤ c.toNat ∧ c.toNat ≤ 122 := by
    show (decide (97 ≤ c.val) && decide (c.val ≤ 122)) = true ↔ _
    rw [Bool.and_eq_true, decide_eq_true_eq, decide_eq_true_eq]
    exact Iff.rfl
  show (c.isUpper || c.isLower) = true ↔ _
  rw [Bool.or_eq_true, hupper, hlower]

theorem isDigit_iff : c.isDigit = true ↔ 48 ≤ c.toNat ∧ c.toNat ≤ 57 := by
  simp only [Char.isDigit, Bool.and_eq_true, decide_eq_true_eq]
  exact Iff.rfl

theorem isBlank_of_isAlphanum (h : c.isAlphanum = true) : isBlank c = false := by
  rw [Char.isAlphanum, Bool.or_eq_true, isAlpha_iff, isDigit_iff] at h
  rw [Bool.eq_false_iff]
  simp [isBlank, blankRanges]
  omega

/-- A character that is no letter is not the upper case of another one. -/
theorem toUpper_eq_iff (h : d.isAlpha = false) : c.toUpper = d ↔ c = d := by
  rw [Bool.eq_false_iff, Ne, isAlpha_iff] at h
  rw [← Char.toNat_inj, ← Char.toNat_inj, toNat_toUpper]
  split <;> omega

theorem isAlpha_of_isBlank (h : isBlank c = true) : c.isAlpha = false := by
  rw [Bool.eq_false_iff]
  intro halpha
  have hsolid := isBlank_of_isAlphanum (c := c) (by simp [Char.isAlphanum, halpha])
  cases h.symm.trans hsolid

@[simp]
theorem upper_upper (cs : List Char) : upper (upper cs) = upper cs := by
  unfold upper
  rw [List.map_map]
  refine List.map_congr_left fun c _ => ?_
  show c.toUpper.toUpper = c.toUpper
  rw [← Char.toNat_inj, toNat_toUpper c.toUpper, toNat_toUpper]
  split
  · exact if_neg (by omega)
  · rfl

theorem count_upper (h : d.isAlpha = false) (cs : List Char) :
    (upper cs).count d = cs.count d := by
  induction cs with
  | nil => rfl
  | cons c cs ih =>
    show (c.toUpper :: upper cs).count d = _
    rw [List.count_cons, List.count_cons, ih]
    simp only [beq_iff_eq, toUpper_eq_iff h]

theorem Solid.of_upper (h : upper cs = upper cs') (hcs : Solid cs) : Solid cs' := by
  intro c hc
  by_contra hblank
  rw [Bool.not_eq_false] at hblank
  have hcount := count_upper (isAlpha_of_isBlank hblank) cs
  rw [h, count_upper (isAlpha_of_isBlank hblank)] at hcount
  have hmem : c ∈ cs := List.count_pos_iff.mp (hcount ▸ List.count_pos_iff.mpr hc)
  cases (hcs c hmem).symm.trans hblank

/-! ## A word between blanks -/

/-- Blanks in front of a word are dropped, and behind it is what is left without blanks. -/
theorem exists_trim_word (hgap : Blanks gap) (hword : Solid word) (hne : word ≠ [])
    (hrest : ∀ c, rest.head? = some c → isBlank c = true) :
    ∃ rest', trim (gap ++ word ++ rest) = word ++ rest' ∧ trim rest' = trim rest ∧
      ∀ c, rest'.head? = some c → isBlank c = true := by
  obtain ⟨front, back, hfront, hback, hparts, htrimmed⟩ := exists_trim rest
  by_cases hnil : trim rest = []
  · refine ⟨[], ?_, ?_, nofun⟩
    · rw [trim_eq hgap (trim_eq_nil_iff.mp hnil) (.of_solid hword), List.append_nil]
    · rw [hnil]
      rfl
  · have hwhole : Trimmed (word ++ front ++ trim rest) :=
      (Trimmed.of_solid hword).append hne htrimmed hnil front
    refine ⟨front ++ trim rest, ?_, ?_, ?_⟩
    · calc trim (gap ++ word ++ rest) = trim (gap ++ (word ++ front ++ trim rest) ++ back) := by
            conv_lhs => rw [hparts]
            simp only [List.append_assoc]
        _ = word ++ (front ++ trim rest) := by
            rw [trim_eq hgap hback hwhole, List.append_assoc]
    · rw [trim_blanks_append _ hfront, htrimmed.trim_eq]
    · intro c hc
      apply hrest c
      rw [hparts, List.head?_append, hc]
      rfl

end Text

namespace Assembly

open Text (Blanks Solid isBlank splitWord trim upper)

variable {marks cs cs' front rest rest' lead word word' comment : List Char} {quoted : Bool}
  {label : Option Token} {number : Nat}

/-! ## Comments -/

/-- Marks and quotes are no letters, so comments start at the same place in either case of letters. -/
theorem beforeComment_upper (hmarks : ∀ c ∈ marks, c.isAlpha = false) (quoted : Bool)
    (cs : List Char) :
    beforeComment marks quoted (upper cs) = upper (beforeComment marks quoted cs) := by
  induction cs generalizing quoted with
  | nil => rfl
  | cons c cs ih =>
    have hmark : marks.contains c.toUpper = marks.contains c := by
      rw [Bool.eq_iff_iff, List.contains_iff_mem, List.contains_iff_mem]
      constructor
      · intro h
        have hsame : c = c.toUpper := (Text.toUpper_eq_iff (hmarks _ h)).mp rfl
        exact hsame ▸ h
      · intro h
        rwa [(Text.toUpper_eq_iff (hmarks c h)).mpr rfl]
    have hquote : quotedAfter quoted c.toUpper = quotedAfter quoted c := by
      unfold quotedAfter
      simp only [Text.toUpper_eq_iff (show quote.isAlpha = false by decide)]
    show beforeComment marks quoted (c.toUpper :: upper cs) = _
    rw [beforeComment, beforeComment, hmark, hquote, ih]
    split <;> rfl

theorem foldl_quotedAfter_of_upper (h : upper cs = upper cs') :
    cs'.foldl quotedAfter quoted = cs.foldl quotedAfter quoted := by
  have hquote : quote.isAlpha = false := by decide
  rw [foldl_quotedAfter, foldl_quotedAfter, ← Text.count_upper hquote cs', ← h,
    Text.count_upper hquote]

theorem beforeComment_of_upper (hmarks : ∀ c ∈ marks, c.isAlpha = false)
    (hcase : upper cs = upper cs') (h : beforeComment marks quoted cs = cs) :
    beforeComment marks quoted cs' = cs' := by
  apply (prefix_beforeComment marks quoted cs').eq_of_length
  rw [← Text.length_upper, ← beforeComment_upper hmarks, ← hcase, beforeComment_upper hmarks, h,
    hcase, Text.length_upper]

/-! ## Labels and mnemonics -/

/-- What stands in front of the mnemonic `word` of a line: blanks, and behind them the label, if there
is one, with more blanks. Without a label, the mnemonic must not look like one. -/
inductive Introduces : Option Token → List Char → Token → Prop where
  | word {indent word} (hindent : Blanks indent) (hword : labelOf? word = none) :
      Introduces none indent word
  | label {indent name gap word} (hindent : Blanks indent) (hname : Solid name) (hgap : Blanks gap)
      (hne : gap ≠ []) : Introduces (some name) (indent ++ (name ++ [':']) ++ gap) word

/-- The parts of a line that has a mnemonic: what is in front of the mnemonic, the mnemonic as it is
written, the rest of the code, and a comment. -/
structure HasParts (marks : List Char) (label : Option Token) (lead word rest comment : List Char) :
    Prop where
  introduced : Introduces label lead word
  solid : Solid word
  nonempty : word ≠ []
  separated : ∀ c, rest.head? = some c → isBlank c = true
  before_comment : beforeComment marks false (lead ++ word ++ rest ++ comment) = lead ++ word ++ rest

namespace HasParts

/-- **A line is read as it is written**, part by part. -/
theorem read? (h : HasParts marks label lead word rest comment) (number : Nat) :
    Line.read? marks number (lead ++ word ++ rest ++ comment) =
      some { number, label, mnemonic := some (upper word), operands := trim rest } := by
  obtain ⟨hlead, hsolid, hne, hrest, hcode⟩ := h
  have hempty : word.isEmpty = false := by simpa using hne
  cases hlead with
  | word hindent hlabel =>
    obtain ⟨after, htrim, hoperands, hhead⟩ := Text.exists_trim_word hindent hsolid hne hrest
    have hsplit : splitWord (word ++ after) = (word, trim rest) := by
      rw [Text.splitWord_append hsolid hhead, hoperands]
    rw [read?_of_code (by rw [hcode, htrim]) (by simp [hne]), Line.ofCode_of_word hsplit hlabel,
      hempty]
    rfl
  | @label indent name gap _ hindent hname hgap hgapne =>
    have hlabel : labelOf? (name ++ [':']) = some name := by simp [labelOf?]
    have hfirst : Solid (name ++ [':']) := by
      intro c hc
      rcases List.mem_append.mp hc with hc | hc
      · exact hname c hc
      · rw [List.mem_singleton.mp hc]
        decide
    have hblank : ∀ c, (gap ++ word ++ rest).head? = some c → isBlank c = true := by
      intro c hc
      rw [List.append_assoc, List.head?_append_of_ne_nil _ hgapne] at hc
      exact hgap c (List.mem_of_head? hc)
    obtain ⟨body, htrim, hbody, hhead⟩ := Text.exists_trim_word hindent hfirst (by simp) hblank
    obtain ⟨after, htrim', hoperands, hhead'⟩ := Text.exists_trim_word hgap hsolid hne hrest
    have hsplit : splitWord (name ++ [':'] ++ body) = (name ++ [':'], word ++ after) := by
      rw [Text.splitWord_append hfirst hhead, hbody, htrim']
    have hsplit' : splitWord (word ++ after) = (word, trim rest) := by
      rw [Text.splitWord_append hsolid hhead', hoperands]
    have hall : trim (beforeComment marks false
        (indent ++ (name ++ [':']) ++ gap ++ word ++ rest ++ comment)) = name ++ [':'] ++ body := by
      rw [hcode, ← htrim]
      simp only [List.append_assoc]
    rw [read?_of_code hall (by simp), Line.ofCode_of_label hsplit hlabel hsplit', hempty]
    rfl

end HasParts

theorem upper_mnemonic_of_read? {raw : List Char} {line : Line} {mnemonic : Token}
    (h : Line.read? marks number raw = some line) (hmnemonic : line.mnemonic = some mnemonic) :
    Text.upper mnemonic = mnemonic := by
  unfold Line.read? at h
  simp only at h
  split at h
  · cases h
  · obtain rfl := Option.some.inj h
    obtain ⟨_, hword⟩ := Option.ite_none_left_eq_some.mp hmnemonic
    obtain rfl := Option.some.inj hword
    exact Text.upper_upper _

end Assembly

end Octet
