import Mathlib.Data.List.Basic
import Mathlib.Data.List.TakeWhile
import Octet.Text.Blank

/-!
# What is left without blanks

A text is blanks, a text that neither starts nor ends with one (`Trimmed`), and blanks again, in one
way only: the part in the middle is what `trim` gives (`exists_trim`, `trim_eq`). A word and what
follows it are found in the same way (`exists_splitWord`, `splitWord_append`), so that more text
behind a text changes only what follows its first word (`Trimmed.splitWord_append`).
-/

namespace Octet.Text

/-- A run of blanks, possibly empty. -/
def Blanks (cs : List Char) : Prop :=
  ∀ c ∈ cs, isBlank c = true

/-- A run of characters that are not blank, possibly empty. -/
def Solid (cs : List Char) : Prop :=
  ∀ c ∈ cs, isBlank c = false

instance (cs : List Char) : Decidable (Blanks cs) :=
  List.decidableBAll _ cs

instance (cs : List Char) : Decidable (Solid cs) :=
  List.decidableBAll _ cs

/-- A text without blanks at its ends. -/
structure Trimmed (cs : List Char) : Prop where
  head : ∀ c, cs.head? = some c → isBlank c = false
  last : ∀ c, cs.getLast? = some c → isBlank c = false

variable {cs front back gap word rest tail : List Char}

/-! ## Blanks at the ends -/

theorem Blanks.nil : Blanks [] := by simp [Blanks]

theorem Blanks.singleton {c : Char} (h : isBlank c = true) : Blanks [c] :=
  List.forall_mem_singleton.mpr h

theorem Blanks.append (h : Blanks front) (h' : Blanks back) : Blanks (front ++ back) :=
  fun c hc => (List.mem_append.mp hc).elim (h c) (h' c)

theorem Blanks.reverse (h : Blanks gap) : Blanks gap.reverse :=
  fun c hc => h c (List.mem_reverse.mp hc)

theorem Solid.of_all (h : cs.all (!isBlank ·) = true) : Solid cs := by
  simpa [Solid] using h

theorem Trimmed.nil : Trimmed [] := by
  constructor <;> simp

theorem Trimmed.of_solid (h : Solid cs) : Trimmed cs where
  head := fun c hc => h c (List.mem_of_head? hc)
  last := fun c hc => h c (List.mem_of_getLast? hc)

/-- Whatever stands between them, two texts that are trimmed make one that is. -/
theorem Trimmed.append (h : Trimmed cs) (hcs : cs ≠ []) (h' : Trimmed tail) (htail : tail ≠ [])
    (middle : List Char) : Trimmed (cs ++ middle ++ tail) where
  head := by
    intro c hc
    rw [List.append_assoc, List.head?_append_of_ne_nil _ hcs] at hc
    exact h.head c hc
  last := by
    intro c hc
    rw [List.getLast?_append_of_ne_nil _ htail] at hc
    exact h'.last c hc

theorem dropWhile_isBlank (hgap : Blanks gap) (h : ∀ c, cs.head? = some c → isBlank c = false) :
    (gap ++ cs).dropWhile isBlank = cs := by
  rw [List.dropWhile_append_of_pos hgap]
  cases cs with
  | nil => rfl
  | cons c rest => exact List.dropWhile_cons_of_neg (by simp [h c rfl])

theorem trimEnd_eq (hback : Blanks back) (h : ∀ c, cs.getLast? = some c → isBlank c = false) :
    trimEnd (cs ++ back) = cs := by
  unfold trimEnd
  rw [List.reverse_append, dropWhile_isBlank hback.reverse, List.reverse_reverse]
  simpa using h

/-- Only the blanks at the ends are dropped. -/
theorem trim_eq (hfront : Blanks front) (hback : Blanks back) (h : Trimmed cs) :
    trim (front ++ cs ++ back) = cs := by
  unfold trim
  by_cases hcs : cs = []
  · rw [hcs, List.append_nil, List.dropWhile_eq_nil_iff.mpr (hfront.append hback)]
    rfl
  · rw [List.append_assoc, dropWhile_isBlank hfront, trimEnd_eq hback h.last]
    rw [List.head?_append_of_ne_nil _ hcs]
    exact h.head

theorem Trimmed.trim_eq (h : Trimmed cs) : trim cs = cs := by
  simpa using Text.trim_eq .nil .nil h

theorem exists_dropWhile_isBlank (cs : List Char) :
    ∃ gap, Blanks gap ∧ cs = gap ++ cs.dropWhile isBlank :=
  ⟨cs.takeWhile isBlank, fun _ hc => List.mem_takeWhile_imp hc,
    List.takeWhile_append_dropWhile.symm⟩

theorem head?_dropWhile_isBlank {c : Char} (h : (cs.dropWhile isBlank).head? = some c) :
    isBlank c = false := by
  have hnot := List.head?_dropWhile_not isBlank cs
  rw [h] at hnot
  simpa using hnot

/-- A text is what `trim` leaves of it, between blanks. -/
theorem exists_trim (cs : List Char) :
    ∃ front back, Blanks front ∧ Blanks back ∧ cs = front ++ trim cs ++ back ∧
      Trimmed (trim cs) := by
  obtain ⟨front, hfront, hcs⟩ := exists_dropWhile_isBlank cs
  obtain ⟨back, hback, hrest⟩ := exists_dropWhile_isBlank (cs.dropWhile isBlank).reverse
  have hsplit : cs.dropWhile isBlank = trim cs ++ back.reverse := by
    rw [← List.reverse_reverse (cs.dropWhile isBlank), hrest, List.reverse_append]
    rfl
  refine ⟨front, back.reverse, hfront, hback.reverse, ?_, ?_, ?_⟩
  · rw [List.append_assoc, ← hsplit, ← hcs]
  · intro c hc
    have hhead : (cs.dropWhile isBlank).head? = some c := by
      rw [hsplit, List.head?_append, hc]
      rfl
    exact head?_dropWhile_isBlank hhead
  · intro c hc
    unfold trim trimEnd at hc
    rw [List.getLast?_reverse] at hc
    exact head?_dropWhile_isBlank hc

theorem trimmed_trim (cs : List Char) : Trimmed (trim cs) := by
  obtain ⟨_, _, _, _, _, h⟩ := exists_trim cs
  exact h

theorem trim_blanks_append (cs : List Char) (h : Blanks gap) : trim (gap ++ cs) = trim cs := by
  obtain ⟨front, back, hfront, hback, hcs, htrimmed⟩ := exists_trim cs
  calc trim (gap ++ cs) = trim (gap ++ front ++ trim cs ++ back) := by
        rw [List.append_assoc, List.append_assoc, ← List.append_assoc front, ← hcs]
    _ = trim cs := trim_eq (h.append hfront) hback htrimmed

theorem trim_append_blanks (cs : List Char) (h : Blanks gap) : trim (cs ++ gap) = trim cs := by
  obtain ⟨front, back, hfront, hback, hcs, htrimmed⟩ := exists_trim cs
  calc trim (cs ++ gap) = trim (front ++ trim cs ++ (back ++ gap)) := by
        rw [← List.append_assoc, ← hcs]
    _ = trim cs := trim_eq hfront (hback.append h) htrimmed

theorem trim_eq_nil_iff : trim cs = [] ↔ Blanks cs := by
  constructor
  · intro h
    obtain ⟨front, back, hfront, hback, hcs, _⟩ := exists_trim cs
    rw [h, List.append_nil] at hcs
    rw [hcs]
    exact hfront.append hback
  · intro h
    simpa [Trimmed.nil.trim_eq] using trim_blanks_append [] h

/-- No blanks stand at the end of a text that is trimmed. -/
theorem Trimmed.eq_nil_of_blanks (h : Trimmed (cs ++ gap)) (hgap : Blanks gap) : gap = [] := by
  by_contra hne
  have hlast : (cs ++ gap).getLast? = some (gap.getLast hne) := by
    rw [List.getLast?_append_of_ne_nil _ hne, List.getLast?_eq_some_getLast hne]
  have hblank := hgap _ (List.getLast_mem hne)
  have hsolid := h.last _ hlast
  rw [hblank] at hsolid
  cases hsolid

/-! ## The first word -/

/-- The first word ends at the first blank. -/
theorem splitWord_append (h : Solid word) (hrest : ∀ c, rest.head? = some c → isBlank c = true) :
    splitWord (word ++ rest) = (word, trim rest) := by
  have hword : ∀ c ∈ word, (!isBlank c) = true := by simpa [Solid] using h
  unfold splitWord
  rw [List.takeWhile_append_of_pos hword, List.dropWhile_append_of_pos hword]
  cases rest with
  | nil => simp
  | cons b rest => simp [hrest b rfl]

/-- Every text is split so, into a word and a rest that starts with a blank. -/
theorem exists_splitWord (cs : List Char) :
    ∃ word rest, Solid word ∧ (∀ c, rest.head? = some c → isBlank c = true) ∧
      cs = word ++ rest ∧ splitWord cs = (word, trim rest) := by
  refine ⟨_, cs.dropWhile (!isBlank ·), ?_, ?_, List.takeWhile_append_dropWhile.symm, rfl⟩
  · intro c hc
    simpa using List.mem_takeWhile_imp hc
  · intro c hc
    have hnot := List.head?_dropWhile_not (!isBlank ·) cs
    rw [hc] at hnot
    simpa using hnot

/-- More text behind a text does not change its first word. It stands behind what follows the word,
with blanks before it unless nothing does. -/
theorem Trimmed.splitWord_append (h : Trimmed cs) (hgap : Blanks gap) (hne : gap ≠ [])
    (htail : Trimmed tail) (htailne : tail ≠ []) :
    ∃ gap', Blanks gap' ∧ (gap' = [] ↔ (splitWord cs).2 = []) ∧
      splitWord (cs ++ gap ++ tail) = ((splitWord cs).1, (splitWord cs).2 ++ gap' ++ tail) := by
  obtain ⟨word, rest, hword, hrest, rfl, hsplit⟩ := exists_splitWord cs
  have hhead : ∀ c, (rest ++ gap ++ tail).head? = some c → isBlank c = true := by
    cases rest with
    | nil =>
      intro c hc
      rw [List.nil_append, List.head?_append_of_ne_nil _ hne] at hc
      exact hgap c (List.mem_of_head? hc)
    | cons b rest => simpa using hrest
  rw [hsplit, List.append_assoc, List.append_assoc, ← List.append_assoc rest,
    Text.splitWord_append hword hhead]
  obtain ⟨front, back, hfront, hback, hparts, htrimmed⟩ := exists_trim rest
  -- the blanks behind the rest would stand at the end of the whole text
  obtain rfl : back = [] := by
    rw [hparts, ← List.append_assoc] at h
    exact h.eq_nil_of_blanks hback
  rw [List.append_nil] at hparts
  by_cases hnil : trim rest = []
  · have hblanks : Blanks (rest ++ gap) := (trim_eq_nil_iff.mp hnil).append hgap
    refine ⟨[], .nil, by simp [hnil], ?_⟩
    rw [hnil, trim_blanks_append tail hblanks, htail.trim_eq]
    rfl
  · refine ⟨gap, hgap, by simp [hne, hnil], ?_⟩
    have hall : trim (rest ++ gap ++ tail) = trim rest ++ gap ++ tail := by
      calc trim (rest ++ gap ++ tail) = trim (front ++ (trim rest ++ gap ++ tail)) := by
            conv_lhs => rw [hparts]
            simp only [List.append_assoc]
        _ = trim rest ++ gap ++ tail := by
            rw [trim_blanks_append _ hfront, (htrimmed.append hnil htail htailne gap).trim_eq]
    rw [hall]

end Octet.Text
