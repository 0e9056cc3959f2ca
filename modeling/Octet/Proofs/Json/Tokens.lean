import Octet.Json.Token

/-!
# Tokens that are written are read again

A text `Writes` tokens if it has their texts one after another, with gaps between them as one likes and
nothing that goes on with a word after one. Such a text is read as these tokens, whatever the gaps are:
`scan_of_writes`. Both layouts are such texts, `writes_compact` and `writes_pretty`, if the tokens are
written so that they can be told apart: if they are `Parted`.
-/

namespace Octet.Json

/-! ## What is written so that it is read again -/

/-- A part that is read as it is written. A control character is not: it is read as a unit. -/
def Piece.Exact : Piece → Prop
  | .char c => 32 ≤ c.toNat
  | .unit value => value < 65536

/-- A token that is read as it is written. -/
def Token.Exact : Token → Prop
  | .string pieces => ∀ p ∈ pieces, p.Exact
  | .word cs => cs ≠ [] ∧ cs.all inWord = true
  | _ => True

instance (cs : List Char) : Decidable (Token.word cs).Exact :=
  inferInstanceAs (Decidable (cs ≠ [] ∧ cs.all inWord = true))

def Token.isWord : Token → Bool
  | .word _ => true
  | _ => false

/-- Whether a text does not go on with a word. -/
def Ends (cs : List Char) : Prop :=
  ∀ c ∈ cs.head?, inWord c = false

/-- A run of characters that may stand between tokens. -/
def IsGap (g : List Char) : Prop :=
  ∀ c ∈ g, isGap c = true

/-- The text has the texts of the tokens one after another, with gaps around them. -/
inductive Writes : List Token → List Char → Prop
  | nil {g} : IsGap g → Writes [] g
  | cons {t ts g cs} : IsGap g → t.Exact → (t.isWord = true → Ends cs) → Writes ts cs →
      Writes (t :: ts) (g ++ t.render ++ cs)

/-- The tokens are read as they are written, and no word stands next to another. -/
inductive Parted : List Token → Prop
  | nil : Parted []
  | cons {t ts} : t.Exact → (t.isWord = true → ∀ next ∈ ts.head?, next.isWord = false) → Parted ts →
      Parted (t :: ts)

/-! ## Reading -/

namespace Scanner

variable {s next : Scanner} {tokens : List Token} {c : Char} {cs g : List Char}

theorem scan_cons (h : s.read c = some (tokens, next)) :
    s.scan (c :: cs) = (next.scan cs).map (tokens ++ ·) := by
  rw [scan, h]

/-- A character that completes nothing. -/
theorem scan_cons_quiet (h : s.read c = some ([], next)) : s.scan (c :: cs) = next.scan cs := by
  rw [scan_cons h]
  exact Option.map_id'

theorem scan_gap (h : IsGap g) : between.scan (g ++ cs) = between.scan cs := by
  induction g with
  | nil => rfl
  | cons c g ih =>
    obtain ⟨hc, hg⟩ := List.forall_mem_cons.mp h
    have hread : between.read c = some ([], between) := by simp [read, start, hc]
    exact (scan_cons_quiet hread).trans (ih hg)

theorem mark?_of_isGap (h : isGap c = true) : mark? c = none := by
  simp only [isGap, Bool.or_eq_true, beq_iff_eq] at h
  rcases h with ((rfl | rfl) | rfl) | rfl <;> rfl

theorem scan_mark {t : Token} (h : mark? c = some t) :
    between.scan (c :: cs) = (between.scan cs).map (t :: ·) := by
  have hgap : isGap c = false := by
    rw [Bool.eq_false_iff]
    intro hgap
    rw [mark?_of_isGap hgap] at h
    cases h
  have hread : between.read c = some ([t], between) := by simp [read, start, hgap, h]
  exact scan_cons hread

/-! ### Words -/

theorem scan_word_append {w : List Char} (h : w.all inWord = true) (before : List Char) :
    (word before).scan (w ++ cs) = (word (w.reverse ++ before)).scan cs := by
  induction w generalizing before with
  | nil => rfl
  | cons c w ih =>
    obtain ⟨hc, hw⟩ := Bool.and_eq_true_iff.mp h
    have hread : (word before).read c = some ([], word (c :: before)) := by simp [read, hc]
    rw [List.cons_append, scan_cons_quiet hread, ih hw, List.reverse_cons, List.append_assoc]
    rfl

/-- Where a word ends, what follows is read as if there were nothing before it. -/
theorem scan_word_ends (h : Ends cs) (before : List Char) :
    (word before).scan cs = (between.scan cs).map (.word before.reverse :: ·) := by
  cases cs with
  | nil => rfl
  | cons c cs =>
    have hc : inWord c = false := h c rfl
    have hread : (word before).read c = some (.word before.reverse :: (start c).1, (start c).2) := by
      simp [read, hc]
    have hstart : between.read c = some ((start c).1, (start c).2) := rfl
    rw [scan_cons hread, scan_cons hstart, Option.map_map]
    rfl

theorem scan_word {w : List Char} (h : (Token.word w).Exact) (hends : Ends cs) :
    between.scan (w ++ cs) = (between.scan cs).map (.word w :: ·) := by
  obtain ⟨hne, hall⟩ := h
  obtain ⟨c, w, rfl⟩ := List.exists_cons_of_ne_nil hne
  obtain ⟨hc, hw⟩ := Bool.and_eq_true_iff.mp hall
  simp only [inWord, Bool.and_eq_true, Bool.not_eq_true', Option.isNone_iff_eq_none, bne_iff_ne] at hc
  obtain ⟨⟨hgap, hmark⟩, hquote⟩ := hc
  have hread : between.read c = some ([], word [c]) := by simp [read, start, hgap, hmark, hquote]
  rw [List.cons_append, scan_cons_quiet hread, scan_word_append hw, scan_word_ends hends,
    List.reverse_append, List.reverse_reverse]
  rfl

/-! ### Strings -/

theorem digitValue?_hexDigit (n : Nat) : Text.digitValue? 16 (Text.hexDigit n) = some (n % 16) := by
  have hdigits : ∀ d < 16, Text.digitValue? 16 (Nat.digitChar d) = some d := by decide
  exact hdigits _ (Nat.mod_lt _ (by decide))

theorem scan_unitDigits {value : Nat} (h : value < 65536) (before : Pieces) :
    (unit before 0 0).scan (unitDigits value ++ cs) = (string (.unit value :: before)).scan cs := by
  have hread : ∀ count read n, count ≠ 3 → (unit before count read).read (Text.hexDigit n) =
      some ([], unit before (count + 1) (read * 16 + n % 16)) := by
    intro count read n hcount
    simp [Scanner.read, digitValue?_hexDigit, hcount]
  -- the last of the four digits completes the unit
  have hlast : ∀ read n, (unit before 3 read).read (Text.hexDigit n) =
      some ([], string (.unit (read * 16 + n % 16) :: before)) := by
    intro read n
    simp [Scanner.read, digitValue?_hexDigit]
  have hvalue : (((0 * 16 + value / 4096 % 16) * 16 + value / 256 % 16) * 16 + value / 16 % 16) * 16
      + value % 16 = value := by omega
  simp only [unitDigits, List.cons_append, List.nil_append]
  rw [scan_cons_quiet (hread 0 _ _ (by decide)), scan_cons_quiet (hread 1 _ _ (by decide)),
    scan_cons_quiet (hread 2 _ _ (by decide)), scan_cons_quiet (hlast _ _), hvalue]

theorem scan_piece {p : Piece} (h : p.Exact) (before : Pieces) :
    (string before).scan (p.render ++ cs) = (string (p :: before)).scan cs := by
  have hescape : (string before).read '\\' = some ([], escape before) := rfl
  cases p with
  | char c =>
    simp only [Piece.render]
    split
    · next hquote =>
      subst hquote
      exact (scan_cons_quiet hescape).trans (scan_cons_quiet rfl)
    split
    · next hslash =>
      subst hslash
      exact (scan_cons_quiet hescape).trans (scan_cons_quiet rfl)
    split
    · next hlow => exact absurd hlow (Nat.not_lt.mpr h)
    · next hquote hslash hlow =>
      have hread : (string before).read c = some ([], string (.char c :: before)) := by
        simp [read, hquote, hslash, hlow]
      exact scan_cons_quiet hread
  | unit value =>
    have hunit : (escape before).read 'u' = some ([], unit before 0 0) := rfl
    exact (scan_cons_quiet hescape).trans ((scan_cons_quiet hunit).trans (scan_unitDigits h before))

theorem scan_string {pieces : Pieces} (h : ∀ p ∈ pieces, p.Exact) (before : Pieces) :
    (string before).scan (pieces.flatMap (·.render) ++ ('"' :: cs)) =
      (between.scan cs).map (.string (before.reverse ++ pieces) :: ·) := by
  induction pieces generalizing before with
  | nil =>
    have hread : (string before).read '"' = some ([.string before.reverse], between) := rfl
    rw [List.append_nil]
    exact scan_cons hread
  | cons p pieces ih =>
    obtain ⟨hp, hpieces⟩ := List.forall_mem_cons.mp h
    rw [List.flatMap_cons, List.append_assoc, scan_piece hp, ih hpieces, List.reverse_cons,
      List.append_assoc]
    rfl

/-! ### Any token -/

theorem scan_token {t : Token} (h : t.Exact) (hends : t.isWord = true → Ends cs) :
    between.scan (t.render ++ cs) = (between.scan cs).map (t :: ·) := by
  cases t with
  | openArray | closeArray | openObject | closeObject | colon | comma => exact scan_mark rfl
  | string pieces =>
    have hquote : between.read '"' = some ([], string []) := rfl
    simp only [Token.render, List.cons_append, List.append_assoc, List.nil_append]
    exact (scan_cons_quiet hquote).trans (scan_string h [])
  | word w => exact scan_word h (hends rfl)

end Scanner

/-- A text that writes tokens is read as these. -/
theorem scan_of_writes {ts : List Token} {cs : List Char} (h : Writes ts cs) : scan cs = some ts := by
  unfold scan
  induction h with
  | @nil g hgap =>
    rw [← List.append_nil g, Scanner.scan_gap hgap]
    rfl
  | cons hgap hexact hends _ ih =>
    rw [List.append_assoc, Scanner.scan_gap hgap, Scanner.scan_token hexact hends, ih]
    rfl

/-! ## Both layouts -/

variable {ts : List Token} {cs : List Char}

/-- Nothing but a word is written with what goes on with a word. -/
theorem ends_render {t : Token} (h : t.isWord = false) : Ends (t.render ++ cs) := by
  intro c hc
  cases t with
  | openArray | closeArray | openObject | closeObject | colon | comma | string =>
    cases hc
    rfl
  | word w => cases h

theorem ends_gap {g : List Char} (h : IsGap g) (hcs : Ends cs) : Ends (g ++ cs) := by
  cases g with
  | nil => exact hcs
  | cons c g =>
    intro d hd
    cases hd
    simp [inWord, h c List.mem_cons_self]

theorem Writes.ends (h : Writes ts cs) (hts : ∀ t ∈ ts.head?, t.isWord = false) : Ends cs := by
  cases h with
  | nil hgap =>
    rw [← List.append_nil cs]
    exact ends_gap hgap fun c hc => by cases hc
  | @cons t ts g cs hgap _ _ _ =>
    rw [List.append_assoc]
    exact ends_gap hgap (ends_render (hts t rfl))

/-- A gap in front. -/
theorem Writes.gap {g : List Char} (h : Writes ts cs) (hgap : IsGap g) : Writes ts (g ++ cs) := by
  have happend : ∀ {g'}, IsGap g' → IsGap (g ++ g') := fun hgap' =>
    List.forall_mem_append.mpr ⟨hgap, hgap'⟩
  cases h with
  | nil hgap' => exact .nil (happend hgap')
  | @cons t ts g' cs hgap' hexact hends hrest =>
    rw [← List.append_assoc, ← List.append_assoc]
    exact .cons (happend hgap') hexact hends hrest

/-- A token in front, after a gap. -/
theorem Writes.token {t : Token} {g : List Char} (h : Writes ts cs) (hparted : Parted (t :: ts))
    (hgap : IsGap g) : Writes (t :: ts) (g ++ t.render ++ cs) := by
  cases hparted with
  | cons hexact hnext _ => exact .cons hgap hexact (fun hword => h.ends (hnext hword)) h

theorem isGap_nil : IsGap [] := by
  intro c hc
  cases hc

theorem isGap_newLine (depth : Nat) : IsGap (newLine depth) := by
  intro c hc
  rcases List.mem_cons.mp hc with rfl | hc
  · rfl
  · rw [List.eq_of_mem_replicate hc]
    rfl

theorem IsGap.ite {g g' : List Char} (h : IsGap g) (h' : IsGap g') (first : Bool) :
    IsGap (if first then g else g') := by
  cases first
  · exact h'
  · exact h

theorem Parted.tail {t : Token} (h : Parted (t :: ts)) : Parted ts := by
  cases h with
  | cons _ _ hts => exact hts

theorem writes_compact (h : Parted ts) : Writes ts (compact ts) := by
  induction ts with
  | nil => exact .nil isGap_nil
  | cons t ts ih => exact (ih h.tail).token h isGap_nil

theorem writes_prettyFrom (h : Parted ts) (depth : Nat) (fresh : Bool) :
    Writes ts (prettyFrom depth fresh ts) := by
  induction ts generalizing depth fresh with
  | nil => exact .nil isGap_nil
  | cons t ts ih =>
    have hrest := ih h.tail
    have hblank : IsGap [' '] := by simp [IsGap, isGap]
    have hopen := (isGap_newLine depth).ite isGap_nil fresh
    have hclose := isGap_nil.ite (isGap_newLine (depth - 1)) fresh
    cases t with
    | comma => exact ((hrest depth false).gap (isGap_newLine depth)).token h isGap_nil
    | colon => exact ((hrest depth false).gap hblank).token h isGap_nil
    | closeArray | closeObject => exact (hrest (depth - 1) false).token h hclose
    | openArray | openObject => exact (hrest (depth + 1) true).token h hopen
    | string | word => exact (hrest depth false).token h hopen

theorem writes_pretty (h : Parted ts) : Writes ts (pretty ts) :=
  writes_prettyFrom h 0 false

end Octet.Json
