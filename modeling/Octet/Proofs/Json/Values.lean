import Octet.Json.Syntax
import Octet.Proofs.Json.Tokens

/-!
# Values that are written are read again

A value is `Exact` if its numbers are numbers and its strings are read as they are written. The tokens of
such a value are read as it (`ofTokens?_tokens`) and can be told apart in a text (`parted_tokens`), so any
text that writes them is read as the value: `ofText?_of_writes`. The texts of both layouts are such texts.
-/

namespace Octet.Json

/-- A value that is read as it is written. -/
inductive Exact : Json → Prop
  | null : Exact null
  | bool {b} : Exact (bool b)
  | number {cs} : isNumber cs = true → Exact (number cs)
  | string {ps} : (∀ p ∈ ps, p.Exact) → Exact (string ps)
  | array {vs} : (∀ v ∈ vs, Exact v) → Exact (array vs)
  | object {ms} : (∀ m ∈ ms, ∀ p ∈ m.1, p.Exact) → (∀ m ∈ ms, Exact m.2) → Exact (object ms)

/-! ## Tokens in front of others -/

variable {rest : List Token}

theorem itemTokens_cons (v : Json) (vs : List Json) (rest : List Token) :
    itemTokens false (v :: vs) ++ rest = .comma :: (v.tokens ++ (itemTokens false vs ++ rest)) := by
  simp [itemTokens]

theorem memberTokens_cons (m : Pieces × Json) (ms : List (Pieces × Json)) (rest : List Token) :
    memberTokens false (m :: ms) ++ rest =
      .comma :: .string m.1 :: .colon :: (m.2.tokens ++ (memberTokens false ms ++ rest)) := by
  simp [memberTokens]

theorem tokens_array_cons (v : Json) (vs : List Json) (rest : List Token) :
    (array (v :: vs)).tokens ++ rest =
      .openArray :: (v.tokens ++ (itemTokens false vs ++ .closeArray :: rest)) := by
  simp [tokens, itemTokens]

theorem tokens_object_cons (m : Pieces × Json) (ms : List (Pieces × Json)) (rest : List Token) :
    (object (m :: ms)).tokens ++ rest =
      .openObject :: .string m.1 :: .colon ::
        (m.2.tokens ++ (memberTokens false ms ++ .closeObject :: rest)) := by
  simp [tokens, memberTokens]

/-! ## Reading tokens -/

theorem ofWord?_number {cs : List Char} (h : isNumber cs = true) : ofWord? cs = some (number cs) := by
  have hnot : ∀ w, isNumber w = false → cs ≠ w := by
    rintro w hw rfl
    rw [h] at hw
    cases hw
  simp only [ofWord?, if_neg (hnot "null".toList rfl), if_neg (hnot "true".toList rfl),
    if_neg (hnot "false".toList rfl), h, if_true]

namespace Reader

/-- The tokens of the value are read as it, wherever it stands. -/
def Reads (v : Json) : Prop :=
  ∀ outer rest, (value outer).readAll (v.tokens ++ rest) = (after outer v).readAll rest

theorem readAll_cons {r next : Reader} {t : Token} (h : r.read t = some next) :
    r.readAll (t :: rest) = next.readAll rest := by
  rw [readAll, h]

/-- A first item is read like any other value: its tokens do not start with a closing bracket. -/
theorem readAll_item (v : Json) (outer : List Frame) (rest : List Token) :
    (item outer).readAll (v.tokens ++ rest) =
      (value (.array [] :: outer)).readAll (v.tokens ++ rest) := by
  cases v with
  | bool b => cases b <;> rfl
  | null | number | string | array | object => rfl

theorem readAll_items {vs : List Json} (h : ∀ v ∈ vs, Reads v) (outer : List Frame)
    (before : List Json) (v : Json) (rest : List Token) :
    (after (.array before :: outer) v).readAll (itemTokens false vs ++ .closeArray :: rest) =
      (after outer (.array ((v :: before).reverse ++ vs))).readAll rest := by
  induction vs generalizing before v with
  | nil =>
    rw [List.append_nil]
    exact readAll_cons rfl
  | cons w vs ih =>
    obtain ⟨hw, hvs⟩ := List.forall_mem_cons.mp h
    have hcomma : (after (.array before :: outer) v).read .comma =
        some (value (.array (v :: before) :: outer)) := rfl
    rw [itemTokens_cons, readAll_cons hcomma, hw, ih hvs, List.reverse_cons, List.append_assoc]
    rfl

theorem readAll_members {ms : List (Pieces × Json)} (h : ∀ m ∈ ms, Reads m.2) (outer : List Frame)
    (before : List (Pieces × Json)) (name : Pieces) (v : Json) (rest : List Token) :
    (after (.object before name :: outer) v).readAll
        (memberTokens false ms ++ .closeObject :: rest) =
      (after outer (.object (((name, v) :: before).reverse ++ ms))).readAll rest := by
  induction ms generalizing before name v with
  | nil =>
    rw [List.append_nil]
    exact readAll_cons rfl
  | cons m ms ih =>
    obtain ⟨hm, hms⟩ := List.forall_mem_cons.mp h
    have hcomma : (after (.object before name :: outer) v).read .comma =
        some (key outer ((name, v) :: before)) := rfl
    rw [memberTokens_cons, readAll_cons hcomma, readAll_cons rfl, readAll_cons rfl, hm, ih hms,
      List.reverse_cons, List.append_assoc]
    rfl

theorem reads_of_exact {v : Json} (h : v.Exact) : Reads v := by
  -- what is open around the value and what follows it change on the way down, so both are general
  intro outer rest
  induction h generalizing outer rest with
  | null => rfl
  | @bool b => cases b <;> rfl
  | number hnumber =>
    refine readAll_cons ?_
    simp only [read, start, ofWord?_number hnumber, Option.map_some]
  | string => rfl
  | @array vs _ ih =>
    cases vs with
    | nil => rfl
    | cons v vs =>
      obtain ⟨hv, hvs⟩ := List.forall_mem_cons.mp ih
      have hopen : (value outer).read .openArray = some (item outer) := rfl
      rw [tokens_array_cons, readAll_cons hopen, readAll_item, hv, readAll_items hvs]
      rfl
  | @object ms _ _ ih =>
    cases ms with
    | nil => rfl
    | cons m ms =>
      obtain ⟨hm, hms⟩ := List.forall_mem_cons.mp ih
      have hopen : (value outer).read .openObject = some (member outer) := rfl
      rw [tokens_object_cons, readAll_cons hopen, readAll_cons rfl, readAll_cons rfl, hm,
        readAll_members hms]
      rfl

end Reader

theorem ofTokens?_tokens {v : Json} (h : v.Exact) : ofTokens? v.tokens = some v := by
  have hread := Reader.reads_of_exact h [] []
  rw [List.append_nil] at hread
  exact hread

/-! ## Numbers are words -/

/-- The characters that are no part of a word. -/
def breaks : List Char :=
  [' ', '\t', '\n', '\r', '[', ']', '\x7b', '\x7d', ':', ',', '"']

theorem inWord_of_not_mem_breaks {c : Char} (h : c ∉ breaks) : inWord c = true := by
  simp only [breaks, List.mem_cons, List.not_mem_nil, or_false, not_or] at h
  simp [inWord, isGap, mark?, h]

/-- The characters that numbers are written with. -/
def isNumeric (c : Char) : Bool :=
  c.isDigit || ['+', '-', '.', 'e', 'E'].contains c

theorem inWord_of_isNumeric {c : Char} (h : isNumeric c = true) : inWord c = true := by
  have hbreaks : breaks.all (fun d => !isNumeric d) = true := by decide
  refine inWord_of_not_mem_breaks fun hc => ?_
  have hnot := List.all_eq_true.mp hbreaks c hc
  rw [h] at hnot
  cases hnot

variable {cs : List Char}

theorem isNumeric_of_digits (h : cs.all Char.isDigit = true) : ∀ c ∈ cs, isNumeric c = true := by
  intro c hc
  simp [isNumeric, List.all_eq_true.mp h c hc]

theorem isNumeric_of_dropWhile (h : ∀ c ∈ cs.dropWhile Char.isDigit, isNumeric c = true) :
    ∀ c ∈ cs, isNumeric c = true := by
  rw [← List.takeWhile_append_dropWhile (p := Char.isDigit) (l := cs)]
  exact List.forall_mem_append.mpr ⟨isNumeric_of_digits List.all_takeWhile, h⟩

theorem isNumeric_of_isExponent (h : isExponent cs = true) : ∀ c ∈ cs, isNumeric c = true := by
  cases cs with
  | nil => exact fun c hc => nomatch hc
  | cons c cs =>
    simp only [isExponent, Bool.and_eq_true, Bool.or_eq_true, beq_iff_eq] at h
    obtain ⟨⟨hc, -⟩, hdigits⟩ := h
    have hnumeric : isNumeric c = true := by
      rcases hc with rfl | rfl <;> rfl
    refine List.forall_mem_cons.mpr ⟨hnumeric, ?_⟩
    split at hdigits
    · exact List.forall_mem_cons.mpr ⟨rfl, isNumeric_of_digits hdigits⟩
    · exact List.forall_mem_cons.mpr ⟨rfl, isNumeric_of_digits hdigits⟩
    · exact isNumeric_of_digits hdigits

theorem isNumeric_of_isFraction (h : isFraction cs = true) : ∀ c ∈ cs, isNumeric c = true := by
  unfold isFraction at h
  split at h
  · have hexponent := isNumeric_of_isExponent (Bool.and_eq_true_iff.mp h).2
    exact List.forall_mem_cons.mpr ⟨rfl, isNumeric_of_dropWhile hexponent⟩
  · exact isNumeric_of_isExponent h

/-- What follows the sign of a number. -/
theorem isNumeric_of_unsigned (h : (match cs with
      | [] => false
      | c :: rest =>
        if c = '0' then isFraction rest
        else c.isDigit && isFraction (rest.dropWhile Char.isDigit)) = true) :
    ∀ c ∈ cs, isNumeric c = true := by
  cases cs with
  | nil => cases h
  | cons c rest =>
    simp only at h
    split at h
    · next hzero => exact List.forall_mem_cons.mpr ⟨hzero ▸ rfl, isNumeric_of_isFraction h⟩
    · obtain ⟨hdigit, hrest⟩ := Bool.and_eq_true_iff.mp h
      have hnumeric : isNumeric c = true := by simp [isNumeric, hdigit]
      exact List.forall_mem_cons.mpr
        ⟨hnumeric, isNumeric_of_dropWhile (isNumeric_of_isFraction hrest)⟩

theorem isNumeric_of_isNumber (h : isNumber cs = true) : ∀ c ∈ cs, isNumeric c = true := by
  simp only [isNumber] at h
  have hunsigned := isNumeric_of_unsigned h
  split at hunsigned
  · exact List.forall_mem_cons.mpr ⟨rfl, hunsigned⟩
  · exact hunsigned

/-- A number is a word. -/
theorem exact_word_of_isNumber (h : isNumber cs = true) : (Token.word cs).Exact := by
  refine ⟨?_, List.all_eq_true.mpr fun c hc => inWord_of_isNumeric (isNumeric_of_isNumber h c hc)⟩
  rintro rfl
  cases h

/-! ## Telling tokens apart -/

/-- The tokens can be told apart, and the first is no word. -/
def Marked (ts : List Token) : Prop :=
  Parted ts ∧ ∀ t ∈ ts.head?, t.isWord = false

variable {t : Token}

theorem Marked.cons (h : Marked rest) (hexact : t.Exact) : Parted (t :: rest) :=
  .cons hexact (fun _ => h.2) h.1

/-- A token that is no word stands apart from any other. -/
theorem Parted.mark (h : Parted rest) (hexact : t.Exact) (hword : t.isWord = false) :
    Marked (t :: rest) := by
  refine ⟨.cons hexact ?_ h, ?_⟩
  · intro hword'
    rw [hword] at hword'
    cases hword'
  · intro first hfirst
    cases hfirst
    exact hword

theorem Parted.member {name : Pieces} (h : Parted rest) (hname : ∀ p ∈ name, p.Exact) :
    Parted (.string name :: .colon :: rest) := by
  have hcolon : Marked (.colon :: rest) := h.mark trivial rfl
  exact hcolon.cons hname

/-- The tokens of the value can be told apart from each other, and from what follows. -/
def StandsApart (v : Json) : Prop :=
  ∀ rest, Marked rest → Parted (v.tokens ++ rest)

theorem marked_items {vs : List Json} (h : ∀ v ∈ vs, StandsApart v) (hrest : Parted rest) :
    Marked (itemTokens false vs ++ .closeArray :: rest) := by
  induction vs with
  | nil => exact hrest.mark trivial rfl
  | cons v vs ih =>
    obtain ⟨hv, hvs⟩ := List.forall_mem_cons.mp h
    rw [itemTokens_cons]
    exact (hv _ (ih hvs)).mark trivial rfl

theorem marked_members {ms : List (Pieces × Json)} (hnames : ∀ m ∈ ms, ∀ p ∈ m.1, p.Exact)
    (h : ∀ m ∈ ms, StandsApart m.2) (hrest : Parted rest) :
    Marked (memberTokens false ms ++ .closeObject :: rest) := by
  induction ms with
  | nil => exact hrest.mark trivial rfl
  | cons m ms ih =>
    obtain ⟨hm, hms⟩ := List.forall_mem_cons.mp h
    obtain ⟨hname, hnames⟩ := List.forall_mem_cons.mp hnames
    rw [memberTokens_cons]
    exact ((hm _ (ih hnames hms)).member hname).mark trivial rfl

theorem standsApart_of_exact {v : Json} (h : v.Exact) : StandsApart v := by
  intro rest hrest
  induction h generalizing rest with
  | null => exact hrest.cons (by decide)
  | @bool b => cases b <;> exact hrest.cons (by decide)
  | number hnumber => exact hrest.cons (exact_word_of_isNumber hnumber)
  | string hpieces => exact hrest.cons hpieces
  | @array vs _ ih =>
    cases vs with
    | nil =>
      have hclose : Marked (.closeArray :: rest) := hrest.1.mark trivial rfl
      exact hclose.cons trivial
    | cons v vs =>
      obtain ⟨hv, hvs⟩ := List.forall_mem_cons.mp ih
      have hopen : Marked (.openArray :: _) := (hv _ (marked_items hvs hrest.1)).mark trivial rfl
      rw [tokens_array_cons]
      exact hopen.1
  | @object ms hnames _ ih =>
    cases ms with
    | nil =>
      have hclose : Marked (.closeObject :: rest) := hrest.1.mark trivial rfl
      exact hclose.cons trivial
    | cons m ms =>
      obtain ⟨hm, hms⟩ := List.forall_mem_cons.mp ih
      obtain ⟨hname, hnames⟩ := List.forall_mem_cons.mp hnames
      have hmember := (hm _ (marked_members hnames hms hrest.1)).member hname
      have hopen : Marked (.openObject :: _) := hmember.mark trivial rfl
      rw [tokens_object_cons]
      exact hopen.1

theorem parted_tokens {v : Json} (h : v.Exact) : Parted v.tokens := by
  have hend : Marked [] := ⟨.nil, fun t ht => nomatch ht⟩
  have hparted := standsApart_of_exact h [] hend
  rw [List.append_nil] at hparted
  exact hparted

/-! ## Texts -/

/-- Any text that writes the tokens of a value is read as the value. -/
theorem ofText?_of_writes {v : Json} {text : String} (h : v.Exact)
    (hwrites : Writes v.tokens text.toList) : ofText? text = some v := by
  simp only [ofText?, scan_of_writes hwrites, ofTokens?_tokens h]

theorem ofText?_render {v : Json} (h : v.Exact) : ofText? v.render = some v := by
  refine ofText?_of_writes h ?_
  rw [render, String.toList_ofList]
  exact writes_compact (parted_tokens h)

theorem ofText?_renderPretty {v : Json} (h : v.Exact) : ofText? v.renderPretty = some v := by
  refine ofText?_of_writes h ?_
  rw [renderPretty, String.toList_ofList]
  exact writes_pretty (parted_tokens h)

end Octet.Json
