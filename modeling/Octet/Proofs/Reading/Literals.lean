import Mathlib.Data.Nat.Digits.Defs
import Octet.Assembly.Literal

/-!
# Which tokens are literals

The grammar of literals, said of the characters and without reading them: `Text.Numeral` is a run of
digits with its value, `Assembly.Literal` a literal as it is documented. Numbers are also read with a
plus sign in front of their digits, which the grammar does not have (`Assembly.PlusLiteral`).

The main statement is `Assembly.literal_reads`: the reader knows the literals of both kinds, with their
values, and no others.
-/

namespace Octet

namespace Text

variable {base n d : Nat} {c : Char} {cs : List Char}

/-! ## Digits -/

/-- The character stands for a digit: a figure, or a letter in either case for a digit above nine. -/
def IsDigit (base : Nat) (c : Char) (d : Nat) : Prop :=
  d < base ∧ (c = Nat.digitChar d ∨ c = (Nat.digitChar d).toUpper)

theorem digitValue?_digitChar : ∀ d < 16,
    digitValue? 16 (Nat.digitChar d) = some d ∧
      digitValue? 16 (Nat.digitChar d).toUpper = some d := by
  decide

/-- The characters up to `f` are looked through one after another. -/
theorem isDigit_ofNat : ∀ n < 103, ∀ d ∈ digitValue? 16 (Char.ofNat n),
    d < 16 ∧ (Char.ofNat n = Nat.digitChar d ∨ Char.ofNat n = (Nat.digitChar d).toUpper) := by
  decide

theorem digitValue?_sixteen_eq_some_iff : digitValue? 16 c = some d ↔ IsDigit 16 c d := by
  constructor
  · intro h
    have hlt : c.toNat < 103 := by
      unfold digitValue? at h
      simp only [Option.filter_eq_some_iff] at h
      obtain ⟨h, -⟩ := h
      split at h
      · next hrange => exact Nat.lt_of_le_of_lt (show c.toNat ≤ 57 from hrange.2) (by decide)
      · split at h
        · next hrange => exact Nat.lt_succ_of_le (show c.toNat ≤ 102 from hrange.2)
        · split at h
          · next hrange => exact Nat.lt_of_le_of_lt (show c.toNat ≤ 70 from hrange.2) (by decide)
          · cases h
    rw [← Char.ofNat_toNat c] at h ⊢
    exact isDigit_ofNat _ hlt d h
  · rintro ⟨hd, rfl | rfl⟩
    · exact (digitValue?_digitChar d hd).1
    · exact (digitValue?_digitChar d hd).2

theorem digitValue?_eq_some_iff (hbase : base ≤ 16) : digitValue? base c = some d ↔ IsDigit base c d := by
  have hfilter : digitValue? base c = (digitValue? 16 c).filter (· < base) := by
    simp only [digitValue?, Option.filter_filter]
    congr 1
    funext d
    simp
    omega
  rw [hfilter, Option.filter_eq_some_iff, digitValue?_sixteen_eq_some_iff, decide_eq_true_iff]
  unfold IsDigit
  constructor
  · rintro ⟨⟨-, hc⟩, hd⟩
    exact ⟨hd, hc⟩
  · rintro ⟨hd, hc⟩
    exact ⟨⟨Nat.lt_of_lt_of_le hd hbase, hc⟩, hd⟩

/-! ## Runs of digits -/

/-- The characters are the digits of a number, the highest one in front. There may be zeros before it,
but there is a digit. -/
def Numeral (base : Nat) (cs : List Char) (n : Nat) : Prop :=
  cs ≠ [] ∧ ∃ ds, List.Forall₂ (IsDigit base) cs ds ∧ Nat.ofDigits base ds.reverse = n

/-- Reading digits from the highest one on, each time with one more. -/
theorem ofDigits_reverse (base : Nat) (ds : List Nat) :
    Nat.ofDigits base ds.reverse = ds.foldl (fun read d => read * base + d) 0 := by
  rw [Nat.ofDigits_eq_foldr, List.foldr_reverse]
  congr 1
  funext read d
  simp [Nat.mul_comm, Nat.add_comm]

theorem digitsValue?_eq_some_iff (hbase : base ≤ 16) {read : Nat} :
    digitsValue? base read cs = some n ↔
      ∃ ds, List.Forall₂ (IsDigit base) cs ds ∧
        ds.foldl (fun read d => read * base + d) read = n := by
  induction cs generalizing read with
  | nil =>
    constructor
    · intro h
      exact ⟨[], .nil, Option.some.inj h⟩
    · rintro ⟨ds, hds, rfl⟩
      cases hds
      rfl
  | cons c cs ih =>
    rw [digitsValue?]
    constructor
    · intro h
      split at h
      · next d hd =>
        obtain ⟨ds, hds, hvalue⟩ := ih.mp h
        exact ⟨d :: ds, .cons ((digitValue?_eq_some_iff hbase).mp hd) hds, hvalue⟩
      · cases h
    · rintro ⟨ds, hds, hvalue⟩
      cases hds with
      | cons hd hds =>
        rw [(digitValue?_eq_some_iff hbase).mpr hd]
        exact ih.mpr ⟨_, hds, hvalue⟩

theorem numeral?_eq_some_iff (hbase : base ≤ 16) : numeral? base cs = some n ↔ Numeral base cs n := by
  unfold Numeral
  simp only [ofDigits_reverse]
  cases cs with
  | nil => simp [numeral?]
  | cons c cs => rw [numeral?, digitsValue?_eq_some_iff hbase]; simp

/-- Every character of a number is a digit. -/
theorem Numeral.exists_digitValue? (h : Numeral base cs n) (hbase : base ≤ 16) (hc : c ∈ cs) :
    ∃ d, digitValue? base c = some d := by
  obtain ⟨_, ds, hds, _⟩ := h
  clear * - hds hbase hc
  induction hds with
  | nil => cases hc
  | cons hd _ ih =>
    rcases List.mem_cons.mp hc with rfl | hc
    · exact ⟨_, (digitValue?_eq_some_iff hbase).mpr hd⟩
    · exact ih hc

theorem Numeral.not_mem (h : Numeral base cs n) (hbase : base ≤ 16)
    (hc : digitValue? base c = none) : c ∉ cs := by
  intro hmem
  obtain ⟨d, hd⟩ := h.exists_digitValue? hbase hmem
  cases hc.symm.trans hd

/-- A number is read with or without a plus sign in front, if it is below the bound. -/
theorem unsigned?_eq_some_iff (hbase : base ≤ 16) {bound : Nat} :
    unsigned? base bound cs = some n ↔
      n < bound ∧ (Numeral base cs n ∨ ∃ digits, cs = '+' :: digits ∧ Numeral base digits n) := by
  unfold unsigned?
  split
  · next digits =>
    rw [Option.filter_eq_some_iff, numeral?_eq_some_iff hbase, decide_eq_true_iff, and_comm]
    refine and_congr_right fun _ => ⟨fun h => .inr ⟨digits, rfl, h⟩, ?_⟩
    rintro (h | ⟨digits', heq, h⟩)
    · exact absurd List.mem_cons_self (h.not_mem hbase rfl)
    · rwa [(List.cons.inj heq).2]
  · next hplus =>
    rw [Option.filter_eq_some_iff, numeral?_eq_some_iff hbase, decide_eq_true_iff, and_comm]
    refine and_congr_right fun _ => ⟨.inl, ?_⟩
    rintro (h | ⟨digits, heq, _⟩)
    · exact h
    · exact absurd heq (hplus digits)

theorem afterHexMark?_eq_some_iff {digits : List Char} :
    afterHexMark? cs = some digits ↔
      ∃ mark, (mark = 'x' ∨ mark = 'X') ∧ cs = '0' :: mark :: digits := by
  constructor
  · intro h
    unfold afterHexMark? at h
    split at h
    · exact ⟨'x', .inl rfl, by rw [Option.some.inj h]⟩
    · exact ⟨'X', .inr rfl, by rw [Option.some.inj h]⟩
    · cases h
  · rintro ⟨mark, rfl | rfl, rfl⟩ <;> rfl

end Text

namespace Assembly

variable {token : Token} {v : UInt8}

/-! ## Characters -/

theorem unquoted?_eq_some_iff {inner : List Char} :
    unquoted? token = some inner ↔ token = quote :: (inner ++ [quote]) := by
  unfold unquoted?
  cases token with
  | nil => simp
  | cons c rest =>
    simp only [Option.ite_none_right_eq_some, Option.some.injEq, List.cons.injEq]
    rw [and_assoc]
    refine and_congr_right fun _ => ?_
    constructor
    · rintro ⟨hlast, rfl⟩
      obtain ⟨front, rfl⟩ := List.getLast?_eq_some_iff.mp hlast
      rw [List.dropLast_concat]
    · rintro rfl
      simp

theorem character_eq_ok_iff :
    character token = .ok v ↔
      ∃ c : Char, c.toNat < 128 ∧ token = [quote, c, quote] ∧ v = UInt8.ofNat c.toNat := by
  unfold character
  constructor
  · intro h
    split at h
    · next c hinner =>
      split at h
      · next hlt =>
        obtain rfl := Except.ok.inj h
        exact ⟨c, hlt, unquoted?_eq_some_iff.mp hinner, rfl⟩
      · cases h
    · cases h
  · rintro ⟨c, hlt, rfl, rfl⟩
    have hinner : unquoted? [quote, c, quote] = some [c] := unquoted?_eq_some_iff.mpr rfl
    rw [hinner]
    exact if_pos hlt

/-! ## Literals -/

/-- A literal and the byte that it stands for. -/
inductive Literal : Token → UInt8 → Prop where
  /-- A single ASCII character between quotes, which may be a quote itself. -/
  | character {c : Char} (h : c.toNat < 128) : Literal [quote, c, quote] (UInt8.ofNat c.toNat)
  /-- Hexadecimal digits behind their mark. -/
  | hexadecimal {mark : Char} {digits : List Char} {v : UInt8} (hmark : mark = 'x' ∨ mark = 'X')
      (h : Text.Numeral 16 digits v.toNat) : Literal ('0' :: mark :: digits) v
  /-- Digits in base ten. -/
  | decimal {digits : List Char} {v : UInt8} (h : Text.Numeral 10 digits v.toNat) : Literal digits v

/-- A number with a plus sign in front of its digits. The grammar has no signs. -/
inductive PlusLiteral : Token → UInt8 → Prop where
  | hexadecimal {mark : Char} {digits : List Char} {v : UInt8} (hmark : mark = 'x' ∨ mark = 'X')
      (h : Text.Numeral 16 digits v.toNat) : PlusLiteral ('0' :: mark :: '+' :: digits) v
  | decimal {digits : List Char} {v : UInt8} (h : Text.Numeral 10 digits v.toNat) :
      PlusLiteral ('+' :: digits) v

theorem literal_of_quote (h : token.head? = some quote) : literal token = character token :=
  if_pos h

/-- The byte with a number that has been read. -/
def byteOf (token : Token) : Option Nat → Except OperandCause UInt8
  | some n => if n < 256 then .ok (UInt8.ofNat n) else .error (.valueTooLarge n)
  | none => .error (.notNumber token)

theorem byteOf_eq_ok_iff {number? : Option Nat} :
    byteOf token number? = .ok v ↔ number? = some v.toNat := by
  unfold byteOf
  split
  · next n =>
    rw [Option.some.injEq]
    split
    · next hlt => rw [Except.ok.injEq, ← UInt8.toNat_inj, UInt8.toNat_ofNat_of_lt' hlt]
    · next hge =>
      refine ⟨nofun, ?_⟩
      rintro rfl
      exact absurd v.toNat_lt hge
  · exact ⟨nofun, nofun⟩

theorem literal_of_mark (hquote : token.head? ≠ some quote) {digits : List Char}
    (h : Text.afterHexMark? token = some digits) :
    literal token = byteOf token (Text.unsigned? 16 numberBound digits) := by
  rw [literal, if_neg hquote, h]
  rfl

theorem literal_of_no_mark (hquote : token.head? ≠ some quote)
    (h : Text.afterHexMark? token = none) :
    literal token = byteOf token (Text.unsigned? 10 numberBound token) := by
  rw [literal, if_neg hquote, h]
  rfl

theorem unsigned?_eq_toNat {base : Nat} (hbase : base ≤ 16) {cs : List Char} :
    Text.unsigned? base numberBound cs = some v.toNat ↔
      Text.Numeral base cs v.toNat ∨
        ∃ digits, cs = '+' :: digits ∧ Text.Numeral base digits v.toNat := by
  have hbound : v.toNat < numberBound := Nat.lt_trans v.toNat_lt (by decide)
  rw [Text.unsigned?_eq_some_iff hbase, and_iff_right hbound]

theorem literal_eq_ok_of_mark {mark : Char} {digits : List Char} (hmark : mark = 'x' ∨ mark = 'X') :
    literal ('0' :: mark :: digits) = .ok v ↔
      Literal ('0' :: mark :: digits) v ∨ PlusLiteral ('0' :: mark :: digits) v := by
  rw [literal_of_mark (by simp [quote]) (Text.afterHexMark?_eq_some_iff.mpr ⟨mark, hmark, rfl⟩),
    byteOf_eq_ok_iff, unsigned?_eq_toNat (by decide)]
  constructor
  · rintro (h | ⟨digits, rfl, h⟩)
    · exact .inl (.hexadecimal hmark h)
    · exact .inr (.hexadecimal hmark h)
  · rintro (h | h)
    · cases h with
      | hexadecimal _ h => exact .inl h
      | decimal h =>
        -- the mark is no digit in base ten
        have hnone : Text.digitValue? 10 mark = none := by rcases hmark with rfl | rfl <;> rfl
        exact absurd (by simp) (h.not_mem (by decide) hnone)
    · cases h with
      | hexadecimal _ h => exact .inr ⟨_, rfl, h⟩

theorem literal_eq_ok_of_no_mark (hquote : token.head? ≠ some quote)
    (hmark : Text.afterHexMark? token = none) :
    literal token = .ok v ↔ Literal token v ∨ PlusLiteral token v := by
  have hnot {mark : Char} {digits : List Char} (h : mark = 'x' ∨ mark = 'X') :
      token ≠ '0' :: mark :: digits := by
    intro heq
    cases hmark.symm.trans (Text.afterHexMark?_eq_some_iff.mpr ⟨mark, h, heq⟩)
  rw [literal_of_no_mark hquote hmark, byteOf_eq_ok_iff, unsigned?_eq_toNat (by decide)]
  constructor
  · rintro (h | ⟨digits, rfl, h⟩)
    · exact .inl (.decimal h)
    · exact .inr (.decimal h)
  · rintro (h | h)
    · cases h with
      | character => exact absurd rfl hquote
      | hexadecimal hx _ => exact absurd rfl (hnot hx)
      | decimal h => exact .inl h
    · cases h with
      | hexadecimal hx _ => exact absurd rfl (hnot hx)
      | decimal h => exact .inr ⟨_, rfl, h⟩

theorem literal_eq_ok_of_quote (hquote : token.head? = some quote) :
    literal token = .ok v ↔ Literal token v ∨ PlusLiteral token v := by
  rw [literal_of_quote hquote, character_eq_ok_iff]
  constructor
  · rintro ⟨c, hlt, rfl, rfl⟩
    exact .inl (.character hlt)
  · rintro (h | h)
    · cases h with
      | character hlt => exact ⟨_, hlt, rfl, rfl⟩
      | hexadecimal => cases hquote
      | decimal h => exact absurd (List.mem_of_mem_head? hquote) (h.not_mem (by decide) rfl)
    · cases h <;> cases hquote

/-- The reader knows the literals of the grammar, those with a plus sign, and no others. -/
theorem literal_eq_ok_iff : literal token = .ok v ↔ Literal token v ∨ PlusLiteral token v := by
  by_cases hquote : token.head? = some quote
  · exact literal_eq_ok_of_quote hquote
  · cases hmark : Text.afterHexMark? token with
    | none => exact literal_eq_ok_of_no_mark hquote hmark
    | some digits =>
      obtain ⟨mark, hx, rfl⟩ := Text.afterHexMark?_eq_some_iff.mp hmark
      exact literal_eq_ok_of_mark hx

theorem PlusLiteral.mem (h : PlusLiteral token v) : '+' ∈ token ∧ token.head? ≠ some quote := by
  cases h <;> simp [quote]

theorem Literal.ne_plus (h : Literal token v) : token.head? ≠ some '+' := by
  intro hplus
  cases h with
  | character | hexadecimal => cases hplus
  | decimal h => exact absurd (List.mem_of_mem_head? hplus) (h.not_mem (by decide) rfl)

/-- **Which tokens are literals.** A token is read as a byte exactly if it is a literal of the grammar
for this byte, or a number with a plus sign in front of its digits; every other one is an invalid
operand. So the reader follows the grammar on all tokens but those, and it does so on every token that
has no plus sign outside quotes. -/
theorem literal_reads (token : Token) :
    (∀ v, literal token = .ok v ↔ Literal token v ∨ PlusLiteral token v) ∧
      ((∀ v, ¬ Literal token v ∧ ¬ PlusLiteral token v) →
        ∃ cause, (literal token).mapError Cause.invalidOperand = .error (.invalidOperand cause)) ∧
      ('+' ∉ token ∨ token.head? = some quote →
        ∀ v, literal token = .ok v ↔ Literal token v) := by
  refine ⟨fun v => literal_eq_ok_iff, ?_, ?_⟩
  · intro hnone
    cases hread : literal token with
    | ok v =>
      rcases literal_eq_ok_iff.mp hread with h | h
      · exact absurd h (hnone v).1
      · exact absurd h (hnone v).2
    | error cause => exact ⟨cause, rfl⟩
  · intro hplus v
    rw [literal_eq_ok_iff, or_iff_left]
    intro h
    rcases hplus with hplus | hquote
    · exact hplus h.mem.1
    · exact h.mem.2 hquote

/-- A number in base sixteen with a zero in front, and a token that is no literal. -/
theorem literal_reads_hexadecimal :
    '+' ∉ "0X02a".toList ∧ literal "0X02a".toList = .ok 42 ∧ Literal "0X02a".toList 42 ∧
      (∀ v, ¬ Literal "12abc".toList v ∧ ¬ PlusLiteral "12abc".toList v) ∧
      ∃ cause, (literal "12abc".toList).mapError Cause.invalidOperand =
        .error (.invalidOperand cause) := by
  obtain ⟨-, -, hgrammar⟩ := literal_reads "0X02a".toList
  obtain ⟨hreads, hrefused, -⟩ := literal_reads "12abc".toList
  have hplus : '+' ∉ "0X02a".toList := by decide
  have hread : literal "0X02a".toList = .ok 42 := by rfl
  have hnone : ∀ v, ¬ Literal "12abc".toList v ∧ ¬ PlusLiteral "12abc".toList v := by
    intro v
    rw [← not_or, ← hreads]
    have herror : literal "12abc".toList = .error (.notNumber "12abc".toList) := by rfl
    rw [herror]
    exact nofun
  exact ⟨hplus, hread, (hgrammar (.inl hplus) 42).mp hread, hnone, hrefused hnone⟩

/-- A plus sign in front of a number is read, though the grammar has no signs. -/
theorem literal_with_plus :
    literal "+5".toList = .ok 5 ∧ ∀ v, ¬ Literal "+5".toList v :=
  ⟨by rfl, fun _ h => h.ne_plus rfl⟩

end Assembly

end Octet
