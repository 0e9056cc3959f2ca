import Octet.Json.Shape
import Octet.Proofs.Json.Values
import Octet.Proofs.Reading.Numerals

/-!
# Data that is written is read again

A way to write data as JSON and a way to read it make a `RoundTrip` if what is written is read as what it
was written from, and is an exact value; then both texts of it are read as it, too. So it is for numbers
and lists of bytes. A record is read by the names of its fields if no two are the same (`fields?_record`),
and a choice by its name if no two have the same (`choice?_name`).
-/

namespace Octet.Json

/-- What is written is an exact value and is read as what it was written from. -/
structure RoundTrip {α : Type} (write : α → Json) (read : Json → Option α) : Prop where
  exact (a : α) : (write a).Exact
  read (a : α) : read (write a) = some a

variable {α : Type} {write : α → Json} {read : Json → Option α}

theorem RoundTrip.text (h : RoundTrip write read) (a : α) :
    (ofText? (write a).render).bind read = some a := by
  rw [ofText?_render (h.exact a), Option.bind_some, h.read]

theorem RoundTrip.textPretty (h : RoundTrip write read) (a : α) :
    (ofText? (write a).renderPretty).bind read = some a := by
  rw [ofText?_renderPretty (h.exact a), Option.bind_some, h.read]

theorem roundTrip_bool : RoundTrip bool bool? where
  exact _ := .bool
  read _ := rfl

/-! ## Numbers -/

/-- A number is written without needless zeros. -/
theorem eq_zero_of_head?_toDigits {n : Nat} (h : (Nat.toDigits 10 n).head? = some '0') : n = 0 := by
  induction n using Nat.strongRecOn with
  | _ n ih =>
    by_cases hlt : n < 10
    · have hdigits : ∀ d < 10, (Nat.toDigits 10 d).head? = some '0' → d = 0 := by decide
      exact hdigits n hlt h
    · have hpos : 0 < n / 10 := by omega
      have hsplit := Nat.toDigits_append_toDigits (by decide : 1 < 10) hpos
        (Nat.mod_lt n (by decide : 0 < 10))
      rw [Nat.div_add_mod] at hsplit
      rw [← hsplit, List.head?_append_of_ne_nil _ Nat.toDigits_ne_nil] at h
      exact absurd (ih (n / 10) (by omega) h) (by omega)

theorem eq_nil_of_toDigits {n : Nat} {rest : List Char} (h : Nat.toDigits 10 n = '0' :: rest) :
    rest = [] := by
  obtain rfl : n = 0 := eq_zero_of_head?_toDigits (by rw [h]; rfl)
  cases h
  rfl

theorem nat?_nat {n bound : Nat} (h : n < bound) : (nat n).nat? bound = some n := by
  unfold nat nat?
  simp only
  split
  · next hzero => exact absurd (eq_nil_of_toDigits hzero) (List.cons_ne_nil _ _)
  · simp [Text.numeral?_toDigits, h]

theorem isNumber_toDigits (n : Nat) : isNumber (Nat.toDigits 10 n) = true := by
  have hdigits : ∀ c ∈ Nat.toDigits 10 n, c.isDigit = true := fun _ =>
    Nat.isDigit_of_mem_toDigits (by decide) (by decide)
  obtain ⟨c, rest, hcs⟩ := List.exists_cons_of_ne_nil (Nat.toDigits_ne_nil (b := 10) (n := n))
  rw [hcs] at hdigits ⊢
  obtain ⟨hc, hrest⟩ := List.forall_mem_cons.mp hdigits
  by_cases hzero : c = '0'
  · subst hzero
    rw [eq_nil_of_toDigits hcs]
    rfl
  · have hsign : c ≠ '-' := by
      rintro rfl
      exact absurd hc (by decide)
    have hend : rest.dropWhile Char.isDigit = [] := List.dropWhile_eq_nil_iff.mpr hrest
    simp [isNumber, hsign, hzero, hc, hend, isFraction, isExponent]

theorem roundTrip_byte : RoundTrip byte byte? where
  exact b := .number (isNumber_toDigits b.toNat)
  read b := by rw [byte?, byte, nat?_nat b.toNat_lt, Option.map_some, UInt8.ofNat_toNat]

/-! ## Lists -/

/-- Reading every item of a list. -/
theorem mapM_map {β γ : Type} {f : α → β} {g : β → Option γ} {h : α → γ} {xs : List α}
    (hread : ∀ x ∈ xs, g (f x) = some (h x)) : (xs.map f).mapM g = some (xs.map h) := by
  induction xs with
  | nil => rfl
  | cons x xs ih =>
    obtain ⟨hx, hxs⟩ := List.forall_mem_cons.mp hread
    simp only [List.map_cons, List.mapM_cons, hx, ih hxs]
    rfl

theorem roundTrip_bytes : RoundTrip bytes bytes? where
  exact bs := by
    refine .array fun v hv => ?_
    obtain ⟨b, -, rfl⟩ := List.mem_map.mp hv
    exact roundTrip_byte.exact b
  read bs := by
    have hread : (bs.map byte).mapM byte? = some (bs.map id) :=
      mapM_map fun b _ => roundTrip_byte.read b
    rw [List.map_id] at hread
    exact hread

/-! ## Names -/

theorem text?_pieces (s : String) : text? (pieces s) = some s.toList := by
  unfold pieces
  induction s.toList with
  | nil => rfl
  | cons c cs ih => rw [List.map_cons, text?, ih]; rfl

/-- Whether a name has no control characters. -/
def isPlain (s : String) : Bool :=
  s.toList.all fun c => 32 ≤ c.toNat

theorem exact_pieces {s : String} (h : isPlain s = true) : ∀ p ∈ pieces s, p.Exact := by
  intro p hp
  obtain ⟨c, hc, rfl⟩ := List.mem_map.mp hp
  have hplain : 32 ≤ c.toNat := of_decide_eq_true (List.all_eq_true.mp h c hc)
  exact hplain

theorem exact_name {s : String} (h : isPlain s = true) : (name s).Exact :=
  .string (exact_pieces h)

/-- Where no two entries have the same name, there is one under the name of an entry. -/
theorem filter_name {entries : List (String × α)}
    (hnodup : (entries.map (·.1)).Nodup) {s : String} {a : α} (h : (s, a) ∈ entries) :
    entries.filter (fun e => e.1.toList == s.toList) = [(s, a)] := by
  induction entries with
  | nil => cases h
  | cons e entries ih =>
    obtain ⟨he, hnodup⟩ := List.nodup_cons.mp hnodup
    rcases List.mem_cons.mp h with rfl | h
    · have hnone : entries.filter (fun e => e.1.toList == s.toList) = [] := by
        refine List.filter_eq_nil_iff.mpr fun other hother heq => he ?_
        exact List.mem_map.mpr ⟨other, hother, String.toList_inj.mp (eq_of_beq heq)⟩
      rw [List.filter_cons, if_pos (beq_self_eq_true _), hnone]
    · have hne : ¬ (e.1.toList == s.toList) = true := by
        intro heq
        exact he (List.mem_map.mpr ⟨_, h, (String.toList_inj.mp (eq_of_beq heq)).symm⟩)
      rw [List.filter_cons, if_neg hne]
      exact ih hnodup h

/-! ## Records -/

variable {fields : List (String × Json)}

theorem only?_of_mem (hnodup : (fields.map (·.1)).Nodup) {f : String × Json} (hf : f ∈ fields) :
    only? (fields.map fun f => (f.1.toList, f.2)) f.1 = some (some f.2) := by
  have hfilter := filter_name hnodup (s := f.1) (a := f.2) hf
  have hmap : (fields.map fun f => (f.1.toList, f.2)).filter (fun m => m.1 == f.1.toList) =
      [(f.1.toList, f.2)] := by
    rw [List.filter_map]
    exact congrArg (List.map _) hfilter
  rw [only?, hmap]

/-- The fields of a record are read under their names. -/
theorem fields?_record {names : List String} (hnames : fields.map (·.1) = names)
    (hnodup : names.Nodup) : (record fields).fields? names = some (fields.map fun f => some f.2) := by
  subst hnames
  have hmembers : namedMembers? (fields.map fun f => (pieces f.1, f.2)) =
      some (fields.map fun f => (f.1.toList, f.2)) :=
    mapM_map fun f _ => by rw [text?_pieces, Option.map_some]
  have hfields := mapM_map (h := fun f => some f.2) fun f hf => only?_of_mem hnodup hf
  simp only [record, fields?, hmembers]
  exact hfields

theorem exact_record (names : List String) (hnames : fields.map (·.1) = names)
    (hplain : names.all isPlain = true) (hvalues : ∀ v ∈ fields.map (·.2), v.Exact) :
    (record fields).Exact := by
  subst hnames
  refine .object ?_ ?_
  · intro m hm
    obtain ⟨f, hf, rfl⟩ := List.mem_map.mp hm
    exact exact_pieces (List.all_eq_true.mp hplain _ (List.mem_map_of_mem hf))
  · intro m hm
    obtain ⟨f, hf, rfl⟩ := List.mem_map.mp hm
    exact hvalues _ (List.mem_map_of_mem hf)

/-! ## Alternatives -/

theorem alternative?_name (s : String) : (name s).alternative? = some (s.toList, none) := by
  rw [name, alternative?, text?_pieces, Option.map_some]

theorem alternative?_tagged (tag : String) (v : Json) :
    (tagged tag v).alternative? = some (tag.toList, some v) := by
  simp only [tagged, record, List.map_cons, List.map_nil, alternative?, text?_pieces, Option.map_some]

theorem exact_tagged {tag : String} {v : Json} (htag : isPlain tag = true) (h : v.Exact) :
    (tagged tag v).Exact :=
  exact_record [tag] rfl (by rw [List.all_cons, htag]; rfl) (List.forall_mem_singleton.mpr h)

/-- A choice is read by its name. -/
theorem choice?_name {choices : List (String × α)} (hnodup : (choices.map (·.1)).Nodup)
    {s : String} {a : α} (h : (s, a) ∈ choices) : choice? choices (name s) = some a := by
  have hfind : choices.find? (fun choice => choice.1.toList == s.toList) = some (s, a) := by
    rw [← List.head?_filter, filter_name hnodup h, List.head?_cons]
  simp only [choice?, alternative?_name, isEmptyContent, if_true, hfind, Option.map_some]

end Octet.Json
