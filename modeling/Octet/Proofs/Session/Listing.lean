import Mathlib.Data.List.DropRight
import Mathlib.Order.Bounds.Basic
import Octet.Proofs.Encoding.Decoding
import Octet.Proofs.Encoding.Text
import Octet.Proofs.Placement.Boundaries
import Octet.Proofs.Session.Action
import Octet.Session.Listing

/-!
# Listings

A listing goes through the instruction memory from address zero on, and each of its lines takes as many
bytes as are decoded there. So the lines tile the memory (`Tiles`), whatever it holds: every address
before the end is on one line only, and the last line goes past the end by one byte at most.

The instructions of a program that has just been loaded are decoded with the sizes that they were
encoded with, so that its listing has a line for each instruction line of the source
(`Layout.getElem?_listing`).

The main statement is `listing_tiles`.
-/

namespace Octet

open Assembly (Line Program Layout Context instructionLines lines start tokens layout_of_assemble)

variable {isa : Isa} {first stop finish fuel k a : Nat} {line : ListingLine}
  {rest listing : List ListingLine}

/-! ## Lines that tile -/

/-- The number of bytes on the lines of a listing. -/
def bytesShown (listing : List ListingLine) : Nat :=
  (listing.map fun line => line.bytes.length).sum

/-- The address is one of those that the bytes of a line stand at. -/
def ListingLine.Covers (line : ListingLine) (a : Nat) : Prop :=
  line.address.toNat ≤ a ∧ a < line.address.toNat + line.bytes.length

/-- The lines stand one behind the other, from the first address up to where the last one ends. -/
inductive Tiles : Nat → List ListingLine → Nat → Prop where
  | nil (stop : Nat) : Tiles stop [] stop
  | cons {line : ListingLine} {rest : List ListingLine} {stop : Nat} (hbytes : line.bytes ≠ [])
      (hrest : Tiles (line.address.toNat + line.bytes.length) rest stop) :
      Tiles line.address.toNat (line :: rest) stop

namespace Tiles

theorem stop_eq (h : Tiles first listing stop) : stop = first + bytesShown listing := by
  induction h with
  | nil stop => rfl
  | cons _ _ ih =>
    rw [ih, bytesShown, bytesShown, List.map_cons, List.sum_cons, Nat.add_assoc]

/-- A line starts where the lines before it end. -/
theorem address_eq (h : Tiles first listing stop) (hline : listing[k]? = some line) :
    line.address.toNat = first + bytesShown (listing.take k) := by
  induction h generalizing k with
  | nil stop => cases hline
  | @cons head rest stop _ _ ih =>
    cases k with
    | zero =>
      obtain rfl := Option.some.inj hline
      rfl
    | succ k =>
      rw [ih hline, bytesShown, bytesShown, List.take_succ_cons, List.map_cons, List.sum_cons,
        Nat.add_assoc]

theorem first_le (h : Tiles first listing stop) (hline : line ∈ listing) :
    first ≤ line.address.toNat := by
  obtain ⟨k, hk⟩ := List.getElem?_of_mem hline
  rw [h.address_eq hk]
  exact Nat.le_add_right _ _

/-- Every address in between is on one line, and on no other. -/
theorem existsUnique_covers (h : Tiles first listing stop) (hfirst : first ≤ a) (hstop : a < stop) :
    ∃! k : Nat, ∃ line, listing[k]? = some line ∧ line.Covers a := by
  induction h with
  | nil stop => omega
  | @cons head rest stop hbytes hrest ih =>
    by_cases hhead : a < head.address.toNat + head.bytes.length
    · refine ⟨0, ⟨head, rfl, hfirst, hhead⟩, ?_⟩
      rintro (_ | k) ⟨line, hline, hcovers⟩
      · rfl
      · -- the lines behind the first one start behind it
        have hle := hrest.first_le (List.mem_of_getElem? hline)
        have hlt := hcovers.1
        omega
    · obtain ⟨k, ⟨line, hline, hcovers⟩, hunique⟩ := ih (Nat.le_of_not_lt hhead) hstop
      refine ⟨k + 1, ⟨line, hline, hcovers⟩, ?_⟩
      rintro (_ | k') ⟨line', hline', hcovers'⟩
      · obtain rfl := Option.some.inj hline'
        exact absurd hcovers'.2 hhead
      · rw [hunique k' ⟨line', hline', hcovers'⟩]

end Tiles

/-! ## Machines -/

namespace Machine

/-- The line for an address. -/
def lineAt (m : Machine isa) (address : UInt8) : ListingLine where
  address
  bytes := (m.instructionAt address).bytes
  text := isa.text (m.instructionAt address)

variable {m : Machine isa}

theorem listingFrom_of_lt (h : first < finish) :
    m.listingFrom finish (fuel + 1) first =
      m.lineAt (UInt8.ofNat first) :: m.listingFrom finish fuel
        (first + (m.lineAt (UInt8.ofNat first)).bytes.length) := by
  have hlength : (m.lineAt (UInt8.ofNat first)).bytes.length =
      (m.instructionAt (UInt8.ofNat first)).size.toNat := isa.length_bytes_decode _ _
  rw [listingFrom, if_pos h, hlength]
  rfl

theorem listingFrom_of_le (h : finish ≤ first) : m.listingFrom finish fuel first = [] := by
  cases fuel with
  | zero => rfl
  | succ fuel => exact if_neg (Nat.not_lt_of_le h)

theorem length_bytes_lineAt (m : Machine isa) (address : UInt8) :
    (m.lineAt address).bytes.length = 1 ∨ (m.lineAt address).bytes.length = 2 := by
  have hlength : (m.lineAt address).bytes.length = (m.instructionAt address).size.toNat :=
    isa.length_bytes_decode _ _
  rw [hlength]
  rcases isa.size_decode _ _ with hsize | hsize
  · exact .inl (congrArg UInt8.toNat hsize)
  · exact .inr (congrArg UInt8.toNat hsize)

theorem eq_lineAt_of_mem (h : line ∈ m.listingFrom finish fuel first) :
    line = m.lineAt line.address := by
  induction fuel generalizing first with
  | zero => cases h
  | succ fuel ih =>
    by_cases hlt : first < finish
    · rw [listingFrom_of_lt hlt] at h
      rcases List.mem_cons.mp h with rfl | h
      · rfl
      · exact ih h
    · rw [listingFrom_of_le (Nat.le_of_not_lt hlt)] at h
      cases h

/-- The lines from an address on tile the memory up to the end, or to the byte behind it. -/
theorem exists_tiles_listingFrom (hfinish : finish ≤ 256) (hfuel : finish ≤ first + fuel)
    (hfirst : first ≤ finish + 1) :
    ∃ stop, finish ≤ stop ∧ stop ≤ finish + 1 ∧
      Tiles first (m.listingFrom finish fuel first) stop := by
  induction fuel generalizing first with
  | zero => exact ⟨first, hfuel, hfirst, .nil first⟩
  | succ fuel ih =>
    by_cases hlt : first < finish
    · have hlength := m.length_bytes_lineAt (UInt8.ofNat first)
      have haddress : (m.lineAt (UInt8.ofNat first)).address.toNat = first :=
        UInt8.toNat_ofNat_of_lt' (Nat.lt_of_lt_of_le hlt hfinish)
      rw [listingFrom_of_lt hlt]
      generalize m.lineAt (UInt8.ofNat first) = line at hlength haddress
      obtain ⟨stop, hle, hle', hrest⟩ :=
        @ih (first + line.bytes.length) (by omega) (by omega)
      refine ⟨stop, hle, hle', ?_⟩
      rw [← haddress] at hrest ⊢
      refine .cons ?_ hrest
      rintro hnil
      simp [hnil] at hlength
    · have hge := Nat.le_of_not_lt hlt
      rw [listingFrom_of_le hge]
      exact ⟨first, hge, hfirst, .nil first⟩

end Machine

/-! ## Programs -/

namespace Assembly.Layout

variable {ls : List Line} {p : Program} {m : Machine isa}

/-- What is shown at the start of an instruction line. -/
theorem lineAt_eq (h : Layout isa ls p) (hm : m.instructions = p.instructions) {read : Line}
    (hline : (instructionLines ls)[k]? = some read) :
    ∃ name code, read.mnemonic = some (String.toList name) ∧
      Text.upper name.toList = name.toList ∧
      isa.encode { address := UInt8.ofNat (start isa ls k), labels := p.labels } name.toList
        (tokens read.operands) = .ok code ∧
      read.size isa = code.bytes.length ∧
      (m.lineAt (UInt8.ofNat (start isa ls k))).bytes = code.bytes ∧
      name.toList <+: (m.lineAt (UInt8.ofNat (start isa ls k))).text.toList := by
  obtain ⟨name, op, code, hmnemonic, hsize, hname, hcode, hdenotes, hfetch⟩ := h.fetch_eq hline
  have hinstruction : m.instructionAt (UInt8.ofNat (start isa ls k)) =
      isa.fetch p.instructions (UInt8.ofNat (start isa ls k)) := by
    rw [Machine.instructionAt, hm]
    rfl
  refine ⟨name, code, hmnemonic, Isa.upper_name hname, hcode,
    hsize.trans code.length_bytes.symm, ?_, ?_⟩
  · rw [Machine.lineAt, hinstruction, hfetch]
    cases code <;> rfl
  · have hknown : (m.instructionAt (UInt8.ofNat (start isa ls k))).op ≠ .unknown := by
      rw [hinstruction, hfetch]
      exact hdenotes.ne_unknown
    have hprefix := isa.prefix_text hknown
    rw [hinstruction, hfetch] at hprefix
    rw [Machine.lineAt, hinstruction, hfetch]
    exact hprefix

/-- The instruction lines end where the program does. -/
theorem getElem?_eq_none_iff (h : Layout isa ls p) :
    (instructionLines ls)[k]? = none ↔ p.length ≤ start isa ls k := by
  constructor
  · intro hend
    rw [h.length_eq, ← start_length, start, start, List.take_length,
      List.take_of_length_le (List.getElem?_eq_none_iff.mp hend)]
  · intro hle
    cases hline : (instructionLines ls)[k]? with
    | none => rfl
    | some read =>
      have hroom := h.start_add_size_le hline
      have hpos := h.size_pos hline
      omega

/-- The lines of a listing from the start of an instruction line on are those of the instruction lines
from there on. -/
theorem getElem?_listingFrom (h : Layout isa ls p) (hm : m.instructions = p.instructions)
    (hfuel : p.length ≤ start isa ls k + fuel) (j : Nat) :
    (m.listingFrom p.length fuel (start isa ls k))[j]? =
      (instructionLines ls)[k + j]?.map fun _ => m.lineAt (UInt8.ofNat (start isa ls (k + j))) := by
  induction fuel generalizing k j with
  | zero =>
    have hend := h.getElem?_eq_none_iff.mpr hfuel
    have hnone : (instructionLines ls)[k + j]? = none := by
      rw [List.getElem?_eq_none_iff] at hend ⊢
      omega
    rw [hnone]
    rfl
  | succ fuel ih =>
    by_cases hlt : start isa ls k < p.length
    · obtain ⟨read, hline⟩ := Option.ne_none_iff_exists'.mp
        (mt h.getElem?_eq_none_iff.mp (Nat.not_le_of_lt hlt))
      obtain ⟨name, code, _, _, _, hsize, hbytes, _⟩ := h.lineAt_eq hm hline
      have hpos := h.size_pos hline
      rw [Machine.listingFrom_of_lt hlt, hbytes, ← hsize, ← start_succ hline]
      cases j with
      | zero => simp [hline]
      | succ j =>
        rw [List.getElem?_cons_succ, ih (by rw [start_succ hline]; omega), Nat.add_right_comm k 1]
        rfl
    · have hge := Nat.le_of_not_lt hlt
      have hend := h.getElem?_eq_none_iff.mpr hge
      have hnone : (instructionLines ls)[k + j]? = none := by
        rw [List.getElem?_eq_none_iff] at hend ⊢
        omega
      rw [Machine.listingFrom_of_le hge, hnone]
      rfl

theorem getElem?_listing (h : Layout isa ls p) (hm : m.instructions = p.instructions) (k : Nat) :
    (m.listing p.length)[k]? =
      (instructionLines ls)[k]?.map fun _ => m.lineAt (UInt8.ofNat (start isa ls k)) := by
  have hall := h.getElem?_listingFrom hm (k := 0) (Nat.le_add_left _ _) k
  rwa [Nat.zero_add] at hall

theorem exists_of_mem_listing (h : Layout isa ls p) (hm : m.instructions = p.instructions)
    (hline : line ∈ m.listing p.length) :
    ∃ k read, (instructionLines ls)[k]? = some read ∧
      line = m.lineAt (UInt8.ofNat (start isa ls k)) := by
  obtain ⟨k, hk⟩ := List.getElem?_of_mem hline
  rw [h.getElem?_listing hm] at hk
  obtain ⟨read, hread, rfl⟩ := Option.map_eq_some_iff.mp hk
  exact ⟨k, read, hread, rfl⟩

theorem length_listing (h : Layout isa ls p) (hm : m.instructions = p.instructions) :
    (m.listing p.length).length = (instructionLines ls).length := by
  -- both lists end at the same place
  refine Nat.le_antisymm ?_ ?_ <;> rw [← List.getElem?_eq_none_iff]
  · rw [h.getElem?_listing hm, List.getElem?_eq_none (Nat.le_refl _)]
    rfl
  · have hend := h.getElem?_listing hm (m.listing p.length).length
    rw [List.getElem?_eq_none (Nat.le_refl _)] at hend
    exact Option.map_eq_none_iff.mp hend.symm

end Assembly.Layout

/-! ## Sessions -/

/-- The used bytes of a bank end with the last one that is not zero. -/
theorem Bank.isLeast_length_used (bank : Bank) :
    IsLeast {n | ∀ a : UInt8, n ≤ a.toNat → bank.read a = 0} bank.used.length := by
  have hused : bank.used = bank.toList.rdropWhile (· == 0) := rfl
  have hsplit : bank.toList = bank.used ++ (bank.toList.reverse.takeWhile (· == 0)).reverse := by
    rw [used, ← List.reverse_append, List.takeWhile_append_dropWhile, List.reverse_reverse]
  constructor
  · intro a ha
    have hread := bank.read_eq_getElem a
    rw [hsplit, List.getElem?_append_right ha] at hread
    have hmem := List.mem_reverse.mp (List.mem_of_getElem? hread.symm)
    simpa using List.mem_takeWhile_imp hmem
  · intro n hn
    by_contra hlt
    have hne : bank.used ≠ [] := by
      intro hnil
      simp [hnil] at hlt
    have hlast : bank.used.getLast hne ≠ 0 := by
      have hnot := List.rdropWhile_last_not (· == 0) bank.toList (hused ▸ hne)
      simpa [hused] using hnot
    have hlength : bank.used.length ≤ 256 := by
      have hwhole := congrArg List.length hsplit
      rw [length_toList, List.length_append] at hwhole
      omega
    have hpos := List.length_pos_of_ne_nil hne
    have haddress : (UInt8.ofNat (bank.used.length - 1)).toNat = bank.used.length - 1 :=
      UInt8.toNat_ofNat_of_lt' (show bank.used.length - 1 < 256 by omega)
    have hread := bank.read_eq_getElem (UInt8.ofNat (bank.used.length - 1))
    rw [hn _ (by omega), haddress, hsplit, List.getElem?_append_left (by omega),
      ← List.getLast?_eq_getElem?, List.getLast?_eq_some_getLast hne] at hread
    exact hlast (Option.some.inj hread).symm

namespace Session

variable {s : Session}

/-- A program that has been loaded fits in the memory. -/
def ProgramFits (s : Session) : Prop :=
  ∀ p, s.program = some p → p.length ≤ 256

theorem ProgramFits.act (h : s.ProgramFits) (action : Action) : (s.act action).ProgramFits := by
  cases action with
  | load source =>
    simp only [Session.act]
    cases hload : s.load source with
    | ok result =>
      obtain ⟨loaded, program⟩ := result
      obtain ⟨hassemble, rfl⟩ := load_eq_ok.mp hload
      intro p hp
      obtain rfl := Option.some.inj hp
      exact (layout_of_assemble hassemble).length_le
    | error diagnostics => exact h
  | step =>
    show s.step.1.ProgramFits
    rw [step_fst]
    exact h
  | writeRegister name value =>
    show (s.writeRegister name value).1.ProgramFits
    rcases s.writeRegister_fst name value with hwrite | ⟨r, hwrite⟩ <;> rw [hwrite] <;> exact h
  | restore snapshot =>
    simp only [Session.act]
    cases hrestore : s.restore snapshot with
    | ok restored =>
      obtain ⟨_, _, _, _, _, rfl⟩ := restore_eq_ok.mp hrestore
      intro p hp
      cases hp
    | error e => exact h
  | reset =>
    intro p hp
    cases hp
  | run n => exact h
  | runToLimit => exact h
  | resume => exact h
  | forceRunning => exact h
  | writeData address value => exact h
  | writeInstruction address value => exact h

theorem ProgramFits.listingLength_le (h : s.ProgramFits) : s.listingLength ≤ 256 := by
  unfold listingLength
  split
  · next p hp => exact h p hp
  · refine s.machine.instructions.isLeast_length_used.2 fun a ha => ?_
    have hlt := a.toNat_lt
    omega

end Session

/-- A listing covers a memory up to a length, line by line. -/
structure Tiling (memory : Bank) (length : Nat) (listing : List ListingLine) : Prop where
  /-- The first line starts at address zero, and every other one where the lines before it end. -/
  address : ∀ k line, listing[k]? = some line →
    line.address.toNat = bytesShown (listing.take k)
  /-- A line shows one or two bytes of the memory. -/
  bytes : ∀ line ∈ listing, line.bytes ≠ [] ∧
    line.bytes <+: [memory.read line.address, memory.read (line.address + 1)]
  /-- Every address below the length is on exactly one line. -/
  covers : ∀ a < length, ∃! k : Nat, ∃ line, listing[k]? = some line ∧ line.Covers a
  /-- The last line goes past the end by one byte at most. -/
  reaches : length ≤ bytesShown listing
  ends : bytesShown listing ≤ length + 1

/-- A listing shows the instruction lines of a program one by one: where each starts, its bytes, and
its mnemonic. -/
structure Lists (isa : Isa) (ls : List Line) (p : Program) (listing : List ListingLine) : Prop where
  length_eq : listing.length = (instructionLines ls).length
  shows : ∀ k read, (instructionLines ls)[k]? = some read → ∃ mnemonic code shown,
    read.mnemonic = some mnemonic ∧ Text.upper mnemonic = mnemonic ∧
      isa.encode { address := UInt8.ofNat (start isa ls k), labels := p.labels } mnemonic
        (tokens read.operands) = .ok code ∧
      listing[k]? = some shown ∧ shown.address.toNat = start isa ls k ∧
      shown.bytes = code.bytes ∧ mnemonic <+: shown.text.toList

theorem Machine.tiling_listing (m : Machine isa) (hfinish : finish ≤ 256) :
    Tiling m.instructions finish (m.listing finish) := by
  obtain ⟨stop, hreaches, hends, htiles⟩ :=
    m.exists_tiles_listingFrom hfinish (Nat.zero_add finish).ge (Nat.zero_le _)
  have hstop := htiles.stop_eq
  rw [Nat.zero_add] at hstop
  refine ⟨fun k line hline => ?_, fun line hline => ?_, fun a ha => ?_, hstop ▸ hreaches,
    hstop ▸ hends⟩
  · rw [htiles.address_eq hline, Nat.zero_add]
    rfl
  · rw [m.eq_lineAt_of_mem hline]
    exact isa.bytes_decode _ _
  · exact htiles.existsUnique_covers (Nat.zero_le a) (Nat.lt_of_lt_of_le ha hreaches)

theorem Assembly.Layout.lists {ls : List Line} {p : Program} {m : Machine isa}
    (h : Layout isa ls p) (hm : m.instructions = p.instructions) :
    Lists isa ls p (m.listing p.length) := by
  refine ⟨h.length_listing hm, fun k read hline => ?_⟩
  obtain ⟨name, code, hmnemonic, hupper, hcode, _, hbytes, hprefix⟩ := h.lineAt_eq hm hline
  refine ⟨_, code, _, hmnemonic, hupper, hcode, ?_, h.toNat_start hline, hbytes, hprefix⟩
  rw [h.getElem?_listing hm, hline]
  rfl

/-- **Listings tile the memory.** Whatever has been done to a session, its listing goes from address
zero to the end of the program, or to the last byte that is not zero: each line starts where the one
before it ends, every address is on one line, and the last line goes past the end by one byte at most.
The listing of a program that has just been loaded has one line for each instruction line of the source,
with its address, its code and its mnemonic. -/
theorem listing_tiles (config : Config) (actions : List Session.Action) :
    let s := (Session.ofConfig config).acts actions
    (∀ p, s.program = some p → s.listingLength = p.length) ∧
      (s.program = none →
        IsLeast {n | ∀ a : UInt8, n ≤ a.toNat → s.machine.instructions.read a = 0}
          s.listingLength) ∧
      Tiling s.machine.instructions s.listingLength s.listing ∧
      ∀ source loaded p, s.load source = .ok (loaded, p) →
        Lists config.isa (lines config.isa.commentMarks source.toList) p loaded.listing := by
  intro s
  have hconfig : s.config = config := Session.acts_config _ actions
  have hfits : s.ProgramFits :=
    Session.acts_induction Session.ProgramFits (fun _ => True) (fun _ action _ h => h.act action)
      (show (Session.ofConfig config).ProgramFits from nofun) actions fun _ _ => trivial
  refine ⟨fun p hp => ?_, fun hnone => ?_, s.machine.tiling_listing hfits.listingLength_le, ?_⟩
  · rw [Session.listingLength, hp]
  · rw [Session.listingLength, hnone]
    exact s.machine.instructions.isLeast_length_used
  · intro source loaded p hload
    obtain ⟨hassemble, rfl⟩ := Session.load_eq_ok.mp hload
    rw [← hconfig]
    exact (layout_of_assemble hassemble).lists rfl

/-- The listing of a count has a line for each of its five instructions. -/
theorem listing_tiles_countdown :
    ∃ loaded p, (Session.ofConfig { isa := .cdc6504 }).load Assembly.countdown = .ok (loaded, p) ∧
      loaded.listing.length = 5 := by
  obtain ⟨p, hp⟩ := Assembly.assemble_countdown
  have hload := Session.load_eq_ok (s := Session.ofConfig { isa := .cdc6504 }).mpr ⟨hp, rfl⟩
  refine ⟨_, p, hload, ?_⟩
  rw [((listing_tiles { isa := .cdc6504 } []).2.2.2 _ _ p hload).length_eq]
  decide

end Octet
