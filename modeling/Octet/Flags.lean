import Octet.Text.Record

/-!
# Flags

An instruction set keeps its flags in one of two ways. The *comparison* model remembers the order
of the two values compared last. The *status* model keeps three bits: zero, negative and carry.
Each model answers every `Condition`; `Flags.test` is that table.

* `Flags.compare` — sets the flags from a comparison; both models.
* `Flags.noteResult` — zero and negative of a value written to a register; status model only.
* `Flags.setCarry` — the carry; status model only.
-/

namespace Octet

/-- The conditions of jumps and branches. -/
inductive Condition where
  | always
  | equal
  | less
  | greater
  | zero
  | notZero
  | negative
  | positive
  | carrySet
  | carryClear
  deriving DecidableEq

/-- The two ways to keep flags. -/
inductive FlagModel where
  | comparison
  | statusBits
  deriving DecidableEq

/-- The state of the flags. -/
inductive Flags where
  /-- The order of the two values compared last. -/
  | comparison (order : Ordering)
  | status (zero negative carry : Bool)
  deriving DecidableEq

/-- The sign written for the outcome of a comparison. -/
def orderSign : Ordering → Char
  | .lt => '<'
  | .eq => '='
  | .gt => '>'

/-- Whether the top bit of a byte is set. -/
def topBit (b : UInt8) : Bool :=
  128 ≤ b

/-- The flags after a reset. -/
def FlagModel.initial : FlagModel → Flags
  | .comparison => .comparison .eq
  | .statusBits => .status false false false

namespace Flags

/-- The way in which the flags are kept. -/
def model : Flags → FlagModel
  | comparison _ => .comparison
  | status .. => .statusBits

/-- Compares two bytes as unsigned numbers. The carry says that subtracting does not borrow. -/
def compare (flags : Flags) (a b : UInt8) : Flags :=
  match flags with
  | comparison _ => comparison (Ord.compare a b)
  | status .. => status (a == b) (topBit (a - b)) (b ≤ a)

/-- Records the sign of a result. -/
def noteResult (flags : Flags) (value : UInt8) : Flags :=
  match flags with
  | comparison order => comparison order
  | status _ _ carry => status (value == 0) (topBit value) carry

/-- Records a carry. -/
def setCarry (flags : Flags) (carry : Bool) : Flags :=
  match flags with
  | comparison order => comparison order
  | status zero negative _ => status zero negative carry

/-- Whether a condition holds. -/
def test : Flags → Condition → Bool
  | comparison order, condition =>
    match condition with
    | .always => true
    | .equal | .zero => order == .eq
    | .notZero => order != .eq
    | .less | .negative | .carryClear => order == .lt
    | .greater => order == .gt
    | .positive | .carrySet => order != .lt
  | status zero negative carry, condition =>
    match condition with
    | .always => true
    | .equal | .zero => zero
    | .notZero => !zero
    | .negative => negative
    | .positive => !negative
    | .carrySet => carry
    | .carryClear | .less => !carry
    | .greater => carry && !zero

/-- The flags as they stand at the end of a line of registers. -/
def render : Flags → String
  | comparison order => "CMP=" ++ String.ofList [orderSign order]
  | status zero negative carry =>
    let bit (b : Bool) : String := if b then "1" else "0"
    "Z=" ++ bit zero ++ " N=" ++ bit negative ++ " C=" ++ bit carry

/-- The name of the outcome of a comparison. -/
def orderName : Ordering → String
  | .lt => "Less"
  | .eq => "Equal"
  | .gt => "Greater"

/-- The flags, for a log. -/
def describe : Flags → String
  | comparison order => "Comparison(" ++ orderName order ++ ")"
  | status zero negative carry =>
    Text.record "Status" [("zero", toString zero), ("negative", toString negative),
      ("carry", toString carry)]

/-! ## What keeps the model -/

@[simp]
theorem model_initial (model : FlagModel) : model.initial.model = model := by
  cases model <;> rfl

@[simp]
theorem model_compare (flags : Flags) (a b : UInt8) : (flags.compare a b).model = flags.model := by
  cases flags <;> rfl

@[simp]
theorem model_noteResult (flags : Flags) (v : UInt8) :
    (flags.noteResult v).model = flags.model := by
  cases flags <;> rfl

@[simp]
theorem model_setCarry (flags : Flags) (c : Bool) : (flags.setCarry c).model = flags.model := by
  cases flags <;> rfl

/-! ## What the conditions ask -/

/-- The comparison model answers by the order of the two values compared last, also where it is asked
for a bit. -/
theorem test_comparison (order : Ordering) :
    let holds (condition : Condition) : Prop := (comparison order).test condition = true
    holds .always ∧ (holds .equal ↔ order = .eq) ∧ (holds .zero ↔ order = .eq) ∧
      (holds .notZero ↔ order ≠ .eq) ∧ (holds .less ↔ order = .lt) ∧
      (holds .negative ↔ order = .lt) ∧ (holds .carryClear ↔ order = .lt) ∧
      (holds .greater ↔ order = .gt) ∧ (holds .positive ↔ order ≠ .lt) ∧
      (holds .carrySet ↔ order ≠ .lt) := by
  cases order <;> simp [test]

/-- The status model answers by its three bits, also where it is asked for an order. -/
theorem test_status (zero negative carry : Bool) :
    let holds (condition : Condition) : Prop := (status zero negative carry).test condition = true
    holds .always ∧ (holds .zero ↔ zero = true) ∧ (holds .equal ↔ zero = true) ∧
      (holds .notZero ↔ zero = false) ∧ (holds .negative ↔ negative = true) ∧
      (holds .positive ↔ negative = false) ∧ (holds .carrySet ↔ carry = true) ∧
      (holds .carryClear ↔ carry = false) ∧ (holds .less ↔ carry = false) ∧
      (holds .greater ↔ carry = true ∧ zero = false) := by
  simp [test]

/-- After a comparison, both models answer alike to what is asked about the order of the two bytes. -/
theorem test_compare (flags : Flags) (a b : UInt8) :
    let holds (condition : Condition) : Prop := (flags.compare a b).test condition = true
    (holds .equal ↔ a = b) ∧ (holds .zero ↔ a = b) ∧ (holds .notZero ↔ a ≠ b) ∧
      (holds .less ↔ a < b) ∧ (holds .carryClear ↔ a < b) ∧ (holds .greater ↔ b < a) ∧
      (holds .carrySet ↔ b ≤ a) := by
  cases flags with
  | comparison order =>
    obtain ⟨-, hequal, hzero, hnotZero, hless, -, hclear, hgreater, -, hset⟩ :=
      test_comparison (Ord.compare a b)
    have heq : Ord.compare a b = .eq ↔ a = b := Std.compare_eq_iff_eq
    have hlt : Ord.compare a b = .lt ↔ a < b := Std.compare_eq_lt
    have hgt : Ord.compare a b = .gt ↔ b < a := Std.compare_eq_gt
    exact ⟨hequal.trans heq, hzero.trans heq, hnotZero.trans (not_congr heq), hless.trans hlt,
      hclear.trans hlt, hgreater.trans hgt, hset.trans ((not_congr hlt).trans UInt8.not_lt)⟩
  | status zero negative carry =>
    obtain ⟨-, hzero, hequal, hnotZero, -, -, hset, hclear, hless, hgreater⟩ :=
      test_status (a == b) (topBit (a - b)) (b ≤ a)
    have heq : (a == b) = true ↔ a = b := beq_iff_eq
    have hne : (a == b) = false ↔ a ≠ b := beq_eq_false_iff_ne
    have hle : decide (b ≤ a) = true ↔ b ≤ a := decide_eq_true_iff
    have hlt : decide (b ≤ a) = false ↔ a < b := decide_eq_false_iff_not.trans UInt8.not_le
    refine ⟨hequal.trans heq, hzero.trans heq, hnotZero.trans hne, hless.trans hlt,
      hclear.trans hlt, hgreater.trans ?_, hset.trans hle⟩
    rw [hle, hne, UInt8.lt_iff_le_and_ne]
    exact and_congr_right fun _ => ne_comm

end Flags

end Octet
