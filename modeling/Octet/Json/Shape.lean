import Octet.Json.Syntax

/-!
# Reading data from JSON

Data is read from JSON by shape.

* A number is a natural number in base ten without sign, fraction, exponent or needless zeros.
* A record is an object or an array. In an object the fields stand under their names, in any order
  and each at most once, among others that are not looked at. In an array the fields stand in their
  order, and some at the end may be missing.
* An alternative is its name, or an object with its name as the only key and its content as value.
  An alternative without content may have `null` there.
-/

namespace Octet.Json

/-- The natural number that is written, if it is below the bound. -/
def nat? (bound : Nat) : Json → Option Nat
  | number written =>
    match written with
    | '0' :: _ :: _ => none
    | _ => (Text.numeral? 10 written).filter (· < bound)
  | _ => none

/-- A byte. -/
def byte? (v : Json) : Option UInt8 :=
  (v.nat? 256).map UInt8.ofNat

/-- A truth value. -/
def bool? : Json → Option Bool
  | bool value => some value
  | _ => none

/-- The items of an array. -/
def items? : Json → Option (List Json)
  | array items => some items
  | _ => none

/-- A list of bytes. -/
def bytes? (v : Json) : Option (List UInt8) :=
  match v.items? with
  | some items => items.mapM byte?
  | none => none

/-- The members of an object under their texts. -/
def namedMembers? (members : List (Pieces × Json)) : Option (List (List Char × Json)) :=
  members.mapM fun m => (text? m.1).map fun name => (name, m.2)

/-- What stands under a name: at most one value. -/
def only? (members : List (List Char × Json)) (name : String) : Option (Option Json) :=
  match members.filter fun m => m.1 == name.toList with
  | [] => some none
  | [(_, v)] => some (some v)
  | _ => none

/-- The values of the fields of a record, in the order of the given names, `none` for a field that
is missing. -/
def fields? (names : List String) : Json → Option (List (Option Json))
  | array items =>
    if items.length ≤ names.length then
      some (items.map some ++ List.replicate (names.length - items.length) none)
    else none
  | object members =>
    match namedMembers? members with
    | some members => names.mapM (only? members)
    | none => none
  | _ => none

/-- The name and the content of an alternative. -/
def alternative? : Json → Option (List Char × Option Json)
  | string pieces => (text? pieces).map (·, none)
  | object [(name, v)] => (text? name).map (·, some v)
  | _ => none

/-- Whether this is the content of an alternative without content. -/
def isEmptyContent : Option Json → Bool
  | none => true
  | some null => true
  | some _ => false

/-- The one of several alternatives without content that is named. -/
def choice? {α : Type} (choices : List (String × α)) (v : Json) : Option α :=
  match v.alternative? with
  | some (name, content) =>
    if isEmptyContent content then
      (choices.find? fun choice => choice.1.toList == name).map (·.2)
    else none
  | none => none

end Octet.Json
