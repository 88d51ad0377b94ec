import SqlScribe.Json.Numeral

/-!
# Reading values of a given shape

Readers from JSON values to the types of the library. A record may be written as an
object, where unknown members are passed over and known ones may come once, or as an
array of its fields in order, where the last ones may be missing. `Json.generic?` tells
which documents are values in their own right.
-/

namespace SqlScribe

namespace Json

/-! ## Simple shapes -/

/-- The text of a string. -/
def text? : Json → Option Text
  | string t => t
  | _ => none

/-- The value of a truth value. -/
def bool? : Json → Option Bool
  | bool b => some b
  | _ => none

/-- A natural number of at most `max`. -/
def nat? (max : Nat) : Json → Option Nat
  | number w => (Numeral.ofWritten w).natUpTo? max
  | _ => none

/-- A number of single precision. -/
def single? : Json → Option Float32
  | number w => (Numeral.ofWritten w).single?
  | _ => none

/-- The items of an array. -/
def items? : Json → Option (List Json)
  | array js => some js
  | _ => none

/-- The items of an array, each read by `read`. -/
def listOf? {α : Type} (read : Json → Option α) (j : Json) : Option (List α) :=
  j.items?.bind fun js => js.mapM read

/-- The value that a name stands for, written as a string or as the only member of an object,
with the value `null`. -/
def named? {α : Type} (names : List (Text × α)) : Json → Option α
  | string (some t) => names.lookup t
  | object [(some t, null)] => names.lookup t
  | _ => none

/-! ## Records -/

/-- The members of an object, if all their keys are texts. -/
def members? : Json → Option (List (Text × Json))
  | object ms => ms.mapM fun m => m.1.map fun k => (k, m.2)
  | _ => none

/-- The fields of a record in the order of their names, `none` for a missing one. -/
def fields? (names : List Text) (j : Json) : Option (List (Option Json)) :=
  match j with
  | array js =>
      if names.length < js.length then none
      else some (js.map some ++ List.replicate (names.length - js.length) none)
  | _ =>
    match j.members? with
    | none => none
    | some ms =>
        let occurrences (n : Text) : Nat := (ms.filter fun m => m.1 == n).length
        if names.any fun n => 1 < occurrences n then none
        else some (names.map fun n => ms.lookup n)

/-- A field that has to be there. -/
def required? {α : Type} (read : Json → Option α) : Option Json → Option α
  | none => none
  | some j => read j

/-- A field that may be missing and then is `default`. -/
def orDefault? {α : Type} (read : Json → Option α) (default : α) : Option Json → Option α
  | none => some default
  | some j => read j

/-! ## Values in their own right -/

/-- The members in the order of their keys with this one put in; it takes the place of one
with the same key. -/
def insertMember (k : Text) (j : Json) : List (Option Text × Json) → List (Option Text × Json)
  | [] => [(some k, j)]
  | (some l, i) :: ms =>
      if k = l then (some k, j) :: ms
      else if k < l then (some k, j) :: (some l, i) :: ms
      else (some l, i) :: insertMember k j ms
  | m :: ms => m :: insertMember k j ms

/-- How deep a value may be nested. -/
def maxDepth : Nat := 127

mutual

/-- The value with the members of its objects in the order of their keys, each key once with
its last value. There is none when strings are no texts, numbers are too large for a double,
or arrays and objects lie deeper in each other than `room`. -/
def genericIn? (room : Nat) : Json → Option Json
  | null => some .null
  | bool b => some (.bool b)
  | number w =>
      if ((Numeral.ofWritten w).double?).isSome then some (.number w) else none
  | string t => t.map fun t => .string (some t)
  | array js =>
      match room with
      | 0 => none
      | room + 1 => (genericItems? room js).map .array
  | object ms =>
      match room with
      | 0 => none
      | room + 1 => (genericMembers? room [] ms).map .object

/-- The items as values in their own right. -/
def genericItems? (room : Nat) : List Json → Option (List Json)
  | [] => some []
  | j :: js =>
      match genericIn? room j, genericItems? room js with
      | some i, some is => some (i :: is)
      | _, _ => none

/-- The members as values in their own right, put in behind those in `seen`. -/
def genericMembers? (room : Nat) (seen : List (Option Text × Json)) :
    List (Option Text × Json) → Option (List (Option Text × Json))
  | [] => some seen
  | (k, j) :: ms =>
      match k, genericIn? room j with
      | some k, some i => genericMembers? room (insertMember k i seen) ms
      | _, _ => none

end

/-- The document as a value in its own right. -/
def generic? (j : Json) : Option Json := genericIn? maxDepth j

end Json

end SqlScribe
