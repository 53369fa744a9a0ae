import Occupancy.Json.Reader
import Occupancy.Json.Writer
/-!
# Records, choices and numbers as JSON

A record is an object with a member for each field, in any order and among any others, or an array of the
fields in the order in which they are declared. A field that is absent may have a default; one that is given
as `null` is not absent. A choice is its name, or an object whose only member has that name and is `null`.
-/

namespace Occupancy.Document

/-- The values given for the named fields, in the order of the names. There are none for a value that is no
record of these fields: one with a key that is no text, with a field given twice, or with too many items. -/
def fields? (names : List String) : Json → Option (List (Option Json))
  | .object members =>
    let keys := members.map (·.1)
    if keys.contains none || names.any (fun name => 1 < keys.count (some name)) then none
    else some (names.map fun name => members.lookup (some name))
  | .array items =>
    if items.length ≤ names.length then
      some (items.map some ++ List.replicate (names.length - items.length) none)
    else none
  | _ => none

/-- A field that has to be given. -/
def required {α : Type} (read : Json → Option α) (field : Option Json) : Option α := field.bind read

/-- A field that stands for `default` when it is absent. -/
def optional {α : Type} (default : α) (read : Json → Option α) : Option Json → Option α
  | none => some default
  | some v => read v

/-- What `ofName?` makes of the name that a value chooses. -/
def choice? {α : Type} (ofName? : String → Option α) : Json → Option α
  | .string (some name) => ofName? name
  | .object [(some name, .null)] => ofName? name
  | _ => none

def text? : Json → Option String
  | .string s => s
  | _ => none

/-- A natural number below `limit`. -/
def natBelow? (limit : Nat) : Json → Option Nat
  | .number n => n.nat?.bind fun n => if n < limit then some n else none
  | _ => none

def list? {α : Type} (read : Json → Option α) : Json → Option (List α)
  | .array items => items.mapM read
  | _ => none

def array? {α : Type} (read : Json → Option α) (v : Json) : Option (Array α) :=
  (list? read v).map List.toArray

end Occupancy.Document
