/-!
# JSON values

A value keeps what its text says: the members of an object in order and with their repetitions, and numbers as
they are written, so that `1` and `1.0` differ. A string that holds half of a surrogate pair is no text: all
such strings are one value.
-/

namespace Occupancy

/-- A string in a JSON text: the text it stands for, or `none` when it holds half of a surrogate pair. -/
abbrev JsonString := Option String

/-- A number as it is written. -/
structure JsonNumber where
  negative : Bool := false
  whole : Nat
  /-- The digits after the point; there is a point only if there are digits. -/
  fraction : List (Fin 10) := []
  exponent : Option Int := none
  deriving DecidableEq, Repr

inductive Json where
  | null
  | bool (value : Bool)
  | number (value : JsonNumber)
  | string (text : JsonString)
  | array (items : List Json)
  | object (members : List (JsonString × Json))
  deriving Repr, Inhabited

/-- The natural number that is written with digits alone. -/
def JsonNumber.nat? (n : JsonNumber) : Option Nat :=
  if n.negative || !n.fraction.isEmpty || n.exponent.isSome then none else some n.whole

namespace Json

def nat (n : Nat) : Json := .number { whole := n }

def text (s : String) : Json := .string (some s)

/-- An object with these members. -/
def record (members : List (String × Json)) : Json :=
  .object (members.map fun (key, value) => (some key, value))

end Json

end Occupancy
