import Occupancy.Json.Token
/-!
# Reading JSON texts

A machine takes one token at a time and keeps the containers it is in on a stack, so values may be nested to
any depth.
-/

namespace Occupancy.Json

/-- A container that is not complete, with what it holds so far, the latest first. -/
inductive Frame where
  | items (done : List Json)
  /-- An object that waits for the value of the member `key`. -/
  | members (done : List (JsonString × Json)) (key : JsonString)
  deriving Repr

/-- What the machine waits for. -/
inductive Reader where
  | value (stack : List Frame)
  /-- The first item of an array, or its end. -/
  | firstItem (stack : List Frame)
  /-- The next item of an array, after a comma, or its end. -/
  | afterItem (stack : List Frame) (done : List Json)
  /-- The first key of an object, or its end. -/
  | firstKey (stack : List Frame)
  /-- The key that a comma has announced. -/
  | nextKey (stack : List Frame) (done : List (JsonString × Json))
  | colon (stack : List Frame) (done : List (JsonString × Json)) (key : JsonString)
  /-- The next member of an object, after a comma, or its end. -/
  | afterMember (stack : List Frame) (done : List (JsonString × Json))
  /-- The end of the text. -/
  | finished (result : Json)
  deriving Repr

namespace Reader

/-- The machine after a complete value. -/
def deliver (v : Json) : List Frame → Reader
  | [] => .finished v
  | .items done :: stack => .afterItem stack (v :: done)
  | .members done key :: stack => .afterMember stack ((key, v) :: done)

/-- The machine after the first token of a value. -/
def openValue (stack : List Frame) : Token → Option Reader
  | .null => some (deliver .null stack)
  | .bool b => some (deliver (.bool b) stack)
  | .number n => some (deliver (.number n) stack)
  | .string s => some (deliver (.string s) stack)
  | .openBracket => some (.firstItem stack)
  | .openBrace => some (.firstKey stack)
  | _ => none

/-- One token; none where no JSON text goes on with it. -/
def step : Reader → Token → Option Reader
  | .value stack, t => openValue stack t
  | .firstItem stack, .closeBracket => some (deliver (.array []) stack)
  | .firstItem stack, t => openValue (.items [] :: stack) t
  | .afterItem stack done, .comma => some (.value (.items done :: stack))
  | .afterItem stack done, .closeBracket => some (deliver (.array done.reverse) stack)
  | .firstKey stack, .closeBrace => some (deliver (.object []) stack)
  | .firstKey stack, .string key => some (.colon stack [] key)
  | .nextKey stack done, .string key => some (.colon stack done key)
  | .colon stack done key, .colon => some (.value (.members done key :: stack))
  | .afterMember stack done, .comma => some (.nextKey stack done)
  | .afterMember stack done, .closeBrace => some (deliver (.object done.reverse) stack)
  | _, _ => none

def finish : Reader → Option Json
  | .finished v => some v
  | _ => none

end Reader

/-- The value that a row of tokens is. -/
def ofTokens? (ts : List Token) : Option Json :=
  (ts.foldlM Reader.step (.value [])).bind Reader.finish

/-- The value that a text is. -/
def read? (text : String) : Option Json := (tokens? text.toList).bind ofTokens?

end Occupancy.Json
