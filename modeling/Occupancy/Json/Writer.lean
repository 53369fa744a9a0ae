import Occupancy.Json.Token
/-!
# Writing JSON texts

`compact` writes the tokens of a value one after the other. `pretty` gives every item and every member a line
of its own, two blanks further in than the container; a container that holds nothing stays on its line.
-/

namespace Occupancy.Json

/-! ## On one line -/

mutual

/-- The tokens of a value. -/
def tokens : Json → List Token
  | .null => [.null]
  | .bool b => [.bool b]
  | .number n => [.number n]
  | .string s => [.string s]
  | .array items => .openBracket :: itemTokens items ++ [.closeBracket]
  | .object members => .openBrace :: memberTokens members ++ [.closeBrace]

def itemTokens : List Json → List Token
  | [] => []
  | [v] => v.tokens
  | v :: rest => v.tokens ++ .comma :: itemTokens rest

def memberTokens : List (JsonString × Json) → List Token
  | [] => []
  | [(key, v)] => .string key :: .colon :: v.tokens
  | (key, v) :: rest => .string key :: .colon :: v.tokens ++ .comma :: memberTokens rest

end

def compact (v : Json) : String := String.ofList (v.tokens.flatMap Token.text)

/-! ## On many lines -/

/-- A new line that is `depth` containers deep. -/
def newLine (depth : Nat) : String := "\n".pushn ' ' (2 * depth)

/-- The parts of a container between its two brackets, each on a line of its own. -/
def enclose (opening closing : String) (depth : Nat) (parts : List String) : String :=
  if parts.isEmpty then opening ++ closing
  else opening ++ newLine (depth + 1) ++ String.intercalate ("," ++ newLine (depth + 1)) parts ++
    newLine depth ++ closing

mutual

/-- A value that starts `depth` containers deep. -/
def prettyAt (depth : Nat) : Json → String
  | .array items => enclose "[" "]" depth (prettyItems (depth + 1) items)
  | .object members => enclose "\x7b" "\x7d" depth (prettyMembers (depth + 1) members)
  | .null => String.ofList Token.null.text
  | .bool b => String.ofList (Token.bool b).text
  | .number n => String.ofList (writeNumber n)
  | .string s => String.ofList (quote s)

def prettyItems (depth : Nat) : List Json → List String
  | [] => []
  | v :: rest => prettyAt depth v :: prettyItems depth rest

def prettyMembers (depth : Nat) : List (JsonString × Json) → List String
  | [] => []
  | (key, v) :: rest => (String.ofList (quote key) ++ ": " ++ prettyAt depth v) :: prettyMembers depth rest

end

def pretty (v : Json) : String := prettyAt 0 v

end Occupancy.Json
