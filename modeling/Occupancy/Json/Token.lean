import Occupancy.Encoding
import Occupancy.Json
/-!
# The tokens of JSON texts

`Token.text` writes a token, and `tokens?` reads a whole text by a machine that takes one character at a time.
Outside strings the machine gathers whatever stands between blanks, marks and quotes and asks what it is when
it is complete, so a number ends where a character comes that no number holds.
-/

namespace Occupancy.Json

inductive Token where
  | openBracket
  | closeBracket
  | openBrace
  | closeBrace
  | comma
  | colon
  | null
  | bool (value : Bool)
  | number (value : JsonNumber)
  | string (text : JsonString)
  deriving DecidableEq, Repr

/-! ## Numbers -/

def digitChar (d : Fin 10) : Char := Char.ofNat (48 + d.val)

def digit (c : Char) : Fin 10 := Fin.ofNat 10 (c.toNat - 48)

/-- A number of which the last digits stand apart: it is `front * scale + back`. So a long row of digits is
added up in small numbers, and a large one is touched only once for every eighteen digits. -/
structure Decimal where
  front : Nat := 0
  scale : Nat := 1
  back : Nat := 0

namespace Decimal

def value (n : Decimal) : Nat := n.front * n.scale + n.back

/-- The number with one more digit at its end. -/
def push (n : Decimal) (c : Char) : Decimal :=
  if n.scale < 1000000000000000000 then
    { n with scale := n.scale * 10, back := n.back * 10 + (digit c).val }
  else { front := n.value, scale := 10, back := (digit c).val }

theorem value_push (n : Decimal) (c : Char) : (n.push c).value = n.value * 10 + (digit c).val := by
  simp only [push]
  split
  · simp only [value, Nat.add_mul, Nat.mul_assoc, Nat.add_assoc]
  · rfl

theorem value_foldl_push (cs : List Char) (n : Decimal) :
    (cs.foldl push n).value = cs.foldl (fun n c => n * 10 + (digit c).val) n.value := by
  induction cs generalizing n with
  | nil => rfl
  | cons c cs ih => rw [List.foldl_cons, ih, value_push, List.foldl_cons]

end Decimal

/-- The number that a row of decimal digits stands for. -/
def decimal (cs : List Char) : Nat := (cs.foldl Decimal.push {}).value

theorem decimal_eq (cs : List Char) : decimal cs = cs.foldl (fun n c => n * 10 + (digit c).val) 0 :=
  Decimal.value_foldl_push cs {}

/-- The digits at the front of a text, and the rest of it. -/
def digits (cs : List Char) : List Char × List Char := (cs.takeWhile Char.isDigit, cs.dropWhile Char.isDigit)

/-- The digits of a whole number: there is at least one, and none after a leading zero. -/
def isWhole (ds : List Char) : Bool :=
  match ds with
  | [] => false
  | '0' :: rest => rest.isEmpty
  | _ => true

/-- The digits after a point, if there is a point, and the rest of the text. -/
def fraction? : List Char → Option (List (Fin 10) × List Char)
  | '.' :: cs =>
    let (ds, rest) := digits cs
    if ds.isEmpty then none else some (ds.map digit, rest)
  | cs => some ([], cs)

/-- The exponent that the whole text is, without its mark. -/
def signed? (cs : List Char) : Option Int :=
  let (negative, cs) := match cs with
    | '-' :: cs => (true, cs)
    | '+' :: cs => (false, cs)
    | cs => (false, cs)
  let (ds, rest) := digits cs
  if ds.isEmpty || !rest.isEmpty then none
  else some (if negative then -(decimal ds : Int) else decimal ds)

/-- The exponent that the whole text is, if there is any. -/
def exponent? : List Char → Option (Option Int)
  | [] => some none
  | mark :: cs => if mark = 'e' || mark = 'E' then (signed? cs).map some else none

/-- The number that a text is. -/
def number? (cs : List Char) : Option JsonNumber := do
  let (negative, cs) := match cs with
    | '-' :: cs => (true, cs)
    | cs => (false, cs)
  let (ds, rest) := digits cs
  if !isWhole ds then none
  else
    let (fraction, rest) ← fraction? rest
    let exponent ← exponent? rest
    return { negative, whole := decimal ds, fraction, exponent }

def writeNumber (n : JsonNumber) : List Char :=
  let sign := if n.negative then ['-'] else []
  let point := if n.fraction.isEmpty then [] else '.' :: n.fraction.map digitChar
  let exponent := match n.exponent with
    | none => []
    | some (.ofNat e) => 'e' :: Nat.toDigits 10 e
    | some (.negSucc e) => 'e' :: '-' :: Nat.toDigits 10 (e + 1)
  sign ++ Nat.toDigits 10 n.whole ++ point ++ exponent

/-! ## Strings -/

/-- A piece of a string: a character, or an escaped half of a surrogate pair. -/
inductive Piece where
  | char (c : Char)
  | half (code : Nat)
  deriving DecidableEq, Repr

def isHighHalf (n : Nat) : Bool := 0xD800 ≤ n && n < 0xDC00

def isLowHalf (n : Nat) : Bool := 0xDC00 ≤ n && n < 0xE000

/-- The piece that a code of four hexadecimal digits stands for. -/
def Piece.ofCode (n : Nat) : Piece :=
  if isHighHalf n || isLowHalf n then .half n else .char (Char.ofNat n)

/-- The character that two halves stand for. -/
def joinHalves (high low : Nat) : Char :=
  Char.ofNat (0x10000 + (high - 0xD800) * 0x400 + (low - 0xDC00))

/-- The text that pieces make: every high half has to be followed by a low one, and only then may one come. -/
def joinPieces : List Piece → Option (List Char)
  | [] => some []
  | .char c :: rest => (joinPieces rest).map (c :: ·)
  | .half high :: .half low :: rest =>
    if isHighHalf high && isLowHalf low then (joinPieces rest).map (joinHalves high low :: ·) else none
  | .half _ :: _ => none

/-- The character that a one-letter escape stands for. -/
def escaped? : Char → Option Char
  | '"' => some '"'
  | '\\' => some '\\'
  | '/' => some '/'
  | 'b' => some '\x08'
  | 'f' => some '\x0c'
  | 'n' => some '\n'
  | 'r' => some '\r'
  | 't' => some '\t'
  | _ => none

/-- A character as it stands in a string: quotes, backslashes and control characters are escaped. -/
def escape (c : Char) : List Char :=
  if c = '"' then ['\\', '"']
  else if c = '\\' then ['\\', '\\']
  else if c = '\x08' then ['\\', 'b']
  else if c = '\x0c' then ['\\', 'f']
  else if c = '\n' then ['\\', 'n']
  else if c = '\r' then ['\\', 'r']
  else if c = '\t' then ['\\', 't']
  else if c.toNat < 0x20 then
    ['\\', 'u', '0', '0', Encoding.hexDigit (c.toNat / 16), Encoding.hexDigit (c.toNat % 16)]
  else [c]

/-- A string in quotes; one that is no text is written as half of a pair. -/
def quote (s : JsonString) : List Char :=
  let inside := match s with
    | some s => s.toList.flatMap escape
    | none => ['\\', 'u', 'd', '8', '0', '0']
  '"' :: inside ++ ['"']

/-! ## Writing -/

def Token.text : Token → List Char
  | .openBracket => ['[']
  | .closeBracket => [']']
  | .openBrace => ['{']
  | .closeBrace => ['}']
  | .comma => [',']
  | .colon => [':']
  | .null => "null".toList
  | .bool true => "true".toList
  | .bool false => "false".toList
  | .number n => writeNumber n
  | .string s => quote s

/-! ## Reading -/

/-- The token that is a single mark. -/
def mark? : Char → Option Token
  | '[' => some .openBracket
  | ']' => some .closeBracket
  | '{' => some .openBrace
  | '}' => some .closeBrace
  | ',' => some .comma
  | ':' => some .colon
  | _ => none

def isBlank (c : Char) : Bool := c = ' ' || c = '\n' || c = '\r' || c = '\t'

/-- The token that is neither a mark nor a string. -/
def word? (cs : List Char) : Option Token :=
  if cs = "null".toList then some .null
  else if cs = "true".toList then some (.bool true)
  else if cs = "false".toList then some (.bool false)
  else (number? cs).map .number

/-- Where the machine stands. What is gathered is kept with the latest first. -/
inductive Lexer.Mode where
  /-- Between tokens. -/
  | between
  /-- In a number or one of the words. -/
  | word (chars : List Char)
  /-- In a string. -/
  | quoted (pieces : List Piece)
  /-- After a backslash in a string. -/
  | escape (pieces : List Piece)
  /-- In an escaped code of which `left` more digits are owed. -/
  | code (pieces : List Piece) (value left : Nat)
  deriving Repr

/-- The machine: the tokens read, the latest first, and where it stands. -/
structure Lexer where
  tokens : List Token := []
  mode : Lexer.Mode := .between
  deriving Repr

namespace Lexer

/-- A character outside strings and words. -/
def outside (tokens : List Token) (c : Char) : Lexer :=
  if isBlank c then { tokens }
  else if c = '"' then { tokens, mode := .quoted [] }
  else match mark? c with
    | some t => { tokens := t :: tokens }
    | none => { tokens, mode := .word [c] }

/-- Whether a character ends a word. -/
def endsWord (c : Char) : Bool := isBlank c || c = '"' || (mark? c).isSome

/-- One character; none where no JSON text goes on with it. -/
def step (l : Lexer) (c : Char) : Option Lexer :=
  match l.mode with
  | .between => some (outside l.tokens c)
  | .word cs =>
    if endsWord c then (word? cs.reverse).map fun t => outside (t :: l.tokens) c
    else some { l with mode := .word (c :: cs) }
  | .quoted ps =>
    if c = '"' then some { tokens := .string ((joinPieces ps.reverse).map String.ofList) :: l.tokens }
    else if c = '\\' then some { l with mode := .escape ps }
    else if c.toNat < 0x20 then none
    else some { l with mode := .quoted (.char c :: ps) }
  | .escape ps =>
    if c = 'u' then some { l with mode := .code ps 0 4 }
    else (escaped? c).map fun d => { l with mode := .quoted (.char d :: ps) }
  | .code ps value left =>
    (Encoding.hexValue? c).map fun d =>
      let value := value * 16 + d
      if left ≤ 1 then { l with mode := .quoted (Piece.ofCode value :: ps) }
      else { l with mode := .code ps value (left - 1) }

/-- The tokens in order, unless the text stops inside of one. -/
def finish (l : Lexer) : Option (List Token) :=
  match l.mode with
  | .between => some l.tokens.reverse
  | .word cs => (word? cs.reverse).map fun t => (t :: l.tokens).reverse
  | _ => none

end Lexer

/-- The tokens of a text. -/
def tokens? (cs : List Char) : Option (List Token) :=
  (cs.foldlM Lexer.step {}).bind Lexer.finish

end Occupancy.Json
