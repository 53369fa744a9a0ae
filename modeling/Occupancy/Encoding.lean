import Occupancy.Byte
/-!
# Bytes and numbers as text

Four ways to write a row of bytes: two hexadecimal digits for each, eight binary digits for each with bit 0
first, and base 64 with or without padding. In base 64, three bytes become four symbols of six bits, the
highest bits first; one byte or two at the end become two symbols or three.
-/

namespace Occupancy.Encoding

/-! ## Hexadecimal -/

/-- The digit of a number below 16. -/
def hexDigit (n : Nat) : Char :=
  if n < 10 then Char.ofNat (48 + n) else Char.ofNat (87 + n)

def hexDigits (b : UInt8) : List Char := [hexDigit (b.toNat / 16), hexDigit (b.toNat % 16)]

def hex (bs : List UInt8) : String := String.ofList (bs.flatMap hexDigits)

/-- A number in hexadecimal, without leading zeros. -/
def hexNumber (n : Nat) : String := String.ofList (Nat.toDigits 16 n)

/-- The value of a hexadecimal digit, in either case. -/
def hexValue? (c : Char) : Option Nat :=
  if '0' ≤ c && c ≤ '9' then some (c.toNat - 48)
  else if 'a' ≤ c && c ≤ 'f' then some (c.toNat - 87)
  else if 'A' ≤ c && c ≤ 'F' then some (c.toNat - 55)
  else none

/-- The value of a row of hexadecimal digits, `acc` being that of the digits before it. -/
def hexNumber? (acc : Nat) : List Char → Option Nat
  | [] => some acc
  | c :: rest => (hexValue? c).bind fun d => hexNumber? (acc * 16 + d) rest

/-! ## Binary -/

def binaryDigit (on : Bool) : Char := if on then '1' else '0'

/-- One digit for each bit, so that digit `k` is bit `k` of the row. -/
def binary (bs : List UInt8) : String :=
  String.ofList ((Byte.row bs).map binaryDigit)

/-! ## Base 64 -/

/-- The symbol of a number below 64. -/
def symbol (n : Nat) : Char :=
  if n < 26 then Char.ofNat (65 + n)
  else if n < 52 then Char.ofNat (71 + n)
  else if n < 62 then Char.ofNat (n - 4)
  else if n = 62 then '+' else '/'

/-- The symbols of up to three bytes. -/
def symbols : List UInt8 → List Char
  | [] => []
  | [a] => [a.toNat / 4, a.toNat % 4 * 16].map symbol
  | [a, b] => [a.toNat / 4, a.toNat % 4 * 16 + b.toNat / 16, b.toNat % 16 * 4].map symbol
  | a :: b :: c :: _ =>
    [a.toNat / 4, a.toNat % 4 * 16 + b.toNat / 16, b.toNat % 16 * 4 + c.toNat / 64, c.toNat % 64].map symbol

/-- The bytes in threes, with what is left over at the end. -/
def threes : List UInt8 → List (List UInt8)
  | a :: b :: c :: rest => [a, b, c] :: threes rest
  | [] => []
  | rest => [rest]

def base64 (bs : List UInt8) : String := String.ofList ((threes bs).flatMap symbols)

/-- Base 64 filled up with `=` to a multiple of four symbols. -/
def base64Padded (bs : List UInt8) : String :=
  String.ofList ((threes bs).flatMap fun group =>
    symbols group ++ List.replicate (4 - (symbols group).length) '=')

/-! ## Numbers -/

/-- Numbers in decimal, with commas between them. -/
def decimals (ns : List Nat) : String := String.intercalate "," (ns.map toString)

end Occupancy.Encoding
