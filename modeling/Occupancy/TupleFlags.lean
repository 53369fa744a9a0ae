import Occupancy.Encoding
import Occupancy.Text
/-!
# Tuple flags and how they are written

The flags of a tuple are 16 bits, two of which have names. Flags are written as the names of the set bits and
one hexadecimal number for the bits without a name, with ` | ` between them; no flags are the empty text.
-/

namespace Occupancy

structure TupleFlags where
  bits : UInt16
  deriving DecidableEq, Repr, Inhabited

namespace TupleFlags

def none : TupleFlags := ⟨0⟩

/-- The next version of the tuple lives on the same page. -/
def hotUpdated : TupleFlags := ⟨0x4000⟩

/-- The tuple goes on with a version chain, and no index points at it. -/
def heapOnly : TupleFlags := ⟨0x8000⟩

def union (a b : TupleFlags) : TupleFlags := ⟨a.bits ||| b.bits⟩

/-- Whether all bits of `b` are set in `a`. -/
def contains (a b : TupleFlags) : Bool := a.bits &&& b.bits == b.bits

/-- The bits of `a` that are not set in `b`. -/
def without (a b : TupleFlags) : TupleFlags := ⟨a.bits &&& ~~~b.bits⟩

/-- The flags that have names, in the order in which they are written. -/
def named : List (String × TupleFlags) := [("HOT_UPDATED", hotUpdated), ("HEAP_ONLY", heapOnly)]

/-! ## Writing -/

/-- The bits that have no name. -/
def unnamed (f : TupleFlags) : TupleFlags := named.foldl (fun rest (_, flag) => rest.without flag) f

/-- The parts of the written form, in order. -/
def parts (f : TupleFlags) : List String :=
  let names := (named.filter fun (_, flag) => f.contains flag).map (·.1)
  if f.unnamed = none then names
  else names ++ ["0x" ++ Encoding.hexNumber f.unnamed.bits.toNat]

def text (f : TupleFlags) : String := String.intercalate " | " f.parts

/-! ## Reading -/

/-- The 16 bits that one or more hexadecimal digits stand for; a plus sign may come first. -/
def ofHex? (cs : List Char) : Option TupleFlags :=
  let digits := match cs with
    | '+' :: rest => rest
    | cs => cs
  if digits.isEmpty then Option.none
  else (Encoding.hexNumber? 0 digits).bind fun n => if n < UInt16.size then some ⟨UInt16.ofNat n⟩ else Option.none

/-- The flags that one part stands for. -/
def ofPart? (cs : List Char) : Option TupleFlags :=
  match cs with
  | '0' :: 'x' :: digits => ofHex? digits
  | cs => named.lookup (String.ofList cs)

/-- The flags that a text stands for: those of all its parts together. -/
def ofText? (text : String) : Option TupleFlags :=
  if (Text.trim text.toList).isEmpty then some none
  else (Text.split '|' text.toList).foldlM (fun f piece => (ofPart? (Text.trim piece)).map f.union) none

end TupleFlags

end Occupancy
