import Occupancy.TupleFlags
/-!
# Heap pages

A heap page is an array of line pointers. A version chain begins at a slot that indexes point at and goes on
in slots whose tuple is flagged heap-only, which no index points at.
-/

namespace Occupancy

inductive LineState where
  /-- Free. -/
  | unused
  /-- Points at a tuple. -/
  | normal
  /-- Forwards to another slot of the same page. -/
  | redirect
  /-- The tuple is gone, its room is not yet free. -/
  | dead
  deriving DecidableEq, Repr, Inhabited

namespace LineState

def name : LineState → String
  | .unused => "unused"
  | .normal => "normal"
  | .redirect => "redirect"
  | .dead => "dead"

def ofName? : String → Option LineState
  | "unused" => some .unused
  | "normal" => some .normal
  | "redirect" => some .redirect
  | "dead" => some .dead
  | _ => none

theorem ofName?_name (s : LineState) : ofName? s.name = some s := by cases s <;> rfl

def isUsed (s : LineState) : Bool := s != .unused

/-- Whether there is a tuple whose flags can be read. -/
def hasTuple (s : LineState) : Bool := s == .normal

end LineState

/-- A line pointer and the flags of the tuple it points at. -/
structure HeapSlot where
  state : LineState
  flags : TupleFlags := .none
  deriving DecidableEq, Repr, Inhabited

/-- Whether the slot goes on with a chain that begins elsewhere. -/
def HeapSlot.isHeapOnly (s : HeapSlot) : Bool := s.state.hasTuple && s.flags.contains .heapOnly

structure HeapPage where
  slots : Array HeapSlot
  deriving DecidableEq, Repr, Inhabited

/-- All that the marking of a heap page asks about it. -/
structure HeapView where
  slotCount : Nat
  isUsed : Nat → Bool
  isHeapOnly : Nat → Bool

/-- Slots past the last are neither used nor heap-only. -/
def HeapPage.view (p : HeapPage) : HeapView where
  slotCount := p.slots.size
  isUsed slot := p.slots[slot]?.any (·.state.isUsed)
  isHeapOnly slot := p.slots[slot]?.any (·.isHeapOnly)

end Occupancy
