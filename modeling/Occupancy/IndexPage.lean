/-!
# Index pages

An index page is an array of references to heap tuples. A reference names a heap page and a slot on it, and
counts slots from 1.
-/

namespace Occupancy

/-- The identifier of a heap tuple. -/
structure HeapTid where
  /-- The heap page. -/
  block : UInt32
  /-- The slot, counted from 1; 0 is no slot. -/
  offset : UInt16
  deriving DecidableEq, Repr, Inhabited

/-- The item that the tuple is on its page, counted from 0. -/
def HeapTid.item? (tid : HeapTid) : Option Nat :=
  if tid.offset = 0 then none else some (tid.offset.toNat - 1)

structure IndexPage where
  refs : Array HeapTid
  deriving DecidableEq, Repr, Inhabited

/-- The reference in a slot; past the last slot there is the identifier of no tuple. -/
def IndexPage.tid (p : IndexPage) (slot : Nat) : HeapTid := p.refs[slot]?.getD ⟨0, 0⟩

end Occupancy
