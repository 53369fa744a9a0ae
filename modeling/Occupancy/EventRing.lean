import Occupancy.Event
/-!
# The last events, in bounded space

A ring keeps the latest events in a fixed number of slots and counts the warnings among all events ever
reported. While it has room an event goes into a new slot; once it is full, `next` is the slot of the oldest
event, which the next one takes. `toList` gives the kept events, the oldest first, and `toList_emit` says what
a new event does to them.
-/

namespace Occupancy

structure EventRing where
  /-- The number of slots. -/
  capacity : Nat
  slots : Array Event := #[]
  /-- The slot of the oldest event of a full ring, and 0 before. -/
  next : Nat := 0
  warnings : Nat := 0
  deriving DecidableEq, Repr

namespace EventRing

/-- An empty ring of `capacity` slots, or of one if there would be none. -/
def ofCapacity (capacity : Nat) : EventRing := { capacity := max capacity 1 }

variable (r : EventRing)

/-- The kept events, oldest first. -/
def toList : List Event := r.slots.toList.drop r.next ++ r.slots.toList.take r.next

def length : Nat := r.slots.size

def isEmpty : Bool := r.slots.isEmpty

def emit (e : Event) : EventRing :=
  let warnings := if e.isWarning then r.warnings + 1 else r.warnings
  if r.slots.size < r.capacity then { r with slots := r.slots.push e, warnings }
  else { r with slots := r.slots.setIfInBounds r.next e, next := (r.next + 1) % r.capacity, warnings }

def emitAll (es : List Event) : EventRing := es.foldl emit r

/-- The ring without its events; the count of warnings stays. -/
def clear : EventRing := { r with slots := #[], next := 0 }

/-! ## Warnings -/

theorem warnings_emit (e : Event) :
    (r.emit e).warnings = r.warnings + if e.isWarning = true then 1 else 0 := by
  unfold emit
  dsimp only
  split <;> split <;> rfl

theorem warnings_emitAll (es : List Event) : (r.emitAll es).warnings = r.warnings + es.countP (·.isWarning) := by
  induction es generalizing r with
  | nil => rfl
  | cons e es ih =>
    have hstep : r.emitAll (e :: es) = (r.emit e).emitAll es := rfl
    rw [hstep, ih, warnings_emit, List.countP_cons]
    omega

/-! ## The kept events -/

/-- The ring keeps no more events than it has slots, and `next` is a slot of it when it is full. -/
structure Valid (r : EventRing) : Prop where
  pos : 0 < r.capacity
  size_le : r.slots.size ≤ r.capacity
  next_lt : r.next < r.capacity
  next_eq : r.slots.size < r.capacity → r.next = 0

theorem valid_ofCapacity (n : Nat) : (ofCapacity n).Valid := by
  have h : 0 < (ofCapacity n).capacity := by simp only [ofCapacity]; omega
  exact ⟨h, Nat.zero_le _, h, fun _ => rfl⟩

theorem valid_clear {r : EventRing} (h : r.Valid) : r.clear.Valid :=
  ⟨h.pos, Nat.zero_le _, h.pos, fun _ => rfl⟩

theorem valid_emit {r : EventRing} (h : r.Valid) (e : Event) : (r.emit e).Valid := by
  obtain ⟨hp, hs, hn, he⟩ := h
  simp only [emit]
  split
  · have := he (by assumption)
    constructor <;> simp only [Array.size_push] <;> omega
  · have := Nat.mod_lt (r.next + 1) hp
    constructor <;> simp only [Array.size_setIfInBounds] <;> omega

theorem length_toList {r : EventRing} (h : r.Valid) : r.toList.length = r.length := by
  have := h.size_le; have := h.next_lt
  simp only [toList, length, List.length_append, List.length_drop, List.length_take, Array.length_toList]
  omega

/-- A full ring loses its oldest event for each new one. -/
theorem toList_emit {r : EventRing} (h : r.Valid) (e : Event) :
    (r.emit e).toList = (if r.length < r.capacity then r.toList else r.toList.drop 1) ++ [e] := by
  obtain ⟨hp, hs, hn, he⟩ := h
  have hl : r.slots.toList.length = r.slots.size := Array.length_toList
  simp only [emit, length]
  split
  · next hlt =>
    simp only [toList, he hlt, hlt, if_true, Array.toList_push, List.drop_zero, List.take_zero,
      List.append_nil]
  · next hge =>
    have hd : r.slots.toList.drop r.next = r.slots.toList[r.next] :: r.slots.toList.drop (r.next + 1) :=
      List.drop_eq_getElem_cons (by omega)
    have ht : (r.slots.toList.set r.next e).take (r.next + 1) = r.slots.toList.take r.next ++ [e] := by
      rw [List.take_add_one, List.take_set_of_le (Nat.le_refl _), List.getElem?_set_self (by omega)]
      rfl
    simp only [hge, if_false, toList, Array.toList_setIfInBounds, hd, List.cons_append,
      List.drop_succ_cons, List.drop_zero]
    by_cases hlast : r.next + 1 = r.capacity
    · have hs' : r.slots.toList.set r.next e = r.slots.toList.take r.next ++ [e] := by
        rw [← ht, List.take_of_length_le (by rw [List.length_set]; omega)]
      rw [hlast, Nat.mod_self, List.drop_zero, List.take_zero, List.append_nil, hs',
        List.drop_of_length_le (by omega), List.nil_append]
    · rw [Nat.mod_eq_of_lt (by omega), List.drop_set_of_lt (by omega), ht, List.append_assoc]

end EventRing

end Occupancy
