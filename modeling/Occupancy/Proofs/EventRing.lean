import Mathlib
import Occupancy.EventRing
/-!
# A ring and the queue it stands for

In memory a ring keeps two counters beside its slots: the slot that is written next once all are in use, and the
number of events since it was last drained. Here every slot that is read or written is checked, and so is the
remainder that keeps the counters in range: where there is none, that is a trap. `perform_eq_queue` says that no calls
lead to a trap, and that each is answered as by a queue that forgets all but its latest events.
-/

namespace Occupancy.EventRing

/-- What a ring is asked. -/
inductive Call where
  | emit (e : Event)
  | snapshot
  | drain
  | length
  | isEmpty
  | warnings
  deriving DecidableEq, Repr

inductive Answer where
  | done
  | events (es : List Event)
  | number (n : Nat)
  | flag (on : Bool)
  deriving DecidableEq, Repr

namespace Call

/-- The ring after the call. -/
def next : Call → EventRing → EventRing
  | emit e, r => r.emit e
  | drain, r => r.clear
  | snapshot, r | length, r | isEmpty, r | warnings, r => r

def answer : Call → EventRing → Answer
  | emit _, _ => .done
  | snapshot, r | drain, r => .events r.toList
  | length, r => .number r.length
  | isEmpty, r => .flag r.isEmpty
  | warnings, r => .number r.warnings

/-- Whether the call leaves every ring as it is. -/
def IsQuestion (call : Call) : Prop := call ≠ .drain ∧ ∀ e, call ≠ .emit e

end Call

def run (r : EventRing) (calls : List Call) : EventRing := calls.foldl (fun r call => call.next r) r

/-! ## The queue -/

/-- All events that calls report, in their order. -/
def reported (calls : List Call) : List Event :=
  calls.filterMap fun
    | .emit e => some e
    | _ => none

/-- The events that calls report after the last of them that drains, in their order. -/
def pending (calls : List Call) : List Event :=
  reported (calls.reverse.takeWhile (· ≠ .drain)).reverse

/-- The last events of a list, at most `count` of them. -/
def latest (count : Nat) (es : List Event) : List Event := es.drop (es.length - count)

/-- What a queue of `capacity` events answers after some calls. -/
def Call.expected (capacity : Nat) (calls : List Call) : Call → Answer
  | emit _ => .done
  | snapshot | drain => .events (latest capacity (pending calls))
  | length => .number (min (pending calls).length capacity)
  | isEmpty => .flag (min (pending calls).length capacity = 0)
  | warnings => .number ((reported calls).countP (·.isWarning))

theorem length_latest (count : Nat) (es : List Event) : (latest count es).length = min es.length count := by
  rw [latest, List.length_drop]
  omega

/-- A queue that is full loses its oldest event for each new one. -/
theorem latest_append_singleton {count : Nat} (h : 0 < count) (es : List Event) (e : Event) :
    latest count (es ++ [e]) =
      (if (latest count es).length < count then latest count es else (latest count es).drop 1) ++ [e] := by
  rw [length_latest]
  unfold latest
  have hle : (es ++ [e]).length - count ≤ es.length := by
    rw [List.length_append, List.length_singleton]
    omega
  rw [List.drop_append_of_le_length hle, List.length_append, List.length_singleton]
  split
  · have hnone : es.length + 1 - count = es.length - count := by omega
    rw [hnone]
  · rw [List.drop_drop]
    congr 2
    omega

theorem reported_append_singleton (calls : List Call) (call : Call) :
    reported (calls ++ [call]) = reported calls ++ reported [call] :=
  List.filterMap_append

theorem pending_append_drain (calls : List Call) : pending (calls ++ [.drain]) = [] := by
  unfold pending
  rw [List.reverse_append, List.reverse_singleton, List.singleton_append, List.takeWhile_cons_of_neg (by simp)]
  rfl

theorem pending_append_singleton (calls : List Call) {call : Call} (h : call ≠ .drain) :
    pending (calls ++ [call]) = pending calls ++ reported [call] := by
  unfold pending
  rw [List.reverse_append, List.reverse_singleton, List.singleton_append, List.takeWhile_cons_of_pos (by simpa using h),
    List.reverse_cons, reported_append_singleton]

/-! ## A ring keeps what the queue keeps -/

variable {r : EventRing} {calls : List Call} {capacity : Nat}

/-- After the calls, the ring is what the queue of so many events is. -/
structure Stands (capacity : Nat) (calls : List Call) (r : EventRing) : Prop where
  valid : r.Valid
  capacity_eq : r.capacity = capacity
  toList_eq : r.toList = latest capacity (pending calls)
  warnings_eq : r.warnings = (reported calls).countP (·.isWarning)

theorem stands_ofCapacity (n : Nat) : Stands (max n 1) [] (ofCapacity n) where
  valid := valid_ofCapacity n
  capacity_eq := rfl
  toList_eq := by
    rw [toList, pending, latest]
    simp [ofCapacity, reported]
  warnings_eq := rfl

theorem Stands.emit (h : Stands capacity calls r) (e : Event) : Stands capacity (calls ++ [.emit e]) (r.emit e) where
  valid := valid_emit h.valid e
  capacity_eq := by
    rw [← h.capacity_eq]
    unfold EventRing.emit
    dsimp only
    split <;> rfl
  toList_eq := by
    have hpos : 0 < capacity := by
      rw [← h.capacity_eq]
      exact h.valid.pos
    have hpending : pending (calls ++ [.emit e]) = pending calls ++ [e] := pending_append_singleton calls nofun
    rw [toList_emit h.valid, hpending, latest_append_singleton hpos, ← h.toList_eq, length_toList h.valid,
      h.capacity_eq]
  warnings_eq := by
    have hreported : reported (calls ++ [.emit e]) = reported calls ++ [e] := reported_append_singleton calls _
    rw [warnings_emit, h.warnings_eq, hreported, List.countP_append, List.countP_singleton]

theorem Stands.clear (h : Stands capacity calls r) : Stands capacity (calls ++ [.drain]) r.clear where
  valid := valid_clear h.valid
  capacity_eq := h.capacity_eq
  toList_eq := by
    rw [pending_append_drain, toList, latest]
    simp [EventRing.clear]
  warnings_eq := by
    have hreported : reported (calls ++ [.drain]) = reported calls ++ [] := reported_append_singleton calls _
    rw [hreported, List.append_nil]
    exact h.warnings_eq

/-- A call that neither reports nor drains changes nothing. -/
theorem Stands.ask (h : Stands capacity calls r) {call : Call} (hd : call ≠ .drain) (hr : reported [call] = []) :
    Stands capacity (calls ++ [call]) r where
  valid := h.valid
  capacity_eq := h.capacity_eq
  toList_eq := by rw [pending_append_singleton calls hd, hr, List.append_nil, h.toList_eq]
  warnings_eq := by rw [reported_append_singleton, hr, List.append_nil, h.warnings_eq]

theorem Stands.next (h : Stands capacity calls r) (call : Call) :
    Stands capacity (calls ++ [call]) (call.next r) := by
  cases call with
  | emit e => exact h.emit e
  | drain => exact h.clear
  | snapshot => exact h.ask nofun rfl
  | length => exact h.ask nofun rfl
  | isEmpty => exact h.ask nofun rfl
  | warnings => exact h.ask nofun rfl

theorem stands_run (n : Nat) (calls : List Call) : Stands (max n 1) calls ((ofCapacity n).run calls) := by
  induction calls using List.reverseRecOn with
  | nil => exact stands_ofCapacity n
  | append_singleton calls call ih =>
    rw [run, List.foldl_concat]
    exact ih.next call

theorem Stands.answer_eq (h : Stands capacity calls r) (call : Call) :
    call.answer r = call.expected capacity calls := by
  have hlength : r.length = min (pending calls).length capacity := by
    rw [← length_toList h.valid, h.toList_eq, length_latest]
  have hempty : r.isEmpty = decide (r.length = 0) := by
    rw [isEmpty, length, Array.isEmpty]
  cases call with
  | emit e => rfl
  | snapshot => exact congrArg Answer.events h.toList_eq
  | drain => exact congrArg Answer.events h.toList_eq
  | length => exact congrArg Answer.number hlength
  | isEmpty =>
    rw [Call.answer, hempty, hlength]
    rfl
  | warnings => exact congrArg Answer.number h.warnings_eq

/-! ## A ring in memory -/

/-- A ring with its counters. -/
structure Counted where
  capacity : Nat
  slots : Array Event := #[]
  /-- The slot after the one that was written last. -/
  position : Nat := 0
  /-- The number of events since the ring was last drained. -/
  count : Nat := 0
  warnings : Nat := 0
  deriving DecidableEq, Repr

namespace Counted

inductive Trap where
  /-- There is no such slot. -/
  | slot (position size : Nat)
  /-- A remainder by 0. -/
  | modulus
  deriving DecidableEq, Repr

abbrev Step (α : Type) := Except Trap α

def ofCapacity (capacity : Nat) : Counted := { capacity := max capacity 1 }

variable (m : Counted)

/-- The event in a slot. -/
def read (position : Nat) : Step Event :=
  match m.slots[position]? with
  | some e => pure e
  | none => throw (.slot position m.slots.size)

/-- The slots with an event put in the place of another. -/
def overwrite (position : Nat) (e : Event) : Step (Array Event) :=
  if position < m.slots.size then pure (m.slots.setIfInBounds position e)
  else throw (.slot position m.slots.size)

def wrap (position : Nat) : Step Nat :=
  if m.capacity = 0 then throw .modulus else pure (position % m.capacity)

def emit (e : Event) : Step Counted := do
  let warnings := if e.isWarning then m.warnings + 1 else m.warnings
  let slots ← if m.slots.size < m.capacity then pure (m.slots.push e) else m.overwrite m.position e
  let position ← m.wrap (m.position + 1)
  return { m with slots, position, count := m.count + 1, warnings }

/-- The slot of the oldest event. -/
def oldest : Nat := if m.capacity ≤ m.count then m.position else 0

/-- The kept events, oldest first. -/
def ordered : Step (List Event) :=
  let kept := min m.count m.capacity
  if kept = 0 then return []
  else
    (List.range kept).mapM fun i => do
      let position ← m.wrap (m.oldest + i)
      m.read position

def length : Nat := min m.count m.capacity

/-- The answer to a call, and the ring after it. -/
def perform : Call → Counted → Step (Answer × Counted)
  | .emit e, m => do
    let m ← m.emit e
    return (.done, m)
  | .snapshot, m => do
    let events ← m.ordered
    return (.events events, m)
  | .drain, m => do
    let events ← m.ordered
    return (.events events, { m with slots := #[], position := 0, count := 0 })
  | .length, m => return (.number m.length, m)
  | .isEmpty, m => return (.flag (m.length = 0), m)
  | .warnings, m => return (.number m.warnings, m)

def run (calls : List Call) : Step Counted :=
  calls.foldlM (fun m call => (perform call m).map (·.2)) m

/-! ## The counters keep in step -/

/-- The counters say how many slots are in use and which of them is written next. -/
structure Valid (m : Counted) : Prop where
  pos : 0 < m.capacity
  size_eq : m.slots.size = min m.count m.capacity
  position_eq : m.position = m.count % m.capacity

/-- The ring without its counters. -/
def ring : EventRing where
  capacity := m.capacity
  slots := m.slots
  next := m.oldest
  warnings := m.warnings

variable {m : Counted}

theorem oldest_of_lt (h : m.count < m.capacity) : m.oldest = 0 := if_neg (Nat.not_le.2 h)

theorem oldest_of_le (h : m.capacity ≤ m.count) : m.oldest = m.position := if_pos h

theorem wrap_eq (h : m.Valid) (position : Nat) : m.wrap position = pure (position % m.capacity) :=
  if_neg (Nat.ne_of_gt h.pos)

theorem read_eq {position : Nat} (h : position < m.slots.size) : m.read position = pure m.slots[position] := by
  simp only [read, Array.getElem?_eq_getElem h]

theorem valid_ofCapacity (capacity : Nat) : (ofCapacity capacity).Valid where
  pos := Nat.lt_of_lt_of_le Nat.zero_lt_one (Nat.le_max_right ..)
  size_eq := (Nat.zero_min _).symm
  position_eq := (Nat.zero_mod _).symm

theorem ring_ofCapacity (capacity : Nat) : (ofCapacity capacity).ring = EventRing.ofCapacity capacity := by
  rw [ring, oldest_of_lt (valid_ofCapacity capacity).pos]
  rfl

/-- An event goes into a new slot or into that of the oldest event. -/
theorem emit_eq (h : m.Valid) (e : Event) : ∃ m', m.emit e = .ok m' ∧ m'.Valid ∧ m'.ring = m.ring.emit e := by
  obtain ⟨hpos, hsize, hposition⟩ := h
  have hstep : (m.position + 1) % m.capacity = (m.count + 1) % m.capacity := by
    rw [hposition, Nat.mod_add_mod]
  let warnings := if e.isWarning then m.warnings + 1 else m.warnings
  by_cases hroom : m.count < m.capacity
  · have hlt : m.slots.size < m.capacity := by omega
    let m' : Counted := { m with
      slots := m.slots.push e, position := (m.count + 1) % m.capacity, count := m.count + 1, warnings }
    have hsize' : m'.slots.size = min (m.count + 1) m.capacity := by
      rw [Array.size_push]
      omega
    -- in a ring that has just filled up the first slot is still the oldest
    have holdest : m'.oldest = 0 := by
      rcases Nat.lt_or_eq_of_le hroom with hlt' | hfull
      · exact oldest_of_lt hlt'
      · rw [oldest_of_le (Nat.le_of_eq hfull.symm)]
        exact (congrArg (· % m.capacity) hfull).trans (Nat.mod_self _)
    refine ⟨m', ?_, ⟨hpos, hsize', rfl⟩, ?_⟩
    · rw [emit, if_pos hlt, wrap_eq ⟨hpos, hsize, hposition⟩, hstep]
      rfl
    · rw [ring, holdest, ring, oldest_of_lt hroom, EventRing.emit, if_pos hlt]
  · have hfull : ¬ m.slots.size < m.capacity := by omega
    have hin : m.position < m.slots.size := by
      have := Nat.mod_lt m.count hpos
      omega
    let m' : Counted := { m with
      slots := m.slots.setIfInBounds m.position e, position := (m.count + 1) % m.capacity, count := m.count + 1,
      warnings }
    have hsize' : m'.slots.size = min (m.count + 1) m.capacity := by
      rw [Array.size_setIfInBounds]
      omega
    have holdest : m'.oldest = (m.count + 1) % m.capacity :=
      oldest_of_le (Nat.le_succ_of_le (Nat.le_of_not_lt hroom))
    refine ⟨m', ?_, ⟨hpos, hsize', rfl⟩, ?_⟩
    · rw [emit, if_neg hfull, overwrite, if_pos hin, wrap_eq ⟨hpos, hsize, hposition⟩, hstep]
      rfl
    · rw [ring, holdest, ring, oldest_of_le (Nat.le_of_not_lt hroom), EventRing.emit, if_neg hfull, hstep]

/-- The kept events lie in a circle of slots that begins with the oldest. -/
theorem toList_ring (h : m.Valid) : m.ring.toList = m.slots.toList.rotate m.oldest := by
  have hle : m.oldest ≤ m.slots.toList.length := by
    rw [Array.length_toList, h.size_eq]
    rcases Nat.lt_or_ge m.count m.capacity with hlt | hge
    · rw [oldest_of_lt hlt]
      exact Nat.zero_le _
    · rw [oldest_of_le hge, h.position_eq, Nat.min_eq_right hge]
      exact Nat.le_of_lt (Nat.mod_lt _ h.pos)
  rw [List.rotate_eq_drop_append_take hle]
  rfl

theorem length_toList_ring (h : m.Valid) : m.ring.toList.length = min m.count m.capacity := by
  rw [toList_ring h, List.length_rotate, Array.length_toList, h.size_eq]

/-- Event by event, the reading of a list gives the list. -/
theorem mapM_range {es : List Event} {read : Nat → Step Event} (h : ∀ i (hi : i < es.length), read i = pure es[i]) :
    (List.range es.length).mapM read = pure es := by
  induction es using List.reverseRecOn with
  | nil => rfl
  | append_singleton es e ih =>
    have hfirst : (List.range es.length).mapM read = pure es := by
      refine ih fun i hi => ?_
      rw [h i (by rw [List.length_append]; omega), List.getElem_append_left hi]
    have hlast : read es.length = pure e := by
      rw [h es.length (by simp), List.getElem_concat_length rfl]
    rw [List.length_append, List.length_singleton, List.range_succ, List.mapM_append, hfirst,
      List.mapM_cons, hlast]
    rfl

theorem ordered_eq (h : m.Valid) : m.ordered = pure m.ring.toList := by
  have hsize := h.size_eq
  have hlength := length_toList_ring h
  unfold ordered
  dsimp only
  by_cases hnone : min m.count m.capacity = 0
  · rw [if_pos hnone, List.length_eq_zero_iff.1 (hlength.trans hnone)]
  · rw [if_neg hnone, ← hlength]
    refine mapM_range fun i hi => ?_
    rw [hlength] at hi
    -- before the ring is full there is no wrapping, and then all its slots are in use
    have hposition : (m.oldest + i) % m.capacity = (i + m.oldest) % m.slots.size := by
      rw [Nat.add_comm i]
      rcases Nat.lt_or_ge m.count m.capacity with hlt | hge
      · rw [oldest_of_lt hlt, Nat.mod_eq_of_lt (by omega), Nat.mod_eq_of_lt (by omega)]
      · rw [hsize, Nat.min_eq_right hge]
    have hin : (i + m.oldest) % m.slots.size < m.slots.size := Nat.mod_lt _ (by omega)
    rw [wrap_eq h, pure_bind, hposition, read_eq hin]
    simp only [toList_ring h, List.getElem_rotate, Array.length_toList, Array.getElem_toList]

/-! ## Calls meet no trap -/

theorem perform_eq (h : m.Valid) (call : Call) :
    ∃ m', perform call m = .ok (call.answer m.ring, m') ∧ m'.Valid ∧ m'.ring = call.next m.ring ∧
      (call.IsQuestion → m' = m) := by
  have hlength : m.length = m.ring.length := h.size_eq.symm
  cases call with
  | emit e =>
    obtain ⟨m', hm', hv, hr⟩ := emit_eq h e
    refine ⟨m', ?_, hv, hr, fun hq => absurd rfl (hq.2 e)⟩
    rw [perform, hm']
    rfl
  | snapshot =>
    refine ⟨m, ?_, h, rfl, fun _ => rfl⟩
    rw [perform, ordered_eq h]
    rfl
  | drain =>
    let m' : Counted := { m with slots := #[], position := 0, count := 0 }
    refine ⟨m', ?_, ⟨h.pos, (Nat.zero_min _).symm, (Nat.zero_mod _).symm⟩, ?_, fun hq => absurd rfl hq.1⟩
    · rw [perform, ordered_eq h]
      rfl
    · rw [ring, oldest_of_lt h.pos]
      rfl
  | length =>
    refine ⟨m, ?_, h, rfl, fun _ => rfl⟩
    rw [perform, hlength]
    rfl
  | isEmpty =>
    refine ⟨m, ?_, h, rfl, fun _ => rfl⟩
    rw [perform, hlength]
    rfl
  | warnings => exact ⟨m, rfl, h, rfl, fun _ => rfl⟩

theorem run_eq (h : m.Valid) (calls : List Call) :
    ∃ m', m.run calls = .ok m' ∧ m'.Valid ∧ m'.ring = m.ring.run calls := by
  induction calls generalizing m with
  | nil => exact ⟨m, rfl, h, rfl⟩
  | cons call calls ih =>
    obtain ⟨m₁, hm₁, hv₁, hr₁, -⟩ := perform_eq h call
    obtain ⟨m', hm', hv', hr'⟩ := ih hv₁
    refine ⟨m', ?_, hv', ?_⟩
    · rw [run, List.foldlM_cons, hm₁]
      exact hm'
    · rw [hr', hr₁]
      rfl

/-- Whatever was asked of a ring before, no call on it meets a trap, and the answer is that of a queue which forgets
all but its latest events. A ring of no slots is one of a single slot. Calls that neither report nor drain leave the
ring as it is. -/
theorem perform_eq_queue (capacity : Nat) (calls : List Call) (call : Call) :
    ∃ m m', (ofCapacity capacity).run calls = .ok m ∧
      perform call m = .ok (call.expected (max capacity 1) calls, m') ∧
      call.answer ((EventRing.ofCapacity capacity).run calls) = call.expected (max capacity 1) calls ∧
      (call.IsQuestion → m' = m) := by
  obtain ⟨m, hm, hv, hr⟩ := run_eq (valid_ofCapacity capacity) calls
  obtain ⟨m', hm', -, -, hq⟩ := perform_eq hv call
  rw [ring_ofCapacity] at hr
  have hanswer := (stands_run capacity calls).answer_eq call
  rw [hr, hanswer] at hm'
  exact ⟨m, m', hm, hm', hanswer, hq⟩

end Counted

end Occupancy.EventRing
