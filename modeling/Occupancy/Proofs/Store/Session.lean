import Mathlib
import Occupancy.Proofs.Scan
import Occupancy.Proofs.Store.Check
/-!
# Operations that fail leave nothing behind

Here a bitmap is changed in place, one field after the other, and what was changed before a fault stays changed. A
session goes on after an assertion that does not hold. `failures_erased` says that it ends with the bitmap of the
session in which nothing that failed was asked for: not the calls that broke an assertion, nor the writes that were
refused, nor the references of index pages that were counted as errors.
-/

namespace Occupancy.Session

open Store (Fault Trap)

/-- A bitmap, and all that was reported. -/
structure Memory where
  store : Store
  events : List Event := []

/-- Work on a memory. What it changed is kept when it ends with a fault. -/
abbrev Work (α : Type) := ExceptT Fault (StateM Memory) α

instance : MonadLift (Except Trap) (ExceptT Fault (StateM Memory)) where
  monadLift step := ExceptT.mk (pure (step.mapError .trap))

/-- How an operation ends that meets no fault. -/
inductive Answer where
  | done
  | flag (value : Bool)
  | errors (count : Nat)
  deriving DecidableEq, Repr

namespace Work

def store : Work Store := return (← get).store

def update (f : Store → Store) : Work Unit := modify fun m => { m with store := f m.store }

def report (e : Event) : Work Unit := modify fun m => { m with events := m.events ++ [e] }

def demand (holds : Prop) [Decidable holds] (e : RegistrationError) : Work Unit :=
  if holds then return () else throw (.registration e)

/-! ## Operations -/

/-- One more page: first in the table, then in the length that is kept, and last in the buffer if it is too short. -/
def register (items : Nat) : Work Unit := do
  update fun s => { s with table := s.table.push items }
  update fun s => { s with usedBytes := Capacity.bytesFor s.table.total }
  let s ← store
  if s.bytes.size < s.usedBytes then do
    let capacity ← (Capacity.grown? s.bytes.size s.usedBytes s.chunk).mapError Trap.growth
    update fun s => { s with bytes := s.bytes ++ Array.replicate (capacity - s.bytes.size) 0 }
  else return ()

def addPage (page items : Nat) : Work Unit := do
  let s ← store
  demand (page < s.table.pageCount) (.pageOutOfRange page s.table.pageCount)
  demand (items ≤ s.maxItems) (.tooManyItems page items s.maxItems)
  demand (page = s.table.registered) .outOfOrder
  demand (s.table.total + items < UInt32.size) (.totalOverflow page s.table.total items)
  register items

/-- The address of an item; an item without one is reported. -/
def checkedAddress (page item : Nat) (access : Access) : Work (Option BitAddress) := do
  let s ← store
  match ← s.locate page item with
  | .ok a => return some a
  | .error reason =>
    report (.addressRejected access reason)
    return none

def setItem (page item : Nat) (on : Bool) : Work Bool := do
  match ← checkedAddress page item (.put on) with
  | none => return false
  | some a =>
    let s ← store
    let byte ← Store.index s.bytes a.byteIndex
    update fun s => { s with bytes := s.bytes.setIfInBounds a.byteIndex (Byte.put byte a.bitIndex on) }
    return true

def getItem (page item : Nat) : Work Bool := do
  match ← checkedAddress page item .get with
  | none => return false
  | some a =>
    let s ← store
    let byte ← Store.index s.bytes a.byteIndex
    return Byte.bit byte a.bitIndex

/-- The count of failures after one more access. -/
def tally (errors : Nat) (accepted : Bool) : Nat := if accepted then errors else errors + 1

def markUsed (page : Nat) (v : HeapView) (errors slot : Nat) : Work Nat :=
  if v.isUsed slot then return tally errors (← setItem page slot true) else return errors

def clearHeapOnly (page : Nat) (v : HeapView) (errors slot : Nat) : Work Nat :=
  if v.isHeapOnly slot then do
    if ← getItem page slot then return tally errors (← setItem page slot false)
    else return errors
  else return errors

def heapPage (page : Nat) (v : HeapView) : Work Nat := do
  addPage page v.slotCount
  let slots := List.range v.slotCount
  let errors ← slots.foldlM (markUsed page v) 0
  slots.foldlM (clearHeapOnly page v) errors

/-- Marks what an index entry points at, and says whether it could. -/
def follow (indexPage : Nat) (entry : HeapTid × Nat) : Work Bool :=
  match entry.1.item? with
  | none => do
    report (.invalidIndexReference indexPage entry.2 entry.1.block.toNat)
    return false
  | some item => setItem entry.1.block.toNat item true

def followNext (indexPage errors : Nat) (entry : HeapTid × Nat) : Work Nat :=
  return tally errors (← follow indexPage entry)

def indexPage (index : Nat) (page : IndexPage) : Work Nat := page.refs.toList.zipIdx.foldlM (followNext index) 0

def perform : Bitmap.Operation → Work Answer
  | .call (.addPage page items) => do
    addPage page items
    return .done
  | .call (.set page item on) => return .flag (← setItem page item on)
  | .call (.get page item) => return .flag (← getItem page item)
  | .call .reset => do
    update fun s => { s with bytes := s.bytes.map fun _ => 0 }
    return .done
  | .call .duplicate => do
    update fun s => { s with bytes := Array.replicate s.bytes.size 0 }
    return .done
  | .call .clone => return .done
  | .heapPage page view => return .errors (← heapPage page view)
  | .indexPage index page => return .errors (← indexPage index page)

end Work

namespace Memory

open Work

/-- How the work ends, and the memory that it leaves. -/
def attempt {α : Type} (m : Memory) (work : Work α) : Except Fault α × Memory := Id.run (work.run.run m)

/-- The memory after a session. An operation that ends with a fault is not its end. -/
def after (m : Memory) (ops : List Bitmap.Operation) : Memory :=
  ops.foldl (fun m op => (m.attempt (perform op)).2) m

/-! ## What is left of a session without its failures -/

/-- The references that could be marked, as they were followed one after the other. -/
def followed (indexPage : Nat) : Memory → List (HeapTid × Nat) → List HeapTid
  | _, [] => []
  | m, entry :: entries =>
    match m.attempt (follow indexPage entry) with
    | (.ok true, m) => entry.1 :: m.followed indexPage entries
    | (_, m) => m.followed indexPage entries

/-- The operation without what failed of it; nothing of one that read a mark, or failed as a whole. -/
def kept? (m : Memory) : Bitmap.Operation → Option Bitmap.Operation
  | .call (.get ..) => none
  | .indexPage index page => some (.indexPage index ⟨(m.followed index page.refs.toList.zipIdx).toArray⟩)
  | op =>
    match (m.attempt (perform op)).1 with
    | .error _ | .ok (.flag false) => none
    | .ok _ => some op

def pruned : Memory → List Bitmap.Operation → List Bitmap.Operation
  | _, [] => []
  | m, op :: ops => (m.kept? op).toList ++ (m.attempt (perform op)).2.pruned ops

end Memory

/-! ## What work does to a memory -/

open Work Memory

variable {α β : Type} {b b' b'' : Bitmap}

/-- On a bitmap `b` the work ends with `r`, leaves `b'`, and reports `es`. -/
def Does (work : Work α) (b : Bitmap) (r : Except RegistrationError α) (b' : Bitmap) (es : List Event) : Prop :=
  ∀ events, (Memory.mk b.store events).attempt work = (r.mapError .registration, ⟨b'.store, events ++ es⟩)

theorem Does.pure (a : α) (b : Bitmap) : Does (pure a) b (.ok a) b [] := by
  intro events
  rw [List.append_nil]
  rfl

theorem attempt_bind (m : Memory) (work : Work α) (next : α → Work β) :
    m.attempt (work >>= next) =
      match m.attempt work with
      | (.ok a, m') => m'.attempt (next a)
      | (.error fault, m') => (.error fault, m') := by
  unfold attempt
  rw [ExceptT.run_bind, StateT.run_bind]
  rcases h : work.run.run m with ⟨a | fault, m'⟩ <;> rfl

theorem Does.bind {work : Work α} {next : α → Work β} {a : α} {r : Except RegistrationError β} {es es' : List Event}
    (h : Does work b (.ok a) b' es) (h' : Does (next a) b' r b'' es') : Does (work >>= next) b r b'' (es ++ es') := by
  intro events
  rw [attempt_bind, h events]
  exact (h' (events ++ es)).trans (by rw [List.append_assoc])

theorem Does.bind_error {work : Work α} {next : α → Work β} {e : RegistrationError} {es : List Event}
    (h : Does work b (.error e) b' es) : Does (work >>= next) b (.error e) b' es := by
  intro events
  rw [attempt_bind, h events]
  rfl

theorem Does.map {work : Work α} {a : α} {es : List Event} (h : Does work b (.ok a) b' es) (f : α → β) :
    Does (do return f (← work)) b (.ok (f a)) b' es := by
  have hmap : Does (work >>= fun a => Pure.pure (f a)) b (.ok (f a)) b' (es ++ []) := h.bind (.pure (f a) b')
  rwa [List.append_nil] at hmap

theorem does_update {f : Store → Store} (b' : Bitmap) (h : f b.store = b'.store) :
    Does (update f) b (.ok ()) b' [] := by
  intro events
  rw [← h, List.append_nil]
  rfl

theorem does_report (e : Event) (b : Bitmap) : Does (report e) b (.ok ()) b [e] := fun _ => rfl

/-! ## Each operation -/

variable (m : Memory)

theorem attempt_store (next : Store → Work α) : m.attempt (store >>= next) = m.attempt (next m.store) := rfl

theorem attempt_update (f : Store → Store) (next : Unit → Work α) :
    m.attempt (update f >>= next) = (Memory.mk (f m.store) m.events).attempt (next ()) := rfl

theorem attempt_lift (a : α) (next : α → Work β) :
    m.attempt (liftM (pure a : Store.Step α) >>= next) = m.attempt (next a) := rfl

theorem attempt_demand (holds : Prop) [Decidable holds] (e : RegistrationError) (next : Unit → Work α) :
    m.attempt (demand holds e >>= next) =
      if holds then m.attempt (next ()) else (.error (.registration e), m) := by
  unfold demand
  split <;> rfl

theorem does_register (hv : b.Valid) (items : Nat) : Does (register items) b (.ok ()) (b.register items) [] := by
  intro events
  have hstore := Store.store_register hv items
  unfold Store.register at hstore
  unfold register
  rw [attempt_update, attempt_update, attempt_store, List.append_nil]
  dsimp only at hstore ⊢
  split at hstore
  · next hless =>
    obtain ⟨capacity, hgrown, hstore⟩ := Image.bind_eq_ok.1 hstore
    rw [if_pos hless, hgrown]
    rw [← Except.ok.inj hstore]
    rfl
  · next hless =>
    rw [if_neg hless, ← Except.ok.inj hstore]
    rfl

/-- What has to hold of a page is demanded of it before anything is changed. -/
theorem attempt_addPage (page items : Nat) :
    m.attempt (addPage page items) =
      match m.store.refusal? page items with
      | some e => (.error (.registration e), m)
      | none => m.attempt (register items) := by
  unfold addPage Bitmap.refusal?
  rw [attempt_store, attempt_demand, attempt_demand, attempt_demand, attempt_demand]
  by_cases hpage : m.store.table.pageCount ≤ page
  · rw [if_neg (Nat.not_lt.2 hpage), if_pos hpage]
  · rw [if_pos (Nat.not_le.1 hpage), if_neg hpage]
    by_cases hitems : m.store.maxItems < items
    · rw [if_neg (Nat.not_le.2 hitems), if_pos hitems]
    · rw [if_pos (Nat.not_lt.1 hitems), if_neg hitems]
      by_cases horder : page = m.store.table.registered
      · rw [if_pos horder, if_neg (not_not.2 horder)]
        by_cases htotal : UInt32.size ≤ m.store.table.total + items
        · rw [if_neg (Nat.not_lt.2 htotal), if_pos htotal]
        · rw [if_pos (Nat.not_le.1 htotal), if_neg htotal]
      · rw [if_neg horder, if_pos horder]

theorem does_addPage (hv : b.Valid) (page items : Nat) :
    Does (addPage page items) b ((b.addPage page items).map fun _ => ())
      ((Bitmap.Call.addPage page items).next b) [] := by
  intro events
  have hrefusal : b.store.refusal? page items = b.refusal? page items := rfl
  rw [attempt_addPage, hrefusal]
  cases hr : b.refusal? page items with
  | some e =>
    simp only [Bitmap.Call.next, Bitmap.addPage, hr, List.append_nil]
    rfl
  | none =>
    simp only [Bitmap.Call.next, Bitmap.addPage, hr]
    exact does_register hv items events

theorem does_checkedAddress (b : Bitmap) (page item : Nat) (access : Access) :
    Does (checkedAddress page item access) b (.ok (b.locate page item).toOption) b
      (Event.rejections access (b.locate page item)) := by
  intro events
  unfold checkedAddress
  rw [attempt_store, Store.store_locate, attempt_lift]
  cases b.locate page item with
  | ok a => exact Does.pure (some a) b events
  | error reason => exact (does_report _ b).bind (.pure none b) events

theorem write_of_ok {page item : Nat} {a : BitAddress} (h : b.locate page item = .ok a) (on : Bool) :
    b.write page item on = (b.put a on, none) := by
  rw [Bitmap.write, h]

theorem write_of_error {page item : Nat} {reason : AddressError} (h : b.locate page item = .error reason) (on : Bool) :
    b.write page item on = (b, some reason) := by
  rw [Bitmap.write, h]

theorem does_setItem (hv : b.Valid) (page item : Nat) (on : Bool) :
    Does (setItem page item on) b (.ok (b.write page item on).2.isNone) (b.write page item on).1
      (Event.rejections (.put on) (b.locate page item)) := by
  have hlocate := does_checkedAddress b page item (.put on)
  have hstore := Store.store_write hv page item on
  unfold Store.write at hstore
  rw [Store.store_locate, pure_bind] at hstore
  unfold setItem
  cases hl : b.locate page item with
  | ok a =>
    rw [hl] at hlocate hstore
    obtain ⟨byte, hbyte, hstore⟩ := Image.bind_eq_ok.1 hstore
    refine hlocate.bind fun events => ?_
    dsimp only [Except.toOption]
    rw [attempt_store, hbyte, ← Except.ok.inj hstore, write_of_ok hl, List.append_nil]
    rfl
  | error reason =>
    rw [hl] at hlocate
    rw [write_of_error hl]
    exact hlocate.bind (.pure false b)

theorem does_getItem (hv : b.Valid) (page item : Nat) :
    Does (getItem page item) b (.ok (b.isMarked page item)) b (Event.rejections .get (b.locate page item)) := by
  have hlocate := does_checkedAddress b page item .get
  have hstore := Store.store_get hv page item
  unfold Store.get at hstore
  rw [Store.store_locate, pure_bind] at hstore
  unfold getItem
  cases hl : b.locate page item with
  | ok a =>
    rw [hl] at hlocate hstore
    obtain ⟨byte, hbyte, hstore⟩ := Image.bind_eq_ok.1 hstore
    have hmarked : b.isMarked page item = Byte.bit byte a.bitIndex := by
      unfold Bitmap.isMarked
      rw [← Except.ok.inj hstore]
    refine hlocate.bind fun events => ?_
    dsimp only [Except.toOption]
    rw [attempt_store, hbyte, hmarked, List.append_nil]
    rfl
  | error reason =>
    rw [hl] at hlocate
    have hmarked : b.isMarked page item = false := by
      unfold Bitmap.isMarked Bitmap.get
      rw [hl]
      rfl
    rw [hmarked]
    exact hlocate.bind (.pure false b)

/-! ## Scans -/

/-- The work goes on from where the scan `s` has got to, and gets to where `s'` has. -/
def Follows (work : Nat → Work Nat) (s s' : Scan) : Prop :=
  ∀ events, (Memory.mk s.bitmap.store (events ++ s.events.toList)).attempt (work s.errors) =
    (.ok s'.errors, ⟨s'.bitmap.store, events ++ s'.events.toList⟩)

variable {s s' : Scan}

theorem Follows.pure (s : Scan) : Follows pure s s := fun _ => rfl

theorem Follows.bind {work next : Nat → Work Nat} {s s' s'' : Scan} (h : Follows work s s') (h' : Follows next s' s'') :
    Follows (fun errors => work errors >>= next) s s'' := by
  intro events
  dsimp only
  rw [attempt_bind, h events]
  exact h' events

/-- Work on what a scan has not yet reported from. -/
theorem Follows.does {work : Nat → Work Nat} (h : Follows work s s') (hs : s.events = #[]) :
    Does (work s.errors) s.bitmap (.ok s'.errors) s'.bitmap s'.events.toList := by
  intro events
  have h := h events
  rw [hs, List.append_nil] at h
  exact h

theorem Follows.foldlM {ι : Type} {f : Nat → ι → Work Nat} {step : Scan → ι → Scan}
    (hf : ∀ {s : Scan}, s.bitmap.Valid → ∀ x, Follows (f · x) s (step s x))
    (he : ∀ s x, Bitmap.Edits s.bitmap (step s x).bitmap) (xs : List ι) (hv : s.bitmap.Valid) :
    Follows (fun errors => xs.foldlM f errors) s (xs.foldl step s) := by
  induction xs generalizing s with
  | nil => exact .pure s
  | cons x xs ih =>
    simp only [List.foldlM_cons]
    exact (hf hv x).bind (ih (Bitmap.Edits.valid (he s x) hv))

theorem follows_setItem (hv : s.bitmap.Valid) (page item : Nat) (on : Bool) :
    Follows (fun errors => return tally errors (← setItem page item on)) s (s.write page item on) := by
  intro events
  dsimp only
  rw [attempt_bind, does_setItem hv page item on]
  unfold Scan.write Bitmap.write
  cases s.bitmap.locate page item with
  | ok a =>
    simp only [Event.rejections, List.append_nil]
    rfl
  | error reason =>
    simp only [Event.rejections, Scan.report, Array.toList_push, ← List.append_assoc]
    rfl

theorem follows_markUsed (page : Nat) (v : HeapView) (hv : s.bitmap.Valid) (slot : Nat) :
    Follows (markUsed page v · slot) s (Scan.markUsed page v s slot) := by
  unfold markUsed Scan.markUsed
  split
  · exact follows_setItem hv page slot true
  · exact .pure s

theorem follows_clearHeapOnly (page : Nat) (v : HeapView) (hv : s.bitmap.Valid) (slot : Nat) :
    Follows (clearHeapOnly page v · slot) s (Scan.clearHeapOnly page v s slot) := by
  unfold clearHeapOnly Scan.clearHeapOnly
  split
  · intro events
    dsimp only
    rw [attempt_bind, does_getItem hv page slot]
    unfold Bitmap.isMarked Bitmap.get
    cases s.bitmap.locate page slot with
    | ok a =>
      rw [Event.rejections, List.append_nil]
      dsimp only [Except.map]
      cases s.bitmap.bit a.offset with
      | true => exact follows_setItem hv page slot false events
      | false => rfl
    | error reason =>
      simp only [Event.rejections, Except.map, Scan.report, Array.toList_push, ← List.append_assoc]
      rfl
  · exact .pure s

/-- A reference is marked, or else it is reported and counted. Which it is depends on the bitmap alone. -/
theorem does_follow (hv : b.Valid) (indexPage slot : Nat) (tid : HeapTid) :
    (∃ b', b'.Valid ∧ Does (follow indexPage (tid, slot)) b (.ok true) b' [] ∧
      ∀ indexPage slot (s : Scan), s.bitmap = b → Scan.follow indexPage s (tid, slot) = { s with bitmap := b' }) ∨
    ∃ e, Does (follow indexPage (tid, slot)) b (.ok false) b [e] ∧
      ∀ s : Scan, s.bitmap = b →
        Scan.follow indexPage s (tid, slot) = { s with errors := s.errors + 1 }.report e := by
  cases ht : tid.item? with
  | none =>
    refine .inr ⟨.invalidIndexReference indexPage slot tid.block.toNat, ?_, fun s _ => by simp only [Scan.follow, ht]⟩
    simp only [follow, ht]
    exact (does_report _ b).bind (.pure false b)
  | some item =>
    have hset := does_setItem hv tid.block.toNat item true
    cases hl : b.locate tid.block.toNat item with
    | ok a =>
      rw [hl, write_of_ok hl] at hset
      refine .inl ⟨b.put a true, hv.put a true, ?_, fun indexPage slot s hs => ?_⟩
      · simp only [follow, ht]
        exact hset
      · subst hs
        simp only [Scan.follow, Scan.write, ht, write_of_ok hl]
    | error reason =>
      rw [hl, write_of_error hl] at hset
      refine .inr ⟨.addressRejected (.put true) reason, ?_, fun s hs => ?_⟩
      · simp only [follow, ht]
        exact hset
      · subst hs
        simp only [Scan.follow, Scan.write, ht, write_of_error hl]

theorem follows_followNext (indexPage : Nat) (hv : s.bitmap.Valid) (entry : HeapTid × Nat) :
    Follows (followNext indexPage · entry) s (Scan.follow indexPage s entry) := by
  intro events
  unfold followNext
  rcases does_follow hv indexPage entry.2 entry.1 with ⟨b', -, hdoes, hscan⟩ | ⟨e, hdoes, hscan⟩
  · rw [attempt_bind, hdoes, List.append_nil, hscan indexPage entry.2 s rfl]
    rfl
  · rw [attempt_bind, hdoes, hscan s rfl, List.append_assoc, ← Array.toList_push]
    rfl

theorem heapPage_quiet (hv : s.bitmap.Valid) {page : Nat} {v : HeapView} (h : s.heapPage page v = .ok s') :
    s'.errors = s.errors ∧ s'.events = s.events := by
  cases hr : s.bitmap.refusal? page v.slotCount with
  | some e =>
    rw [Scan.heapPage, hr] at h
    cases h
  | none =>
    obtain ⟨-, -, rfl, -⟩ := (s.bitmap.refusal?_eq_none_iff page v.slotCount).1 hr
    obtain ⟨_, hok, hover, hevents, -⟩ := Scan.heapPage_over hv v hr
    obtain rfl := Except.ok.inj (hok.symm.trans h)
    exact ⟨hover.errors_eq, hevents⟩

theorem does_heapPage (hv : b.Valid) (page : Nat) (v : HeapView) :
    Does (heapPage page v) b ((({ bitmap := b } : Scan).heapPage page v).map (·.errors))
      ((Bitmap.Operation.heapPage page v).next b) [] := by
  have hadd := does_addPage hv page v.slotCount
  cases hr : b.refusal? page v.slotCount with
  | some e =>
    simp only [Bitmap.Call.next, Bitmap.addPage, hr] at hadd
    simp only [Bitmap.Operation.next, Scan.heapPage, hr]
    exact hadd.bind_error
  | none =>
    let s₀ : Scan := { bitmap := b.register v.slotCount }
    let s₁ : Scan := (List.range v.slotCount).foldl (Scan.markUsed page v) s₀
    let s₂ : Scan := (List.range v.slotCount).foldl (Scan.clearHeapOnly page v) s₁
    have hscan : ({ bitmap := b } : Scan).heapPage page v = .ok s₂ := by
      simp only [Scan.heapPage, hr]
      rfl
    -- the second pass over the slots begins with the bitmap and the count of the first
    have hv₀ : s₀.bitmap.Valid := Bitmap.Edits.valid (Bitmap.edits_addPage hr) hv
    have hv₁ : s₁.bitmap.Valid := Bitmap.Edits.valid (Bitmap.edits_foldl (Bitmap.edits_markUsed page v) _ s₀) hv₀
    have h₁ := Follows.foldlM (follows_markUsed page v) (Bitmap.edits_markUsed page v) (List.range v.slotCount) hv₀
    have h₂ := Follows.foldlM (follows_clearHeapOnly page v) (Bitmap.edits_clearHeapOnly page v)
      (List.range v.slotCount) hv₁
    have hdoes := (h₁.bind h₂).does rfl
    rw [(heapPage_quiet (s := { bitmap := b }) hv hscan).2] at hdoes
    simp only [Bitmap.Call.next, Bitmap.addPage, hr] at hadd
    simp only [Bitmap.Operation.next, hscan]
    exact hadd.bind hdoes

theorem does_indexPage (hv : b.Valid) (index : Nat) (page : IndexPage) :
    Does (indexPage index page) b (.ok (({ bitmap := b } : Scan).indexPage index page).errors)
      ((Bitmap.Operation.indexPage index page).next b)
      (({ bitmap := b } : Scan).indexPage index page).events.toList :=
  (Follows.foldlM (s := { bitmap := b }) (follows_followNext index) (Bitmap.edits_follow index)
    page.refs.toList.zipIdx hv).does rfl

/-- How an operation ends on a bitmap. -/
def result : Bitmap.Operation → Bitmap → Except RegistrationError Answer
  | .call (.addPage page items), b => (b.addPage page items).map fun _ => .done
  | .call (.set page item on), b => .ok (.flag (b.write page item on).2.isNone)
  | .call (.get page item), b => .ok (.flag (b.isMarked page item))
  | .call .reset, _ | .call .duplicate, _ | .call .clone, _ => .ok .done
  | .heapPage page view, b => (({ bitmap := b } : Scan).heapPage page view).map fun s => .errors s.errors
  | .indexPage index page, b => .ok (.errors (({ bitmap := b } : Scan).indexPage index page).errors)

/-- What an operation on a bitmap reports. -/
def reports : Bitmap.Operation → Bitmap → List Event
  | .call (.set page item on), b => Event.rejections (.put on) (b.locate page item)
  | .call (.get page item), b => Event.rejections .get (b.locate page item)
  | .call _, _ | .heapPage .., _ => []
  | .indexPage index page, b => (({ bitmap := b } : Scan).indexPage index page).events.toList

theorem does_perform (hv : b.Valid) (op : Bitmap.Operation) :
    Does (perform op) b (result op b) (op.next b) (reports op b) := by
  cases op with
  | call call =>
    cases call with
    | addPage page items =>
      have hadd := does_addPage hv page items
      unfold result
      dsimp only
      cases hr : b.addPage page items with
      | error e =>
        rw [hr] at hadd
        exact hadd.bind_error
      | ok b' =>
        rw [hr] at hadd
        exact hadd.map fun _ => Answer.done
    | set page item on => exact (does_setItem hv page item on).map Answer.flag
    | get page item => exact (does_getItem hv page item).map Answer.flag
    | reset => exact (does_update b.reset rfl).map fun _ => Answer.done
    | duplicate => exact (does_update b.duplicate rfl).map fun _ => Answer.done
    | clone => exact .pure _ b
  | heapPage page view =>
    have hheap := does_heapPage hv page view
    unfold result
    dsimp only
    cases hr : ({ bitmap := b } : Scan).heapPage page view with
    | error e =>
      rw [hr] at hheap
      exact hheap.bind_error
    | ok s =>
      rw [hr] at hheap
      exact hheap.map Answer.errors
  | indexPage index page => exact (does_indexPage hv index page).map Answer.errors

/-! ## Sessions -/

theorem after_append (m : Memory) (ops more : List Bitmap.Operation) :
    m.after (ops ++ more) = (m.after ops).after more := List.foldl_append

theorem after_cons (hv : b.Valid) (events : List Event) (op : Bitmap.Operation) (ops : List Bitmap.Operation) :
    (Memory.mk b.store events).after (op :: ops) =
      (Memory.mk (op.next b).store (events ++ reports op b)).after ops := by
  rw [after, List.foldl_cons, does_perform hv op events]
  rfl

/-- A session gets to the bitmap that operations get to which fail in silence. -/
theorem store_after (hv : b.Valid) (events : List Event) (ops : List Bitmap.Operation) :
    ((Memory.mk b.store events).after ops).store = (b.operate ops).store := by
  induction ops generalizing b events with
  | nil => rfl
  | cons op ops ih =>
    rw [after_cons hv]
    exact ih (Bitmap.Edits.valid (Bitmap.edits_next op b) hv) _

/-- The references that are left are marked, whatever their slots are now, and there is nothing to report of them. -/
theorem foldl_followed (hv : b.Valid) (indexPage : Nat) (events : List Event) (entries : List (HeapTid × Nat))
    (slot : Nat) (s s' : Scan) (hs : s.bitmap = b) (hs' : s'.bitmap = b) :
    (((Memory.mk b.store events).followed indexPage entries).zipIdx slot).foldl (Scan.follow indexPage) s' =
      { s' with bitmap := (entries.foldl (Scan.follow indexPage) s).bitmap } := by
  -- references that are left out move those after them to lower slots, so the slots of both scans are free
  induction entries generalizing b events slot s s' with
  | nil =>
    rw [List.foldl_nil, hs, ← hs']
    rfl
  | cons entry entries ih =>
    rw [List.foldl_cons, followed]
    rcases does_follow hv indexPage entry.2 entry.1 with ⟨b', hv', hdoes, hscan⟩ | ⟨e, hdoes, hscan⟩
    · rw [hdoes events]
      dsimp only [Except.mapError]
      rw [List.zipIdx_cons, List.foldl_cons, hscan indexPage slot s' hs', hscan indexPage entry.2 s hs]
      exact ih hv' _ (slot + 1) _ _ rfl rfl
    · rw [hdoes events, hscan s hs]
      exact ih hv _ slot _ _ hs hs'

/-- What is left of an operation does what the operation does, and reports nothing. -/
theorem after_kept? (hv : b.Valid) (events : List Event) (op : Bitmap.Operation) :
    (Memory.mk b.store []).after ((Memory.mk b.store events).kept? op).toList = ⟨(op.next b).store, []⟩ := by
  have hquiet (op : Bitmap.Operation) (h : reports op b = []) :
      (Memory.mk b.store []).after [op] = ⟨(op.next b).store, []⟩ := by
    rw [after_cons hv, h]
    rfl
  have hperform := congrArg Prod.fst (does_perform hv op events)
  cases op with
  | call call =>
    cases call with
    | addPage page items =>
      cases hr : b.addPage page items with
      | error e =>
        simp only [kept?, hperform, result, hr, Bitmap.Operation.next, Bitmap.Call.next]
        rfl
      | ok b' =>
        simp only [kept?, hperform, result, hr]
        exact hquiet (.call (.addPage page items)) rfl
    | set page item on =>
      cases hl : b.locate page item with
      | error reason =>
        simp only [kept?, hperform, result, Bitmap.Operation.next, Bitmap.Call.next, write_of_error hl]
        rfl
      | ok a =>
        simp only [kept?, hperform, result, write_of_ok hl]
        exact hquiet (.call (.set page item on)) (congrArg (Event.rejections (.put on)) hl)
    | get page item => rfl
    | reset => exact hquiet _ rfl
    | duplicate => exact hquiet _ rfl
    | clone => exact hquiet _ rfl
  | heapPage page view =>
    cases hr : ({ bitmap := b } : Scan).heapPage page view with
    | error e =>
      simp only [kept?, hperform, result, hr, Bitmap.Operation.next]
      rfl
    | ok s =>
      simp only [kept?, hperform, result, hr]
      exact hquiet (.heapPage page view) rfl
  | indexPage index page =>
    have hscan := foldl_followed hv index events page.refs.toList.zipIdx 0 { bitmap := b }
      { bitmap := b } rfl rfl
    have hafter := after_cons hv [] (.indexPage index
      ⟨((Memory.mk b.store events).followed index page.refs.toList.zipIdx).toArray⟩) []
    unfold reports Bitmap.Operation.next Scan.indexPage at hafter
    dsimp only at hafter
    rw [hscan] at hafter
    exact hafter

theorem after_pruned (hv : b.Valid) (events : List Event) (ops : List Bitmap.Operation) :
    (Memory.mk b.store []).after ((Memory.mk b.store events).pruned ops) = ⟨(b.operate ops).store, []⟩ := by
  induction ops generalizing b events with
  | nil => rfl
  | cons op ops ih =>
    rw [pruned, after_append, after_kept? hv, does_perform hv op events]
    exact ih (Bitmap.Edits.valid (Bitmap.edits_next op b) hv) _

/-! ## What holds at every moment of a session -/

/-- Why a page cannot be registered: the first reason that there is. -/
inductive Refused (s : Store) (page items : Nat) : RegistrationError → Prop where
  | pageOutOfRange (hpage : s.table.pageCount ≤ page) :
    Refused s page items (.pageOutOfRange page s.table.pageCount)
  | tooManyItems (hpage : page < s.table.pageCount) (hitems : s.maxItems < items) :
    Refused s page items (.tooManyItems page items s.maxItems)
  | outOfOrder (hpage : page < s.table.pageCount) (hitems : items ≤ s.maxItems)
    (horder : page ≠ s.table.registered) : Refused s page items .outOfOrder
  | totalOverflow (hpage : page < s.table.pageCount) (hitems : items ≤ s.maxItems)
    (horder : page = s.table.registered) (htotal : UInt32.size ≤ s.table.total + items) :
    Refused s page items (.totalOverflow page s.table.total items)

theorem refusal?_eq_some_iff {s : Store} {page items : Nat} {e : RegistrationError} :
    s.refusal? page items = some e ↔ Refused s page items e := by
  constructor
  · intro h
    unfold Bitmap.refusal? at h
    split at h
    · next hpage =>
      obtain rfl := Option.some.inj h
      exact .pageOutOfRange hpage
    · next hpage =>
      have hpage := Nat.not_le.1 hpage
      split at h
      · next hitems =>
        obtain rfl := Option.some.inj h
        exact .tooManyItems hpage hitems
      · next hitems =>
        have hitems := Nat.not_lt.1 hitems
        split at h
        · next horder =>
          obtain rfl := Option.some.inj h
          exact .outOfOrder hpage hitems horder
        · next horder =>
          split at h
          · next htotal =>
            obtain rfl := Option.some.inj h
            exact .totalOverflow hpage hitems (not_not.1 horder) htotal
          · cases h
  · intro h
    unfold Bitmap.refusal?
    cases h with
    | pageOutOfRange hpage => rw [if_pos hpage]
    | tooManyItems hpage hitems => rw [if_neg (Nat.not_le.2 hpage), if_pos hitems]
    | outOfOrder hpage hitems horder =>
      rw [if_neg (Nat.not_le.2 hpage), if_neg (Nat.not_lt.2 hitems), if_pos horder]
    | totalOverflow hpage hitems horder htotal =>
      rw [if_neg (Nat.not_le.2 hpage), if_neg (Nat.not_lt.2 hitems), if_neg (not_not.2 horder), if_pos htotal]

/-- What is promised of each operation: only the registration of a page can end with a fault, for the first reason that
there is, and then nothing has changed; an access reports that an item has no bit, and nothing else. -/
structure Guarded (m : Memory) : Prop where
  unchanged : ∀ op fault, (m.attempt (perform op)).1 = .error fault → (m.attempt (perform op)).2 = m
  registers : ∀ op fault, (m.attempt (perform op)).1 = .error fault →
    ∃ page, (∃ items, op = .call (.addPage page items)) ∨ ∃ view, op = .heapPage page view
  addPage_error_iff : ∀ page items fault, (m.attempt (perform (.call (.addPage page items)))).1 = .error fault ↔
    ∃ e, Refused m.store page items e ∧ fault = .registration e
  heapPage_error_iff : ∀ page view fault, (m.attempt (perform (.heapPage page view))).1 = .error fault ↔
    (m.attempt (perform (.call (.addPage page view.slotCount)))).1 = .error fault
  set_reports : ∀ page item on, ∃ found, m.store.locate page item = .ok found ∧
    (m.attempt (perform (.call (.set page item on)))).1 = .ok (.flag found.isOk) ∧
    (m.attempt (perform (.call (.set page item on)))).2.events = m.events ++ Event.rejections (.put on) found
  get_reports : ∀ page item, ∃ found, m.store.locate page item = .ok found ∧
    m.attempt (perform (.call (.get page item))) =
      (.ok (.flag (m.store.toBitmap.isMarked page item)), { m with events := m.events ++ Event.rejections .get found })

/-- Only the registration of a page can fail as a whole, and then there is nothing that it did. -/
theorem result_eq_error {op : Bitmap.Operation} {e : RegistrationError} (h : result op b = .error e) :
    op.next b = b ∧ reports op b = [] ∧
      ∃ page, (∃ items, op = .call (.addPage page items)) ∨ ∃ view, op = .heapPage page view := by
  cases op with
  | call call =>
    cases call with
    | addPage page items =>
      refine ⟨?_, rfl, page, .inl ⟨items, rfl⟩⟩
      cases hr : b.addPage page items with
      | error e => simp only [Bitmap.Operation.next, Bitmap.Call.next, hr]
      | ok b' =>
        simp only [result, hr] at h
        cases h
    | _ => cases h
  | heapPage page view =>
    refine ⟨?_, rfl, page, .inr ⟨view, rfl⟩⟩
    cases hr : ({ bitmap := b } : Scan).heapPage page view with
    | error e => simp only [Bitmap.Operation.next, hr]
    | ok s =>
      simp only [result, hr] at h
      cases h
  | indexPage index page => cases h

theorem attempt_eq_error_iff (hv : b.Valid) {events : List Event} {op : Bitmap.Operation} {fault : Fault} :
    ((Memory.mk b.store events).attempt (perform op)).1 = .error fault ↔
      ∃ e, result op b = .error e ∧ fault = .registration e := by
  rw [does_perform hv]
  cases result op b <;> simp [Except.mapError, eq_comm]

theorem result_addPage_eq_error_iff {page items : Nat} {e : RegistrationError} :
    result (.call (.addPage page items)) b = .error e ↔ b.refusal? page items = some e := by
  cases hr : b.refusal? page items <;> simp [result, Bitmap.addPage, hr, Except.map]

theorem result_heapPage_eq_error_iff {page : Nat} {view : HeapView} {e : RegistrationError} :
    result (.heapPage page view) b = .error e ↔ b.refusal? page view.slotCount = some e := by
  cases hr : b.refusal? page view.slotCount <;> simp [result, Scan.heapPage, hr, Except.map]

theorem guarded (hv : b.Valid) (events : List Event) : Guarded ⟨b.store, events⟩ where
  unchanged op fault h := by
    obtain ⟨e, he, -⟩ := (attempt_eq_error_iff hv).1 h
    obtain ⟨hnext, hreports, -⟩ := result_eq_error he
    rw [does_perform hv, hnext, hreports, List.append_nil]
  registers op fault h := by
    obtain ⟨e, he, -⟩ := (attempt_eq_error_iff hv).1 h
    exact (result_eq_error he).2.2
  addPage_error_iff page items fault := by
    rw [attempt_eq_error_iff hv]
    simp only [result_addPage_eq_error_iff, ← refusal?_eq_some_iff]
    rfl
  heapPage_error_iff page view fault := by
    rw [attempt_eq_error_iff hv, attempt_eq_error_iff hv]
    simp only [result_addPage_eq_error_iff, result_heapPage_eq_error_iff]
  set_reports page item on := by
    refine ⟨b.locate page item, Store.store_locate b page item, ?_, ?_⟩
    · rw [does_perform hv]
      cases hl : b.locate page item with
      | ok a =>
        simp only [result, write_of_ok hl]
        rfl
      | error reason =>
        simp only [result, write_of_error hl]
        rfl
    · rw [does_perform hv]
      rfl
  get_reports page item := ⟨b.locate page item, Store.store_locate b page item, does_perform hv _ _⟩

/-- However a session on a bitmap that is new or decoded goes on after its failures, it ends with the bitmap that the
operations before them and after them make, and these report nothing. At every moment of it the next operation either
registers a page, or is refused for the first reason there is and changes nothing, or says by one event that an item
has no bit. -/
theorem failures_erased {limits : Limits} (h : b.Origin limits) (ops : List Bitmap.Operation) :
    (Memory.mk b.store []).after ((Memory.mk b.store []).pruned ops) =
        { store := ((Memory.mk b.store []).after ops).store } ∧
      ((Memory.mk b.store []).after ops).store = (b.operate ops).store ∧
      Guarded ((Memory.mk b.store []).after ops) := by
  have hv := Bitmap.Edits.valid (Bitmap.edits_operate b ops) h.valid
  have hstore := store_after h.valid [] ops
  refine ⟨?_, hstore, ?_⟩
  · rw [after_pruned h.valid, hstore]
  · have hguarded := guarded hv ((Memory.mk b.store []).after ops).events
    rwa [← hstore] at hguarded

/-- The image with stray bits: a page that is not there, and two bad references among three. -/
theorem failures_erased_strayImage :
    let limits : Limits := { maxItems := 64, chunkBytes := 2 }
    let b : Bitmap := { Image.strayBitmap with maxItems := 64, chunk := 2 }
    let m : Memory := { store := b.store }
    b.Origin limits ∧
      m.after (m.pruned Store.sampleOps) = { store := (m.after Store.sampleOps).store } ∧
      (m.pruned Store.sampleOps).length = 3 ∧ (m.after Store.sampleOps).events.length = 2 := by
  intro limits b m
  have hdecode : Bitmap.decode limits Image.strayImage = .ok b := by decide +kernel
  have h : b.Origin limits := .decoded hdecode
  refine ⟨h, (failures_erased h Store.sampleOps).1, ?_, ?_⟩
  · decide +kernel
  · decide +kernel

end Occupancy.Session
