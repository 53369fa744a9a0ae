import Mathlib
import Occupancy.Failure
import Occupancy.Proofs.Check
import Occupancy.Proofs.Store
/-!
# A check in memory

Here a check works on bitmaps as they lie in memory, with every access and division checked, and reports to a sink at
the moment when there is something to report. A page that must not be registered ends it, just as a trap does.
`check_shielded` says that a relation is refused for its first heap page that is too large, before anything is
reported, and that any other is checked to the end: the outcome is that of `Relation.check`.
-/

namespace Occupancy.Store

/-- What would end a check. -/
inductive Fault where
  | trap (trap : Trap)
  /-- A page was to be registered that must not be. -/
  | registration (e : RegistrationError)
  deriving DecidableEq, Repr

/-- A part of a check. The sink holds all that was reported so far. -/
abbrev Run (α : Type) := StateT (List Event) (Except Fault) α

instance : MonadLift (Except Trap) (StateT (List Event) (Except Fault)) where
  monadLift step := StateT.lift (step.mapError .trap)

def report (e : Event) : Run Unit := modify (· ++ [e])

/-! ## Filling a store -/

/-- A store being filled, and the number of accesses that failed so far. -/
structure Filling where
  store : Store
  errors : Nat := 0

def blank (limits : Limits) (pageCount : Nat) : Step Store := do
  let capacity ← (Capacity.initial? pageCount limits.chunk).mapError .growth
  return {
    table := { pageCount }
    maxItems := limits.maxItems
    chunk := limits.chunk
    bytes := Array.replicate capacity 0
    usedBytes := 0 }

def duplicate (s : Store) : Store := { s with bytes := Array.replicate s.bytes.size 0 }

namespace Filling

variable (f : Filling)

/-- Writes the bit of an item; an item without one is an error, and is reported. -/
def write (page item : Nat) (on : Bool) : Run Filling := do
  match ← f.store.locate page item with
  | .ok _ =>
    let store ← f.store.write page item on
    return { f with store }
  | .error reason =>
    report (.addressRejected (.put on) reason)
    return { f with errors := f.errors + 1 }

def markUsed (page : Nat) (v : HeapView) (f : Filling) (slot : Nat) : Run Filling :=
  if v.isUsed slot then f.write page slot true else return f

def clearHeapOnly (page : Nat) (v : HeapView) (f : Filling) (slot : Nat) : Run Filling :=
  if v.isHeapOnly slot then do
    match ← f.store.get page slot with
    | .ok true => f.write page slot false
    | .ok false => return f
    | .error reason =>
      report (.addressRejected .get reason)
      return f
  else return f

def heapPage (page : Nat) (v : HeapView) : Run Filling :=
  match f.store.refusal? page v.slotCount with
  | some e => throw (.registration e)
  | none => do
    let store ← f.store.register v.slotCount
    let slots := List.range v.slotCount
    let f ← slots.foldlM (markUsed page v) { f with store }
    slots.foldlM (clearHeapOnly page v) f

def ofHeap (limits : Limits) (pages : List HeapPage) : Run Filling := do
  let store ← blank limits pages.length
  pages.zipIdx.foldlM (fun f (page, index) => f.heapPage index page.view) { store }

def follow (indexPage : Nat) (f : Filling) (entry : HeapTid × Nat) : Run Filling :=
  let (tid, slot) := entry
  match tid.item? with
  | none => do
    report (.invalidIndexReference indexPage slot tid.block.toNat)
    return { f with errors := f.errors + 1 }
  | some item => f.write tid.block.toNat item true

def indexPage (index : Nat) (page : IndexPage) : Run Filling := page.refs.toList.zipIdx.foldlM (follow index) f

def ofIndex (heap : Store) (pages : List IndexPage) : Run Filling :=
  pages.zipIdx.foldlM (fun f (page, index) => f.indexPage index page) { store := heap.duplicate }

end Filling

/-! ## Counting, comparing and dumping -/

variable (s : Store)

def count : Step Nat := do
  let span ← s.span
  return Byte.population span

def render (f : DumpFormat) : Step String := do
  let span ← s.span
  let nbits ← s.count
  let ends := Encoding.decimals s.table.ends.toList
  let summary := s!"bitmap nbytes={span.size} nbits={nbits} npages={s.table.pageCount} pages=[{ends}]"
  match f.encode? span.toList with
  | none => return summary
  | some data => return s!"{summary} data=[{data}]"

def dump (settings : Settings) : Run Unit :=
  if settings.format = .countsOnly then return ()
  else do
    let text ← s.render settings.format
    report (.bitmapDump text)

def differingBits (left right : Store) : Step Nat := do
  let l ← left.span
  let r ← right.span
  return Byte.population (Array.zipWith (· ^^^ ·) l r)

def compare (left right : Store) : Run Nat :=
  if left.table.pageCount ≠ right.table.pageCount then do
    report (.pageCountMismatch left.table.pageCount right.table.pageCount)
    return max left.table.total right.table.total
  else if left.table.total ≠ right.table.total then do
    report (.itemTotalMismatch left.table.total right.table.total)
    left.differingBits right
  else left.differingBits right

/-- Whether the item has a bit and is marked; nothing is reported. -/
def isMarked (page item : Nat) : Step Bool := do
  match ← s.get page item with
  | .ok on => return on
  | .error _ => return false

def diffItem (left right : Store) (page item : Nat) : Step (List ItemDiff) := do
  match ← left.isMarked page item, ← right.isMarked page item with
  | true, false => return [{ page, item, side := .onlyInLeft }]
  | false, true => return [{ page, item, side := .onlyInRight }]
  | _, _ => return []

def diffPage (left right : Store) (page : Nat) : Step (List ItemDiff) := do
  let l ← left.range? page
  let r ← right.range? page
  if l = none ∨ l ≠ r then return []
  else
    let items ← left.items? page
    let diffs ← (List.range (items.getD 0)).mapM (left.diffItem right page)
    return diffs.flatten

def diff (left right : Store) : Step (List ItemDiff) := do
  let diffs ← (List.range (min left.table.registered right.table.registered)).mapM (left.diffPage right)
  return diffs.flatten

/-! ## The whole check -/

/-- The outcome of a check, the events apart. -/
structure Checked where
  report : Report
  heap : Store
  indexes : List Store

def checkIndex (settings : Settings) (heap : Store) (index : Index) : Run (IndexReport × Store) := do
  let f ← Filling.ofIndex heap index.pages
  f.store.dump settings
  let differingItems ← heap.compare f.store
  let diffs ← heap.diff f.store
  let entries ← f.store.count
  let report : IndexReport := {
    name := index.name
    indexPages := index.pages.length
    entries
    errors := f.errors
    differingItems
    missingFromIndex := ItemDiff.on .onlyInLeft diffs
    missingFromHeap := ItemDiff.on .onlyInRight diffs }
  return (report, f.store)

def compareIndexes (r : Relation) (settings : Settings) : Run Checked := do
  let f ← Filling.ofHeap settings.limits r.heap
  f.store.dump settings
  let heapRows ← f.store.count
  let checks ← r.indexes.mapM (checkIndex settings f.store)
  return {
    report := {
      heapPages := f.store.table.pageCount
      heapSlots := f.store.table.total
      heapRows
      heapErrors := f.errors
      indexes := checks.map (·.1) }
    heap := f.store
    indexes := checks.map (·.2) }

def check (r : Relation) (settings : Settings) : Run (Except RelationFault Checked) :=
  match r.validate settings.limits with
  | .error fault => return .error fault
  | .ok () => do
    let checked ← compareIndexes r settings
    return .ok checked

/-! ## Filling meets no fault -/

theorem lift_pure_bind {α β : Type} (a : α) (next : α → Run β) : liftM (pure a : Step α) >>= next = next a := rfl

theorem run_report (e : Event) (sink : List Event) : (report e).run sink = .ok ((), sink ++ [e]) := rfl

theorem run_bind_of_ok {α β : Type} {run : Run α} {next : α → Run β} {a : α} {sink sink' : List Event}
    (h : run.run sink = .ok (a, sink')) : (run >>= next).run sink = (next a).run sink' := by
  rw [StateT.run_bind, h]
  rfl

namespace Filling

/-- What a scan has got to. -/
def ofScan (s : Scan) : Filling := ⟨s.bitmap.store, s.errors⟩

variable {s : Scan}

/-- From where the scan `s` has got to, the run goes to where `s'` has, and adds to the sink what is reported then. -/
def Follows (run : Run Filling) (s s' : Scan) : Prop :=
  ∀ sink, run.run (sink ++ s.events.toList) = .ok (ofScan s', sink ++ s'.events.toList)

theorem Follows.bind {run : Run Filling} {next : Filling → Run Filling} {s s' s'' : Scan} (h : Follows run s s')
    (h' : Follows (next (ofScan s')) s' s'') : Follows (run >>= next) s s'' := by
  intro sink
  rw [run_bind_of_ok (h sink)]
  exact h' sink

theorem Follows.pure (s : Scan) : Follows (pure (ofScan s)) s s := fun _ => rfl

theorem Follows.report (s : Scan) (e : Event) :
    Follows (do Store.report e; return ofScan s) s (s.report e) := by
  intro sink
  rw [run_bind_of_ok (run_report e _), Scan.report, Array.toList_push, ← List.append_assoc]
  rfl

theorem follows_write (hv : s.bitmap.Valid) (page item : Nat) (on : Bool) :
    Follows ((ofScan s).write page item on) s (s.write page item on) := by
  have hlocate : (ofScan s).store.locate page item = pure (s.bitmap.locate page item) := store_locate _ page item
  have hwrite : (ofScan s).store.write page item on = pure (s.bitmap.write page item on).1.store :=
    store_write hv page item on
  unfold write Scan.write
  rw [hlocate, lift_pure_bind]
  cases hl : s.bitmap.locate page item with
  | ok a =>
    dsimp only
    rw [hwrite, lift_pure_bind]
    simp only [Bitmap.write, hl]
    exact fun _ => rfl
  | error reason =>
    simp only [Bitmap.write, hl]
    exact .report { s with errors := s.errors + 1 } _

theorem follows_markUsed (page : Nat) (v : HeapView) (hv : s.bitmap.Valid) (slot : Nat) :
    Follows (markUsed page v (ofScan s) slot) s (Scan.markUsed page v s slot) := by
  unfold markUsed Scan.markUsed
  split
  · exact follows_write hv page slot true
  · exact .pure s

theorem follows_clearHeapOnly (page : Nat) (v : HeapView) (hv : s.bitmap.Valid) (slot : Nat) :
    Follows (clearHeapOnly page v (ofScan s) slot) s (Scan.clearHeapOnly page v s slot) := by
  have hget : (ofScan s).store.get page slot = pure (s.bitmap.get page slot) := store_get hv page slot
  unfold clearHeapOnly Scan.clearHeapOnly
  split
  · rw [hget, lift_pure_bind]
    cases s.bitmap.get page slot with
    | ok on =>
      cases on with
      | true => exact follows_write hv page slot false
      | false => exact .pure s
    | error reason => exact .report s _
  · exact .pure s

theorem follows_follow (index : Nat) (hv : s.bitmap.Valid) (entry : HeapTid × Nat) :
    Follows (follow index (ofScan s) entry) s (Scan.follow index s entry) := by
  obtain ⟨tid, slot⟩ := entry
  unfold follow Scan.follow
  dsimp only
  cases tid.item? with
  | none => exact .report { s with errors := s.errors + 1 } _
  | some item => exact follows_write hv _ item true

/-- A pass meets no fault if none of its steps does. -/
theorem follows_foldlM {α : Type} {f : Filling → α → Run Filling} {step : Scan → α → Scan}
    (hf : ∀ {s : Scan}, s.bitmap.Valid → ∀ x, Follows (f (ofScan s) x) s (step s x))
    (he : ∀ s x, Bitmap.Edits s.bitmap (step s x).bitmap) (xs : List α) (hv : s.bitmap.Valid) :
    Follows (xs.foldlM f (ofScan s)) s (xs.foldl step s) := by
  induction xs generalizing s with
  | nil => exact .pure s
  | cons x xs ih =>
    rw [List.foldlM_cons]
    exact (hf hv x).bind (ih (Bitmap.Edits.valid (he s x) hv))

theorem follows_indexPage (hv : s.bitmap.Valid) (index : Nat) (page : IndexPage) :
    Follows ((ofScan s).indexPage index page) s (s.indexPage index page) :=
  follows_foldlM (follows_follow index) (Bitmap.edits_follow index) _ hv

theorem follows_ofIndex {heap : Bitmap} (hv : heap.Valid) (pages : List IndexPage) :
    Follows (ofIndex heap.store pages) { bitmap := heap.duplicate } (Scan.ofIndex heap pages) := by
  have hv₀ : ({ bitmap := heap.duplicate } : Scan).bitmap.Valid := hv.duplicate
  unfold ofIndex Scan.ofIndex
  exact follows_foldlM (fun hs (page, index) => follows_indexPage hs index page)
    (fun s (page, index) => Bitmap.edits_indexPage s index page) _ hv₀

/-- A heap page that the bitmap allows is registered. -/
theorem follows_heapPage {s' : Scan} (hv : s.bitmap.Valid) {page : Nat} {v : HeapView}
    (h : s.heapPage page v = .ok s') :
    Follows ((ofScan s).heapPage page v) s s' := by
  have hr : (ofScan s).store.refusal? page v.slotCount = s.bitmap.refusal? page v.slotCount := rfl
  unfold heapPage
  unfold Scan.heapPage at h
  rw [hr]
  cases hno : s.bitmap.refusal? page v.slotCount with
  | some e =>
    rw [hno] at h
    cases h
  | none =>
    rw [hno] at h
    obtain rfl := Except.ok.inj h
    let s₀ : Scan := { s with bitmap := s.bitmap.register v.slotCount }
    have hregister : (ofScan s).store.register v.slotCount = pure s₀.bitmap.store := store_register hv v.slotCount
    have hv₀ : s₀.bitmap.Valid := Bitmap.Edits.valid (Bitmap.edits_addPage hno) hv
    have hmark : Follows ((List.range v.slotCount).foldlM (markUsed page v) (ofScan s₀)) s₀ _ :=
      follows_foldlM (follows_markUsed page v) (Bitmap.edits_markUsed page v) _ hv₀
    have hv₁ := Bitmap.Edits.valid (Bitmap.edits_foldl (Bitmap.edits_markUsed page v) (List.range v.slotCount) s₀) hv₀
    dsimp only
    rw [hregister, lift_pure_bind]
    exact hmark.bind (follows_foldlM (follows_clearHeapOnly page v) (Bitmap.edits_clearHeapOnly page v) _ hv₁)

theorem follows_foldlM_heapPage {s' : Scan} (hv : s.bitmap.Valid) (pages : List HeapPage) (index : Nat)
    (h : (pages.zipIdx index).foldlM (fun s (page, index) => s.heapPage index page.view) s = .ok s') :
    Follows ((pages.zipIdx index).foldlM (fun f (page, index) => f.heapPage index page.view) (ofScan s)) s s' := by
  induction pages generalizing s index with
  | nil =>
    obtain rfl := Except.ok.inj h
    exact .pure s
  | cons page pages ih =>
    rw [List.zipIdx_cons, List.foldlM_cons] at h ⊢
    obtain ⟨s₁, h₁, h⟩ := Image.bind_eq_ok.1 h
    exact (follows_heapPage hv h₁).bind (ih (Bitmap.Edits.valid (Bitmap.edits_heapPage h₁) hv) (index + 1) h)

end Filling

/-- A chunk is never empty, so a new store has a capacity. -/
theorem blank_eq (limits : Limits) (pageCount : Nat) :
    blank limits pageCount = pure (Bitmap.blank limits pageCount).store := by
  have hpos : limits.chunk ≠ 0 := Nat.ne_of_gt limits.chunk_pos
  have hused : (Bitmap.blank limits pageCount).usedBytes = 0 :=
    Nat.le_zero.1 (Capacity.bytesFor_le.2 (Nat.zero_le _))
  unfold blank Capacity.initial? Bitmap.store
  rw [if_neg hpos, hused]
  rfl

theorem Filling.follows_ofHeap {limits : Limits} {heap : List HeapPage} {s : Scan}
    (h : Scan.ofHeap limits heap = .ok s) :
    Follows (ofHeap limits heap) { bitmap := Bitmap.blank limits heap.length } s := by
  unfold ofHeap
  rw [blank_eq, lift_pure_bind]
  exact follows_foldlM_heapPage (s := { bitmap := Bitmap.blank limits heap.length }) (Bitmap.valid_blank ..) heap 0 h

/-! ## Counting, comparing and dumping meet no fault -/

variable {a b : Bitmap}

theorem store_count (hv : b.Valid) : b.store.count = pure b.count := by
  unfold count
  rw [store_span hv, pure_bind]
  rfl

theorem store_render (hv : b.Valid) (f : DumpFormat) : b.store.render f = pure (b.render f) := by
  have hsize : b.span.size = b.usedBytes := Bitmap.length_used hv.used_le
  unfold render
  rw [store_span hv, pure_bind, store_count hv, pure_bind, hsize]
  unfold Bitmap.render Bitmap.used
  cases f.encode? b.span.toList <;> rfl

theorem run_dump (hv : b.Valid) (settings : Settings) (sink : List Event) :
    (b.store.dump settings).run sink = .ok ((), sink ++ settings.dumps b) := by
  unfold dump Settings.dumps
  split
  · rw [List.append_nil]
    rfl
  · rw [store_render hv, lift_pure_bind]
    exact run_report (b.dump settings.format) sink

theorem store_differingBits (ha : a.Valid) (hb : b.Valid) :
    a.store.differingBits b.store = pure (a.differingBits b) := by
  unfold differingBits
  rw [store_span ha, pure_bind, store_span hb, pure_bind]
  rfl

theorem run_compare (ha : a.Valid) (hb : b.Valid) (sink : List Event) :
    (a.store.compare b.store).run sink = .ok ((a.compare b).1, sink ++ (a.compare b).2) := by
  unfold compare Bitmap.compare
  rw [store_differingBits ha hb]
  by_cases hpages : a.table.pageCount = b.table.pageCount
  · by_cases htotal : a.table.total = b.table.total
    · simp only [toBitmap_store, hpages, htotal, ne_eq, not_true, if_false, List.append_nil]
      rfl
    · simp only [toBitmap_store, hpages, htotal, ne_eq, not_true, not_false_iff, if_false, if_true]
      exact run_bind_of_ok (run_report _ sink)
  · simp only [toBitmap_store, hpages, ne_eq, not_false_iff, if_true]
    exact run_bind_of_ok (run_report _ sink)

/-- Steps that meet no trap put together what each of them finds. -/
theorem mapM_pure_flatten {α β : Type} {step : α → Step (List β)} {found : α → List β}
    (h : ∀ x, step x = pure (found x)) (xs : List α) :
    (do let lists ← xs.mapM step; return lists.flatten) = (pure (xs.flatMap found) : Step (List β)) := by
  obtain rfl : step = fun x => pure (found x) := funext h
  rw [List.mapM_pure, pure_bind, List.flatMap_def]

theorem store_isMarked (hv : b.Valid) (page item : Nat) : b.store.isMarked page item = pure (b.isMarked page item) := by
  unfold isMarked Bitmap.isMarked
  rw [store_get hv, pure_bind]
  cases b.get page item <;> rfl

theorem store_diffItem (ha : a.Valid) (hb : b.Valid) (page item : Nat) :
    a.store.diffItem b.store page item = pure (Bitmap.diffItem a b page item) := by
  unfold diffItem Bitmap.diffItem Bitmap.sideOf
  rw [store_isMarked ha, pure_bind, store_isMarked hb, pure_bind]
  cases a.isMarked page item <;> cases b.isMarked page item <;> rfl

theorem store_diffPage (ha : a.Valid) (hb : b.Valid) (page : Nat) :
    a.store.diffPage b.store page = pure (Bitmap.diffPage a b page) := by
  unfold diffPage
  rw [store_range?, pure_bind, store_range?, pure_bind]
  cases hl : a.table.range? page with
  | none =>
    rw [if_pos (.inl rfl)]
    simp only [Bitmap.diffPage, hl]
  | some range =>
    obtain ⟨start, stop⟩ := range
    by_cases hr : b.table.range? page = some (start, stop)
    · -- the page lies at the same place in both
      have hitems : a.table.items? page = some (stop - start) := by
        rw [PageTable.items?, hl]
        rfl
      have hsame : ¬ (some (start, stop) = none ∨ some (start, stop) ≠ b.table.range? page) := by simp [hr]
      rw [if_neg hsame, store_items? ha, pure_bind, hitems, Bitmap.diffPage_eq hl hr]
      exact mapM_pure_flatten (store_diffItem ha hb page) _
    · rw [if_pos (.inr (Ne.symm hr))]
      simp only [Bitmap.diffPage, hl, if_neg hr]

theorem store_diff (ha : a.Valid) (hb : b.Valid) : a.store.diff b.store = pure (a.diff b) :=
  mapM_pure_flatten (store_diffPage ha hb) _

/-! ## A check meets no fault -/

theorem run_checkIndex {heap : Bitmap} (hv : heap.Valid) (settings : Settings) (index : Index) (sink : List Event) :
    (checkIndex settings heap.store index).run sink =
      .ok (((index.check settings heap).report, (index.check settings heap).bitmap.store),
        sink ++ (index.check settings heap).events) := by
  have hv' : (Scan.ofIndex heap index.pages).bitmap.Valid :=
    Bitmap.Edits.valid (Bitmap.edits_ofIndex heap index.pages) hv
  have hfill := Filling.follows_ofIndex hv index.pages sink
  rw [List.append_nil] at hfill
  unfold checkIndex Index.check
  dsimp only
  rw [run_bind_of_ok hfill, ← List.append_assoc, ← List.append_assoc]
  unfold Filling.ofScan
  dsimp only
  rw [run_bind_of_ok (run_dump hv' settings _), run_bind_of_ok (run_compare hv hv' _), store_diff hv hv',
    lift_pure_bind, store_count hv', lift_pure_bind]
  rfl

theorem run_mapM_checkIndex {heap : Bitmap} (hv : heap.Valid) (settings : Settings) (indexes : List Index)
    (sink : List Event) :
    (indexes.mapM (checkIndex settings heap.store)).run sink =
      .ok ((indexes.map (·.check settings heap)).map fun o => (o.report, o.bitmap.store),
        sink ++ (indexes.map (·.check settings heap)).flatMap (·.events)) := by
  induction indexes generalizing sink with
  | nil =>
    rw [List.map_nil, List.flatMap_nil, List.append_nil]
    rfl
  | cons index indexes ih =>
    rw [List.mapM_cons, run_bind_of_ok (run_checkIndex hv settings index sink), run_bind_of_ok (ih _), List.map_cons,
      List.flatMap_cons, ← List.append_assoc]
    rfl

theorem run_compareIndexes {r : Relation} {settings : Settings} {s : Scan}
    (hs : Scan.ofHeap settings.limits r.heap = .ok s) (hv : s.bitmap.Valid) (sink : List Event) :
    (compareIndexes r settings).run sink =
      .ok (⟨(r.outcome settings s).report, s.bitmap.store, (r.outcome settings s).indexes.map Bitmap.store⟩,
        sink ++ (r.outcome settings s).events) := by
  have hfill := Filling.follows_ofHeap hs sink
  rw [List.append_nil] at hfill
  unfold compareIndexes Relation.outcome
  dsimp only
  rw [run_bind_of_ok hfill, ← List.append_assoc, ← List.append_assoc]
  unfold Filling.ofScan
  dsimp only
  rw [run_bind_of_ok (run_dump hv settings _), store_count hv, lift_pure_bind,
    run_bind_of_ok (run_mapM_checkIndex hv settings r.indexes _)]
  simp only [List.map_map]
  rfl

/-- A relation is refused just when a heap page of it has too many slots. The refusal names the first such page, and
nothing was reported by then. Any other relation is checked to its end, whatever its indexes point at. -/
theorem check_shielded (r : Relation) (settings : Settings) (hpages : r.heap.length < UInt32.size)
    (htotal : slotTotal r.heap < UInt32.size) (sink : List Event) :
    ((∃ fault, r.check settings = .error (.invalid fault)) ↔
      ∃ page ∈ r.heap, settings.limits.maxItems < page.slots.size) ∧
    (∀ fault, r.check settings = .error (.invalid fault) →
      (check r settings).run sink = .ok (.error fault, sink) ∧
      ∃ number page, r.FirstLarge settings.limits.maxItems number page ∧
        (Failure.ofCheck (.invalid fault)).message =
          s!"invalid fixture: heap page {number} has {page.slots.size} slots (max {settings.limits.maxItems})") ∧
    ((∀ page ∈ r.heap, page.slots.size ≤ settings.limits.maxItems) →
      ∃ o, r.check settings = .ok o ∧
        (check r settings).run sink =
          .ok (.ok ⟨o.report, o.heap.store, o.indexes.map Bitmap.store⟩, sink ++ o.events)) := by
  cases hvalid : r.validate settings.limits with
  | error fault =>
    have hcheck : r.check settings = .error (.invalid fault) := by
      rw [Relation.check, hvalid]
    obtain ⟨number, page, hfirst, rfl⟩ := (Relation.validate_eq_error_iff hpages).1 hvalid
    have hmem : page ∈ r.heap := List.mem_of_getElem? hfirst.getElem?_eq
    refine ⟨iff_of_true ⟨_, hcheck⟩ ⟨page, hmem, hfirst.large⟩, fun fault' hfault => ⟨?_, number, page, hfirst, ?_⟩,
      fun hfit => absurd hfirst.large (Nat.not_lt.2 (hfit page hmem))⟩
    · rw [hcheck] at hfault
      obtain rfl := CheckError.invalid.inj (Except.error.inj hfault)
      rw [check, hvalid]
      rfl
    · rw [hcheck] at hfault
      obtain rfl := CheckError.invalid.inj (Except.error.inj hfault)
      rfl
  | ok =>
    obtain ⟨-, hfit⟩ := Relation.validate_eq_ok_iff.1 hvalid
    obtain ⟨s, hs, hf, hcheck⟩ := Relation.check_eq_outcome hvalid htotal
    have hnone (fault : RelationFault) : r.check settings ≠ .error (.invalid fault) := by
      rw [hcheck]
      simp
    refine ⟨iff_of_false ?_ ?_, fun fault hfault => absurd hfault (hnone fault), fun _ => ⟨_, hcheck, ?_⟩⟩
    · rintro ⟨fault, hfault⟩
      exact hnone fault hfault
    · rintro ⟨page, hpage, hlarge⟩
      exact Nat.not_lt.2 (hfit page hpage) hlarge
    · rw [check, hvalid]
      exact run_bind_of_ok (run_compareIndexes hs hf.valid sink)

/-- Two heap pages, the second with three slots, and an index that points far beyond both. -/
def sampleHostile : Relation where
  heap := [⟨#[⟨.normal, .none⟩]⟩, ⟨#[⟨.dead, .none⟩, ⟨.normal, .heapOnly⟩, ⟨.unused, .none⟩]⟩]
  indexes := [⟨"by_name", [⟨#[⟨0xFFFFFFFF, 0xFFFF⟩, ⟨1, 0⟩]⟩, ⟨#[⟨1, 4⟩, ⟨0, 1⟩]⟩]⟩]

/-- Chunks of no bytes do no harm; one slot fewer allowed, and the second page is refused. -/
theorem check_shielded_hostile :
    sampleHostile.heap.length < UInt32.size ∧ slotTotal sampleHostile.heap < UInt32.size ∧
    (∃ o, sampleHostile.check { limits := { maxItems := 3, chunkBytes := 0 } } = .ok o ∧
      (check sampleHostile { limits := { maxItems := 3, chunkBytes := 0 } }).run [] =
        .ok (.ok ⟨o.report, o.heap.store, o.indexes.map Bitmap.store⟩, o.events)) ∧
    sampleHostile.check { limits := { maxItems := 2, chunkBytes := 0 } } = .error (.invalid (.largePage 1 3 2)) ∧
      (check sampleHostile { limits := { maxItems := 2, chunkBytes := 0 } }).run [] =
        .ok (.error (.largePage 1 3 2), []) := by
  have hpages : sampleHostile.heap.length < UInt32.size := by decide
  have htotal : slotTotal sampleHostile.heap < UInt32.size := by decide
  have hfit : ∀ page ∈ sampleHostile.heap, page.slots.size ≤ 3 := by decide
  have hrefused : sampleHostile.check { limits := { maxItems := 2, chunkBytes := 0 } } =
      .error (.invalid (.largePage 1 3 2)) := rfl
  exact ⟨hpages, htotal, (check_shielded sampleHostile _ hpages htotal []).2.2 hfit, hrefused,
    ((check_shielded sampleHostile _ hpages htotal []).2.1 _ hrefused).1⟩

end Occupancy.Store
