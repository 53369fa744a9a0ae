import Mathlib
import Occupancy.Bitmap.Image
import Occupancy.Proofs.Capacity
import Occupancy.Proofs.History
import Occupancy.Proofs.Image.Stray
import Occupancy.Scan
/-!
# What operations do to a bitmap

An operation is a call or the scan of a page. Whatever it is, all that it does to a bitmap is a sequence of edits
(`edits_next`), of which there are three kinds; so what an edit keeps, every run of operations keeps. A bitmap
`stems` from limits when it is new or decoded under them, and then operated on.
-/

namespace Occupancy.Bitmap

/-- What can be done to a bitmap. -/
inductive Operation where
  | call (call : Call)
  | heapPage (page : Nat) (view : HeapView)
  | indexPage (index : Nat) (page : IndexPage)

/-- The bitmap that the next operation works on. A heap page that is refused leaves it as it was. -/
def Operation.next : Operation → Bitmap → Bitmap
  | call c, b => c.next b
  | heapPage page view, b =>
    match ({ bitmap := b } : Scan).heapPage page view with
    | .ok s => s.bitmap
    | .error _ => b
  | indexPage index page, b => (({ bitmap := b } : Scan).indexPage index page).bitmap

def operate (b : Bitmap) (ops : List Operation) : Bitmap := ops.foldl (fun b op => op.next b) b

/-- The bitmap is new, or decoded from an image. -/
inductive Origin (limits : Limits) : Bitmap → Prop where
  | blank {pageCount : Nat} (h : pageCount < UInt32.size) : Origin limits (blank limits pageCount)
  | decoded {bytes : List UInt8} {b : Bitmap} (h : decode limits bytes = .ok b) : Origin limits b

/-! ## Edits -/

/-- A page is registered, an item is written, or all marks are taken off. -/
inductive Edit : Bitmap → Bitmap → Prop where
  | register {b : Bitmap} (items : Nat) (h : b.refusal? b.table.registered items = none) : Edit b (b.register items)
  | put {b : Bitmap} {page item : Nat} (h : b.table.Has page item) (on : Bool) :
    Edit b (b.put (b.place page item) on)
  | clear (b : Bitmap) : Edit b b.duplicate

abbrev Edits : Bitmap → Bitmap → Prop := Relation.ReflTransGen Edit

variable {b b' : Bitmap}

theorem edits_write (b : Bitmap) (page item : Nat) (on : Bool) : Edits b (b.write page item on).1 := by
  unfold write
  cases hl : b.locate page item with
  | error reason => exact .refl
  | ok a =>
    obtain ⟨-, hhas, ha, -⟩ := (b.table.locate_eq_ok_iff b.usedBytes page item a).1 hl
    have hplace : a = b.place page item := by
      rw [place, ← ha]
    rw [hplace]
    exact .single (.put hhas on)

theorem edits_addPage {page items : Nat} (h : b.refusal? page items = none) : Edits b (b.register items) := by
  obtain ⟨-, -, rfl, -⟩ := (b.refusal?_eq_none_iff page items).1 h
  exact .single (.register items h)

theorem edits_call (call : Call) (b : Bitmap) : Edits b (call.next b) := by
  cases call with
  | addPage page items =>
    cases hr : b.refusal? page items with
    | some reason =>
      simp only [Call.next, addPage, hr]
      exact .refl
    | none =>
      simp only [Call.next, addPage, hr]
      exact edits_addPage hr
  | set page item on => exact edits_write b page item on
  | reset =>
    rw [Call.next, reset_eq_duplicate]
    exact .single (.clear b)
  | duplicate => exact .single (.clear b)
  | get page item => exact .refl
  | clone => exact .refl

/-! ## The edits of a scan -/

theorem edits_scan_write (s : Scan) (page item : Nat) (on : Bool) :
    Edits s.bitmap (s.write page item on).bitmap := by
  have h := edits_write s.bitmap page item on
  unfold Scan.write
  cases hw : s.bitmap.write page item on with
  | mk bitmap refusal =>
    rw [hw] at h
    cases refusal <;> exact h

theorem edits_markUsed (page : Nat) (v : HeapView) (s : Scan) (slot : Nat) :
    Edits s.bitmap (Scan.markUsed page v s slot).bitmap := by
  unfold Scan.markUsed
  split
  · exact edits_scan_write s page slot true
  · exact .refl

theorem edits_clearHeapOnly (page : Nat) (v : HeapView) (s : Scan) (slot : Nat) :
    Edits s.bitmap (Scan.clearHeapOnly page v s slot).bitmap := by
  unfold Scan.clearHeapOnly
  split
  · split
    · exact edits_scan_write s page slot false
    · exact .refl
    · exact .refl
  · exact .refl

theorem edits_follow (index : Nat) (s : Scan) (entry : HeapTid × Nat) :
    Edits s.bitmap (Scan.follow index s entry).bitmap := by
  unfold Scan.follow
  dsimp only
  split
  · exact .refl
  · exact edits_scan_write s _ _ true

theorem edits_foldl {α : Type} {step : Scan → α → Scan} (h : ∀ s x, Edits s.bitmap (step s x).bitmap)
    (xs : List α) (s : Scan) : Edits s.bitmap (xs.foldl step s).bitmap := by
  induction xs generalizing s with
  | nil => exact .refl
  | cons x xs ih => exact (h s x).trans (ih (step s x))

theorem edits_heapPage {s s' : Scan} {page : Nat} {v : HeapView} (h : s.heapPage page v = .ok s') :
    Edits s.bitmap s'.bitmap := by
  unfold Scan.heapPage at h
  cases hr : s.bitmap.refusal? page v.slotCount with
  | some reason =>
    rw [hr] at h
    cases h
  | none =>
    rw [hr] at h
    obtain rfl := Except.ok.inj h
    let s₀ : Scan := { s with bitmap := s.bitmap.register v.slotCount }
    have h₁ := edits_foldl (edits_markUsed page v) (List.range v.slotCount) s₀
    have h₂ := edits_foldl (edits_clearHeapOnly page v) (List.range v.slotCount)
      ((List.range v.slotCount).foldl (Scan.markUsed page v) s₀)
    exact ((edits_addPage hr).trans h₁).trans h₂

theorem edits_indexPage (s : Scan) (index : Nat) (page : IndexPage) :
    Edits s.bitmap (s.indexPage index page).bitmap :=
  edits_foldl (edits_follow index) _ s

theorem edits_foldlM_heapPage {s s' : Scan} {pages : List (HeapPage × Nat)}
    (h : pages.foldlM (fun s (page, index) => s.heapPage index page.view) s = .ok s') : Edits s.bitmap s'.bitmap := by
  induction pages generalizing s with
  | nil =>
    obtain rfl := Except.ok.inj h
    exact .refl
  | cons page pages ih =>
    rw [List.foldlM_cons] at h
    obtain ⟨s₁, h₁, h⟩ := Image.bind_eq_ok.1 h
    exact (edits_heapPage h₁).trans (ih h)

/-- The bitmap of a heap comes from a new one. -/
theorem edits_ofHeap {limits : Limits} {pages : List HeapPage} {s : Scan} (h : Scan.ofHeap limits pages = .ok s) :
    Edits (blank limits pages.length) s.bitmap :=
  edits_foldlM_heapPage h

/-- The bitmap of an index comes from a cleared copy of that of the heap. -/
theorem edits_ofIndex (heap : Bitmap) (pages : List IndexPage) : Edits heap (Scan.ofIndex heap pages).bitmap := by
  have hclear : Edits heap heap.duplicate := .single (.clear heap)
  have hpages (s : Scan) (x : IndexPage × Nat) : Edits s.bitmap (s.indexPage x.2 x.1).bitmap :=
    edits_indexPage s x.2 x.1
  exact hclear.trans (edits_foldl hpages pages.zipIdx { bitmap := heap.duplicate })

theorem edits_next (op : Operation) (b : Bitmap) : Edits b (op.next b) := by
  cases op with
  | call call => exact edits_call call b
  | heapPage page view =>
    unfold Operation.next
    dsimp only
    split
    · next s hs => exact edits_heapPage hs
    · exact .refl
  | indexPage index page => exact edits_foldl (edits_follow index) page.refs.toList.zipIdx { bitmap := b }

theorem edits_operate (b : Bitmap) (ops : List Operation) : Edits b (b.operate ops) := by
  induction ops generalizing b with
  | nil => exact .refl
  | cons op ops ih => exact (edits_next op b).trans (ih (op.next b))

/-! ## What edits keep -/

theorem Edit.valid (h : Edit b b') (hv : b.Valid) : b'.Valid := by
  cases h with
  | register items hr => exact hv.register hr
  | put _ on => exact hv.put _ on
  | clear => exact hv.duplicate

theorem Edits.valid (h : Edits b b') (hv : b.Valid) : b'.Valid := by
  induction h with
  | refl => exact hv
  | tail _ he ih => exact he.valid ih

/-- The bounds are the same, and no bytes were given back. -/
structure Extends (b b' : Bitmap) : Prop where
  pageCount_eq : b'.table.pageCount = b.table.pageCount
  maxItems_eq : b'.maxItems = b.maxItems
  chunk_eq : b'.chunk = b.chunk
  used_le : b.usedBytes ≤ b'.usedBytes
  capacity_le : b.capacity ≤ b'.capacity

theorem Extends.refl (b : Bitmap) : Extends b b := ⟨rfl, rfl, rfl, Nat.le_refl _, Nat.le_refl _⟩

theorem Extends.trans {b₁ b₂ b₃ : Bitmap} (h : Extends b₁ b₂) (h' : Extends b₂ b₃) : Extends b₁ b₃ where
  pageCount_eq := h'.pageCount_eq.trans h.pageCount_eq
  maxItems_eq := h'.maxItems_eq.trans h.maxItems_eq
  chunk_eq := h'.chunk_eq.trans h.chunk_eq
  used_le := Nat.le_trans h.used_le h'.used_le
  capacity_le := Nat.le_trans h.capacity_le h'.capacity_le

theorem usedBytes_le_register (b : Bitmap) (items : Nat) : b.usedBytes ≤ (b.register items).usedBytes := by
  unfold usedBytes
  rw [table_register, PageTable.total_push]
  exact Capacity.bytesFor_le.2 (Nat.le_trans (Nat.le_add_right ..) (Capacity.bytesFor_le.1 (Nat.le_refl _)))

theorem capacity_register (b : Bitmap) (items : Nat) :
    (b.register items).capacity = Capacity.grown b.capacity (b.register items).usedBytes b.chunk :=
  capacity_grow { b with table := b.table.push items } _

theorem Edit.extends (h : Edit b b') : Extends b b' := by
  cases h with
  | register items hr =>
    refine ⟨rfl, rfl, rfl, usedBytes_le_register b items, ?_⟩
    rw [capacity_register]
    exact Capacity.le_grown ..
  | put hi on => exact ⟨rfl, rfl, rfl, Nat.le_refl _, Nat.le_of_eq (b.capacity_put _ on).symm⟩
  | clear => exact ⟨rfl, rfl, rfl, Nat.le_refl _, Nat.le_of_eq b.capacity_duplicate.symm⟩

theorem Edits.extends (h : Edits b b') : Extends b b' := by
  induction h with
  | refl => exact .refl b
  | tail _ he ih => exact ih.trans he.extends

/-- Nothing is in the buffer but the marks of items, and it is as long as the used bytes call for. -/
structure Tidy (b : Bitmap) : Prop where
  valid : b.Valid
  zeroTail : b.ZeroTail
  capacity_eq : b.capacity = Capacity.held b.table.pageCount b.usedBytes b.chunk

theorem Edit.tidy (h : Edit b b') (ht : b.Tidy) : b'.Tidy := by
  have hv := h.valid ht.valid
  cases h with
  | register items hr =>
    refine ⟨hv, zeroTail_register ht.zeroTail items, ?_⟩
    rw [capacity_register, ht.capacity_eq,
      Capacity.grown_held ht.valid.chunk_pos _ (usedBytes_le_register b items)]
    rfl
  | put hi on => exact ⟨hv, ht.valid.zeroTail_put ht.zeroTail hi on, (b.capacity_put _ on).trans ht.capacity_eq⟩
  | clear => exact ⟨hv, zeroTail_duplicate b, b.capacity_duplicate.trans ht.capacity_eq⟩

theorem Edits.tidy (h : Edits b b') (ht : b.Tidy) : b'.Tidy := by
  induction h with
  | refl => exact ht
  | tail _ he ih => exact he.tidy ih

/-! ## Where bitmaps come from -/

variable {limits : Limits}

theorem Origin.valid (h : Origin limits b) : b.Valid := by
  cases h with
  | blank _ => exact valid_blank ..
  | decoded h => exact Image.valid_of_decode h

theorem tidy_blank (limits : Limits) (pageCount : Nat) : (blank limits pageCount).Tidy := by
  refine ⟨valid_blank limits pageCount, zeroTail_blank limits pageCount, ?_⟩
  have hsize : (blank limits pageCount).capacity = Capacity.initial pageCount limits.chunk := Array.size_replicate
  have hused : (blank limits pageCount).usedBytes = 0 := Nat.le_zero.1 (Capacity.bytesFor_le.2 (Nat.zero_le _))
  rw [hsize, hused]
  exact (Capacity.held_zero limits.chunk_pos pageCount).symm

/-- The bounds of a bitmap are those of the limits under which it came to be. -/
theorem Origin.bounds (h : Origin limits b) :
    b.table.pageCount < UInt32.size ∧ b.maxItems = limits.maxItems ∧ b.chunk = limits.chunk := by
  cases h with
  | blank hlt => exact ⟨hlt, rfl, rfl⟩
  | decoded h =>
    obtain ⟨f, hf, -, rfl⟩ := Image.decode_eq_ok_iff.1 h
    exact ⟨hf.pageCount_lt, rfl, rfl⟩

end Occupancy.Bitmap
