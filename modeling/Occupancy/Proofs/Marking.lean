import Mathlib
import Occupancy.Proofs.Canonical
/-!
# Marking one item after the other

A list of items is marked by as many writes. What becomes of the buffer depends on which items are listed, and
neither on their order nor on how often one is listed (`Valid.markAll_congr`).
-/

namespace Occupancy.Bitmap

variable {b : Bitmap} {xs ys : List ItemRef}

/-- The bitmap with these items marked too. -/
def markAll (b : Bitmap) (xs : List ItemRef) : Bitmap := xs.foldl (fun b x => b.put (b.place x.page x.item) true) b

theorem markAll_cons (b : Bitmap) (x : ItemRef) (xs : List ItemRef) :
    b.markAll (x :: xs) = (b.put (b.place x.page x.item) true).markAll xs := rfl

theorem markAll_append (b : Bitmap) (xs ys : List ItemRef) : b.markAll (xs ++ ys) = (b.markAll xs).markAll ys :=
  List.foldl_append

/-! ## What stays the same -/

theorem markAll_eq (b : Bitmap) (xs : List ItemRef) :
    ∃ bytes, bytes.size = b.capacity ∧ b.markAll xs = { b with bytes } := by
  induction xs generalizing b with
  | nil => exact ⟨b.bytes, rfl, rfl⟩
  | cons x xs ih =>
    obtain ⟨bytes, hsize, heq⟩ := ih (b.put (b.place x.page x.item) true)
    exact ⟨bytes, hsize.trans (b.capacity_put _ true), heq⟩

@[simp] theorem table_markAll (b : Bitmap) (xs : List ItemRef) : (b.markAll xs).table = b.table := by
  obtain ⟨_, -, heq⟩ := b.markAll_eq xs
  rw [heq]

@[simp] theorem maxItems_markAll (b : Bitmap) (xs : List ItemRef) : (b.markAll xs).maxItems = b.maxItems := by
  obtain ⟨_, -, heq⟩ := b.markAll_eq xs
  rw [heq]

@[simp] theorem chunk_markAll (b : Bitmap) (xs : List ItemRef) : (b.markAll xs).chunk = b.chunk := by
  obtain ⟨_, -, heq⟩ := b.markAll_eq xs
  rw [heq]

@[simp] theorem capacity_markAll (b : Bitmap) (xs : List ItemRef) : (b.markAll xs).capacity = b.capacity := by
  obtain ⟨_, hsize, heq⟩ := b.markAll_eq xs
  rw [heq, capacity, hsize]

theorem Valid.markAll (h : b.Valid) (xs : List ItemRef) : (b.markAll xs).Valid := by
  induction xs generalizing b with
  | nil => exact h
  | cons x xs ih => exact ih (h.put _ true)

/-! ## What becomes of each bit -/

theorem Valid.bit_markAll (h : b.Valid) (hxs : ∀ x ∈ xs, b.table.Has x.page x.item) (k : Nat) :
    (b.markAll xs).bit k = true ↔ b.bit k = true ∨ ∃ x ∈ xs, b.table.start x.page + x.item = k := by
  induction xs generalizing b with
  | nil => simp [Bitmap.markAll]
  | cons x xs ih =>
    obtain ⟨hx, hrest⟩ := List.forall_mem_cons.1 hxs
    have hput : (b.put (b.place x.page x.item) true).table = b.table := rfl
    have hbit : (b.put (b.place x.page x.item) true).bit k = true ↔
        b.bit k = true ∨ b.table.start x.page + x.item = k := by
      rw [h.bit_put_place hx]
      split
      · next he => simp [he]
      · next hne => simp [Ne.symm hne]
    have hih := ih (h.put (b.place x.page x.item) true) hrest
    rw [hbit, hput, or_assoc] at hih
    rw [markAll_cons, hih]
    simp only [List.mem_cons, exists_eq_or_imp]

theorem Valid.zeroTail_markAll (h : b.Valid) (hz : b.ZeroTail) (hxs : ∀ x ∈ xs, b.table.Has x.page x.item) :
    (b.markAll xs).ZeroTail := by
  intro k hk
  rw [table_markAll] at hk
  rw [← Bool.not_eq_true, h.bit_markAll hxs]
  rintro (hold | ⟨x, hx, rfl⟩)
  · rw [hz k hk] at hold
    cases hold
  · exact absurd (h.ordered.offset_lt_total (hxs x hx)) (Nat.not_lt.2 hk)

theorem Valid.marks_markAll (h : b.Valid) (hxs : ∀ x ∈ xs, b.table.Has x.page x.item) :
    (b.markAll xs).marks = b.marks ∪ {x | x ∈ xs} := by
  induction xs generalizing b with
  | nil => simp [Bitmap.markAll]
  | cons x xs ih =>
    obtain ⟨hx, hrest⟩ := List.forall_mem_cons.1 hxs
    rw [markAll_cons, ih (h.put (b.place x.page x.item) true) hrest, h.marks_put hx]
    ext y
    simp only [Set.mem_union, Set.mem_insert_iff, Set.mem_ofPred_eq, List.mem_cons]
    tauto

/-- It makes no difference in which order items are marked, nor how often. -/
theorem Valid.markAll_congr (h : b.Valid) (hxs : ∀ x ∈ xs, b.table.Has x.page x.item) (hxy : ∀ x, x ∈ xs ↔ x ∈ ys) :
    b.markAll xs = b.markAll ys := by
  have hys : ∀ y ∈ ys, b.table.Has y.page y.item := fun y hy => hxs y ((hxy y).2 hy)
  have hcapacity : (b.markAll xs).capacity = (b.markAll ys).capacity := by
    rw [capacity_markAll, capacity_markAll]
  have hbytes : (b.markAll xs).bytes = (b.markAll ys).bytes := by
    refine bytes_eq_of_bit hcapacity fun k => ?_
    rw [Bool.eq_iff_iff, h.bit_markAll hxs, h.bit_markAll hys]
    simp only [hxy]
  obtain ⟨bytes, -, heqx⟩ := b.markAll_eq xs
  obtain ⟨bytes', -, heqy⟩ := b.markAll_eq ys
  rw [heqx, heqy] at hbytes ⊢
  rw [show bytes = bytes' from hbytes]

/-! ## Marking by operations -/

theorem edits_markAll (hxs : ∀ x ∈ xs, b.table.Has x.page x.item) : Edits b (b.markAll xs) := by
  induction xs generalizing b with
  | nil => exact .refl
  | cons x xs ih =>
    obtain ⟨hx, hrest⟩ := List.forall_mem_cons.1 hxs
    have hput : ∀ y ∈ xs, (b.put (b.place x.page x.item) true).table.Has y.page y.item := hrest
    exact .head (.put hx true) (ih hput)

theorem next_reset (b : Bitmap) : (Operation.call .reset).next b = b.duplicate := by
  rw [Operation.next, Call.next, reset_eq_duplicate]

theorem Valid.next_set (h : b.Valid) {page item : Nat} (hi : b.table.Has page item) (value : Bool) :
    (Operation.call (.set page item value)).next b = b.put (b.place page item) value := by
  rw [Operation.next, Call.next, h.write_of_has hi]

theorem Valid.operate_sets (h : b.Valid) (hxs : ∀ x ∈ xs, b.table.Has x.page x.item) :
    b.operate (xs.map fun x => .call (.set x.page x.item true)) = b.markAll xs := by
  induction xs generalizing b with
  | nil => rfl
  | cons x xs ih =>
    obtain ⟨hx, hrest⟩ := List.forall_mem_cons.1 hxs
    have hih := ih (h.put (b.place x.page x.item) true) hrest
    rw [operate] at hih
    rw [operate, List.map_cons, List.foldl_cons, h.next_set hx, hih, markAll_cons]

end Occupancy.Bitmap
