import Mathlib
import Occupancy.Proofs.Canonical
/-!
# What decides the capacity

A bitmap grows now and then, by more or by less, as its pages come. In the end it holds what its page count, its
chunk and the number of its items call for and nothing tells how they came (`operate_capacity`); so a new bitmap that
is given the same pages is what the old one is without its marks (`Tidy.addPages_counts`). A decoded bitmap may begin
at any capacity: from there growth leads to the least that is enough, however many steps it takes
(`grown_path_independent`). In words of 64 bits nothing wraps around on the way as long as the result is a word, which
`operate_blank_capacity_lt` says of bitmaps that began as new ones and `operate_decoded_capacity_lt` of the others.
-/

namespace Occupancy

theorem Capacity.bytesFor_eq (bits : Nat) : bytesFor bits = bits ⌈/⌉ 8 := rfl

theorem Capacity.chunks_eq {chunk : Nat} (h : 0 < chunk) (bytes : Nat) : chunks bytes chunk = bytes ⌈/⌉ chunk := by
  rw [chunks, Nat.ceilDiv_eq_add_pred_div, Nat.add_sub_assoc h]

/-! ## Tables made page by page -/

namespace PageTable

variable {t : PageTable}

/-- The table with one more page for each of these numbers of items. -/
def pushAll (t : PageTable) (ns : List Nat) : PageTable := ns.foldl push t

theorem pushAll_cons (t : PageTable) (n : Nat) (ns : List Nat) : t.pushAll (n :: ns) = (t.push n).pushAll ns := rfl

theorem pageCount_pushAll (t : PageTable) (ns : List Nat) : (t.pushAll ns).pageCount = t.pageCount := by
  induction ns generalizing t with
  | nil => rfl
  | cons n ns ih => exact ih (t.push n)

theorem total_pushAll (t : PageTable) (ns : List Nat) : (t.pushAll ns).total = t.total + ns.sum := by
  induction ns generalizing t with
  | nil => rfl
  | cons n ns ih => rw [pushAll_cons, ih, total_push, List.sum_cons, Nat.add_assoc]

theorem items?_pushAll (t : PageTable) (ns : List Nat) (page : Nat) :
    (t.pushAll ns).items? page = if page < t.registered then t.items? page else ns[page - t.registered]? := by
  induction ns generalizing t with
  | nil =>
    split
    · rfl
    · next hge => exact (items?_eq_none_iff t page).2 (Nat.le_of_not_lt hge)
  | cons n ns ih =>
    rw [pushAll_cons, ih, registered_push, items?_push]
    rcases Nat.lt_trichotomy page t.registered with hlt | rfl | hgt
    · rw [if_pos (Nat.lt_succ_of_lt hlt), if_neg (Nat.ne_of_lt hlt), if_pos hlt]
    · rw [if_pos (Nat.lt_succ_self _), if_pos rfl, if_neg (Nat.lt_irrefl _), Nat.sub_self]
      rfl
    · have hsucc : page - t.registered = page - (t.registered + 1) + 1 := by omega
      rw [if_neg (by omega), if_neg (by omega), hsucc]
      rfl

theorem Ordered.pushAll (h : t.Ordered) {ns : List Nat} (hle : t.registered + ns.length ≤ t.pageCount) :
    (t.pushAll ns).Ordered := by
  induction ns generalizing t with
  | nil => exact h
  | cons n ns ih =>
    rw [List.length_cons] at hle
    have hnext : (t.push n).registered + ns.length ≤ (t.push n).pageCount := by
      rw [registered_push]
      exact Nat.le_trans (Nat.le_of_eq (by omega)) hle
    exact ih (h.push n (by omega)) hnext

/-- The numbers of items of the registered pages. -/
def counts (t : PageTable) : List Nat := (List.range t.registered).map fun page => (t.items? page).getD 0

theorem length_counts (t : PageTable) : t.counts.length = t.registered := by
  rw [counts, List.length_map, List.length_range]

theorem getElem?_counts (t : PageTable) (page : Nat) : t.counts[page]? = t.items? page := by
  rcases Nat.lt_or_ge page t.registered with hlt | hge
  · rw [counts, List.getElem?_map, List.getElem?_range hlt, Option.map_some, items?_eq_some_iff.2 ⟨hlt, rfl⟩,
      Option.getD_some]
  · rw [(items?_eq_none_iff t page).2 hge, List.getElem?_eq_none (by rwa [length_counts])]

/-- A table is the one that its counts make. -/
theorem Ordered.pushAll_counts (h : t.Ordered) : ({ pageCount := t.pageCount } : PageTable).pushAll t.counts = t := by
  have hle := h.registered_le
  rw [← length_counts, ← Nat.zero_add t.counts.length] at hle
  have hordered := (ordered_empty t.pageCount).pushAll hle
  refine hordered.eq_of_items? h (pageCount_pushAll ..) fun page => ?_
  rw [items?_pushAll, ← getElem?_counts t]
  exact if_neg (Nat.not_lt_zero page)

theorem Ordered.sum_counts (h : t.Ordered) : t.counts.sum = t.total := by
  have hsum := total_pushAll { pageCount := t.pageCount } t.counts
  rw [h.pushAll_counts] at hsum
  exact (hsum.trans (Nat.zero_add _)).symm

end PageTable

namespace Bitmap

variable {b : Bitmap} {ns : List Nat}

/-! ## The same pages again -/

/-- There is room for pages with these numbers of items. -/
structure Fits (b : Bitmap) (ns : List Nat) : Prop where
  pages_le : b.table.registered + ns.length ≤ b.table.pageCount
  items_le : ∀ n ∈ ns, n ≤ b.maxItems
  total_lt : b.table.total + ns.sum < UInt32.size

variable {n : Nat}

theorem Fits.refusal?_eq (h : b.Fits (n :: ns)) : b.refusal? b.table.registered n = none := by
  have hpages := h.pages_le
  have htotal := h.total_lt
  rw [List.length_cons] at hpages
  rw [List.sum_cons] at htotal
  exact (b.refusal?_eq_none_iff _ n).2 ⟨by omega, h.items_le n List.mem_cons_self, rfl, by omega⟩

theorem Fits.register (h : b.Fits (n :: ns)) : (b.register n).Fits ns where
  pages_le := by
    rw [table_register, PageTable.registered_push, Nat.add_assoc, Nat.add_comm 1]
    exact h.pages_le
  items_le := (List.forall_mem_cons.1 h.items_le).2
  total_lt := by
    rw [table_register, PageTable.total_push, Nat.add_assoc, ← List.sum_cons]
    exact h.total_lt

/-- Pages that fit are registered one after the other, and nothing else is done. -/
theorem Fits.addPages_eq (h : b.Fits ns) :
    ∃ b', b.addPages ns = (b', none) ∧ Edits b b' ∧ b'.table = b.table.pushAll ns ∧ ∀ k, b'.bit k = b.bit k := by
  induction ns generalizing b with
  | nil => exact ⟨b, rfl, .refl, rfl, fun _ => rfl⟩
  | cons n ns ih =>
    obtain ⟨b', hadd, hedits, htable, hbit⟩ := ih h.register
    refine ⟨b', ?_, .head (.register n h.refusal?_eq) hedits, htable, fun k => ?_⟩
    · rw [addPages, h.refusal?_eq]
      exact hadd
    · rw [hbit, bit_register]

variable {limits : Limits} {pageCount : Nat}

theorem Valid.fits_counts (h : b.Valid) (hx : Extends (blank limits pageCount) b) :
    (blank limits pageCount).Fits b.table.counts where
  pages_le := by
    rw [PageTable.length_counts, ← hx.pageCount_eq]
    exact (Nat.zero_add _).trans_le h.ordered.registered_le
  items_le n hn := by
    obtain ⟨page, hpage⟩ := List.getElem?_of_mem hn
    rw [PageTable.getElem?_counts] at hpage
    rw [← hx.maxItems_eq]
    exact h.items_le page n hpage
  total_lt := by
    rw [h.ordered.sum_counts]
    exact (Nat.zero_add _).trans_lt h.total_lt

/-- A new bitmap that is given the pages of an old one is a cleared copy of it. -/
theorem Tidy.addPages_counts (h : b.Tidy) (hx : Extends (blank limits pageCount) b) :
    (blank limits pageCount).addPages b.table.counts = (b.duplicate, none) := by
  obtain ⟨b', hadd, hedits, htable, hbit⟩ := (h.valid.fits_counts hx).addPages_eq
  have hempty : (blank limits pageCount).table = { pageCount := b.table.pageCount } :=
    congrArg (fun n => ({ pageCount := n } : PageTable)) hx.pageCount_eq.symm
  rw [hempty, h.valid.ordered.pushAll_counts] at htable
  have hclear : Edit b b.duplicate := .clear b
  have hsame : b' = b.duplicate := by
    refine (hedits.tidy (tidy_blank limits pageCount)).eq_of_marks (hclear.tidy h) hedits.extends
      (hx.trans hclear.extends) (fun page => congrArg (·.items? page) htable) fun page item _ => ?_
    rw [isMarked_duplicate, isMarked_of_bits fun k => (hbit k).trans (bit_blank ..)]
  rw [hadd, hsame]

/-! ## After any run -/

/-- The capacity after a run on a new bitmap is told by the number of pages, the chunk and the number of items. It is a
whole number of chunks, never becomes less, has less than one chunk to spare once it has grown, and does not grow while
there are no more items than pages. A reset bitmap, a duplicate and a new one with the same pages are the same. -/
theorem operate_capacity (limits : Limits) (pageCount : Nat) (ops more : List Operation) :
    let c := max limits.chunkBytes 1
    let b := (blank limits pageCount).operate ops
    b.capacity = max (Capacity.initial pageCount c) (c * ((b.table.total ⌈/⌉ 8) ⌈/⌉ c)) ∧
    0 < b.capacity ∧ c ∣ b.capacity ∧
    b.capacity ≤ (b.operate more).capacity ∧
    (Capacity.initial pageCount c < b.capacity → b.capacity < b.table.total ⌈/⌉ 8 + c) ∧
    (b.table.total ≤ pageCount → b.capacity = Capacity.initial pageCount c) ∧
    b.reset = b.duplicate ∧
    (blank limits pageCount).addPages b.table.counts = (b.duplicate, none) := by
  intro c b
  have hedits : Edits (blank limits pageCount) b := edits_operate _ ops
  have hx := hedits.extends
  have htidy : b.Tidy := hedits.tidy (tidy_blank limits pageCount)
  have hpos : 0 < c := limits.chunk_pos
  have hheld : b.capacity = Capacity.held pageCount (Capacity.bytesFor b.table.total) c := by
    rw [htidy.capacity_eq, hx.pageCount_eq, hx.chunk_eq]
    rfl
  refine ⟨?_, ?_, ?_, (edits_operate b more).extends.capacity_le, fun hgrown => ?_, fun hle => ?_,
    b.reset_eq_duplicate, htidy.addPages_counts hx⟩
  · rw [hheld, Capacity.held, Capacity.chunks_eq hpos, Capacity.bytesFor_eq]
  · rw [hheld]
    exact Capacity.held_pos hpos ..
  · rw [hheld]
    exact Capacity.dvd_held ..
  · rw [hheld] at hgrown ⊢
    exact Capacity.held_lt hpos hgrown
  · rw [hheld]
    exact Capacity.held_of_le hpos hle

/-- Pages of five, twelve and twenty items, the second of them marked in part and cleared again. -/
def unevenPages : List Operation :=
  [.call (.addPage 0 5), .call (.addPage 1 12), .call (.set 1 3 true), .call .reset, .call (.addPage 2 20)]

theorem operate_capacity_unevenPages :
    let limits : Limits := { maxItems := 40, chunkBytes := 2 }
    (((blank limits 3).operate unevenPages).capacity = 6 ∧
      ((blank limits 3).operate unevenPages).capacity < ((blank limits 3).operate unevenPages).table.total ⌈/⌉ 8 + 2) ∧
    ((blank limits 9).operate [.call (.addPage 0 5)]).capacity = Capacity.initial 9 2 := by
  intro limits
  obtain ⟨hcapacity, -, -, -, hspare, -⟩ := operate_capacity limits 3 unevenPages []
  obtain ⟨-, -, -, -, -, hsmall, -⟩ := operate_capacity limits 9 [.call (.addPage 0 5)] []
  exact ⟨⟨hcapacity.trans (by decide +kernel), hspare (by decide +kernel)⟩, hsmall (by decide +kernel)⟩

/-! ## From any capacity -/

theorem Edit.capacity_eq {b b' : Bitmap} (h : Edit b b') (hv : b.Valid) :
    b'.capacity = Capacity.grown b.capacity b'.usedBytes b.chunk := by
  cases h with
  | register items => exact capacity_register b items
  | put _ on => exact (b.capacity_put _ on).trans (Capacity.grown_of_le hv.used_le _).symm
  | clear => exact b.capacity_duplicate.trans (Capacity.grown_of_le hv.used_le _).symm

/-- Whatever was registered on the way, the buffer is as if it had grown once. -/
theorem Edits.capacity_eq {b b' : Bitmap} (h : Edits b b') (hv : b.Valid) :
    b'.capacity = Capacity.grown b.capacity b'.usedBytes b.chunk := by
  induction h with
  | refl => exact (Capacity.grown_of_le hv.used_le _).symm
  | tail hedits he ih =>
    rw [he.capacity_eq (Edits.valid hedits hv), ih, (Edits.extends hedits).chunk_eq, Capacity.grown_grown hv.chunk_pos,
      Nat.max_eq_right he.extends.used_le]

/-! ## Capacities are words -/

theorem Valid.usedBytes_le (h : b.Valid) : b.usedBytes ≤ 2 ^ 29 := by
  have htotal := h.total_lt
  rw [UInt32.size] at htotal
  rw [usedBytes, Capacity.bytesFor_le]
  omega

/-- A bitmap that began as a new one holds fewer than 2⁶⁴ bytes, as its chunk does. -/
theorem operate_blank_capacity_lt (hchunk : limits.chunkBytes < UInt64.size) (hcount : pageCount < UInt32.size)
    (ops : List Operation) :
    ((blank limits pageCount).operate ops).capacity < UInt64.size := by
  have hedits := edits_operate (blank limits pageCount) ops
  have htidy := Edits.tidy hedits (tidy_blank limits pageCount)
  have hpages := (Edits.extends hedits).pageCount_eq.trans_lt hcount
  have hword : ((blank limits pageCount).operate ops).chunk < UInt64.size :=
    (Edits.extends hedits).chunk_eq.trans_lt (Nat.max_lt.2 ⟨hchunk, by decide⟩)
  have hused : ((blank limits pageCount).operate ops).usedBytes < UInt32.size :=
    htidy.valid.usedBytes_le.trans_lt (by decide)
  rw [htidy.capacity_eq]
  exact Capacity.held_lt_size htidy.valid.chunk_pos hword hpages hused

/-- A decoded one does so if its chunk leaves room for all the bytes that can be in use. -/
theorem operate_decoded_capacity_lt {bytes : List UInt8} (h : decode limits bytes = .ok b)
    (hchunk : limits.chunk + 2 ^ 29 ≤ UInt64.size) (ops : List Operation) : (b.operate ops).capacity < UInt64.size := by
  have hedits := edits_operate b ops
  have hb : b.Origin limits := .decoded h
  have hused := (Edits.valid hedits hb.valid).usedBytes_le
  have hgrown := Capacity.grown_le b.capacity (b.operate ops).usedBytes limits.chunk
  have hcapacity : b.capacity < UInt32.size := by
    obtain ⟨f, hf, -, rfl⟩ := Image.decode_eq_ok_iff.1 h
    exact hf.body_lt
  rw [Edits.capacity_eq hedits hb.valid, hb.bounds.2.2]
  rw [UInt32.size] at hcapacity
  rw [UInt64.size] at hchunk ⊢
  omega

end Bitmap

/-- Growth leads to the least capacity that is enough, of those that lie whole chunks beyond the current one. So it
comes to the same whether the bytes are called for at once or in turn, in any order; and a bitmap that is new or decoded
holds after any run what one growth to the bytes in use would have led to. In words of 64 bits the result is the same as
long as it is a word. -/
theorem Capacity.grown_path_independent {chunk : Nat} (h : 0 < chunk) (current : Nat) :
    (∀ required, IsLeast {c | required ≤ c ∧ ∃ k, c = current + k * chunk} (grown current required chunk)) ∧
    (∀ r₁ r₂, grown (grown current r₁ chunk) r₂ chunk = grown current (max r₁ r₂) chunk) ∧
    (∀ rs, grownAll current rs chunk = grown current (rs.foldl max 0) chunk) ∧
    (∀ rs rs', rs.Perm rs' → grownAll current rs chunk = grownAll current rs' chunk) ∧
    (∀ (limits : Limits) (b : Bitmap), b.Origin limits → ∀ ops,
      (b.operate ops).capacity = grown b.capacity (b.operate ops).usedBytes b.chunk) ∧
    ∀ c r n : UInt64, 0 < n → grown c.toNat r.toNat n.toNat < UInt64.size →
      (grownWord c r n).toNat = grown c.toNat r.toNat n.toNat := by
  refine ⟨fun required => ⟨⟨required_le_grown current required h, exists_grown_eq current required chunk⟩, ?_⟩,
    grown_grown h current, grownAll_eq h current, fun rs rs' hperm => ?_, fun limits b hb ops => ?_, fun c r n hn => ?_⟩
  · rintro c ⟨henough, k, rfl⟩
    exact grown_least current required k h henough
  · rw [grownAll_eq h, grownAll_eq h, hperm.foldl_eq]
  · exact Bitmap.Edits.capacity_eq (Bitmap.edits_operate b ops) hb.valid
  · exact toNat_grownWord (UInt64.lt_iff_toNat_lt.1 hn)

/-- An image of three bytes for two pages, the first of them with twenty items. -/
def threeBytes : List UInt8 := [2, 20, Image.unregistered, 24, 3].flatMap Byte.word ++ [0x01, 0x00, 0x08]

/-- A buffer of three bytes grows by chunks of two. -/
theorem Capacity.grown_path_independent_threeBytes :
    IsLeast {c | 8 ≤ c ∧ ∃ k, c = 3 + k * 2} 9 ∧ grownAll 3 [4, 1, 8, 6] 2 = grownAll 3 [8, 6, 4, 1] 2 ∧
      ∃ b, Bitmap.decode { maxItems := 40, chunkBytes := 2 } threeBytes = .ok b ∧
        (b.operate [.call (.addPage 1 40)]).capacity = grown 3 8 2 := by
  obtain ⟨hleast, -, -, hperm, hbitmap, -⟩ := Capacity.grown_path_independent (by decide : 0 < 2) 3
  have hdecode : Bitmap.decode { maxItems := 40, chunkBytes := 2 } threeBytes =
      .ok ⟨⟨2, #[20]⟩, 40, 2, #[0x01, 0x00, 0x08]⟩ := by decide +kernel
  refine ⟨hleast 8, hperm _ _ (by decide), _, hdecode, ?_⟩
  exact hbitmap _ _ (.decoded hdecode) [.call (.addPage 1 40)]

end Occupancy
