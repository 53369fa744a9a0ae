import Mathlib
import Occupancy.Proofs.Operation
/-!
# Reading back what was written

An image does not name the limits of its bitmap, so it can be read under others. Limits that allow every page give
the bitmap back, with the bounds that they set (`decode_encode`); others refuse the first page that has too many
items for them (`decode_encode_tooMany`). `decode_encode_operate` says so for any bitmap that operations lead to.
-/

namespace Occupancy.Image

variable {b : Bitmap} {t : PageTable} {maxItems : Nat}

/-- The numbers that the words of the image stand for are not too large for words. -/
structure Writable (b : Bitmap) : Prop where
  pageCount_lt : b.table.pageCount < UInt32.size
  capacity_lt : b.capacity < UInt32.size
  /-- The used bits number less than 2³², and no page ends at the word that is kept for unregistered ones. -/
  total_le : b.table.total + 8 ≤ UInt32.size

/-- What the image of a bitmap says. -/
def Fields.ofBitmap (b : Bitmap) : Fields := ⟨b.table.pageCount, b.table.ends.toList, b.bytes.toList⟩

theorem Fields.bitmap_ofBitmap (b : Bitmap) (c : Limits) :
    (ofBitmap b).bitmap c = { b with maxItems := c.maxItems, chunk := c.chunk } := by
  simp [ofBitmap, bitmap]

theorem Fields.usedBytes_ofBitmap (b : Bitmap) : (ofBitmap b).usedBytes = b.usedBytes := by
  simp [ofBitmap, usedBytes, total, Bitmap.usedBytes, PageTable.total]

theorem Fields.bytes_ofBitmap (h : b.table.Ordered) : (ofBitmap b).bytes = b.encode := by
  unfold bytes Bitmap.encode
  rw [tableWords_eq h.registered_le, Bitmap.usedBits, usedBytes_ofBitmap]
  rfl

/-! ## Where the first pages end -/

theorem getLast?_take_ends {page : Nat} (h : page ≤ t.registered) :
    (t.ends.toList.take page).getLast?.getD 0 = t.start page := by
  cases page with
  | zero => rfl
  | succ before =>
    have hlt : before < t.ends.size := h
    simp [List.getLast?_take, PageTable.start, hlt]

theorem getElem_toList_ends {page : Nat} (h : page < t.ends.toList.length) :
    t.ends.toList[page] = t.start (page + 1) := by
  rw [Array.getElem_toList]
  exact PageTable.getElem_ends h

theorem getElem_cons_ends {page : Nat} (h : page < (0 :: t.ends.toList).length) :
    (0 :: t.ends.toList)[page] = t.start page := by
  cases page with
  | zero => rfl
  | succ before => exact getElem_toList_ends (Nat.lt_of_succ_lt_succ h)

/-- As far as no page has too many items, each can come after the one in front of it. -/
theorem isChain_take_ends (ho : t.Ordered) {count : Nat} (hcount : count ≤ t.registered)
    (h : ∀ page < count, ∀ items, t.items? page = some items → items ≤ maxItems) :
    (0 :: t.ends.toList.take count).IsChain (Follows maxItems) := by
  rw [← List.take_succ_cons, List.isChain_iff_getElem]
  intro page hlt
  have hpage : page < count := by
    rw [List.length_take] at hlt
    omega
  have hregistered : page < t.registered := Nat.lt_of_lt_of_le hpage hcount
  rw [List.getElem_take, List.getElem_take, getElem_cons_ends, getElem_cons_ends]
  exact ⟨ho.start_le page hregistered, h page hpage _ (PageTable.items?_eq_some_iff.2 ⟨hregistered, rfl⟩)⟩

theorem Writable.ends_lt (hw : Writable b) (ho : b.table.Ordered) :
    ∀ stop ∈ b.table.ends.toList, stop < unregistered := by
  intro stop hstop
  obtain ⟨page, hlt, rfl⟩ := List.getElem_of_mem hstop
  have hend : b.table.start (page + 1) ≤ b.table.total := by
    rw [b.table.total_eq_start]
    exact ho.start_mono hlt (Nat.le_refl _)
  have htotal := hw.total_le
  rw [getElem_toList_ends hlt]
  unfold unregistered
  omega

/-! ## Limits that allow every page -/

theorem wellFormed_ofBitmap (hv : b.Valid) (hw : Writable b)
    (h : ∀ page items, b.table.items? page = some items → items ≤ maxItems) :
    (Fields.ofBitmap b).WellFormed maxItems where
  pageCount_lt := hw.pageCount_lt
  ends_le := hv.ordered.registered_le
  ends_lt := hw.ends_lt hv.ordered
  chain := by
    have hchain := isChain_take_ends hv.ordered (Nat.le_refl _) fun page _ => h page
    rwa [PageTable.registered, ← Array.length_toList, List.take_length] at hchain
  usedBits_lt := by
    have htotal := hw.total_le
    have hused : 8 * b.usedBytes < b.table.total + 8 := by
      unfold Bitmap.usedBytes Capacity.bytesFor
      omega
    rw [Fields.usedBytes_ofBitmap]
    omega
  body_lt := hw.capacity_lt
  used_le := by
    rw [Fields.usedBytes_ofBitmap]
    exact hv.used_le

theorem decode_encode (hv : b.Valid) (hw : Writable b) {c : Limits}
    (h : ∀ page items, b.table.items? page = some items → items ≤ c.maxItems) :
    Bitmap.decode c b.encode = .ok { b with maxItems := c.maxItems, chunk := c.chunk } := by
  refine decode_eq_ok_iff.2 ⟨Fields.ofBitmap b, wellFormed_ofBitmap hv hw h, ?_, ?_⟩
  · exact (Fields.bytes_ofBitmap hv.ordered).symm
  · exact (Fields.bitmap_ofBitmap b c).symm

/-- Under the limits that it came to be under, a bitmap is read back as it was. -/
theorem decode_encode_own (hv : b.Valid) (hw : Writable b) {limits : Limits} (hmax : b.maxItems = limits.maxItems)
    (hchunk : b.chunk = limits.chunk) : Bitmap.decode limits b.encode = .ok b := by
  have hitems : ∀ page items, b.table.items? page = some items → items ≤ limits.maxItems := by
    rw [← hmax]
    exact hv.items_le
  rw [decode_encode hv hw hitems, ← hmax, ← hchunk]

/-! ## Limits that some page exceeds -/

theorem readPages_add (n m page : Nat) (p : Pages) (c : Cursor) :
    readPages maxItems (n + m) page p c =
      (readPages maxItems n page p c >>= fun (q, d) => readPages maxItems m (page + n) q d) := by
  induction n generalizing page p c with
  | zero =>
    rw [Nat.zero_add]
    rfl
  | succ n ih =>
    rw [Nat.succ_add, readPages, readPages]
    cases c.word with
    | error e => rfl
    | ok wd =>
      obtain ⟨w, d⟩ := wd
      dsimp only
      cases p.push maxItems page w with
      | error fault => rfl
      | ok q =>
        have hpage : page + (n + 1) = page + 1 + n := by omega
        rw [hpage]
        exact ih (page + 1) q d

/-- A page that is refused after those in front of it were read ends the reading. -/
theorem readPages_refused {count page w : Nat} {q : Pages} {c d d' : Cursor} {fault : ImageFault}
    (hlt : page < count) (hread : readPages maxItems page 0 {} c = .ok (q, d)) (hword : d.word = .ok (w, d'))
    (hpush : q.push maxItems page w = .error fault) :
    readPages maxItems count 0 {} c = .error (.malformed fault) := by
  have hcount : count = page + (count - (page + 1) + 1) := by omega
  rw [hcount, readPages_add, hread]
  dsimp only [bind, Except.bind]
  rw [readPages, hword]
  dsimp only
  rw [Nat.zero_add, hpush]

theorem Pages.push_tooMany {p : Pages} (page : Nat) {w : Nat} (hw : w ≠ unregistered) (hopen : p.closed = false)
    (hle : p.total ≤ w) (hmany : maxItems < w - p.total) :
    p.push maxItems page w = .error (.tooManyItems page (w - p.total) maxItems) := by
  unfold push
  rw [if_neg hw, hopen, if_neg Bool.false_ne_true, if_neg (Nat.not_lt.2 hle), if_pos hmany]

/-- An image begins with the number of pages, the words of the pages before `page`, and that of `page`. -/
theorem reads_ends (ho : b.table.Ordered) {page : Nat} (h : page < b.table.registered) :
    ∃ c₁ c₂ c₃, (Cursor.ofBytes b.encode).Reads (Byte.word b.table.pageCount) c₁ ∧
      c₁.Reads ((b.table.ends.toList.take page).flatMap Byte.word) c₂ ∧
      c₂.Reads (Byte.word (b.table.start (page + 1))) c₃ := by
  have hlt : page < b.table.ends.toList.length := h
  have hends : b.table.ends.toList = b.table.ends.toList.take page ++
      b.table.start (page + 1) :: b.table.ends.toList.drop (page + 1) := by
    rw [← getElem_toList_ends hlt, ← List.drop_eq_getElem_cons hlt, List.take_append_drop]
  obtain ⟨rest, hbytes⟩ : ∃ rest, b.encode = (Byte.word b.table.pageCount ++
      (b.table.ends.toList.take page).flatMap Byte.word ++ Byte.word (b.table.start (page + 1))) ++ rest := by
    rw [Bitmap.encode, tableWords_eq ho.registered_le, pageWords]
    nth_rewrite 1 [hends]
    simp only [List.flatMap_append, List.flatMap_cons, List.append_assoc]
    exact ⟨_, rfl⟩
  have hread : (Cursor.ofBytes b.encode).Reads (Byte.word b.table.pageCount ++
      (b.table.ends.toList.take page).flatMap Byte.word ++ Byte.word (b.table.start (page + 1)))
      ⟨rest, _, b.encode.length⟩ := ⟨hbytes, rfl, rfl⟩
  obtain ⟨c₂, hread, r₃⟩ := Cursor.reads_append.1 hread
  obtain ⟨c₁, r₁, r₂⟩ := Cursor.reads_append.1 hread
  exact ⟨c₁, c₂, _, r₁, r₂, r₃⟩

/-- The pages that come before `page` are read, if none of them has too many items. -/
theorem readPages_take_ends (hv : b.Valid) (hw : Writable b) {page : Nat} (h : page ≤ b.table.registered)
    (hfirst : ∀ before < page, ∀ n, b.table.items? before = some n → n ≤ maxItems) {c d : Cursor}
    (hread : c.Reads ((b.table.ends.toList.take page).flatMap Byte.word) d) :
    readPages maxItems page 0 {} c = .ok (⟨(b.table.ends.toList.take page).toArray, false⟩, d) := by
  have hlength : (b.table.ends.toList.take page).length = page := List.length_take_of_le h
  refine (readPages_eq_ok_iff rfl).2 ⟨b.table.ends.toList.take page, Nat.le_of_eq hlength, ?_, ?_, ?_, ?_⟩
  · exact fun stop hstop => hw.ends_lt hv.ordered stop (List.mem_of_mem_take hstop)
  · exact isChain_take_ends hv.ordered h hfirst
  · simp [hlength]
  · rw [pageWords, hlength, Nat.sub_self, List.replicate_zero, List.append_nil]
    exact hread

/-- The first page that has too many items is the one that is refused. -/
theorem decode_encode_tooMany (hv : b.Valid) (hw : Writable b) {c : Limits} {page items : Nat}
    (hi : b.table.items? page = some items) (hmany : c.maxItems < items)
    (hfirst : ∀ before < page, ∀ n, b.table.items? before = some n → n ≤ c.maxItems) :
    Bitmap.decode c b.encode = .error (.malformed (.tooManyItems page items c.maxItems)) := by
  obtain ⟨hpage, rfl⟩ := PageTable.items?_eq_some_iff.1 hi
  have hcount : page < b.table.pageCount := Nat.lt_of_lt_of_le hpage hv.ordered.registered_le
  obtain ⟨c₁, c₂, c₃, r₁, r₂, r₃⟩ := reads_ends hv.ordered hpage
  have hstop : b.table.start (page + 1) < unregistered :=
    hw.ends_lt hv.ordered _ (getElem_toList_ends hpage ▸ List.getElem_mem hpage)
  -- the pages in front of this one end where it starts
  have hbefore := readPages_take_ends hv hw (Nat.le_of_lt hpage) hfirst r₂
  have hstart : (Pages.mk (b.table.ends.toList.take page).toArray false).total = b.table.start page := by
    rw [Pages.total, List.back?_toArray]
    exact getLast?_take_ends (Nat.le_of_lt hpage)
  rw [← hstart] at hmany ⊢
  have hpush := Pages.push_tooMany page (Nat.ne_of_lt hstop) rfl
    (hstart ▸ hv.ordered.start_le page hpage) hmany
  have hword := Cursor.word_eq_ok_iff.2 ⟨Nat.lt_of_lt_of_le hstop (Nat.sub_le ..), r₃⟩
  have hpages := readPages_refused hcount hbefore hword hpush
  have hpageCount := Cursor.word_eq_ok_iff.2 ⟨hw.pageCount_lt, r₁⟩
  exact bind_eq_error.2 (.inr ⟨_, hpageCount, bind_eq_error.2 (.inl hpages)⟩)

/-! ## Whatever operations lead to -/

/-- Limits allow every page, or there is a first one that has too many items for them. -/
theorem allowed_or_first (t : PageTable) (maxItems : Nat) :
    (∀ page items, t.items? page = some items → items ≤ maxItems) ∨
      ∃ page items, t.items? page = some items ∧ maxItems < items ∧
        ∀ before < page, ∀ n, t.items? before = some n → n ≤ maxItems := by
  by_cases h : ∃ page items, t.items? page = some items ∧ maxItems < items
  · obtain ⟨items, hi, hmany⟩ := Nat.find_spec h
    refine .inr ⟨Nat.find h, items, hi, hmany, fun before hlt n hn => ?_⟩
    exact Nat.le_of_not_lt fun hlt' => Nat.find_min h hlt ⟨n, hn, hlt'⟩
  · refine .inl fun page items hi => ?_
    exact Nat.le_of_not_lt fun hlt => h ⟨page, items, hi, hlt⟩

/-- A bitmap that has operations behind it and whose numbers fit into words is read back under just the limits that
allow all its pages: with its layout, its used length and its whole buffer, and with the bounds of these limits, so
that it is the same bitmap under its own. Other limits refuse the first page that has too many items for them. -/
theorem decode_encode_operate {limits : Limits} {b₀ : Bitmap} (h : Bitmap.Origin limits b₀)
    (ops : List Bitmap.Operation) (hcapacity : (b₀.operate ops).capacity < UInt32.size)
    (htotal : (b₀.operate ops).table.total + 8 ≤ UInt32.size) (c : Limits) :
    let b := b₀.operate ops
    ((∃ b', Bitmap.decode c b.encode = .ok b') ↔
      ∀ page items, b.table.items? page = some items → items ≤ c.maxItems) ∧
    (∀ b', Bitmap.decode c b.encode = .ok b' →
      b'.table = b.table ∧ b'.usedBytes = b.usedBytes ∧ b'.bytes = b.bytes ∧
        b'.maxItems = c.maxItems ∧ b'.chunk = max c.chunkBytes 1) ∧
    Bitmap.decode limits b.encode = .ok b ∧
    ∀ e, Bitmap.decode c b.encode = .error e →
      ∃ page items, b.table.items? page = some items ∧ c.maxItems < items ∧
        (∀ before < page, ∀ n, b.table.items? before = some n → n ≤ c.maxItems) ∧
        e = .malformed (.tooManyItems page items c.maxItems) := by
  intro b
  have hedits : Bitmap.Edits b₀ b := Bitmap.edits_operate b₀ ops
  have hv : b.Valid := Bitmap.Edits.valid hedits h.valid
  have hx : Bitmap.Extends b₀ b := Bitmap.Edits.extends hedits
  obtain ⟨hpages, hmax, hchunk⟩ := h.bounds
  have hw : Writable b := ⟨Nat.lt_of_le_of_lt (Nat.le_of_eq hx.pageCount_eq) hpages, hcapacity, htotal⟩
  have hown : Bitmap.decode limits b.encode = .ok b := by
    have hitems : ∀ page items, b.table.items? page = some items → items ≤ limits.maxItems := by
      rw [← hmax, ← hx.maxItems_eq]
      exact hv.items_le
    rw [decode_encode hv hw hitems, ← hmax, ← hchunk, ← hx.maxItems_eq, ← hx.chunk_eq]
  rcases allowed_or_first b.table c.maxItems with hall | ⟨page, items, hi, hmany, hfirst⟩
  · have hok := decode_encode hv hw hall
    rw [hok]
    refine ⟨⟨fun _ => hall, fun _ => ⟨_, rfl⟩⟩, ?_, hown, ?_⟩
    · rintro _ ⟨⟩
      exact ⟨rfl, rfl, rfl, rfl, rfl⟩
    · rintro _ ⟨⟩
  · have herror := decode_encode_tooMany hv hw hi hmany hfirst
    rw [herror]
    refine ⟨⟨?_, fun hall => ?_⟩, ?_, hown, ?_⟩
    · rintro ⟨_, ⟨⟩⟩
    · exact absurd (hall page items hi) (Nat.not_le.2 hmany)
    · rintro _ ⟨⟩
    · rintro _ ⟨⟩
      exact ⟨page, items, hi, hmany, hfirst, rfl⟩

/-- Three pages, of which the second has twelve items and the last is not registered. -/
def sampleTwelve : Bitmap :=
  (Bitmap.blank { maxItems := 64, chunkBytes := 4 } 3).operate
    [.call (.addPage 0 5), .call (.addPage 1 12), .call (.set 1 11 true)]

theorem decode_encode_operate_twelve :
    Bitmap.decode { maxItems := 64, chunkBytes := 4 } sampleTwelve.encode = .ok sampleTwelve ∧
      Bitmap.decode { maxItems := 8, chunkBytes := 0 } sampleTwelve.encode =
        .error (.malformed (.tooManyItems 1 12 8)) := by
  have hcapacity : sampleTwelve.capacity < UInt32.size := by decide +kernel
  have htotal : sampleTwelve.table.total + 8 ≤ UInt32.size := by decide +kernel
  obtain ⟨hiff, -, hown, herror⟩ :=
    decode_encode_operate (.blank (by decide)) _ hcapacity htotal { maxItems := 8, chunkBytes := 0 }
  have hfive : sampleTwelve.table.items? 0 = some 5 := by decide +kernel
  have htwelve : sampleTwelve.table.items? 1 = some 12 := by decide +kernel
  rw [← sampleTwelve] at hiff hown herror
  refine ⟨hown, ?_⟩
  generalize sampleTwelve = b at *
  cases hd : Bitmap.decode { maxItems := 8, chunkBytes := 0 } b.encode with
  | ok b' => exact absurd (hiff.1 ⟨b', hd⟩ 1 12 htwelve) (by decide)
  | error e =>
    obtain ⟨page, items, hi, hmany, hfirst, rfl⟩ := herror e hd
    match page with
    | 0 =>
      rw [hfive] at hi
      cases hi
      exact absurd hmany (by decide)
    | 1 =>
      rw [htwelve] at hi
      cases hi
      rfl
    | page + 2 => exact absurd (hfirst 1 (by omega) 12 htwelve) (by decide)

end Occupancy.Image
