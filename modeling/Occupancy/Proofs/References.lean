import Mathlib
import Occupancy.Proofs.Marking
import Occupancy.Scan
/-!
# Following references

A reference of an index page either marks the item that it points at or is reported and counted, and which of the
two it is depends on the page table alone. So what comes of many index pages is one equation (`indexPages_eq`), and
`indexPages_union` reads from it that the marks are those there were and those of the targets, in whatever order and
on whatever pages the references come.
-/

namespace Occupancy

theorem HeapTid.item?_eq (tid : HeapTid) :
    tid.item? = if tid.offset.toNat = 0 then none else some (tid.offset.toNat - 1) := by
  have hzero : tid.offset = 0 ↔ tid.offset.toNat = 0 := UInt16.toNat_inj.symm
  simp only [HeapTid.item?, hzero]

/-! ## Targets and complaints -/

namespace PageTable

variable {t : PageTable}

/-- The item that a reference points at, if a registered page has it. -/
def target? (t : PageTable) (tid : HeapTid) : Option ItemRef :=
  match t.items? tid.block.toNat with
  | none => none
  | some items =>
    if 1 ≤ tid.offset.toNat ∧ tid.offset.toNat ≤ items then some ⟨tid.block.toNat, tid.offset.toNat - 1⟩ else none

/-- What is reported of the reference in a slot of an index page, if anything. Offset 0 is that of no slot, whatever the
page. -/
def complaint? (t : PageTable) (indexPage : Nat) (entry : HeapTid × Nat) : Option Event :=
  let (tid, slot) := entry
  let block := tid.block.toNat
  if tid.offset.toNat = 0 then some (.invalidIndexReference indexPage slot block)
  else if t.pageCount ≤ block then some (.addressRejected .set (.pageOutOfRange block t.pageCount))
  else match t.items? block with
    | none => some (.addressRejected .set (.pageNotRegistered block t.registered))
    | some items =>
      let item := tid.offset.toNat - 1
      if items ≤ item then some (.addressRejected .set (.itemOutOfRange block item items)) else none

/-- What is reported of the references of index pages, page by page and slot by slot. -/
def complaints (t : PageTable) (pages : List (IndexPage × Nat)) : List Event :=
  pages.flatMap fun (page, indexPage) => page.refs.toList.zipIdx.filterMap (t.complaint? indexPage)

/-- The number of references that point at no item. -/
def strays (t : PageTable) (refs : List HeapTid) : Nat := refs.countP fun tid => (t.target? tid).isNone

theorem target?_eq_some_iff {tid : HeapTid} {x : ItemRef} :
    t.target? tid = some x ↔ tid.block.toNat = x.page ∧ tid.offset.toNat = x.item + 1 ∧ t.Has x.page x.item := by
  obtain ⟨page, item⟩ := x
  unfold target? Has
  constructor
  · intro h
    split at h
    · cases h
    · next items hitems =>
      split at h
      · next hin =>
        cases h
        have hoffset : tid.offset.toNat = tid.offset.toNat - 1 + 1 := by omega
        have hlt : tid.offset.toNat - 1 < items := by omega
        exact ⟨rfl, hoffset, items, hitems, hlt⟩
      · cases h
  · rintro ⟨rfl, hoffset, items, hitems, hlt⟩
    dsimp only at hoffset hlt
    have hin : 1 ≤ tid.offset.toNat ∧ tid.offset.toNat ≤ items := by omega
    simp only [hitems, if_pos hin, Option.some.injEq, ItemRef.mk.injEq, true_and]
    omega

theorem target?_eq_none_of_offset {tid : HeapTid} (h : tid.offset.toNat = 0) : t.target? tid = none := by
  refine Option.eq_none_iff_forall_not_mem.2 fun x hx => ?_
  have := (target?_eq_some_iff.1 hx).2.1
  omega

theorem has_of_mem_targets {refs : List HeapTid} {x : ItemRef} (h : x ∈ refs.filterMap t.target?) :
    t.Has x.page x.item := by
  obtain ⟨tid, -, htid⟩ := List.mem_filterMap.1 h
  exact (target?_eq_some_iff.1 htid).2.2

/-- A reference is complained of just when it points at no item. -/
theorem Ordered.isSome_complaint? (h : t.Ordered) (indexPage : Nat) (entry : HeapTid × Nat) :
    (t.complaint? indexPage entry).isSome = (t.target? entry.1).isNone := by
  obtain ⟨tid, slot⟩ := entry
  unfold complaint?
  dsimp only
  split
  · next hzero => rw [target?_eq_none_of_offset hzero]; rfl
  · next hpos =>
    unfold target?
    split
    · next hpage =>
      rw [(items?_eq_none_iff ..).2 (Nat.le_trans h.registered_le hpage)]
      rfl
    · cases hitems : t.items? tid.block.toNat with
      | none => rfl
      | some items =>
        dsimp only
        by_cases hle : items ≤ tid.offset.toNat - 1
        · have hout : ¬ (1 ≤ tid.offset.toNat ∧ tid.offset.toNat ≤ items) := by omega
          rw [if_pos hle, if_neg hout]
          rfl
        · have hin : 1 ≤ tid.offset.toNat ∧ tid.offset.toNat ≤ items := by omega
          rw [if_neg hle, if_pos hin]
          rfl

theorem isWarning_of_complaint? {indexPage : Nat} {entry : HeapTid × Nat} {e : Event}
    (h : t.complaint? indexPage entry = some e) : e.isWarning = true := by
  unfold complaint? at h
  dsimp only at h
  split at h
  · cases h; rfl
  · split at h
    · cases h; rfl
    · split at h
      · cases h; rfl
      · split at h
        · cases h; rfl
        · cases h

theorem isWarning_of_mem_complaints {pages : List (IndexPage × Nat)} {e : Event} (h : e ∈ t.complaints pages) :
    e.isWarning = true := by
  obtain ⟨page, -, he⟩ := List.mem_flatMap.1 h
  obtain ⟨entry, -, hentry⟩ := List.mem_filterMap.1 he
  exact isWarning_of_complaint? hentry

end PageTable

/-- The references of index pages, page by page. -/
def references (pages : List (IndexPage × Nat)) : List HeapTid := pages.flatMap (·.1.refs.toList)

theorem references_cons (page : IndexPage) (index : Nat) (pages : List (IndexPage × Nat)) :
    references ((page, index) :: pages) = page.refs.toList ++ references pages := rfl

theorem PageTable.complaints_cons (t : PageTable) (page : IndexPage) (index : Nat) (pages : List (IndexPage × Nat)) :
    t.complaints ((page, index) :: pages) =
      page.refs.toList.zipIdx.filterMap (t.complaint? index) ++ t.complaints pages := rfl

theorem PageTable.Ordered.length_filterMap_complaint? {t : PageTable} (h : t.Ordered) (indexPage : Nat)
    (refs : List HeapTid) (slot : Nat) :
    ((refs.zipIdx slot).filterMap (t.complaint? indexPage)).length = t.strays refs := by
  have hcomplained (entry : HeapTid × Nat) :
      (t.complaint? indexPage entry).isSome = ((fun tid => (t.target? tid).isNone) ∘ Prod.fst) entry :=
    h.isSome_complaint? indexPage entry
  rw [List.length_filterMap_eq_countP, funext hcomplained, ← List.countP_map, List.zipIdx_map_fst, strays]

/-- There is one complaint for each stray reference. -/
theorem PageTable.Ordered.length_complaints {t : PageTable} (h : t.Ordered) (pages : List (IndexPage × Nat)) :
    (t.complaints pages).length = t.strays (references pages) := by
  rw [complaints, List.length_flatMap, strays, references, List.countP_flatMap]
  refine congrArg List.sum (List.map_congr_left fun page _ => ?_)
  exact h.length_filterMap_complaint? page.2 page.1.refs.toList 0

/-- The items that the references point at are marked as well, and nothing else is different. -/
structure Bitmap.Gains (b : Bitmap) (refs : List HeapTid) (b' : Bitmap) : Prop where
  isMarked_iff : ∀ page item, b'.isMarked page item = true ↔
    b.isMarked page item = true ∨ ∃ tid ∈ refs, b.table.target? tid = some ⟨page, item⟩
  bit_iff : ∀ k, b'.bit k = true ↔
    b.bit k = true ∨ ∃ tid ∈ refs, ∃ x, b.table.target? tid = some x ∧ b.table.start x.page + x.item = k
  table_eq : b'.table = b.table
  maxItems_eq : b'.maxItems = b.maxItems
  chunk_eq : b'.chunk = b.chunk
  capacity_eq : b'.capacity = b.capacity

theorem Bitmap.Valid.gains {b : Bitmap} (h : b.Valid) (refs : List HeapTid) :
    b.Gains refs (b.markAll (refs.filterMap b.table.target?)) := by
  have hitems : ∀ x ∈ refs.filterMap b.table.target?, b.table.Has x.page x.item :=
    fun x => PageTable.has_of_mem_targets
  refine ⟨fun page item => ?_, fun k => ?_, b.table_markAll _, b.maxItems_markAll _, b.chunk_markAll _,
    b.capacity_markAll _⟩
  · have hmarks := Set.ext_iff.1 (h.marks_markAll hitems) ⟨page, item⟩
    rwa [Set.mem_union, Set.mem_ofPred_eq, List.mem_filterMap] at hmarks
  · rw [h.bit_markAll hitems]
    simp only [List.mem_filterMap]
    refine or_congr_right ⟨?_, ?_⟩
    · rintro ⟨x, ⟨tid, hmem, htarget⟩, hoffset⟩
      exact ⟨tid, hmem, x, htarget, hoffset⟩
    · rintro ⟨tid, hmem, x, htarget, hoffset⟩
      exact ⟨x, ⟨tid, hmem, htarget⟩, hoffset⟩

/-! ## One equation for any number of pages -/

namespace Scan

variable {s : Scan}

/-- The scan of index pages, each with its number, one after the other. -/
def indexPages (s : Scan) (pages : List (IndexPage × Nat)) : Scan :=
  pages.foldl (fun s (page, index) => s.indexPage index page) s

/-- The scan with these items marked and these failures counted and reported. -/
def advance (s : Scan) (xs : List ItemRef) (failures : List Event) : Scan where
  bitmap := s.bitmap.markAll xs
  errors := s.errors + failures.length
  events := s.events ++ failures.toArray

@[simp] theorem advance_nil (s : Scan) : s.advance [] [] = s := by
  cases s
  simp [advance, Bitmap.markAll]

theorem advance_append (s : Scan) (xs ys : List ItemRef) (es fs : List Event) :
    s.advance (xs ++ ys) (es ++ fs) = (s.advance xs es).advance ys fs := by
  simp only [advance, Bitmap.markAll_append, List.length_append, Nat.add_assoc, mk.injEq, true_and]
  rw [← List.append_toArray, Array.append_assoc]

theorem advance_mark (s : Scan) (x : ItemRef) :
    s.advance [x] [] = { s with bitmap := s.bitmap.put (s.bitmap.place x.page x.item) true } := by
  simp [advance, Bitmap.markAll]

theorem advance_fail (s : Scan) (e : Event) : s.advance [] [e] = { s with errors := s.errors + 1 }.report e := by
  simp [advance, Bitmap.markAll, report]

@[simp] theorem table_advance (s : Scan) (xs : List ItemRef) (es : List Event) :
    (s.advance xs es).bitmap.table = s.bitmap.table :=
  s.bitmap.table_markAll xs

theorem valid_advance (hv : s.bitmap.Valid) (xs : List ItemRef) (es : List Event) : (s.advance xs es).bitmap.Valid :=
  hv.markAll xs

/-- A reference either marks its target or is complained of. -/
theorem follow_eq (hv : s.bitmap.Valid) (indexPage : Nat) (entry : HeapTid × Nat) :
    follow indexPage s entry =
      s.advance (s.bitmap.table.target? entry.1).toList (s.bitmap.table.complaint? indexPage entry).toList := by
  obtain ⟨tid, slot⟩ := entry
  unfold follow PageTable.complaint?
  dsimp only
  rw [HeapTid.item?_eq]
  by_cases hzero : tid.offset.toNat = 0
  · rw [if_pos hzero, if_pos hzero, PageTable.target?_eq_none_of_offset hzero]
    exact (s.advance_fail _).symm
  · rw [if_neg hzero, if_neg hzero]
    unfold PageTable.target? Scan.write Bitmap.write
    dsimp only
    rcases hv.locate_cases tid.block.toNat (tid.offset.toNat - 1) with
      ⟨hpage, hreg, hl⟩ | ⟨hpage, hreg, hl⟩ | ⟨items, hpage, -, hitems, ⟨hle, hl⟩ | ⟨hlt, hl⟩⟩
    · rw [hl, if_pos hpage, (PageTable.items?_eq_none_iff ..).2 hreg]
      exact (s.advance_fail _).symm
    · rw [hl, if_neg (Nat.not_le.2 hpage), (PageTable.items?_eq_none_iff ..).2 hreg]
      exact (s.advance_fail _).symm
    · have hout : ¬ (1 ≤ tid.offset.toNat ∧ tid.offset.toNat ≤ items) := by omega
      simp only [hl, if_neg (Nat.not_le.2 hpage), hitems, if_pos hle, if_neg hout]
      exact (s.advance_fail _).symm
    · have hin : 1 ≤ tid.offset.toNat ∧ tid.offset.toNat ≤ items := by omega
      simp only [hl, if_neg (Nat.not_le.2 hpage), hitems, if_neg (Nat.not_le.2 hlt), if_pos hin]
      exact (s.advance_mark ⟨tid.block.toNat, tid.offset.toNat - 1⟩).symm

theorem foldl_follow_eq (hv : s.bitmap.Valid) (indexPage : Nat) (entries : List (HeapTid × Nat)) :
    entries.foldl (follow indexPage) s =
      s.advance (entries.filterMap fun entry => s.bitmap.table.target? entry.1)
        (entries.filterMap (s.bitmap.table.complaint? indexPage)) := by
  induction entries generalizing s with
  | nil => exact s.advance_nil.symm
  | cons entry entries ih =>
    have hcons {α β : Type} (f : α → Option β) (x : α) (xs : List α) :
        (x :: xs).filterMap f = (f x).toList ++ xs.filterMap f := by
      rw [List.filterMap_cons]
      cases f x <;> rfl
    rw [List.foldl_cons, follow_eq hv, ih (valid_advance hv _ _), table_advance, hcons, hcons, advance_append]

theorem indexPage_eq (hv : s.bitmap.Valid) (index : Nat) (page : IndexPage) :
    s.indexPage index page =
      s.advance (page.refs.toList.filterMap s.bitmap.table.target?)
        (page.refs.toList.zipIdx.filterMap (s.bitmap.table.complaint? index)) := by
  have hrefs : page.refs.toList.zipIdx.filterMap (fun entry => s.bitmap.table.target? entry.1) =
      page.refs.toList.filterMap s.bitmap.table.target? := by
    conv_rhs => rw [← List.zipIdx_map_fst 0 page.refs.toList, List.filterMap_map]
    rfl
  rw [indexPage, foldl_follow_eq hv, hrefs]

/-- What comes of index pages. -/
theorem indexPages_eq (hv : s.bitmap.Valid) (pages : List (IndexPage × Nat)) :
    s.indexPages pages =
      s.advance ((references pages).filterMap s.bitmap.table.target?) (s.bitmap.table.complaints pages) := by
  induction pages generalizing s with
  | nil => exact s.advance_nil.symm
  | cons entry pages ih =>
    obtain ⟨page, index⟩ := entry
    have hnext := ih (valid_advance hv (page.refs.toList.filterMap s.bitmap.table.target?)
      (page.refs.toList.zipIdx.filterMap (s.bitmap.table.complaint? index)))
    rw [table_advance, ← advance_append] at hnext
    have hcons : s.indexPages ((page, index) :: pages) = (s.indexPage index page).indexPages pages := rfl
    rw [hcons, indexPage_eq hv, hnext, references_cons, List.filterMap_append, PageTable.complaints_cons]

/-! ## Index pages add to the marks -/

theorem bitmap_indexPages (hv : s.bitmap.Valid) (pages : List (IndexPage × Nat)) :
    (s.indexPages pages).bitmap = s.bitmap.markAll ((references pages).filterMap s.bitmap.table.target?) :=
  congrArg Scan.bitmap (indexPages_eq hv pages)

theorem errors_indexPages (hv : s.bitmap.Valid) (pages : List (IndexPage × Nat)) :
    (s.indexPages pages).errors = s.errors + s.bitmap.table.strays (references pages) := by
  rw [indexPages_eq hv, advance, hv.ordered.length_complaints]

theorem events_indexPages (hv : s.bitmap.Valid) (pages : List (IndexPage × Nat)) :
    (s.indexPages pages).events = s.events ++ (s.bitmap.table.complaints pages).toArray :=
  congrArg Scan.events (indexPages_eq hv pages)

theorem gains_indexPages (hv : s.bitmap.Valid) (pages : List (IndexPage × Nat)) :
    s.bitmap.Gains (references pages) (s.indexPages pages).bitmap := by
  rw [bitmap_indexPages hv]
  exact hv.gains (references pages)

/-- References that point at no item leave no trace in the bitmap; of the others it keeps which there are. -/
theorem bitmap_indexPages_congr (hv : s.bitmap.Valid) {pages pages' : List (IndexPage × Nat)}
    (h : ∀ tid, (s.bitmap.table.target? tid).isSome → (tid ∈ references pages ↔ tid ∈ references pages')) :
    (s.indexPages pages).bitmap = (s.indexPages pages').bitmap := by
  rw [bitmap_indexPages hv, bitmap_indexPages hv]
  refine hv.markAll_congr (fun x => PageTable.has_of_mem_targets) fun x => ?_
  simp only [List.mem_filterMap]
  refine exists_congr fun tid => and_congr_left fun htarget => h tid ?_
  rw [htarget, Option.isSome_some]

/-- An index adds to the marks of a bitmap, whatever they are, the items that its references point at, and changes no
other bit; the references that are left are counted, each of them is one warning, and the warnings come page by page
and slot by slot. References that point at the same items make the same bitmap, and references in another order or on
other pages make as many errors too. -/
theorem indexPages_union {limits : Limits} {b₀ : Bitmap} (h₀ : Bitmap.Origin limits b₀) (ops : List Bitmap.Operation)
    (errors : Nat) (events : Array Event) (pages : List (IndexPage × Nat)) :
    let b := b₀.operate ops
    let s := (Scan.mk b errors events).indexPages pages
    b.Gains (references pages) s.bitmap ∧
    s.errors = errors + b.table.strays (references pages) ∧
    s.events = events ++ (b.table.complaints pages).toArray ∧
    (b.table.complaints pages).length = b.table.strays (references pages) ∧
    (∀ e ∈ b.table.complaints pages, e.isWarning = true) ∧
    (∀ index entry, (b.table.complaint? index entry).isSome = (b.table.target? entry.1).isNone) ∧
    ∀ pages',
      let s' := (Scan.mk b errors events).indexPages pages'
      ((∀ tid, (b.table.target? tid).isSome → (tid ∈ references pages ↔ tid ∈ references pages')) →
        s'.bitmap = s.bitmap) ∧
      ((references pages).Perm (references pages') → s'.bitmap = s.bitmap ∧ s'.errors = s.errors) := by
  intro b s
  have hv : (Scan.mk b errors events).bitmap.Valid := Bitmap.Edits.valid (Bitmap.edits_operate b₀ ops) h₀.valid
  refine ⟨gains_indexPages hv pages, errors_indexPages hv pages, events_indexPages hv pages,
    hv.ordered.length_complaints pages, fun e => PageTable.isWarning_of_mem_complaints, hv.ordered.isSome_complaint?,
    fun pages' => ⟨fun hsame => ?_, fun hperm => ⟨?_, ?_⟩⟩⟩
  · exact (bitmap_indexPages_congr hv hsame).symm
  · exact (bitmap_indexPages_congr hv fun tid _ => hperm.mem_iff).symm
  · rw [errors_indexPages hv, errors_indexPages hv, PageTable.strays, PageTable.strays, hperm.countP_eq]

/-- Two pages of references. Slots 0, 1 and 2 of the first are good, of slot 0, and of a page that is not registered;
those of the second are of an item and a page that there are not, and the good one again. -/
def sampleStraying : List (IndexPage × Nat) := [(⟨#[⟨0, 2⟩, ⟨0, 0⟩, ⟨1, 1⟩]⟩, 0), (⟨#[⟨0, 4⟩, ⟨7, 1⟩, ⟨0, 2⟩]⟩, 1)]

/-- The references of `sampleStraying`, in another order and on other pages. -/
def sampleStrayingAgain : List (IndexPage × Nat) := [(⟨#[⟨7, 1⟩]⟩, 0), (⟨#[⟨0, 2⟩, ⟨0, 2⟩, ⟨1, 1⟩, ⟨0, 4⟩, ⟨0, 0⟩]⟩, 8)]

theorem indexPages_union_straying :
    let b := Image.strayBitmap.operate [.call (.set 0 0 true)]
    let s := (Scan.mk b 0 #[]).indexPages sampleStraying
    s.bitmap.isMarked 0 1 = true ∧ s.errors = 4 ∧
    s.events = #[.invalidIndexReference 0 1 0, .addressRejected .set (.pageNotRegistered 1 1),
      .addressRejected .set (.itemOutOfRange 0 3 3), .addressRejected .set (.pageOutOfRange 7 2)] ∧
    ((Scan.mk b 0 #[]).indexPages [(⟨#[⟨0, 2⟩]⟩, 0)]).bitmap = s.bitmap ∧
    ((Scan.mk b 0 #[]).indexPages sampleStrayingAgain).bitmap = s.bitmap ∧
    ((Scan.mk b 0 #[]).indexPages sampleStrayingAgain).errors = s.errors := by
  intro b s
  obtain ⟨hgains, herrors, hevents, -, -, -, hsame⟩ :=
    indexPages_union (.decoded Image.decode_strayImage) [.call (.set 0 0 true)] 0 #[] sampleStraying
  have htarget : b.table.target? ⟨0, 2⟩ = some ⟨0, 1⟩ := by decide +kernel
  have hstrays : b.table.strays (references sampleStraying) = 4 := by decide +kernel
  have hcomplaints : b.table.complaints sampleStraying =
      [.invalidIndexReference 0 1 0, .addressRejected .set (.pageNotRegistered 1 1),
        .addressRejected .set (.itemOutOfRange 0 3 3), .addressRejected .set (.pageOutOfRange 7 2)] := by
    decide +kernel
  have hone : ∀ tid ∈ references sampleStraying, (b.table.target? tid).isSome → tid = ⟨0, 2⟩ := by decide +kernel
  have hgood : ∀ tid, (b.table.target? tid).isSome →
      (tid ∈ references sampleStraying ↔ tid ∈ references [(⟨#[⟨0, 2⟩]⟩, 0)]) := by
    intro tid htid
    constructor
    · intro hmem
      rw [hone tid hmem htid]
      exact List.mem_singleton_self _
    · intro hmem
      rw [List.mem_singleton.1 hmem]
      exact List.mem_cons_self
  have hperm : (references sampleStraying).Perm (references sampleStrayingAgain) := by decide +kernel
  rw [hstrays, Nat.zero_add] at herrors
  rw [hcomplaints, Array.empty_append] at hevents
  have hmark : s.bitmap.isMarked 0 1 = true :=
    (hgains.isMarked_iff 0 1).2 (.inr ⟨⟨0, 2⟩, List.mem_cons_self, htarget⟩)
  exact ⟨hmark, herrors, hevents, (hsame [(⟨#[⟨0, 2⟩]⟩, 0)]).1 hgood, (hsame sampleStrayingAgain).2 hperm⟩

end Scan

end Occupancy
