import Occupancy.Proofs.Scan
import Occupancy.Relation
/-!
# A check is exact

`compareIndexes_exact`: the check of a relation that bitmaps can hold goes through, and its report says of the heap and
of every index just what is so.
-/

namespace Occupancy

/-- The report says what there is to say of an index on the heap. -/
structure IndexReport.Exact (heap : List HeapPage) (index : Index) (report : IndexReport) : Prop where
  name_eq : report.name = index.name
  indexPages_eq : report.indexPages = index.pages.length
  entries_eq : (report.entries : ℕ∞) = (targets heap index.pages).encard
  errors_eq : report.errors = strayRefs heap index.pages
  missingFromIndex_before : report.missingFromIndex.Pairwise ItemRef.Before
  mem_missingFromIndex : ∀ x, x ∈ report.missingFromIndex ↔ x ∈ heads heap \ targets heap index.pages
  missingFromHeap_before : report.missingFromHeap.Pairwise ItemRef.Before
  mem_missingFromHeap : ∀ x, x ∈ report.missingFromHeap ↔ x ∈ targets heap index.pages \ heads heap
  differingItems_eq : (report.differingItems : ℕ∞) =
    (heads heap \ targets heap index.pages).encard + (targets heap index.pages \ heads heap).encard

/-- The report says what there is to say of the relation. -/
structure Report.Exact (r : Relation) (report : Report) : Prop where
  heapPages_eq : report.heapPages = r.heap.length
  heapSlots_eq : report.heapSlots = slotTotal r.heap
  heapRows_eq : (report.heapRows : ℕ∞) = (heads r.heap).encard
  heapErrors_eq : report.heapErrors = 0
  /-- One report for each index, in their order. -/
  indexes : List.Forall₂ (IndexReport.Exact r.heap) r.indexes report.indexes

/-! ## One index -/

theorem ItemDiff.mem_on {side : Side} {diffs : List ItemDiff} {x : ItemRef} :
    x ∈ ItemDiff.on side diffs ↔ (⟨x, side⟩ : ItemDiff) ∈ diffs := by
  simp only [ItemDiff.on, List.mem_map, List.mem_filter, decide_eq_true_eq]
  constructor
  · rintro ⟨d, ⟨hd, rfl⟩, rfl⟩
    exact hd
  · exact fun h => ⟨_, ⟨h, rfl⟩, rfl⟩

theorem ItemDiff.pairwise_on {diffs : List ItemDiff}
    (h : diffs.Pairwise fun x y => x.toItemRef.Before y.toItemRef) (side : Side) :
    (ItemDiff.on side diffs).Pairwise ItemRef.Before :=
  List.pairwise_map.2 (h.filter _)

theorem Index.check_report {settings : Settings} {heap : Bitmap} {index : Index} :
    (index.check settings heap).report =
      { name := index.name
        indexPages := index.pages.length
        entries := (Scan.ofIndex heap index.pages).bitmap.count
        errors := (Scan.ofIndex heap index.pages).errors
        differingItems := (heap.compare (Scan.ofIndex heap index.pages).bitmap).1
        missingFromIndex := ItemDiff.on .onlyInLeft (heap.diff (Scan.ofIndex heap index.pages).bitmap)
        missingFromHeap := ItemDiff.on .onlyInRight (heap.diff (Scan.ofIndex heap index.pages).bitmap) } := rfl

theorem compare_of_table_eq {a b : Bitmap} (ht : b.table = a.table) : a.compare b = (a.differingBits b, []) := by
  apply Bitmap.compare_of_eq <;> rw [ht]

theorem Index.check_exact {limits : Limits} {pageCount : Nat} {heap : List HeapPage} {s : Scan}
    (hs : Scan.Filled limits pageCount heap s) (settings : Settings) (index : Index) :
    (index.check settings s.bitmap).report.Exact heap index := by
  obtain ⟨ho, hm⟩ := Scan.ofIndex_spec hs.valid hs.laidOut index.pages
  have hzero := ho.zeroTail (Bitmap.zeroTail_duplicate _)
  have ht : (Scan.ofIndex s.bitmap index.pages).bitmap.table = s.bitmap.table := ho.table_eq
  have hside (x : ItemRef) (side : Side) :
      (⟨x, side⟩ : ItemDiff) ∈ s.bitmap.diff (Scan.ofIndex s.bitmap index.pages).bitmap ↔
        side = .onlyInLeft ∧ x ∈ heads heap \ targets heap index.pages ∨
        side = .onlyInRight ∧ x ∈ targets heap index.pages \ heads heap := by
    rw [Bitmap.mem_diff_of_table_eq ht, Bitmap.sideOf_eq_some_iff, hs.marks_eq, hm]
  rw [Index.check_report, compare_of_table_eq ht]
  refine ⟨rfl, rfl, ?_, ho.errors_eq, ?_, fun x => ?_, ?_, fun x => ?_, ?_⟩
  · rw [← hm]
    exact ho.valid.count_eq_marks hzero
  · exact ItemDiff.pairwise_on (Bitmap.pairwise_diff ..) _
  · rw [ItemDiff.mem_on, hside]
    simp
  · exact ItemDiff.pairwise_on (Bitmap.pairwise_diff ..) _
  · rw [ItemDiff.mem_on, hside]
    simp
  · rw [← hm, ← hs.marks_eq]
    exact hs.valid.differingBits_eq_marks ho.valid hs.zeroTail hzero ht

/-- An index is consistent when its references are good and point at the heads of the heap, and at all of them. -/
theorem IndexReport.Exact.isConsistent_iff {heap : List HeapPage} {index : Index} {report : IndexReport}
    (h : report.Exact heap index) :
    report.isConsistent = true ↔ strayRefs heap index.pages = 0 ∧ targets heap index.pages = heads heap := by
  have hdiffering : report.differingItems = 0 ↔ targets heap index.pages = heads heap := by
    rw [← Nat.cast_inj (R := ℕ∞), h.differingItems_eq, Nat.cast_zero, Bitmap.encard_sdiff_eq_zero_iff, eq_comm]
  rw [IndexReport.isConsistent, Bool.and_eq_true, beq_iff_eq, beq_iff_eq, h.errors_eq, hdiffering]

/-! ## The whole relation -/

namespace Relation

theorem validate_eq_ok_iff {r : Relation} {limits : Limits} :
    r.validate limits = .ok () ↔
      r.heap.length < UInt32.size ∧ ∀ page ∈ r.heap, page.slots.size ≤ limits.maxItems := by
  unfold validate
  split
  · next hlong => simp [Nat.not_lt.2 hlong]
  · next hshort =>
    split
    · next page index hsome =>
      -- a page that was found is too large, and is one of the heap
      have hmem := List.mem_of_getElem? (List.mk_mem_zipIdx_iff_getElem?.1 (List.mem_of_find?_eq_some hsome))
      have hlarge := List.find?_some hsome
      simp only [reduceCtorEq, false_iff]
      rintro ⟨-, h⟩
      exact Nat.not_lt.2 (h page hmem) (of_decide_eq_true hlarge)
    · next hnone =>
      refine iff_of_true rfl ⟨Nat.lt_of_not_le hshort, fun page hpage => ?_⟩
      obtain ⟨i, hi⟩ := List.mem_iff_getElem?.1 hpage
      have hfit := List.find?_eq_none.1 hnone _ (List.mk_mem_zipIdx_iff_getElem?.2 hi)
      exact Nat.not_lt.1 fun hlt => hfit (decide_eq_true hlt)

/-- Page `number` is the first of the heap that has too many slots. -/
structure FirstLarge (r : Relation) (maxItems number : Nat) (page : HeapPage) : Prop where
  getElem?_eq : r.heap[number]? = some page
  large : maxItems < page.slots.size
  before : ∀ earlier < number, ∀ page, r.heap[earlier]? = some page → page.slots.size ≤ maxItems

theorem validate_eq_error_iff {r : Relation} {limits : Limits} {fault : RelationFault}
    (hpages : r.heap.length < UInt32.size) :
    r.validate limits = .error fault ↔
      ∃ number page, r.FirstLarge limits.maxItems number page ∧
        fault = .largePage number page.slots.size limits.maxItems := by
  have hfind (page : HeapPage) (number : Nat) :
      (r.heap.zipIdx.find? fun x => limits.maxItems < x.1.slots.size) = some (page, number) ↔
        r.FirstLarge limits.maxItems number page := by
    rw [List.find?_eq_some_iff_getElem]
    constructor
    · rintro ⟨hlarge, i, hi, hpage, hbefore⟩
      rw [List.getElem_zipIdx, Prod.mk.injEq, Nat.zero_add] at hpage
      obtain ⟨hpage, rfl⟩ := hpage
      refine ⟨List.getElem?_eq_some_iff.2 ⟨_, hpage⟩, of_decide_eq_true hlarge, fun earlier hlt p hp => ?_⟩
      obtain ⟨_, hp⟩ := List.getElem?_eq_some_iff.1 hp
      simpa [hp] using hbefore earlier hlt
    · rintro ⟨hpage, hlarge, hbefore⟩
      obtain ⟨hi, hpage⟩ := List.getElem?_eq_some_iff.1 hpage
      refine ⟨decide_eq_true hlarge, number, by simpa using hi, by simp [hpage], fun earlier hlt => ?_⟩
      simpa using hbefore earlier hlt _ (List.getElem?_eq_getElem (Nat.lt_trans hlt hi))
  unfold validate
  rw [if_neg (Nat.not_le.2 hpages)]
  split
  · next page number hsome =>
    constructor
    · intro hfault
      obtain rfl := Except.error.inj hfault
      exact ⟨number, page, (hfind page number).1 hsome, rfl⟩
    · rintro ⟨number', page', hfirst, rfl⟩
      obtain ⟨rfl, rfl⟩ := Prod.mk.inj (Option.some.inj (hsome.symm.trans ((hfind page' number').2 hfirst)))
      rfl
  · next hnone =>
    simp only [reduceCtorEq, false_iff]
    rintro ⟨number, page, hfirst, -⟩
    exact Option.some_ne_none _ (((hfind page number).2 hfirst).symm.trans hnone)

/-- What a check makes of a scanned heap. -/
def outcome (r : Relation) (settings : Settings) (s : Scan) : Outcome :=
  let indexes := r.indexes.map (·.check settings s.bitmap)
  { report := {
      heapPages := s.bitmap.table.pageCount
      heapSlots := s.bitmap.table.total
      heapRows := s.bitmap.count
      heapErrors := s.errors
      indexes := indexes.map (·.report) }
    heap := s.bitmap
    indexes := indexes.map (·.bitmap)
    events := s.events.toList ++ settings.dumps s.bitmap ++ indexes.flatMap (·.events) }

theorem compareIndexes_eq_map (r : Relation) (settings : Settings) :
    r.compareIndexes settings = (Scan.ofHeap settings.limits r.heap).map (r.outcome settings) := rfl

/-- A relation that bitmaps can hold is checked to the end, once its heap is scanned. -/
theorem check_eq_outcome {r : Relation} {settings : Settings} (hvalid : r.validate settings.limits = .ok ())
    (htotal : slotTotal r.heap < UInt32.size) :
    ∃ s, Scan.ofHeap settings.limits r.heap = .ok s ∧ Scan.Filled settings.limits r.heap.length r.heap s ∧
      r.check settings = .ok (r.outcome settings s) := by
  obtain ⟨-, hitems⟩ := validate_eq_ok_iff.1 hvalid
  obtain ⟨s, hs, hf⟩ := Scan.ofHeap_spec hitems htotal
  refine ⟨s, hs, hf, ?_⟩
  rw [check, hvalid, compareIndexes_eq_map, hs]
  rfl

/-- The outcome of a check comes from a heap that was scanned without an error. -/
theorem outcome_of_check {r : Relation} {settings : Settings} {o : Outcome} (h : r.check settings = .ok o)
    (htotal : slotTotal r.heap < UInt32.size) :
    r.validate settings.limits = .ok () ∧ ∃ s, Scan.ofHeap settings.limits r.heap = .ok s ∧
      Scan.Filled settings.limits r.heap.length r.heap s ∧ o = r.outcome settings s := by
  have hvalid : r.validate settings.limits = .ok () := by
    cases hv : r.validate settings.limits with
    | ok => rfl
    | error fault =>
      rw [check, hv] at h
      cases h
  obtain ⟨s, hs, hf, hcheck⟩ := check_eq_outcome hvalid htotal
  rw [hcheck] at h
  exact ⟨hvalid, s, hs, hf, (Except.ok.inj h).symm⟩

/-- A relation that bitmaps can hold is checked to the end, and the report is exact. -/
theorem compareIndexes_exact (r : Relation) (settings : Settings) (hvalid : r.validate settings.limits = .ok ())
    (htotal : slotTotal r.heap < UInt32.size) :
    ∃ o, r.compareIndexes settings = .ok o ∧ r.check settings = .ok o ∧ o.report.Exact r := by
  obtain ⟨-, hitems⟩ := validate_eq_ok_iff.1 hvalid
  obtain ⟨s, hs, hf⟩ := Scan.ofHeap_spec hitems htotal
  cases hc : r.compareIndexes settings with
  | error e =>
    rw [compareIndexes, hs] at hc
    cases hc
  | ok o =>
    refine ⟨o, rfl, ?_, ?_⟩
    · rw [check, hvalid, hc]
      rfl
    · rw [compareIndexes, hs] at hc
      obtain rfl := Except.ok.inj hc
      refine ⟨hf.pageCount_eq, hf.total_eq, ?_, hf.errors_eq, ?_⟩
      · rw [← hf.marks_eq]
        exact hf.valid.count_eq_marks hf.zeroTail
      · simp only [List.map_map, List.forall₂_map_right_iff]
        exact List.forall₂_same.2 fun index _ => Index.check_exact hf settings index

/-- A chain of two tuples and a free slot, a page without slots, and a page with one dead slot. The index points
twice at the head of the chain and once at what goes on with it, and names slot 0 once. -/
def sample : Relation where
  heap := [⟨#[⟨.normal, .none⟩, ⟨.normal, .heapOnly⟩, ⟨.unused, .none⟩]⟩, ⟨#[]⟩, ⟨#[⟨.dead, .none⟩]⟩]
  indexes := [⟨"by_name", [⟨#[⟨0, 1⟩, ⟨0, 2⟩]⟩, ⟨#[⟨0, 1⟩, ⟨2, 0⟩]⟩]⟩]

theorem compareIndexes_exact_sample :
    sample.validate {} = .ok () ∧ slotTotal sample.heap < UInt32.size ∧
      ∃ o, sample.compareIndexes {} = .ok o ∧ sample.check {} = .ok o ∧ o.report.Exact sample := by
  have hvalid : sample.validate {} = .ok () := by decide
  have htotal : slotTotal sample.heap < UInt32.size := by decide
  exact ⟨hvalid, htotal, compareIndexes_exact sample {} hvalid htotal⟩

end Relation

/-- A relation is consistent when each of its indexes is. -/
theorem Report.Exact.isConsistent_iff {r : Relation} {report : Report} (h : report.Exact r) :
    report.isConsistent = true ↔
      ∀ index ∈ r.indexes, strayRefs r.heap index.pages = 0 ∧ targets r.heap index.pages = heads r.heap := by
  have hall {indexes : List Index} {reports : List IndexReport}
      (hi : List.Forall₂ (IndexReport.Exact r.heap) indexes reports) :
      reports.all (·.isConsistent) = true ↔
        ∀ index ∈ indexes, strayRefs r.heap index.pages = 0 ∧ targets r.heap index.pages = heads r.heap := by
    induction hi with
    | nil => simp
    | cons hreport _ ih => rw [List.all_cons, Bool.and_eq_true, ih, hreport.isConsistent_iff, List.forall_mem_cons]
  rw [Report.isConsistent, Bool.and_eq_true, beq_iff_eq, h.heapErrors_eq, hall h.indexes]
  exact ⟨And.right, fun hi => ⟨rfl, hi⟩⟩

end Occupancy
