import Mathlib
import Occupancy.Proofs.Command
import Occupancy.Proofs.Image.Reload
import Occupancy.Proofs.Json
/-!
# Bitmaps that a run saves

The files of a run that saves its bitmaps have different names whatever the indexes are called, since the position of
an index can be read off the name of its file. `record_saves` says that these files, read back, hold just what the
report was made from.
-/

namespace Occupancy.Command

/-! ## Names of files -/

theorem isFileNameChar_lt {c : Char} (h : isFileNameChar c = true) : c.toNat < 128 := by
  simp only [isFileNameChar, Char.isAlphanum, Char.isAlpha, Char.isUpper, Char.isLower, Char.isDigit, Bool.or_eq_true,
    Bool.and_eq_true, decide_eq_true_eq, UInt32.le_iff_toNat_le, ge_iff_le] at h
  change (((65 ≤ c.toNat ∧ c.toNat ≤ 90 ∨ 97 ≤ c.toNat ∧ c.toNat ≤ 122) ∨ 48 ≤ c.toNat ∧ c.toNat ≤ 57) ∨ c = '_') ∨
    c = '-' at h
  rcases h with (h | rfl) | rfl
  · omega
  · decide
  · decide

/-- The name is one of ASCII letters, digits, `_` and `-`, but for the suffix. -/
def Portable (name : String) : Prop :=
  ∃ stem, name = stem ++ ".bitmap" ∧ ∀ c ∈ stem.toList, c.toNat < 128 ∧ isFileNameChar c = true

/-- The characters that stand for those of an index's name. -/
def safeName (index : String) : List Char := index.toList.map fun c => if isFileNameChar c then c else '_'

theorem isFileNameChar_of_mem_safeName {index : String} {c : Char} (h : c ∈ safeName index) :
    isFileNameChar c = true := by
  obtain ⟨original, -, rfl⟩ := List.mem_map.1 h
  split
  · assumption
  · decide

theorem bitmapFileName_eq (position : Nat) (index : String) :
    bitmapFileName position index =
      String.ofList ("index-".toList ++ (Nat.toDigits 10 position ++ '-' :: safeName index)) ++ ".bitmap" := by
  have hrepr : (toString position).toList = Nat.toDigits 10 position := Nat.toList_repr
  have hsafe : (toString (String.ofList (safeName index))).toList = safeName index := String.toList_ofList
  rw [← String.toList_inj, bitmapFileName, ← safeName]
  simp only [String.toList_append, String.toList_ofList, hrepr, hsafe, List.append_assoc]
  rfl

theorem portable_of_all {stem : String} (h : stem.toList.all isFileNameChar = true) : Portable (stem ++ ".bitmap") :=
  ⟨stem, rfl, fun c hc => ⟨isFileNameChar_lt (List.all_eq_true.1 h c hc), List.all_eq_true.1 h c hc⟩⟩

theorem portable_bitmapFileName (position : Nat) (index : String) : Portable (bitmapFileName position index) := by
  have hprefix : "index-".toList.all isFileNameChar = true := by decide
  have hdigits : (Nat.toDigits 10 position).all isFileNameChar = true :=
    List.all_eq_true.2 fun c hc => by simp [isFileNameChar, Char.isAlphanum, Encoding.isDigit_of_mem_toDigits hc]
  have hdash : isFileNameChar '-' = true := by decide
  have hsafe : (safeName index).all isFileNameChar = true :=
    List.all_eq_true.2 fun c hc => isFileNameChar_of_mem_safeName hc
  rw [bitmapFileName_eq]
  apply portable_of_all
  rw [String.toList_ofList, List.all_append, List.all_append, List.all_cons, hprefix, hdigits, hdash, hsafe]
  rfl

theorem portable_savedNames (indexes : List String) : ∀ name ∈ savedNames indexes, Portable name := by
  intro name hname
  rcases List.mem_cons.1 hname with rfl | hname
  · have hheap : "heap".toList.all isFileNameChar = true := by decide
    exact portable_of_all hheap
  · obtain ⟨position, _, rfl⟩ := List.mem_mapIdx.1 hname
    exact portable_bitmapFileName position _

/-- The digits in the name of an index's file, up to the dash that no digit is. -/
def positionDigits (name : String) : List Char := (name.toList.drop 6).takeWhile (· ≠ '-')

theorem positionDigits_bitmapFileName (position : Nat) (index : String) :
    positionDigits (bitmapFileName position index) = Nat.toDigits 10 position := by
  have hdigits : ∀ c ∈ Nat.toDigits 10 position, decide (c ≠ '-') = true := by
    intro c hc
    rw [decide_eq_true_eq]
    rintro rfl
    exact absurd (Encoding.isDigit_of_mem_toDigits hc) (by decide)
  have hprefix : "index-".toList.length = 6 := by decide
  rw [positionDigits, bitmapFileName_eq, String.toList_append, String.toList_ofList, List.append_assoc, ← hprefix,
    List.drop_left, List.append_assoc, List.takeWhile_append_of_pos hdigits]
  simp

theorem toDigits_injective : Function.Injective (Nat.toDigits 10) := by
  intro m n h
  rw [← Nat.toList_repr, ← Nat.toList_repr, String.toList_inj] at h
  exact Nat.repr_inj.1 h

/-- The files have different names, though the indexes may not. -/
theorem nodup_savedNames (indexes : List String) : (savedNames indexes).Nodup := by
  refine List.nodup_cons.2 ⟨fun hmem => ?_, List.Nodup.of_map positionDigits ?_⟩
  · obtain ⟨position, _, hname⟩ := List.mem_mapIdx.1 hmem
    have hlist := congrArg (fun name : String => name.toList.head?) hname
    simp [bitmapFileName_eq, String.toList_append] at hlist
  · have hpositions : (indexes.mapIdx bitmapFileName).map positionDigits =
        (List.range indexes.length).map (Nat.toDigits 10) := by
      apply List.ext_getElem <;> simp [positionDigits_bitmapFileName]
    rw [hpositions]
    exact List.Nodup.map toDigits_injective List.nodup_range

theorem filePath_injective (directory : String) : Function.Injective (filePath directory) := by
  intro a b h
  unfold filePath at h
  split at h
  · exact (String.append_right_inj _).1 h
  · exact (String.append_right_inj _).1 h
  · exact (String.append_right_inj _).1 h

/-- No file is written twice. -/
theorem nodup_written {indexes : List String} {directory : String} {output : Option String}
    (houtput : ∀ path ∈ output, path ∉ (savedNames indexes).map (filePath directory)) :
    ((savedNames indexes).map (filePath directory) ++ output.toList).Nodup := by
  refine List.nodup_append.2 ⟨List.Nodup.map (filePath_injective directory) (nodup_savedNames indexes), ?_, ?_⟩
  · cases output <;> simp
  · rintro path hsaved _ hgiven rfl
    exact houtput path (Option.mem_toList.1 hgiven) hsaved

/-! ## What a file holds in the end -/

/-- What was last written to the file. -/
def stored (effects : List Effect) (path : String) : Option (List UInt8) := (Effect.files effects).reverse.lookup path

/-- The bitmap that the file keeps, read back under `limits`. -/
def reload (limits : Limits) (effects : List Effect) (path : String) : Option Bitmap :=
  (stored effects path).bind fun bytes => (Bitmap.decode limits bytes).toOption

/-- A file that is written once keeps what is written to it. -/
theorem stored_of_mem {effects : List Effect} {path : String} {contents : List UInt8}
    (hnodup : ((Effect.files effects).map Prod.fst).Nodup) (hmem : (path, contents) ∈ Effect.files effects) :
    stored effects path = some contents := by
  obtain ⟨before, after, hsplit⟩ := List.append_of_mem (List.mem_reverse.2 hmem)
  refine List.lookup_eq_some_iff.2 ⟨before, after, hsplit, fun file hfile => ?_⟩
  have hreverse : ((Effect.files effects).reverse.map Prod.fst).Nodup := by
    rw [List.map_reverse]
    exact List.nodup_reverse.2 hnodup
  rw [hsplit, List.map_append, List.map_cons] at hreverse
  have hdisjoint := (List.nodup_append.1 hreverse).2.2
  exact bne_iff_ne.2 fun heq => hdisjoint file.1 (List.mem_map_of_mem hfile) path List.mem_cons_self heq.symm

theorem reload_of_mem {limits : Limits} {effects : List Effect} {path : String} {b : Bitmap}
    (hnodup : ((Effect.files effects).map Prod.fst).Nodup) (hmem : (path, b.encode) ∈ Effect.files effects)
    (hdecode : Bitmap.decode limits b.encode = .ok b) : reload limits effects path = some b := by
  rw [reload, stored_of_mem hnodup hmem, Option.bind_some, hdecode]
  rfl

/-! ## What the bitmaps of a check are read back as -/

section outcome

variable {files : String → Contents} {refusal? : Effect → Option String} {words : List String} {o : Options}
  {settings : Settings} {r : Relation} {outcome : Outcome} {s : Scan} {directory : String}

/-- A bitmap that comes from a new one is read back under the limits of that one. -/
theorem decode_of_edits {limits : Limits} {pageCount : Nat} {b : Bitmap}
    (h : Bitmap.Edits (Bitmap.blank limits pageCount) b) (hw : Image.Writable b) :
    Bitmap.decode limits b.encode = .ok b := by
  have hv : b.Valid := Bitmap.Edits.valid h (Bitmap.valid_blank limits pageCount)
  have hx : Bitmap.Extends (Bitmap.blank limits pageCount) b := Bitmap.Edits.extends h
  exact Image.decode_encode_own hv hw hx.maxItems_eq hx.chunk_eq

/-- The bitmaps of a check are those of a heap that was scanned, and of its indexes. -/
theorem decode_heap (hvalid : r.validate settings.limits = .ok ()) (hs : Scan.ofHeap settings.limits r.heap = .ok s)
    (hf : Scan.Filled settings.limits r.heap.length r.heap s) (htotal : slotTotal r.heap + 8 ≤ UInt32.size)
    (hcapacity : s.bitmap.capacity < UInt32.size) :
    Image.Writable s.bitmap ∧ Bitmap.decode settings.limits s.bitmap.encode = .ok s.bitmap := by
  have hw : Image.Writable s.bitmap := by
    refine ⟨?_, hcapacity, ?_⟩
    · rw [hf.pageCount_eq]
      exact (Relation.validate_eq_ok_iff.1 hvalid).1
    · rwa [hf.total_eq]
  exact ⟨hw, decode_of_edits (Bitmap.edits_ofHeap hs) hw⟩

theorem decode_index (hs : Scan.ofHeap settings.limits r.heap = .ok s)
    (hf : Scan.Filled settings.limits r.heap.length r.heap s) (hw : Image.Writable s.bitmap) (index : Index) :
    Bitmap.decode settings.limits (index.check settings s.bitmap).bitmap.encode =
      .ok (index.check settings s.bitmap).bitmap := by
  obtain ⟨ho, -⟩ := Scan.ofIndex_spec hf.valid hf.laidOut index.pages
  have hindex : Image.Writable (Scan.ofIndex s.bitmap index.pages).bitmap := by
    refine ⟨?_, ?_, ?_⟩
    · rw [ho.table_eq]
      exact hw.pageCount_lt
    · rw [ho.capacity_eq, Bitmap.capacity_duplicate]
      exact hw.capacity_lt
    · rw [ho.table_eq]
      exact hw.total_le
  have hedits := (Bitmap.edits_ofHeap hs).trans (Bitmap.edits_ofIndex s.bitmap index.pages)
  exact decode_of_edits hedits hindex

/-! ## What a run writes -/

/-- Every index has its name and its position in the name of the file that keeps its bitmap. -/
theorem savedFiles_outcome (r : Relation) (settings : Settings) (s : Scan) (directory : String) :
    savedFiles (r.outcome settings s) directory =
      (filePath directory "heap.bitmap", s.bitmap.encode) :: r.indexes.mapIdx fun position index =>
        (filePath directory (bitmapFileName position index.name), (index.check settings s.bitmap).bitmap.encode) := by
  unfold savedFiles savedNames Relation.outcome
  simp only [List.map_map, List.zipWith_cons_cons, List.cons.injEq, true_and]
  apply List.ext_getElem?
  intro i
  simp only [List.getElem?_zipWith, List.getElem?_map, List.getElem?_mapIdx]
  cases r.indexes[i]? <;> rfl

theorem paths_savedFiles (r : Relation) (settings : Settings) (s : Scan) (directory : String) :
    (savedFiles (r.outcome settings s) directory).map Prod.fst =
      (savedNames (r.indexes.map (·.name))).map (filePath directory) := by
  rw [savedFiles_outcome, savedNames, List.map_cons, List.map_cons]
  congr 1
  apply List.ext_getElem?
  intro i
  simp only [List.getElem?_map, List.getElem?_mapIdx, Option.map_map]
  rfl

theorem mem_savedFiles (settings : Settings) (s : Scan) (directory : String) {i : Nat} {index : Index}
    (hi : r.indexes[i]? = some index) :
    (filePath directory (bitmapFileName i index.name), (index.check settings s.bitmap).bitmap.encode) ∈
      savedFiles (r.outcome settings s) directory := by
  rw [savedFiles_outcome]
  obtain ⟨hlt, rfl⟩ := List.getElem?_eq_some_iff.1 hi
  exact List.mem_cons_of_mem _ (List.mem_mapIdx.2 ⟨i, hlt, rfl⟩)

/-- The run was not given up, so it got as far as its report. -/
theorem reported_of_checks {status : Nat} {effects : List Effect} (h : Checks files words o settings r outcome)
    (hrun : record files refusal? words = (status, effects)) (hdone : status ≠ 2) : Reported o outcome effects := by
  rcases @record_checked files refusal? words o outcome h.parsed h.outcome_eq with hall | ⟨hstatus, -⟩
  · rw [hrun, Prod.mk.injEq] at hall
    rw [hall.2]
    exact reported_workOf o outcome
  · rw [hrun] at hstatus
    exact absurd hstatus hdone

end outcome

/-- The bitmaps that a run saves are in files with different names, one for the heap and one for each index. Read back
under the limits of the run, they are those that were compared, and to compare them again gives what the report says. -/
theorem record_saves {files : String → Contents} {refusal? : Effect → Option String} {words : List String} {o : Options}
    {settings : Settings} {r : Relation} {outcome : Outcome} {directory : String} {status : Nat} {effects : List Effect}
    (h : Checks files words o settings r outcome) (hdirectory : o.saveBitmaps = some directory)
    (hrun : record files refusal? words = (status, effects)) (hdone : status ≠ 2)
    (htotal : slotTotal r.heap + 8 ≤ UInt32.size) (hcapacity : outcome.heap.capacity < UInt32.size)
    (houtput : ∀ path ∈ o.output, path ∉ (savedNames (r.indexes.map (·.name))).map (filePath directory)) :
    (savedNames (r.indexes.map (·.name))).Nodup ∧ (∀ name ∈ savedNames (r.indexes.map (·.name)), Portable name) ∧
    (Effect.files effects).map Prod.fst =
      (savedNames (r.indexes.map (·.name))).map (filePath directory) ++ o.output.toList ∧
    reload settings.limits effects (filePath directory "heap.bitmap") = some outcome.heap ∧
    ∀ i index, r.indexes[i]? = some index → ∃ bitmap report,
      outcome.indexes[i]? = some bitmap ∧ outcome.report.indexes[i]? = some report ∧ report.name = index.name ∧
      reload settings.limits effects (filePath directory (bitmapFileName i index.name)) = some bitmap ∧
      (outcome.heap.compare bitmap).1 = report.differingItems ∧
      ItemDiff.on .onlyInLeft (outcome.heap.diff bitmap) = report.missingFromIndex ∧
      ItemDiff.on .onlyInRight (outcome.heap.diff bitmap) = report.missingFromHeap := by
  have hreported := reported_of_checks h hrun hdone
  obtain ⟨hvalid, s, hs, hf, rfl⟩ := Relation.outcome_of_check h.checked (by omega)
  have hfiles : Effect.files effects = savedFiles (r.outcome settings s) directory ++
      (o.output.map fun path => (path, utf8 (r.outcome settings s).report.toJson.pretty)).toList := by
    rw [hreported.files_eq, hdirectory]
    rfl
  have hpaths : (Effect.files effects).map Prod.fst =
      (savedNames (r.indexes.map (·.name))).map (filePath directory) ++ o.output.toList := by
    rw [hfiles, List.map_append, paths_savedFiles]
    cases o.output <;> rfl
  have honce : ((Effect.files effects).map Prod.fst).Nodup := by
    rw [hpaths]
    exact nodup_written houtput
  have hsaved {name : String} {b : Bitmap}
      (hmem : (filePath directory name, b.encode) ∈ savedFiles (r.outcome settings s) directory) :
      (filePath directory name, b.encode) ∈ Effect.files effects := by
    rw [hfiles]
    exact List.mem_append_left _ hmem
  obtain ⟨hw, hheap⟩ := decode_heap hvalid hs hf htotal hcapacity
  refine ⟨nodup_savedNames _, portable_savedNames _, hpaths, reload_of_mem honce (hsaved ?_) hheap,
    fun i index hi => ?_⟩
  · rw [savedFiles_outcome]
    exact List.mem_cons_self
  · have hreload : reload settings.limits effects (filePath directory (bitmapFileName i index.name)) =
        some (index.check settings s.bitmap).bitmap :=
      reload_of_mem honce (hsaved (mem_savedFiles settings s directory hi)) (decode_index hs hf hw index)
    refine ⟨(index.check settings s.bitmap).bitmap, (index.check settings s.bitmap).report, ?_, ?_, rfl, hreload, rfl,
      rfl, rfl⟩
    · simp [Relation.outcome, hi]
    · simp [Relation.outcome, hi]

/-- A heap of one row, and two indexes whose names differ only in what has no place in the name of a file. -/
def sampleAlike : Relation where
  heap := [⟨#[⟨.normal, .none⟩]⟩]
  indexes := [⟨"a/b", []⟩, ⟨"a.b", [⟨#[⟨0, 1⟩]⟩]⟩]

def sampleAlikeText : String :=
  "\x7b\"heap\": [\x7b\"slots\": [\x7b\"state\": \"normal\"\x7d]\x7d], \"indexes\": [\x7b\"name\": \"a/b\"\x7d, " ++
    "\x7b\"name\": \"a.b\", \"pages\": [\x7b\"refs\": [\x7b\"block\": 0, \"offset\": 1\x7d]\x7d]\x7d]\x7d"

def sampleAlikeFiles (path : String) : Contents :=
  if path = "relation.json" then .ok (utf8 sampleAlikeText) else .error .notFound

theorem record_saves_alike :
    let words := ["--fixture", "relation.json", "--save-bitmaps", "kept"]
    ∃ o outcome effects, Checks sampleAlikeFiles words o {} sampleAlike outcome ∧ o.saveBitmaps = some "kept" ∧
      record sampleAlikeFiles (fun _ => none) words = (1, effects) ∧ slotTotal sampleAlike.heap + 8 ≤ UInt32.size ∧
      outcome.heap.capacity < UInt32.size ∧
      (∀ path ∈ o.output, path ∉ (savedNames (sampleAlike.indexes.map (·.name))).map (filePath "kept")) ∧
      (Effect.files effects).map Prod.fst =
        ["kept/heap.bitmap", "kept/index-0-a_b.bitmap", "kept/index-1-a_b.bitmap"] ∧
      reload {} effects "kept/heap.bitmap" = some outcome.heap := by
  intro words
  let o : Options := { fixture := "relation.json", saveBitmaps := some "kept" }
  have hparse : Options.parse words = .ok o := by decide
  have hload : Relation.load "relation.json" (sampleAlikeFiles "relation.json") = .ok sampleAlike :=
    Relation.load_utf8 (by decide +kernel) _
  have hcheck : (sampleAlike.check {}).map (fun outcome => (outcome.report.isConsistent, outcome.heap.capacity)) =
      .ok (false, 1024) := by
    decide +kernel
  cases houtcome : sampleAlike.check {} with
  | error e =>
    rw [houtcome] at hcheck
    cases hcheck
  | ok outcome =>
    rw [houtcome] at hcheck
    obtain ⟨hconsistent, hcapacity⟩ := Prod.mk.inj (Except.ok.inj hcheck)
    have h : Checks sampleAlikeFiles words o {} sampleAlike outcome := ⟨hparse, ⟨{}, rfl, rfl⟩, hload, houtcome⟩
    have hrun : record sampleAlikeFiles (fun _ => none) words = (1, (o.workOf outcome).actions.map Action.effect) := by
      rw [h.record_eq, Options.workOf, hconsistent]
      rfl
    have hless : outcome.heap.capacity < UInt32.size := by
      rw [hcapacity]
      decide
    have htotal : slotTotal sampleAlike.heap + 8 ≤ UInt32.size := by decide
    obtain ⟨-, -, hpaths, hheap, -⟩ := record_saves h rfl hrun (by decide) htotal hless nofun
    exact ⟨o, outcome, _, h, rfl, hrun, htotal, hless, nofun, hpaths.trans (by decide +kernel), hheap⟩

end Occupancy.Command
