import Mathlib
import Occupancy.Bitmap.Dump
import Occupancy.Proofs.Encoding
import Occupancy.Proofs.Store.Check
/-!
# Dumps are read back

A dump is a line of words with blanks between them, and each word is a field with its name. Read back, it tells the
numbers of the summary (`DumpLine.read?_render`) and, if it has data, the page table and the used bytes, so that two
bitmaps with the same dump have the same items and the same marks (`render_eq_iff`). In binary the digit at the bit of
an item shows whether it is marked (`render_binary_shows`).
-/

namespace Occupancy

namespace Text

/-- A text with its opening and its closing. -/
def field (opening closing : String) (cs : List Char) : List Char := opening.toList ++ (cs ++ closing.toList)

/-- What stands between an opening and a closing. -/
def between? (opening closing : String) (cs : List Char) : Option (List Char) :=
  (cs.dropPrefix? opening.toList).bind fun rest => rest.dropSuffix? closing.toList

theorem between?_field (opening closing : String) (cs : List Char) :
    between? opening closing (field opening closing cs) = some cs := by
  have hfront : (field opening closing cs).dropPrefix? opening.toList = some (cs ++ closing.toList) :=
    List.dropPrefix?_eq_some_iff.2 ⟨_, rfl, beq_self_eq_true _⟩
  rw [between?, hfront, Option.bind_some]
  exact List.dropSuffix?_eq_some_iff.2 ⟨_, rfl, beq_self_eq_true _⟩

theorem not_mem_field {opening closing : String} {c : Char} {cs : List Char} (hopening : c ∉ opening.toList)
    (hclosing : c ∉ closing.toList) (hcs : c ∉ cs) : c ∉ field opening closing cs :=
  List.not_mem_append hopening (List.not_mem_append hcs hclosing)

end Text

/-- What a dump says. -/
structure DumpLine where
  usedBytes : Nat
  count : Nat
  pageCount : Nat
  ends : List Nat
  /-- The text of the bytes, in dumps that have it. -/
  data : Option (List Char) := none
  deriving DecidableEq, Repr

namespace DumpLine

/-- The line with these words and no data. -/
def ofSummary? : List (List Char) → Option DumpLine
  | [mark, bytes, bits, pages, ends] =>
    if mark = "bitmap".toList then do
      let usedBytes ← (Text.between? "nbytes=" "" bytes).bind Encoding.natural?
      let count ← (Text.between? "nbits=" "" bits).bind Encoding.natural?
      let pageCount ← (Text.between? "npages=" "" pages).bind Encoding.natural?
      let ends ← (Text.between? "pages=[" "]" ends).bind Encoding.naturals?
      return { usedBytes, count, pageCount, ends }
    else none
  | _ => none

/-- The line that a text spells, with data if there is a sixth word. -/
def read? (text : String) : Option DumpLine :=
  let words := text.toList.splitOn ' '
  match words.drop 5 with
  | [] => ofSummary? words
  | [data] => do
    let line ← ofSummary? (words.take 5)
    let data ← Text.between? "data=[" "]" data
    return { line with data := some data }
  | _ => none

end DumpLine

namespace Bitmap

variable {a b : Bitmap} {f : DumpFormat}

/-! ## The words of a dump -/

/-- The words of the summary. -/
def words (b : Bitmap) : List (List Char) := [
  "bitmap".toList,
  Text.field "nbytes=" "" (Nat.toDigits 10 b.usedBytes),
  Text.field "nbits=" "" (Nat.toDigits 10 b.count),
  Text.field "npages=" "" (Nat.toDigits 10 b.table.pageCount),
  Text.field "pages=[" "]" (Encoding.decimals b.table.ends.toList).toList]

theorem toList_summary (b : Bitmap) : b.summary.toList = [' '].intercalate b.words := by
  -- a literal begins with the blank that ends the word before it
  have h₁ : "bitmap nbytes=".toList = "bitmap".toList ++ (' ' :: "nbytes=".toList) := by decide
  have h₂ : " nbits=".toList = ' ' :: "nbits=".toList := by decide
  have h₃ : " npages=".toList = ' ' :: "npages=".toList := by decide
  have h₄ : " pages=[".toList = ' ' :: "pages=[".toList := by decide
  have h₅ : "".toList = [] := rfl
  have hrepr (n : Nat) : (toString n).toList = Nat.toDigits 10 n := Nat.toList_repr
  have hself (s : String) : toString s = s := rfl
  unfold summary words
  generalize Encoding.decimals b.table.ends.toList = ends
  simp only [Text.field, String.toList_append, hself, hrepr, h₁, h₂, h₃, h₄, h₅, List.intercalate_cons_cons,
    List.intercalate_singleton, List.append_assoc, List.cons_append, List.nil_append, List.append_nil]

theorem toList_render {data : String} (h : f.encode? b.used = some data) :
    (b.render f).toList = [' '].intercalate (b.words ++ [Text.field "data=[" "]" data.toList]) := by
  have hword : " data=[".toList = ' ' :: "data=[".toList := by decide
  have hrender : b.render f = b.summary ++ " data=[" ++ data ++ "]" := by
    rw [render, h]
    rfl
  rw [hrender, String.toList_append, String.toList_append, String.toList_append, toList_summary, hword]
  simp only [words, Text.field, List.cons_append, List.nil_append, List.intercalate_cons_cons,
    List.intercalate_singleton, List.append_assoc]

/-- There is no blank inside a word. -/
theorem not_mem_words (b : Bitmap) : ∀ word ∈ b.words, ' ' ∉ word := by
  have hends : ' ' ∉ (Encoding.decimals b.table.ends.toList).toList :=
    Encoding.not_mem_decimals rfl (by decide) _
  have hnumber {name : String} (hname : ' ' ∉ name.toList) (n : Nat) : ' ' ∉ Text.field name "" (Nat.toDigits 10 n) :=
    Text.not_mem_field hname (by decide) (Encoding.not_mem_toDigits rfl n)
  simp only [words, List.forall_mem_cons]
  exact ⟨by decide, hnumber (by decide) _, hnumber (by decide) _, hnumber (by decide) _,
    Text.not_mem_field (by decide) (by decide) hends, List.forall_mem_nil _⟩

end Bitmap

/-! ## Reading a dump back -/

namespace DumpFormat

variable {f : DumpFormat} {bytes : List UInt8} {data : String}

/-- The bytes that this format writes so. -/
def decode? : DumpFormat → List Char → Option (List UInt8)
  | .countsOnly => fun _ => none
  | .binary => Encoding.ofBinary?
  | .hex => Encoding.ofHex?
  | .base64 => Encoding.ofBase64?

theorem decode?_of_encode? (h : f.encode? bytes = some data) : f.decode? data.toList = some bytes := by
  cases f with
  | countsOnly => cases h
  | binary =>
    obtain rfl := Option.some.inj h
    exact Encoding.ofBinary?_binary bytes
  | hex =>
    obtain rfl := Option.some.inj h
    exact Encoding.ofHex?_hex bytes
  | base64 =>
    obtain rfl := Option.some.inj h
    exact Encoding.ofBase64?_base64 bytes

theorem not_mem_encode? (h : f.encode? bytes = some data) : ' ' ∉ data.toList := by
  cases f with
  | countsOnly => cases h
  | binary =>
    obtain rfl := Option.some.inj h
    exact Encoding.not_mem_binary (by decide) bytes
  | hex =>
    obtain rfl := Option.some.inj h
    exact Encoding.not_mem_hex (by decide) bytes
  | base64 =>
    obtain rfl := Option.some.inj h
    exact Encoding.not_mem_base64 (by decide) bytes

theorem exists_encode? (hf : f ≠ .countsOnly) (bytes : List UInt8) : ∃ data, f.encode? bytes = some data := by
  cases f with
  | countsOnly => exact absurd rfl hf
  | binary => exact ⟨_, rfl⟩
  | hex => exact ⟨_, rfl⟩
  | base64 => exact ⟨_, rfl⟩

end DumpFormat

/-- The page table and the used bytes that a dump tells of. -/
def DumpLine.restore? (f : DumpFormat) (text : String) : Option (PageTable × List UInt8) := do
  let line ← read? text
  let data ← line.data
  let bytes ← f.decode? data
  return ({ pageCount := line.pageCount, ends := line.ends.toArray }, bytes)

namespace Bitmap

variable {a b : Bitmap} {f : DumpFormat}

/-- What a dump in this format says. -/
def line (b : Bitmap) (f : DumpFormat) : DumpLine where
  usedBytes := b.usedBytes
  count := b.count
  pageCount := b.table.pageCount
  ends := b.table.ends.toList
  data := (f.encode? b.used).map String.toList

theorem ofSummary?_words (b : Bitmap) : DumpLine.ofSummary? b.words = some (b.line .countsOnly) := by
  simp only [DumpLine.ofSummary?, words, if_true, Text.between?_field, Option.bind_some, Encoding.natural?_toDigits,
    Encoding.naturals?_decimals]
  rfl

theorem read?_render (b : Bitmap) (f : DumpFormat) : DumpLine.read? (b.render f) = some (b.line f) := by
  cases h : f.encode? b.used with
  | none =>
    have hrender : b.render f = b.summary := by rw [render, h]
    have hline : b.line f = b.line .countsOnly := by rw [line, h, line, DumpFormat.encode?]
    have hsplit : b.summary.toList.splitOn ' ' = b.words := by
      rw [toList_summary]
      exact List.splitOn_intercalate _ b.not_mem_words (List.cons_ne_nil _ _)
    rw [DumpLine.read?, hrender, hsplit, hline]
    exact b.ofSummary?_words
  | some data =>
    let word := Text.field "data=[" "]" data.toList
    have hword : ' ' ∉ word := Text.not_mem_field (by decide) (by decide) (DumpFormat.not_mem_encode? h)
    have hsplit : (b.render f).toList.splitOn ' ' = b.words ++ [word] := by
      rw [toList_render h]
      refine List.splitOn_intercalate _ (List.forall_mem_append.2 ⟨b.not_mem_words, ?_⟩) (by simp)
      exact List.forall_mem_singleton.2 hword
    have hwords : (b.words ++ [word]).take 5 = b.words := rfl
    have hdata : (b.words ++ [word]).drop 5 = [word] := rfl
    rw [DumpLine.read?, hsplit, hwords, hdata]
    simp only [b.ofSummary?_words, word, Text.between?_field, Option.bind_eq_bind, Option.bind_some, line, h,
      Option.map_some, Option.pure_def]

theorem restore?_render (b : Bitmap) (hf : f ≠ .countsOnly) :
    DumpLine.restore? f (b.render f) = some (b.table, b.used) := by
  obtain ⟨data, hdata⟩ := DumpFormat.exists_encode? hf b.used
  simp only [DumpLine.restore?, read?_render, line, hdata, Option.map_some, Option.bind_eq_bind, Option.bind_some,
    DumpFormat.decode?_of_encode? hdata, Array.toArray_toList, Option.pure_def]

/-! ## What a dump depends on -/

theorem usedBytes_congr (ht : a.table = b.table) : a.usedBytes = b.usedBytes := by rw [usedBytes, ht, usedBytes]

theorem render_congr (ht : a.table = b.table) (hu : a.used = b.used) (f : DumpFormat) : a.render f = b.render f := by
  have hsummary : a.summary = b.summary := by
    unfold summary
    rw [count_eq, count_eq, usedBytes_congr ht, hu, ht]
  rw [render, hsummary, hu, render]

/-- The table and the used bytes tell what is found when an item is looked up. -/
theorem get_congr (ht : a.table = b.table) (hu : a.used = b.used) (page item : Nat) :
    a.get page item = b.get page item := by
  have hlocate : a.locate page item = b.locate page item := by rw [locate, ht, usedBytes_congr ht, locate]
  rw [get, get, hlocate]
  cases hl : b.locate page item with
  | error reason => rfl
  | ok x =>
    obtain ⟨-, -, -, hlt⟩ := (b.table.locate_eq_ok_iff b.usedBytes page item x).1 hl
    have hk : x.offset < b.usedBits := by
      have hsplit := x.byteIndex_bitIndex
      have hbit := x.bitIndex_lt
      unfold usedBits
      omega
    have hbit : a.bit x.offset = b.bit x.offset := by
      have hka : x.offset < a.usedBits := by rwa [usedBits, usedBytes_congr ht]
      rw [← bit_used hka, hu, bit_used hk]
    exact congrArg Except.ok hbit

/-- No run meets a trap on its way to a dump with data. Two such dumps are the same just when the bitmaps have the same
pages and the same used bytes; these are read back from the text, and they tell the marks of all items. -/
theorem render_eq_iff {limits limits' : Limits} {a₀ b₀ : Bitmap} (ha : a₀.Origin limits) (hb : b₀.Origin limits')
    (ops ops' : List Operation) {f : DumpFormat} (hf : f ≠ .countsOnly) :
    let a := a₀.operate ops
    let b := b₀.operate ops'
    a.store.render f = .ok (a.render f) ∧ b.store.render f = .ok (b.render f) ∧
    (a.render f = b.render f ↔
      a.table.pageCount = b.table.pageCount ∧ a.table.ends = b.table.ends ∧ a.used = b.used) ∧
    DumpLine.restore? f (a.render f) = some (a.table, a.used) ∧
    (a.render f = b.render f →
      ∀ page item, a.table.items? page = b.table.items? page ∧ a.get page item = b.get page item) := by
  intro a b
  have hva : a.Valid := (edits_operate a₀ ops).valid ha.valid
  have hvb : b.Valid := (edits_operate b₀ ops').valid hb.valid
  have hread (h : a.render f = b.render f) : a.table = b.table ∧ a.used = b.used := by
    have hrestore := restore?_render b hf
    rw [← h, restore?_render a hf] at hrestore
    exact Prod.ext_iff.1 (Option.some.inj hrestore)
  refine ⟨Store.store_render hva f, Store.store_render hvb f, ⟨fun h => ?_, ?_⟩, restore?_render a hf,
    fun h page item => ?_⟩
  · obtain ⟨ht, hu⟩ := hread h
    exact ⟨congrArg _ ht, congrArg _ ht, hu⟩
  · rintro ⟨hcount, hends, hu⟩
    have ht : PageTable.mk a.table.pageCount a.table.ends = PageTable.mk b.table.pageCount b.table.ends := by
      rw [hcount, hends]
    exact render_congr ht hu f
  · obtain ⟨ht, hu⟩ := hread h
    exact ⟨by rw [ht], get_congr ht hu page item⟩

/-- Stray bits of a decoded bitmap are in its dump. Once they are cleared, the dump is that of a new bitmap with the
same page, whose buffer is larger. -/
theorem render_eq_iff_strayBitmap :
    let new := (blank { maxItems := 8, chunkBytes := 4 } 2).operate [.call (.addPage 0 3)]
    Image.strayBitmap.render .base64 ≠ new.render .base64 ∧
      (Image.strayBitmap.operate [.call .reset]).render .base64 = new.render .base64 := by
  have hstray : Image.strayBitmap.Origin {} := .decoded Image.decode_strayImage
  have hblank : (blank { maxItems := 8, chunkBytes := 4 } 2).Origin { maxItems := 8, chunkBytes := 4 } :=
    .blank (by decide)
  obtain ⟨-, -, hbefore, -⟩ := render_eq_iff hstray hblank [] [.call (.addPage 0 3)] (by decide : DumpFormat.base64 ≠ _)
  obtain ⟨-, -, hafter, -⟩ :=
    render_eq_iff hstray hblank [.call .reset] [.call (.addPage 0 3)] (by decide : DumpFormat.base64 ≠ _)
  exact ⟨fun h => absurd (hbefore.1 h) (by decide +kernel), hafter.2 (by decide +kernel)⟩

/-! ## What the digits show -/

/-- Digits that show the bits of a bitmap, one for each bit of the used bytes. -/
structure Shows (digits : List Char) (b : Bitmap) : Prop where
  length_eq : digits.length = 8 * b.usedBytes
  /-- At the address of an item stands what is found when the item is looked up. -/
  item : ∀ page item, b.table.Has page item →
    ∃ x on, b.locate page item = .ok x ∧ b.get page item = .ok on ∧ digits[x.offset]? = some (if on then '1' else '0')
  tail : ∀ k, b.table.total ≤ k → k < digits.length → digits[k]? = some '0'
  ones : digits.count '1' = b.count

theorem getElem?_digits (h : b.Valid) {k : Nat} (hk : k < b.usedBits) :
    (Encoding.binary b.used).toList[k]? = some (if b.bit k then '1' else '0') := by
  have hlen : k < (Byte.row b.used).length := by rwa [Byte.length_row, length_used h.used_le]
  have hbit : (Byte.row b.used)[k] = b.bit k := by
    rw [← List.getD_eq_getElem _ false hlen, Byte.getD_row, bit_used hk]
  rw [Encoding.toList_binary, List.getElem?_map, List.getElem?_eq_getElem hlen, hbit]
  rfl

theorem Tidy.shows (h : b.Tidy) : Shows (Encoding.binary b.used).toList b where
  length_eq := by rw [Encoding.toList_binary, List.length_map, Byte.length_row, length_used h.valid.used_le]
  item page item hi := by
    have hlocate := h.valid.locate_of_has hi
    have hget : b.get page item = .ok (b.bit (b.place page item).offset) := by
      rw [get, hlocate]
      rfl
    have hk : (b.place page item).offset < b.usedBits :=
      (h.valid.ordered.offset_lt_total hi).trans_le b.total_le_usedBits
    exact ⟨_, _, hlocate, hget, getElem?_digits h.valid hk⟩
  tail k hk hlt := by
    rw [Encoding.toList_binary, List.length_map, Byte.length_row, length_used h.valid.used_le] at hlt
    rw [getElem?_digits h.valid hlt, h.zeroTail k hk]
    rfl
  ones := by
    have hinj : Function.Injective Encoding.binaryDigit := by decide
    rw [Encoding.toList_binary, count_eq]
    exact List.count_map_of_injective _ _ hinj true

/-- A dump in binary shows what the bitmap answers. Its digits, its counter, the number of set bits and the number of
marked items agree after any run. -/
theorem render_binary_shows (limits : Limits) (pageCount : Nat) (ops : List Operation) :
    let b := (blank limits pageCount).operate ops
    b.store.render .binary = .ok (b.render .binary) ∧
    ∃ line digits, DumpLine.read? (b.render .binary) = some line ∧ line.data = some digits ∧ Shows digits b ∧
      line.count = digits.count '1' ∧ line.count = b.count ∧ (line.count : ℕ∞) = b.marks.encard ∧
      line.count ≤ b.table.total := by
  intro b
  have ht : b.Tidy := (edits_operate _ ops).tidy (tidy_blank limits pageCount)
  have hmarks := ht.valid.count_eq_marks ht.zeroTail
  have hle : b.count ≤ b.table.total := by
    rw [ht.valid.encard_marks, Nat.cast_inj] at hmarks
    exact hmarks.trans_le (Nat.count_le _)
  exact ⟨Store.store_render ht.valid .binary, b.line .binary, (Encoding.binary b.used).toList, b.read?_render .binary,
    rfl, ht.shows, ht.shows.ones.symm, rfl, hmarks, hle⟩

end Bitmap

end Occupancy
