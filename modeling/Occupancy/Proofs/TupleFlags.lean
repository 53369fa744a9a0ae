import Mathlib
import Occupancy.TupleFlags
/-!
# Flags are read as they are written

All 16 bits of tuple flags come back from their text (`ofText?_text`), whether they have names or not.
-/

namespace Occupancy

/-! ## Cutting what was put together -/

namespace Text

/-- A part of a text that no cut goes through and no end of which is taken off. -/
structure Plain (part : List Char) : Prop where
  ne_nil : part ≠ []
  separator : '|' ∉ part
  nonblank : ∀ c ∈ part, isBlank c = false

theorem split_of_not_mem {separator : Char} {cs : List Char} (h : separator ∉ cs) : split separator cs = [cs] := by
  induction cs with
  | nil => rfl
  | cons c cs ih =>
    rw [List.mem_cons, not_or] at h
    rw [split, if_neg (Ne.symm h.1), ih h.2]

theorem split_append {separator : Char} {cs : List Char} (h : separator ∉ cs) (rest : List Char) :
    split separator (cs ++ separator :: rest) = cs :: split separator rest := by
  induction cs with
  | nil => rw [List.nil_append, split, if_pos rfl]
  | cons c cs ih =>
    rw [List.mem_cons, not_or] at h
    rw [List.cons_append, split, if_neg (Ne.symm h.1), ih h.2]

theorem dropWhile_isBlank {gap part : List Char} (hgap : ∀ c ∈ gap, isBlank c = true) (hne : part ≠ [])
    (hpart : ∀ c ∈ part, isBlank c = false) (rest : List Char) :
    (gap ++ (part ++ rest)).dropWhile isBlank = part ++ rest := by
  rw [List.dropWhile_append_of_pos hgap]
  cases part with
  | nil => exact absurd rfl hne
  | cons c part => simp [hpart c List.mem_cons_self]

theorem Plain.trim_eq {part : List Char} (h : Plain part) {gap gap' : List Char} (hgap : ∀ c ∈ gap, isBlank c = true)
    (hgap' : ∀ c ∈ gap', isBlank c = true) : trim (gap ++ (part ++ gap')) = part := by
  have hback : (gap'.reverse ++ (part.reverse ++ [])).dropWhile isBlank = part.reverse ++ [] :=
    dropWhile_isBlank (fun c hc => hgap' c (List.mem_reverse.1 hc)) (by simpa using h.ne_nil)
      (fun c hc => h.nonblank c (List.mem_reverse.1 hc)) []
  rw [trim, dropWhile_isBlank hgap h.ne_nil h.nonblank, List.reverse_append]
  rw [List.append_nil] at hback
  rw [hback, List.reverse_reverse]

/-- Parts that were put together with bars and blanks between them are what is cut out again. -/
theorem map_trim_split {parts : List String} (hne : parts ≠ []) (h : ∀ part ∈ parts, Plain part.toList)
    (gap : List Char) (hgap : ∀ c ∈ gap, isBlank c = true) :
    (split '|' (gap ++ (String.intercalate " | " parts).toList)).map trim = parts.map String.toList := by
  induction parts generalizing gap with
  | nil => exact absurd rfl hne
  | cons part parts ih =>
    obtain ⟨hpart, hparts⟩ := List.forall_mem_cons.1 h
    have hbar : '|' ∉ gap := fun hmem => absurd (hgap _ hmem) (by decide)
    cases parts with
    | nil =>
      have htrim : trim (gap ++ (part.toList ++ [])) = part.toList := hpart.trim_eq hgap (by simp)
      rw [List.append_nil] at htrim
      rw [String.intercalate_singleton, split_of_not_mem (by simp [hbar, hpart.separator])]
      simp [htrim]
    | cons part' parts =>
      -- of the two blanks around a bar one is cut off with this part, the other is the gap before the next
      have hblank : ∀ c ∈ [' '], isBlank c = true := by simp [isBlank]
      have hcut : gap ++ (String.intercalate " | " (part :: part' :: parts)).toList =
          (gap ++ (part.toList ++ [' '])) ++
            '|' :: ([' '] ++ (String.intercalate " | " (part' :: parts)).toList) := by
        rw [String.intercalate_cons_cons]
        simp
      rw [hcut, split_append (by simp [hbar, hpart.separator]), List.map_cons, hpart.trim_eq hgap hblank,
        ih (by simp) hparts [' '] hblank]
      rfl

theorem trim_ne_nil {cs : List Char} {c : Char} (hmem : c ∈ cs) (hc : isBlank c = false) : trim cs ≠ [] := by
  intro htrim
  rw [trim, List.reverse_eq_nil_iff, List.dropWhile_eq_nil_iff] at htrim
  rw [← List.takeWhile_append_dropWhile (p := isBlank) (l := cs), List.mem_append] at hmem
  rcases hmem with hmem | hmem
  · rw [List.mem_takeWhile_imp hmem] at hc
    cases hc
  · rw [htrim c (List.mem_reverse.2 hmem)] at hc
    cases hc

end Text

/-! ## Hexadecimal numbers -/

namespace Encoding

theorem hexValue?_digitChar {n : Nat} (h : n < 16) : hexValue? n.digitChar = some n := by
  revert n
  decide

theorem hexNumber?_append (acc : Nat) (cs ds : List Char) :
    hexNumber? acc (cs ++ ds) = (hexNumber? acc cs).bind fun acc => hexNumber? acc ds := by
  induction cs generalizing acc with
  | nil => rfl
  | cons c cs ih =>
    rw [List.cons_append, hexNumber?, hexNumber?, Option.bind_assoc]
    simp only [ih]

theorem hexNumber?_toDigits (n : Nat) : hexNumber? 0 (Nat.toDigits 16 n) = some n := by
  induction n using Nat.strongRecOn with
  | ind n ih =>
    rw [Nat.toDigits_eq_if (by decide)]
    split
    · next hlt => simp [hexNumber?, hexValue?_digitChar hlt]
    · next hge =>
      rw [hexNumber?_append, ih (n / 16) (by omega), Option.bind_some]
      simp [hexNumber?, hexValue?_digitChar (Nat.mod_lt n (by decide : 0 < 16)), Nat.div_add_mod']

theorem eq_digitChar_of_mem_toDigits {n : Nat} {c : Char} (h : c ∈ Nat.toDigits 16 n) :
    ∃ d, d < 16 ∧ c = d.digitChar := by
  induction n using Nat.strongRecOn with
  | ind n ih =>
    rw [Nat.toDigits_eq_if (by decide)] at h
    split at h
    · next hlt => exact ⟨n, hlt, List.mem_singleton.1 h⟩
    · next hge =>
      rcases List.mem_append.1 h with h | h
      · exact ih (n / 16) (by omega) h
      · exact ⟨n % 16, Nat.mod_lt n (by decide), List.mem_singleton.1 h⟩

end Encoding

/-! ## Flags -/

namespace TupleFlags

variable (f : TupleFlags)

/-- The parts of the written form with the flags that each stands for. -/
def pieces : List (String × TupleFlags) :=
  named.filter (fun (_, flag) => f.contains flag) ++
    if f.unnamed = none then [] else [("0x" ++ Encoding.hexNumber f.unnamed.bits.toNat, f.unnamed)]

theorem parts_eq : f.parts = f.pieces.map (·.1) := by
  unfold parts pieces
  dsimp only
  split <;> simp

theorem toList_hexNumber (n : Nat) : ("0x" ++ Encoding.hexNumber n).toList = '0' :: 'x' :: Nat.toDigits 16 n := by
  simp [Encoding.hexNumber]

theorem ofHex?_toDigits : ofHex? (Nat.toDigits 16 f.bits.toNat) = some f := by
  have hlt : f.bits.toNat < UInt16.size := f.bits.toNat_lt_size
  have hsign : ∀ rest, Nat.toDigits 16 f.bits.toNat ≠ '+' :: rest := by
    intro rest heq
    obtain ⟨d, -, hd⟩ := Encoding.eq_digitChar_of_mem_toDigits (n := f.bits.toNat) (heq ▸ List.mem_cons_self)
    exact Nat.digitChar_ne '+' rfl hd.symm
  unfold ofHex?
  -- no digit is taken for a sign
  split
  · next heq => exact absurd heq (hsign _)
  · simp [Nat.toDigits_ne_nil, Encoding.hexNumber?_toDigits, hlt]

theorem mem_pieces {e : String × TupleFlags} (he : e ∈ f.pieces) :
    e = ("HOT_UPDATED", hotUpdated) ∨ e = ("HEAP_ONLY", heapOnly) ∨
      e = ("0x" ++ Encoding.hexNumber f.unnamed.bits.toNat, f.unnamed) := by
  rcases List.mem_append.1 he with he | he
  · have hmem := (List.mem_filter.1 he).1
    simp only [named, List.mem_cons, List.not_mem_nil, or_false] at hmem
    rcases hmem with hmem | hmem
    · exact .inl hmem
    · exact .inr (.inl hmem)
  · split at he
    · cases he
    · exact .inr (.inr (List.mem_singleton.1 he))

theorem ofPart?_piece {e : String × TupleFlags} (he : e ∈ f.pieces) : ofPart? e.1.toList = some e.2 := by
  rcases f.mem_pieces he with rfl | rfl | rfl
  · rfl
  · rfl
  · dsimp only
    rw [toList_hexNumber, ofPart?, ofHex?_toDigits]

theorem plain_of_all {part : List Char} (hne : part ≠ [])
    (h : (part.all fun c => c ≠ '|' && !Text.isBlank c) = true) : Text.Plain part where
  ne_nil := hne
  separator hmem := by simpa using List.all_eq_true.1 h _ hmem
  nonblank c hc := by simpa using (Bool.and_eq_true_iff.1 (List.all_eq_true.1 h c hc)).2

theorem plain_piece {e : String × TupleFlags} (he : e ∈ f.pieces) : Text.Plain e.1.toList := by
  rcases f.mem_pieces he with rfl | rfl | rfl
  · exact plain_of_all (by decide) (by decide)
  · exact plain_of_all (by decide) (by decide)
  · have hdigit : ∀ d < 16, (d.digitChar ≠ '|' && !Text.isBlank d.digitChar) = true := by decide
    dsimp only
    rw [toList_hexNumber]
    refine plain_of_all (by simp)
      (Bool.and_eq_true_iff.2 ⟨rfl, Bool.and_eq_true_iff.2 ⟨rfl, List.all_eq_true.2 fun c hc => ?_⟩⟩)
    obtain ⟨d, hd, rfl⟩ := Encoding.eq_digitChar_of_mem_toDigits hc
    exact hdigit d hd

/-- A flag that is one bit is set as a whole or not at all. -/
theorem and_bit (flag : TupleFlags) (k : Nat) (h : flag.bits.toBitVec = BitVec.twoPow 16 k) :
    f.bits &&& flag.bits = if f.contains flag then flag.bits else 0 := by
  have hand := BitVec.and_twoPow f.bits.toBitVec k
  rw [← h] at hand
  unfold contains
  cases hbit : f.bits.toBitVec.getLsbD k with
  | true =>
    rw [hbit] at hand
    have heq : f.bits &&& flag.bits = flag.bits := UInt16.eq_of_toBitVec_eq hand
    simp [heq]
  | false =>
    rw [hbit] at hand
    have heq : f.bits &&& flag.bits = 0 := UInt16.eq_of_toBitVec_eq hand
    rw [heq]
    split
    · next hzero => exact beq_iff_eq.1 hzero
    · rfl

theorem or_and_eq (x a b : UInt16) : 0 ||| (x &&& a) ||| (x &&& b) ||| (x &&& ~~~a &&& ~~~b) = x := by
  apply UInt16.eq_of_toBitVec_eq
  ext i hi
  simp
  cases x.toBitVec[i] <;> cases a.toBitVec[i] <;> cases b.toBitVec[i] <;> rfl

theorem foldl_union_named (start : TupleFlags) :
    ((named.filter fun (_, flag) => f.contains flag).map (·.2)).foldl union start =
      ⟨start.bits ||| (f.bits &&& hotUpdated.bits) ||| (f.bits &&& heapOnly.bits)⟩ := by
  rw [f.and_bit hotUpdated 14 rfl, f.and_bit heapOnly 15 rfl]
  cases hhot : f.contains hotUpdated <;> cases hheap : f.contains heapOnly <;> simp [named, hhot, hheap, union]

/-- The flags of all pieces together are all flags. -/
theorem foldl_union_pieces : (f.pieces.map (·.2)).foldl union none = f := by
  have hrest (start : TupleFlags) : ((if f.unnamed = none then []
      else [("0x" ++ Encoding.hexNumber f.unnamed.bits.toNat, f.unnamed)]).map (·.2)).foldl union start =
        start.union f.unnamed := by
    split
    · next hnone => simp [hnone, union, none]
    · rfl
  unfold pieces
  rw [List.map_append, List.foldl_append, foldl_union_named, hrest]
  exact congrArg TupleFlags.mk (or_and_eq f.bits hotUpdated.bits heapOnly.bits)

theorem foldlM_ofPart? {pieces : List (String × TupleFlags)} (h : ∀ e ∈ pieces, ofPart? e.1.toList = some e.2)
    (start : TupleFlags) :
    (pieces.map (·.1.toList)).foldlM (fun f part => (ofPart? part).map f.union) start =
      some ((pieces.map (·.2)).foldl union start) := by
  induction pieces generalizing start with
  | nil => rfl
  | cons e pieces ih =>
    obtain ⟨he, h⟩ := List.forall_mem_cons.1 h
    rw [List.map_cons, List.foldlM_cons, he]
    exact ih h _

/-- Flags are read back from their text, also those that have no name. -/
theorem ofText?_text : ofText? f.text = some f := by
  have hfold := foldlM_ofPart? (fun e he => f.ofPart?_piece he) none
  rw [foldl_union_pieces] at hfold
  unfold ofText? text
  rw [parts_eq]
  cases hpieces : f.pieces with
  | nil =>
    rw [hpieces] at hfold
    exact hfold
  | cons e pieces =>
    have hplain : ∀ part ∈ f.pieces.map (·.1), Text.Plain part.toList := by
      intro part hpart
      obtain ⟨e, he, rfl⟩ := List.mem_map.1 hpart
      exact f.plain_piece he
    have hcut := Text.map_trim_split (by simp [hpieces]) hplain [] (by simp)
    rw [← hpieces]
    rw [List.nil_append, List.map_map] at hcut
    -- there is a piece, so the text is not blank and is cut
    have hblank : ¬ (Text.trim (String.intercalate " | " (f.pieces.map (·.1))).toList).isEmpty = true := by
      obtain ⟨c, cs, hcs⟩ := List.exists_cons_of_ne_nil (hplain e.1 (by simp [hpieces])).ne_nil
      have hmem : c ∈ (String.intercalate " | " (f.pieces.map (·.1))).toList := by
        rw [hpieces, List.map_cons]
        cases pieces.map (·.1) with
        | nil => simp [hcs]
        | cons part parts => simp [String.intercalate_cons_cons, hcs]
      have hc := (hplain e.1 (by simp [hpieces])).nonblank c (hcs ▸ List.mem_cons_self)
      simpa using Text.trim_ne_nil hmem hc
    rw [if_neg hblank, ← List.foldlM_map (f := Text.trim) (g := fun f part => (ofPart? part).map (union f)), hcut]
    exact hfold

end TupleFlags

end Occupancy
