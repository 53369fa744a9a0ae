import Mathlib.Data.List.Chain
import Occupancy.Bitmap.Image
/-!
# Which bytes are images

`Fields` are the numbers and bytes that an image is made of. `decode_eq_ok_iff` says that decoding accepts
just the images of well-formed fields, and `Fields.encode_bitmap` that there is one image for each bitmap.
-/

namespace Occupancy

/-- A refused image is malformed, or it ends before byte `expected`. -/
def ImageError.Fits (size : Nat) : ImageError → Prop
  | .shortRead expected actual => actual = size ∧ size < expected
  | .malformed _ => True

namespace Image

theorem bind_eq_ok {ε α β : Type} {x : Except ε α} {f : α → Except ε β} {b : β} :
    (x >>= f) = .ok b ↔ ∃ a, x = .ok a ∧ f a = .ok b := by
  cases x <;> simp [bind, Except.bind]

theorem bind_eq_error {ε α β : Type} {x : Except ε α} {f : α → Except ε β} {e : ε} :
    (x >>= f) = .error e ↔ x = .error e ∨ ∃ a, x = .ok a ∧ f a = .error e := by
  cases x <;> simp [bind, Except.bind]

/-- The page that ends at bit `stop` can come after one that ends at bit `start`. -/
def Follows (maxItems start stop : Nat) : Prop := start ≤ stop ∧ stop - start ≤ maxItems

/-- The words of `count` pages, the first of which are registered. -/
def pageWords (count : Nat) (ends : List Nat) : List Nat :=
  ends ++ List.replicate (count - ends.length) unregistered

/-- What an image says: where the registered pages end, and what the buffer holds. -/
structure Fields where
  pageCount : Nat
  ends : List Nat
  body : List UInt8

namespace Fields

def total (f : Fields) : Nat := f.ends.getLast?.getD 0

def usedBytes (f : Fields) : Nat := Capacity.bytesFor f.total

def bytes (f : Fields) : List UInt8 :=
  Byte.word f.pageCount ++ (pageWords f.pageCount f.ends).flatMap Byte.word ++ Byte.word (8 * f.usedBytes) ++
    Byte.word f.body.length ++ f.body

def bitmap (f : Fields) (limits : Limits) : Bitmap where
  table := { pageCount := f.pageCount, ends := f.ends.toArray }
  maxItems := limits.maxItems
  chunk := limits.chunk
  bytes := f.body.toArray

structure WellFormed (maxItems : Nat) (f : Fields) : Prop where
  pageCount_lt : f.pageCount < UInt32.size
  ends_le : f.ends.length ≤ f.pageCount
  ends_lt : ∀ stop ∈ f.ends, stop < unregistered
  /-- Pages end one after the other, the first of them after bit 0. -/
  chain : (0 :: f.ends).IsChain (Follows maxItems)
  usedBits_lt : 8 * f.usedBytes < UInt32.size
  body_lt : f.body.length < UInt32.size
  used_le : f.usedBytes ≤ f.body.length

end Fields

/-! ## Reading fields -/

namespace Cursor

/-- The next bytes are `bytes`, and after them comes `c'`. -/
structure Reads (c : Cursor) (bytes : List UInt8) (c' : Cursor) : Prop where
  rest : c.rest = bytes ++ c'.rest
  position : c'.position = c.position + bytes.length
  size : c'.size = c.size

/-- What is read and what is left make up the whole. -/
def Within (c : Cursor) : Prop := c.position + c.rest.length = c.size

theorem within_ofBytes (bytes : List UInt8) : (ofBytes bytes).Within := Nat.zero_add _

theorem reads_nil {c c' : Cursor} : c.Reads [] c' ↔ c' = c := by
  constructor
  · rintro ⟨hr, hp, hs⟩
    obtain ⟨rest, position, size⟩ := c
    obtain ⟨rest', position', size'⟩ := c'
    simp_all
  · rintro rfl
    exact ⟨rfl, rfl, rfl⟩

theorem reads_append {c c' : Cursor} {as bs : List UInt8} :
    c.Reads (as ++ bs) c' ↔ ∃ d, c.Reads as d ∧ d.Reads bs c' := by
  constructor
  · rintro ⟨hr, hp, hs⟩
    refine ⟨⟨bs ++ c'.rest, c.position + as.length, c.size⟩, ⟨?_, rfl, rfl⟩, ⟨rfl, ?_, hs⟩⟩
    · rw [hr, List.append_assoc]
    · rw [hp, List.length_append, Nat.add_assoc]
  · rintro ⟨d, ⟨hr, hp, hs⟩, ⟨hr', hp', hs'⟩⟩
    refine ⟨?_, ?_, hs'.trans hs⟩
    · rw [hr, hr', List.append_assoc]
    · rw [hp', hp, List.length_append, Nat.add_assoc]

theorem Reads.within {c c' : Cursor} {bytes : List UInt8} (h : c.Reads bytes c') (hc : c.Within) : c'.Within := by
  have hl := congrArg List.length h.rest
  rw [List.length_append] at hl
  rw [Within] at hc ⊢
  rw [h.position, h.size, ← hc, hl, Nat.add_assoc]

/-- There are four bytes, which are the next word, or the image ends before the fourth. -/
theorem word_cases (c : Cursor) :
    (∃ b₀ b₁ b₂ b₃ rest, c.rest = [b₀, b₁, b₂, b₃] ++ rest ∧
      c.word = .ok (Byte.ofWord b₀ b₁ b₂ b₃, ⟨rest, c.position + 4, c.size⟩)) ∨
    c.rest.length < 4 ∧ c.word = .error (.shortRead (c.position + 4) c.size) := by
  obtain ⟨rest, position, size⟩ := c
  match rest with
  | [] | [_] | [_, _] | [_, _, _] =>
    refine .inr ⟨?_, rfl⟩
    simp only [List.length_cons, List.length_nil]
    omega
  | b₀ :: b₁ :: b₂ :: b₃ :: rest => exact .inl ⟨b₀, b₁, b₂, b₃, rest, rfl, rfl⟩

theorem word_eq_ok_iff {c c' : Cursor} {n : Nat} :
    c.word = .ok (n, c') ↔ n < UInt32.size ∧ c.Reads (Byte.word n) c' := by
  constructor
  · intro h
    rcases c.word_cases with ⟨b₀, b₁, b₂, b₃, rest, hr, hw⟩ | ⟨-, hw⟩
    · rw [hw] at h
      obtain ⟨rfl, rfl⟩ := Prod.mk.inj (Except.ok.inj h)
      refine ⟨Byte.ofWord_lt .., ?_⟩
      rw [Byte.word_ofWord]
      exact ⟨hr, rfl, rfl⟩
    · rw [hw] at h
      cases h
  · rintro ⟨hn, hr, hp, hs⟩
    obtain ⟨rest, position, size⟩ := c
    obtain ⟨rest', position', size'⟩ := c'
    simp only [Byte.word, List.cons_append, List.nil_append, List.length_cons, List.length_nil] at hr hp hs
    subst hr hp hs
    simp only [word, Byte.ofWord_word n hn]

theorem word_error {c : Cursor} {e : ImageError} (hc : c.Within) (h : c.word = .error e) : e.Fits c.size := by
  rcases c.word_cases with ⟨b₀, b₁, b₂, b₃, rest, -, hw⟩ | ⟨hlt, hw⟩
  · rw [hw] at h
    cases h
  · rw [hw] at h
    cases h
    refine ⟨rfl, ?_⟩
    rw [← hc]
    omega

theorem last_eq_ok_iff {c : Cursor} {count : Nat} {buffer : List UInt8} :
    c.last count = .ok buffer ↔ buffer.length = count ∧ c.rest = buffer := by
  unfold last
  dsimp only
  split
  · simp only [reduceCtorEq, false_iff]
    rintro ⟨rfl, rfl⟩
    omega
  · split
    · simp only [reduceCtorEq, false_iff]
      rintro ⟨rfl, rfl⟩
      omega
    · rw [Except.ok.injEq]
      constructor
      · rintro rfl
        exact ⟨by omega, rfl⟩
      · exact And.right

theorem last_error {c : Cursor} {count : Nat} {e : ImageError} (hc : c.Within) (h : c.last count = .error e) :
    e.Fits c.size := by
  unfold last at h
  dsimp only at h
  split at h
  · cases h
    refine ⟨rfl, ?_⟩
    rw [Within] at hc
    omega
  · split at h <;> cases h
    trivial

end Cursor

/-! ## Reading the pages -/

theorem Pages.push_eq_ok_iff {p q : Pages} {maxItems page w : Nat} :
    p.push maxItems page w = .ok q ↔
      w = unregistered ∧ q = { p with closed := true } ∨
      w ≠ unregistered ∧ p.closed = false ∧ Follows maxItems p.total w ∧ q = { p with ends := p.ends.push w } := by
  unfold push Follows
  by_cases hw : w = unregistered
  · simp only [hw, if_pos, Except.ok.injEq, true_and, ne_eq, not_true_eq_false, false_and, or_false]
    exact eq_comm
  · cases hc : p.closed with
    | true => simp [hw]
    | false =>
      simp only [hw, if_false, Bool.false_eq_true, ne_eq, not_false_eq_true, false_and, true_and, false_or]
      split
      · simp only [reduceCtorEq, false_iff]
        omega
      · split
        · simp only [reduceCtorEq, false_iff]
          omega
        · rw [Except.ok.injEq]
          constructor
          · rintro rfl
            exact ⟨by omega, rfl⟩
          · rintro ⟨-, rfl⟩
            rfl

theorem pageWords_nil (count : Nat) : pageWords count [] = List.replicate count unregistered := by
  simp [pageWords]

theorem pageWords_succ_nil (count : Nat) : pageWords (count + 1) [] = unregistered :: pageWords count [] := by
  rw [pageWords_nil, pageWords_nil, List.replicate_succ]

theorem pageWords_cons (count stop : Nat) (ends : List Nat) :
    pageWords (count + 1) (stop :: ends) = stop :: pageWords count ends := by
  simp [pageWords]

theorem readPages_succ_eq_ok_iff {maxItems count page : Nat} {p q : Pages} {c c' : Cursor} :
    readPages maxItems (count + 1) page p c = .ok (q, c') ↔
      ∃ w d, c.word = .ok (w, d) ∧ ∃ p', p.push maxItems page w = .ok p' ∧
        readPages maxItems count (page + 1) p' d = .ok (q, c') := by
  rw [readPages]
  cases c.word with
  | error e => simp
  | ok wd =>
    obtain ⟨w, d⟩ := wd
    simp only [Except.ok.injEq, Prod.mk.injEq]
    cases hp : p.push maxItems page w with
    | error fault =>
      simp only [reduceCtorEq, false_iff]
      rintro ⟨w', d', ⟨rfl, rfl⟩, p', hp', -⟩
      rw [hp] at hp'
      cases hp'
    | ok p' =>
      constructor
      · exact fun h => ⟨w, d, ⟨rfl, rfl⟩, p', hp, h⟩
      · rintro ⟨w', d', ⟨rfl, rfl⟩, p'', hp', h⟩
        rw [hp, Except.ok.injEq] at hp'
        rwa [hp']

/-- Past a page that is not registered, none is. -/
theorem readPages_closed {maxItems count page : Nat} {p q : Pages} {c c' : Cursor} (hp : p.closed = true) :
    readPages maxItems count page p c = .ok (q, c') ↔
      q = p ∧ c.Reads ((pageWords count []).flatMap Byte.word) c' := by
  induction count generalizing page c with
  | zero => simp [readPages, pageWords, Cursor.reads_nil, eq_comm]
  | succ count ih =>
    have hsame : ({ p with closed := true } : Pages) = p := by rw [← hp]
    rw [readPages_succ_eq_ok_iff, pageWords_succ_nil, List.flatMap_cons, Cursor.reads_append]
    constructor
    · rintro ⟨w, d, hw, p', hpush, hrest⟩
      rcases Pages.push_eq_ok_iff.1 hpush with ⟨rfl, rfl⟩ | ⟨-, hopen, -⟩
      · rw [hsame, ih] at hrest
        exact ⟨hrest.1, d, (Cursor.word_eq_ok_iff.1 hw).2, hrest.2⟩
      · rw [hp] at hopen
        cases hopen
    · rintro ⟨hq, d, hd, hrest⟩
      have hw : c.word = .ok (unregistered, d) := Cursor.word_eq_ok_iff.2 ⟨by decide, hd⟩
      refine ⟨unregistered, d, hw, p, ?_, ih.2 ⟨hq, hrest⟩⟩
      exact Pages.push_eq_ok_iff.2 (.inl ⟨rfl, hsame.symm⟩)

/-- The pages that are read are the registered ones, which come first. -/
theorem readPages_eq_ok_iff {maxItems count page : Nat} {p q : Pages} {c c' : Cursor} (hp : p.closed = false) :
    readPages maxItems count page p c = .ok (q, c') ↔
      ∃ ends, ends.length ≤ count ∧ (∀ stop ∈ ends, stop < unregistered) ∧
        (p.total :: ends).IsChain (Follows maxItems) ∧ q = ⟨p.ends ++ ends.toArray, decide (ends.length < count)⟩ ∧
        c.Reads ((pageWords count ends).flatMap Byte.word) c' := by
  -- the first word is the end of a page, or it closes the table for all the words after it
  induction count generalizing page p c with
  | zero =>
    have hsame : p = ⟨p.ends, false⟩ := by rw [← hp]
    simp only [readPages, Except.ok.injEq, Prod.mk.injEq]
    constructor
    · rintro ⟨rfl, rfl⟩
      refine ⟨[], Nat.le_refl _, by simp, .singleton _, ?_, Cursor.reads_nil.2 rfl⟩
      simpa using hsame
    · rintro ⟨ends, hlen, -, -, rfl, hr⟩
      obtain rfl := List.length_eq_zero_iff.1 (Nat.le_zero.1 hlen)
      refine ⟨?_, (Cursor.reads_nil.1 hr).symm⟩
      simpa using hsame
  | succ count ih =>
    rw [readPages_succ_eq_ok_iff]
    constructor
    · rintro ⟨w, d, hw, p', hpush, hrest⟩
      obtain ⟨hlt, hd⟩ := Cursor.word_eq_ok_iff.1 hw
      rcases Pages.push_eq_ok_iff.1 hpush with ⟨rfl, rfl⟩ | ⟨hne, -, hf, rfl⟩
      · obtain ⟨rfl, hr⟩ := (readPages_closed rfl).1 hrest
        refine ⟨[], Nat.zero_le _, by simp, .singleton _, by simp, ?_⟩
        rw [pageWords_succ_nil, List.flatMap_cons]
        exact Cursor.reads_append.2 ⟨d, hd, hr⟩
      · obtain ⟨ends, hlen, hends, hchain, rfl, hr⟩ := (ih (p := { p with ends := p.ends.push w }) hp).1 hrest
        refine ⟨w :: ends, Nat.succ_le_succ hlen, ?_, ?_, ?_, ?_⟩
        · refine List.forall_mem_cons.2 ⟨?_, hends⟩
          simp only [unregistered, UInt32.size] at hlt hne ⊢
          omega
        · rw [Pages.total, Array.back?_push] at hchain
          exact List.isChain_cons_cons.2 ⟨hf, hchain⟩
        · simp
        · rw [pageWords_cons, List.flatMap_cons]
          exact Cursor.reads_append.2 ⟨d, hd, hr⟩
    · rintro ⟨ends, hlen, hends, hchain, rfl, hr⟩
      cases ends with
      | nil =>
        rw [pageWords_succ_nil, List.flatMap_cons] at hr
        obtain ⟨d, hd, hr⟩ := Cursor.reads_append.1 hr
        refine ⟨unregistered, d, Cursor.word_eq_ok_iff.2 ⟨by decide, hd⟩, { p with closed := true },
          Pages.push_eq_ok_iff.2 (.inl ⟨rfl, rfl⟩), (readPages_closed rfl).2 ⟨by simp, hr⟩⟩
      | cons w ends =>
        rw [pageWords_cons, List.flatMap_cons] at hr
        obtain ⟨d, hd, hr⟩ := Cursor.reads_append.1 hr
        obtain ⟨hw, hends⟩ := List.forall_mem_cons.1 hends
        obtain ⟨hf, hchain⟩ := List.isChain_cons_cons.1 hchain
        have hlt : w < UInt32.size := Nat.lt_of_lt_of_le hw (Nat.sub_le _ _)
        refine ⟨w, d, Cursor.word_eq_ok_iff.2 ⟨hlt, hd⟩, { p with ends := p.ends.push w },
          Pages.push_eq_ok_iff.2 (.inr ⟨Nat.ne_of_lt hw, hp, hf, rfl⟩), ?_⟩
        refine (ih (p := { p with ends := p.ends.push w }) hp).2
          ⟨ends, Nat.le_of_succ_le_succ hlen, hends, ?_, by simp, hr⟩
        rw [Pages.total, Array.back?_push]
        exact hchain

theorem readPages_error {maxItems count page : Nat} {p : Pages} {c : Cursor} {e : ImageError} (hc : c.Within)
    (h : readPages maxItems count page p c = .error e) : e.Fits c.size := by
  induction count generalizing page p c with
  | zero => cases h
  | succ count ih =>
    rw [readPages] at h
    split at h
    · next hw =>
      cases h
      exact Cursor.word_error hc hw
    · next w d hw =>
      split at h
      · cases h
        trivial
      · have hr := (Cursor.word_eq_ok_iff.1 hw).2
        rw [← hr.size]
        exact ih (hr.within hc) h

/-! ## Reading the whole -/

theorem require_eq_ok_iff {rule : Prop} [Decidable rule] {fault : ImageFault} {u : Unit} :
    require rule fault = .ok u ↔ rule := by
  unfold require
  split <;> simp [*]

theorem require_error {rule : Prop} [Decidable rule] {fault : ImageFault} {e : ImageError} {size : Nat}
    (h : require rule fault = .error e) : e.Fits size := by
  unfold require at h
  split at h <;> cases h
  trivial

theorem decode_eq_ok_iff_steps {limits : Limits} {bytes : List UInt8} {b : Bitmap} :
    Bitmap.decode limits bytes = .ok b ↔
      ∃ pageCount c₁, (Cursor.ofBytes bytes).word = .ok (pageCount, c₁) ∧
      ∃ pages c₂, readPages limits.maxItems pageCount 0 {} c₁ = .ok (pages, c₂) ∧
      ∃ bits c₃, c₂.word = .ok (bits, c₃) ∧
      ∃ capacity c₄, c₃.word = .ok (capacity, c₄) ∧
      bits = 8 * Capacity.bytesFor pages.total ∧
      ∃ buffer, c₄.last capacity = .ok buffer ∧
      Capacity.bytesFor pages.total ≤ capacity ∧
      ⟨⟨pageCount, pages.ends⟩, limits.maxItems, limits.chunk, buffer.toArray⟩ = b := by
  simp only [Bitmap.decode, bind_eq_ok, Prod.exists, require_eq_ok_iff, exists_const, pure, Except.pure,
    Except.ok.injEq]

/-- The rows of bytes that decoding accepts are the images of well-formed fields. -/
theorem decode_eq_ok_iff {limits : Limits} {bytes : List UInt8} {b : Bitmap} :
    Bitmap.decode limits bytes = .ok b ↔
      ∃ f : Fields, f.WellFormed limits.maxItems ∧ bytes = f.bytes ∧ b = f.bitmap limits := by
  rw [decode_eq_ok_iff_steps]
  constructor
  · rintro ⟨n, c₁, h₁, pages, c₂, h₂, bits, c₃, h₃, capacity, c₄, h₄, rfl, buffer, h₅, hused, rfl⟩
    obtain ⟨hn, r₁⟩ := Cursor.word_eq_ok_iff.1 h₁
    obtain ⟨ends, hlen, hends, hchain, rfl, r₂⟩ := (readPages_eq_ok_iff rfl).1 h₂
    obtain ⟨hbits, r₃⟩ := Cursor.word_eq_ok_iff.1 h₃
    obtain ⟨hcapacity, r₄⟩ := Cursor.word_eq_ok_iff.1 h₄
    obtain ⟨rfl, hbuffer⟩ := Cursor.last_eq_ok_iff.1 h₅
    have htotal : (Pages.mk (#[] ++ ends.toArray) (decide (ends.length < n))).total =
        (⟨n, ends, buffer⟩ : Fields).total := by simp [Pages.total, Fields.total]
    rw [htotal] at hbits hused r₃
    refine ⟨⟨n, ends, buffer⟩, ⟨hn, hlen, hends, hchain, hbits, hcapacity, hused⟩, ?_, by simp [Fields.bitmap]⟩
    have hall : bytes = (Cursor.ofBytes bytes).rest := rfl
    rw [hall, r₁.rest, r₂.rest, r₃.rest, r₄.rest, hbuffer]
    simp only [Fields.bytes, Fields.usedBytes, List.append_assoc]
  · rintro ⟨f, hf, rfl, rfl⟩
    -- the cursor that is left with the buffer, and those before it
    have hread : (Cursor.ofBytes f.bytes).Reads
        (Byte.word f.pageCount ++ (pageWords f.pageCount f.ends).flatMap Byte.word ++ Byte.word (8 * f.usedBytes) ++
          Byte.word f.body.length) ⟨f.body, f.bytes.length - f.body.length, f.bytes.length⟩ := by
      refine ⟨rfl, ?_, rfl⟩
      simp only [Fields.bytes, Cursor.ofBytes, List.length_append]
      omega
    obtain ⟨c₃, hread, r₄⟩ := Cursor.reads_append.1 hread
    obtain ⟨c₂, hread, r₃⟩ := Cursor.reads_append.1 hread
    obtain ⟨c₁, r₁, r₂⟩ := Cursor.reads_append.1 hread
    have htotal : (Pages.mk (#[] ++ f.ends.toArray) (decide (f.ends.length < f.pageCount))).total = f.total := by
      simp [Pages.total, Fields.total]
    refine ⟨_, _, Cursor.word_eq_ok_iff.2 ⟨hf.pageCount_lt, r₁⟩, _, _,
      (readPages_eq_ok_iff rfl).2 ⟨f.ends, hf.ends_le, hf.ends_lt, hf.chain, rfl, r₂⟩,
      _, _, Cursor.word_eq_ok_iff.2 ⟨hf.usedBits_lt, r₃⟩, _, _, Cursor.word_eq_ok_iff.2 ⟨hf.body_lt, r₄⟩,
      ?_, f.body, Cursor.last_eq_ok_iff.2 ⟨rfl, rfl⟩, ?_, ?_⟩
    · rw [htotal, Fields.usedBytes]
    · rw [htotal]
      exact hf.used_le
    · simp [Fields.bitmap]

theorem decode_error {limits : Limits} {bytes : List UInt8} {e : ImageError}
    (h : Bitmap.decode limits bytes = .error e) : e.Fits bytes.length := by
  -- what is read and what is left stay the whole, so a field that does not fit ends past the last byte
  have hc := Cursor.within_ofBytes bytes
  have hsize : (Cursor.ofBytes bytes).size = bytes.length := rfl
  rw [← hsize]
  rcases bind_eq_error.1 h with h | ⟨⟨n, c₁⟩, h₁, h⟩
  · exact Cursor.word_error hc h
  have r₁ := (Cursor.word_eq_ok_iff.1 h₁).2
  have hc₁ := r₁.within hc
  rw [← r₁.size]
  rcases bind_eq_error.1 h with h | ⟨⟨pages, c₂⟩, h₂, h⟩
  · exact readPages_error hc₁ h
  obtain ⟨ends, -, -, -, -, r₂⟩ := (readPages_eq_ok_iff rfl).1 h₂
  have hc₂ := r₂.within hc₁
  rw [← r₂.size]
  rcases bind_eq_error.1 h with h | ⟨⟨bits, c₃⟩, h₃, h⟩
  · exact Cursor.word_error hc₂ h
  have r₃ := (Cursor.word_eq_ok_iff.1 h₃).2
  have hc₃ := r₃.within hc₂
  rw [← r₃.size]
  rcases bind_eq_error.1 h with h | ⟨⟨capacity, c₄⟩, h₄, h⟩
  · exact Cursor.word_error hc₃ h
  have r₄ := (Cursor.word_eq_ok_iff.1 h₄).2
  have hc₄ := r₄.within hc₃
  rw [← r₄.size]
  rcases bind_eq_error.1 h with h | ⟨-, -, h⟩
  · exact require_error h
  rcases bind_eq_error.1 h with h | ⟨buffer, -, h⟩
  · exact Cursor.last_error hc₄ h
  rcases bind_eq_error.1 h with h | ⟨-, -, h⟩
  · exact require_error h
  · cases h

/-! ## The image of what was decoded -/

theorem tableWords_eq {t : PageTable} (h : t.registered ≤ t.pageCount) :
    tableWords t = pageWords t.pageCount t.ends.toList := by
  refine List.ext_getElem ?_ fun page h₁ h₂ => ?_
  · simp only [PageTable.registered] at h
    simp only [tableWords, pageWords, List.length_map, List.length_range, List.length_append,
      List.length_replicate, Array.length_toList]
    omega
  · simp only [tableWords, pageWords, List.getElem_map, List.getElem_range, List.getElem_append,
      List.getElem_replicate, Array.length_toList, Array.getElem_toList, Array.getD_eq_getD_getElem?]
    by_cases hp : page < t.ends.size <;> simp [hp]

theorem Fields.usedBytes_bitmap (f : Fields) (limits : Limits) : (f.bitmap limits).usedBytes = f.usedBytes := by
  simp [Bitmap.usedBytes, PageTable.total, Fields.usedBytes, Fields.total, Fields.bitmap]

theorem Fields.encode_bitmap {maxItems : Nat} {f : Fields} (hf : f.WellFormed maxItems) (limits : Limits) :
    (f.bitmap limits).encode = f.bytes := by
  have hwords : tableWords (f.bitmap limits).table = pageWords f.pageCount f.ends :=
    tableWords_eq (t := (f.bitmap limits).table) hf.ends_le
  rw [Bitmap.encode, hwords, Bitmap.usedBits, usedBytes_bitmap]
  rfl

theorem encode_of_decode {limits : Limits} {bytes : List UInt8} {b : Bitmap}
    (h : Bitmap.decode limits bytes = .ok b) : b.encode = bytes := by
  obtain ⟨f, hf, rfl, rfl⟩ := decode_eq_ok_iff.1 h
  exact Fields.encode_bitmap hf limits

end Image

end Occupancy
