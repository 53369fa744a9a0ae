import Mathlib
import Occupancy.Proofs.Image.Stray
/-!
# Images are framed

An image says by itself where it ends. Decoding a part of it goes as that of the whole as far as the part reaches,
so it finds no fault before it asks for a field that the part does not have (`Cursor.word_cut`, `readPages_cut`); and
where there is more than the whole, the rest is still there after the buffer (`Cursor.last_extend`). So no accepted
image begins another (`decode_framed`).
-/

namespace Occupancy.Image

variable {limits : Limits} {bytes more : List UInt8} {b : Bitmap}

namespace Cursor

variable {c d : Cursor} {w : Nat}

theorem Reads.position_word (h : c.Reads (Byte.word w) d) : d.position = c.position + 4 := h.position

/-! ## Reading a part -/

/-- The cursor in the first `n` bytes of its image. -/
def cut (c : Cursor) (n : Nat) : Cursor := ⟨c.rest.take (n - c.position), c.position, n⟩

theorem ofBytes_take {n : Nat} (h : n ≤ bytes.length) : ofBytes (bytes.take n) = (ofBytes bytes).cut n := by
  rw [ofBytes, List.length_take_of_le h]
  rfl

theorem Reads.cut {taken : List UInt8} {n : Nat} (h : c.Reads taken d) (hle : d.position ≤ n) :
    (c.cut n).Reads taken (d.cut n) where
  rest := by
    have hposition := h.position
    have henough : taken.length ≤ n - c.position := by omega
    have hleft : n - c.position - taken.length = n - d.position := by omega
    rw [Cursor.cut, h.rest, List.take_append, List.take_of_length_le henough, hleft]
    rfl
  position := h.position
  size := rfl

/-- A word is read from a part that reaches to the end of it. From any other it is missing, and as words begin at every
fourth byte, the length of the part tells which word it is. -/
theorem word_cut {n : Nat} (h : c.word = .ok (w, d)) (hword : 4 ∣ c.position) (hle : c.position ≤ n) :
    (c.cut n).word = if d.position ≤ n then .ok (w, d.cut n) else .error (.shortRead (4 * (n / 4 + 1)) n) := by
  obtain ⟨hlt, hreads⟩ := word_eq_ok_iff.1 h
  split
  · next hfits => exact word_eq_ok_iff.2 ⟨hlt, hreads.cut hfits⟩
  · next hless =>
    have hposition := hreads.position_word
    have hend : c.position + 4 = 4 * (n / 4 + 1) := by omega
    rcases (c.cut n).word_cases with ⟨b₀, b₁, b₂, b₃, rest, hrest, -⟩ | ⟨-, hshort⟩
    · have hlength := congrArg List.length hrest
      simp only [cut, List.length_take, List.length_append, List.length_cons, List.length_nil] at hlength
      omega
    · rw [hshort, ← hend]
      rfl

theorem last_cut {count n : Nat} (hle : c.position ≤ n) (hless : n < c.position + count) :
    (c.cut n).last count = .error (.shortRead (c.position + count) n) := by
  have hleft : (c.cut n).rest.length < count := by
    rw [cut, List.length_take]
    omega
  exact if_pos hleft

/-! ## Reading on -/

/-- The cursor in its image with more bytes after it. -/
def extend (c : Cursor) (more : List UInt8) : Cursor := ⟨c.rest ++ more, c.position, c.size + more.length⟩

theorem ofBytes_append (bytes more : List UInt8) : ofBytes (bytes ++ more) = (ofBytes bytes).extend more := by
  rw [ofBytes, List.length_append]
  rfl

theorem Reads.extend {taken : List UInt8} (h : c.Reads taken d) (more : List UInt8) :
    (c.extend more).Reads taken (d.extend more) where
  rest := by rw [Cursor.extend, h.rest, List.append_assoc]; rfl
  position := h.position
  size := congrArg (· + more.length) h.size

theorem word_extend (h : c.word = .ok (w, d)) (more : List UInt8) : (c.extend more).word = .ok (w, d.extend more) := by
  obtain ⟨hlt, hreads⟩ := word_eq_ok_iff.1 h
  exact word_eq_ok_iff.2 ⟨hlt, hreads.extend more⟩

theorem last_extend {count : Nat} {buffer : List UInt8} (h : c.last count = .ok buffer) (hmore : more ≠ []) :
    (c.extend more).last count = .error (.malformed (.trailing more.length)) := by
  obtain ⟨rfl, hrest⟩ := last_eq_ok_iff.1 h
  have hpos : 0 < more.length := List.length_pos_iff.2 hmore
  have hleft : (c.extend more).rest.length = buffer.length + more.length := by
    rw [extend, hrest, List.length_append]
  have henough : ¬ buffer.length + more.length < buffer.length := by omega
  have htrailing : buffer.length < buffer.length + more.length := by omega
  rw [last, hleft, if_neg henough, if_pos htrailing, Nat.add_sub_cancel_left]

end Cursor

/-! ## The pages of a part -/

theorem position_readPages {maxItems count page : Nat} {p q : Pages} {c d : Cursor}
    (h : readPages maxItems count page p c = .ok (q, d)) : d.position = c.position + 4 * count := by
  induction count generalizing page p c with
  | zero =>
    obtain ⟨-, rfl⟩ := Prod.mk.inj (Except.ok.inj h)
    rfl
  | succ count ih =>
    obtain ⟨w, c₁, hword, p', -, hrest⟩ := readPages_succ_eq_ok_iff.1 h
    have hposition := (Cursor.word_eq_ok_iff.1 hword).2.position_word
    have hih := ih hrest
    omega

theorem readPages_cut {maxItems count page n : Nat} {p q : Pages} {c d : Cursor}
    (h : readPages maxItems count page p c = .ok (q, d)) (hword : 4 ∣ c.position) (hle : c.position ≤ n) :
    readPages maxItems count page p (c.cut n) =
      if d.position ≤ n then .ok (q, d.cut n) else .error (.shortRead (4 * (n / 4 + 1)) n) := by
  induction count generalizing page p c with
  | zero =>
    obtain ⟨rfl, rfl⟩ := Prod.mk.inj (Except.ok.inj h)
    rw [if_pos hle]
    rfl
  | succ count ih =>
    obtain ⟨w, c₁, hfirst, p', hpush, hrest⟩ := readPages_succ_eq_ok_iff.1 h
    have hposition := (Cursor.word_eq_ok_iff.1 hfirst).2.position_word
    have hend := position_readPages hrest
    rw [readPages, Cursor.word_cut hfirst hword hle]
    by_cases hfits : c₁.position ≤ n
    · rw [if_pos hfits]
      dsimp only
      rw [hpush]
      exact ih hrest (by omega) hfits
    · have hless : ¬ d.position ≤ n := by omega
      rw [if_neg hfits, if_neg hless]

theorem readPages_extend {maxItems count page : Nat} {p q : Pages} {c d : Cursor} (hp : p.closed = false)
    (h : readPages maxItems count page p c = .ok (q, d)) (more : List UInt8) :
    readPages maxItems count page p (c.extend more) = .ok (q, d.extend more) := by
  obtain ⟨ends, hlen, hends, hchain, hq, hreads⟩ := (readPages_eq_ok_iff hp).1 h
  exact (readPages_eq_ok_iff hp).2 ⟨ends, hlen, hends, hchain, hq, hreads.extend more⟩

/-! ## Parts and extensions of images -/

/-- Where the field ends that byte `position` of an image of `size` bytes is part of. -/
def fieldEnd (pageCount size position : Nat) : Nat :=
  if position < 4 * (pageCount + 3) then 4 * (position / 4 + 1) else size

theorem fieldEnd_of_head {pageCount size n : Nat} (h : n < 4 * (pageCount + 3)) :
    fieldEnd pageCount size n = 4 * (n / 4 + 1) := if_pos h

theorem fieldEnd_of_buffer {pageCount size n : Nat} (h : 4 * (pageCount + 3) ≤ n) :
    fieldEnd pageCount size n = size := if_neg (Nat.not_lt.2 h)

theorem lt_fieldEnd {pageCount size n : Nat} (h : n < size) : n < fieldEnd pageCount size n := by
  unfold fieldEnd
  split <;> omega

theorem fieldEnd_le {pageCount size n : Nat} (h : 4 * (pageCount + 3) ≤ size) :
    fieldEnd pageCount size n ≤ size := by
  unfold fieldEnd
  split <;> omega

theorem bind_ok {ε α β : Type} (a : α) (f : α → Except ε β) : (Except.ok a >>= f) = f a := rfl

/-- A step that reads a field which ends at `stop` is followed by the next one where the part reaches that far. -/
theorem bind_cut {α β : Type} {stop n : Nat} {a : α} {fault : ImageError} {next : α → Except ImageError β}
    {result : Except ImageError β} (hshort : n < stop → .error fault = result) (hfits : stop ≤ n → next a = result) :
    ((if stop ≤ n then .ok a else .error fault) >>= next) = result := by
  split
  · next h => exact hfits h
  · next h => exact hshort (Nat.not_le.1 h)

theorem decode_take {n : Nat} (h : Bitmap.decode limits bytes = .ok b) (hn : n < bytes.length) :
    Bitmap.decode limits (bytes.take n) = .error (.shortRead (fieldEnd b.table.pageCount bytes.length n) n) := by
  obtain ⟨pageCount, c₁, h₁, pages, c₂, h₂, bits, c₃, h₃, capacity, c₄, h₄, hbits, buffer, h₅, -, rfl⟩ :=
    decode_eq_ok_iff_steps.1 h
  have r₁ := (Cursor.word_eq_ok_iff.1 h₁).2
  obtain ⟨_, -, -, -, -, r₂⟩ := (readPages_eq_ok_iff rfl).1 h₂
  have r₃ := (Cursor.word_eq_ok_iff.1 h₃).2
  have r₄ := (Cursor.word_eq_ok_iff.1 h₄).2
  -- where each field of the whole image ends
  have p₁ : c₁.position = 4 := r₁.position_word
  have p₂ := position_readPages h₂
  have p₃ := r₃.position_word
  have p₄ := r₄.position_word
  have hsize : c₄.position + capacity = bytes.length := by
    have hwithin := r₄.within (r₃.within (r₂.within (r₁.within (Cursor.within_ofBytes bytes))))
    obtain ⟨rfl, rfl⟩ := Cursor.last_eq_ok_iff.1 h₅
    rw [hwithin, r₄.size, r₃.size, r₂.size, r₁.size]
    rfl
  have hshort (hlt : n < c₄.position) :
      (.error (.shortRead (4 * (n / 4 + 1)) n) : Except ImageError Bitmap) =
        .error (.shortRead (fieldEnd pageCount bytes.length n) n) := by
    have hhead : n < 4 * (pageCount + 3) := by omega
    rw [fieldEnd_of_head hhead]
  rw [Bitmap.decode, Cursor.ofBytes_take (Nat.le_of_lt hn), Cursor.word_cut h₁ ⟨0, rfl⟩ (Nat.zero_le n)]
  refine bind_cut (fun hlt => hshort (by omega)) fun hn₁ => ?_
  dsimp only
  rw [readPages_cut h₂ (by omega) hn₁]
  refine bind_cut (fun hlt => hshort (by omega)) fun hn₂ => ?_
  dsimp only
  rw [Cursor.word_cut h₃ (by omega) hn₂]
  refine bind_cut (fun hlt => hshort (by omega)) fun hn₃ => ?_
  dsimp only
  rw [Cursor.word_cut h₄ (by omega) hn₃]
  refine bind_cut hshort fun hn₄ => ?_
  dsimp only
  rw [(require_eq_ok_iff (u := ())).2 hbits, bind_ok, Cursor.last_cut hn₄ (by omega), hsize,
    fieldEnd_of_buffer (by omega)]
  rfl

theorem decode_append (h : Bitmap.decode limits bytes = .ok b) (hmore : more ≠ []) :
    Bitmap.decode limits (bytes ++ more) = .error (.malformed (.trailing more.length)) := by
  obtain ⟨pageCount, c₁, h₁, pages, c₂, h₂, bits, c₃, h₃, capacity, c₄, h₄, hbits, buffer, h₅, -, -⟩ :=
    decode_eq_ok_iff_steps.1 h
  rw [Bitmap.decode, Cursor.ofBytes_append, Cursor.word_extend h₁, bind_ok]
  dsimp only
  rw [readPages_extend rfl h₂, bind_ok]
  dsimp only
  rw [Cursor.word_extend h₃, bind_ok]
  dsimp only
  rw [Cursor.word_extend h₄, bind_ok]
  dsimp only
  rw [(require_eq_ok_iff (u := ())).2 hbits, bind_ok, Cursor.last_extend h₅ hmore]
  rfl

theorem head_le_length (h : Bitmap.decode limits bytes = .ok b) : 4 * (b.table.pageCount + 3) ≤ bytes.length := by
  obtain ⟨f, hf, rfl, rfl⟩ := decode_eq_ok_iff.1 h
  rw [hf.length_bytes]
  exact Nat.le_add_right ..

/-- Where decoding accepts bytes, it accepts nothing that they begin with and nothing that begins with them. A part of
them is too short for the field that it breaks off in, which the whole still has; and of bytes that come after them it
says how many they are. -/
theorem decode_framed (h : Bitmap.decode limits bytes = .ok b) :
    (∀ front, front <+: bytes → front ≠ bytes →
      let expected := fieldEnd b.table.pageCount bytes.length front.length
      Bitmap.decode limits front = .error (.shortRead expected front.length) ∧
        front.length < expected ∧ expected ≤ bytes.length) ∧
    ∀ more, more ≠ [] →
      Bitmap.decode limits (bytes ++ more) = .error (.malformed (.trailing more.length)) ∧
        (ImageFault.trailing more.length).message = toString more.length ++ " trailing bytes" := by
  refine ⟨fun front hfront hne => ?_, fun more hmore => ⟨decode_append h hmore, rfl⟩⟩
  have hshorter : front.length < bytes.length :=
    Nat.lt_of_le_of_ne hfront.length_le fun heq => hne (hfront.eq_of_length heq)
  have htake : front = bytes.take front.length := List.prefix_iff_eq_take.1 hfront
  refine ⟨?_, lt_fieldEnd hshorter, fieldEnd_le (head_le_length h)⟩
  have hdecode := decode_take h hshorter
  rwa [← htake] at hdecode

/-- Cut in the table, between the words after it and in the buffer, and with a byte more. -/
theorem decode_framed_strayImage :
    Bitmap.decode {} (strayImage.take 7) = .error (.shortRead 8 7) ∧
      Bitmap.decode {} (strayImage.take 12) = .error (.shortRead 16 12) ∧
      Bitmap.decode {} (strayImage.take 21) = .error (.shortRead 22 21) ∧
      Bitmap.decode {} (strayImage ++ [0]) = .error (.malformed (.trailing 1)) := by
  obtain ⟨hshort, hlong⟩ := decode_framed decode_strayImage
  have hcut (n : Nat) (hn : n < strayImage.length) := hshort (strayImage.take n) (List.take_prefix ..) fun heq =>
    Nat.ne_of_lt hn (List.length_take_of_le (Nat.le_of_lt hn) ▸ congrArg List.length heq)
  exact ⟨(hcut 7 (by decide)).1, (hcut 12 (by decide)).1, (hcut 21 (by decide)).1, (hlong [0] (by decide)).1⟩

end Occupancy.Image
