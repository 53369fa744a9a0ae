import Occupancy.Proofs.Image.Format
/-!
# Decoding by positions

Here an image lies in an array and is read by positions, and each slice, index and subtraction is checked:
one without a result is a trap. `decode_agrees` says that no row of bytes leads to a trap, and that the
answer is the one of `Bitmap.decode`.
-/

namespace Occupancy.Image.Checked

inductive Trap where
  | slice (start stop size : Nat)
  | index (position size : Nat)
  | underflow (whole part : Nat)
  deriving DecidableEq, Repr

/-- A step of decoding: it ends in a trap, is refused or has a result. -/
abbrev Step (α : Type) := ExceptT ImageError (Except Trap) α

def trap {α : Type} (t : Trap) : Step α := ExceptT.mk (.error t)

def slice (buf : Array UInt8) (start stop : Nat) : Step (Array UInt8) :=
  if start ≤ stop ∧ stop ≤ buf.size then pure (buf.extract start stop) else trap (.slice start stop buf.size)

def index (buf : Array UInt8) (position : Nat) : Step UInt8 :=
  match buf[position]? with
  | some byte => pure byte
  | none => trap (.index position buf.size)

def sub (whole part : Nat) : Step Nat :=
  if part ≤ whole then pure (whole - part) else trap (.underflow whole part)

structure Reader where
  buf : Array UInt8
  position : Nat

namespace Reader

/-- The next `count` bytes. -/
def take (r : Reader) (count : Nat) : Step (Array UInt8 × Reader) :=
  let stop := r.position + count
  if r.buf.size < stop then throw (.shortRead stop r.buf.size)
  else do
    let taken ← slice r.buf r.position stop
    return (taken, { r with position := stop })

def word (r : Reader) : Step (Nat × Reader) := do
  let (taken, r) ← r.take 4
  let a ← index taken 0
  let b ← index taken 1
  let c ← index taken 2
  let d ← index taken 3
  return (Byte.ofWord a b c d, r)

/-- All that is left, which has to be `count` bytes. -/
def last (r : Reader) (count : Nat) : Step (List UInt8) := do
  let (taken, r) ← r.take count
  if r.position ≠ r.buf.size then
    let left ← sub r.buf.size r.position
    throw (.malformed (.trailing left))
  else return taken.toList

end Reader

def push (p : Pages) (maxItems page word : Nat) : Step Pages :=
  if word = unregistered then return { p with closed := true }
  else if p.closed then throw (.malformed (.gap page))
  else if word < p.total then throw (.malformed (.decreasing page))
  else do
    let items ← sub word p.total
    if maxItems < items then throw (.malformed (.tooManyItems page items maxItems))
    else return { p with ends := p.ends.push word }

def readPages (maxItems : Nat) : (count page : Nat) → Pages → Reader → Step (Pages × Reader)
  | 0, _, pages, r => return (pages, r)
  | count + 1, page, pages, r => do
    let (word, r) ← r.word
    let pages ← push pages maxItems page word
    readPages maxItems count (page + 1) pages r

def require (rule : Prop) [Decidable rule] (fault : ImageFault) : Step Unit :=
  if rule then return () else throw (.malformed fault)

def decode (limits : Limits) (bytes : List UInt8) : Step Bitmap := do
  let (pageCount, r) ← Reader.word ⟨bytes.toArray, 0⟩
  let (pages, r) ← readPages limits.maxItems pageCount 0 {} r
  let (bits, r) ← r.word
  let (capacity, r) ← r.word
  let usedBytes := Capacity.bytesFor pages.total
  require (bits = 8 * usedBytes) (.bitLength bits pages.total)
  let buffer ← r.last capacity
  require (usedBytes ≤ capacity) (.overCapacity usedBytes capacity)
  return {
    table := { pageCount, ends := pages.ends }
    maxItems := limits.maxItems
    chunk := limits.chunk
    bytes := buffer.toArray }

/-! ## Steps that agree -/

/-- No trap, and the same refusal or results that `R` relates. -/
def Agrees {α β : Type} (R : α → β → Prop) (x : Step α) : Except ImageError β → Prop
  | .ok b => ∃ a, x = pure a ∧ R a b
  | .error e => x = throw e

theorem Agrees.bind {α β γ δ : Type} {R : α → β → Prop} {S : γ → δ → Prop} {x : Step α}
    {y : Except ImageError β} {f : α → Step γ} {g : β → Except ImageError δ} (h : Agrees R x y)
    (hf : ∀ a b, R a b → Agrees S (f a) (g b)) : Agrees S (x >>= f) (y >>= g) := by
  cases y with
  | error e =>
    have hx : x = throw e := h
    rw [hx]
    exact rfl
  | ok b =>
    obtain ⟨a, rfl, hab⟩ := h
    exact hf a b hab

/-- What a reader has left is what a cursor has left. -/
structure Reader.At (r : Reader) (c : Cursor) : Prop where
  rest : c.rest = r.buf.toList.drop r.position
  position : c.position = r.position
  size : c.size = r.buf.size
  position_le : r.position ≤ r.buf.size

namespace Reader

variable {r : Reader} {c : Cursor}

theorem At.left (h : r.At c) : c.rest.length = r.buf.size - r.position := by
  rw [h.rest, List.length_drop, Array.length_toList]

theorem at_ofBytes (bytes : List UInt8) : At ⟨bytes.toArray, 0⟩ (Cursor.ofBytes bytes) :=
  ⟨rfl, rfl, rfl, Nat.zero_le _⟩

theorem take_short {count : Nat} (h : r.buf.size < r.position + count) :
    r.take count = throw (.shortRead (r.position + count) r.buf.size) := by
  simp only [take, h, if_true]

theorem take_enough {count : Nat} (h : r.position + count ≤ r.buf.size) :
    r.take count = pure (r.buf.extract r.position (r.position + count), ⟨r.buf, r.position + count⟩) := by
  have hle : r.position ≤ r.position + count ∧ r.position + count ≤ r.buf.size := ⟨Nat.le_add_right .., h⟩
  simp only [take, Nat.not_lt.2 h, if_false, slice, if_pos hle, pure_bind]

theorem toList_taken (r : Reader) (count : Nat) :
    (r.buf.extract r.position (r.position + count)).toList = (r.buf.toList.drop r.position).take count := by
  simp [List.extract_eq_take_drop]

theorem index_eq {taken : Array UInt8} {i : Nat} {byte : UInt8} (h : taken.toList[i]? = some byte) :
    index taken i = pure byte := by
  rw [Array.getElem?_toList] at h
  simp only [index, h]

theorem At.skip (h : r.At c) {taken rest : List UInt8} (hr : c.rest = taken ++ rest) :
    At ⟨r.buf, r.position + taken.length⟩ ⟨rest, c.position + taken.length, c.size⟩ where
  rest := by
    rw [← List.drop_drop, ← h.rest, hr, List.drop_left]
  position := by rw [h.position]
  size := h.size
  position_le := by
    have hl := h.left
    have hle := h.position_le
    rw [hr, List.length_append] at hl
    show r.position + taken.length ≤ r.buf.size
    omega

theorem At.word_agrees (h : r.At c) : Agrees (fun x y => x.1 = y.1 ∧ x.2.At y.2) r.word c.word := by
  have hleft := h.left
  have hle := h.position_le
  rcases c.word_cases with ⟨b₀, b₁, b₂, b₃, rest, hr, hw⟩ | ⟨hlt, hw⟩
  · have hroom : r.position + 4 ≤ r.buf.size := by
      simp only [hr, List.length_append, List.length_cons, List.length_nil] at hleft
      omega
    have htaken : (r.buf.extract r.position (r.position + 4)).toList = [b₀, b₁, b₂, b₃] := by
      rw [toList_taken, ← h.rest, hr]
      rfl
    have h₀ := index_eq (congrArg (·[0]?) htaken)
    have h₁ := index_eq (congrArg (·[1]?) htaken)
    have h₂ := index_eq (congrArg (·[2]?) htaken)
    have h₃ := index_eq (congrArg (·[3]?) htaken)
    rw [hw]
    refine ⟨(Byte.ofWord b₀ b₁ b₂ b₃, ⟨r.buf, r.position + 4⟩), ?_, rfl, h.skip hr⟩
    simp only [word, take_enough hroom, pure_bind, h₀, h₁, h₂, h₃]
  · have hshort : r.buf.size < r.position + 4 := by omega
    rw [hw, word, take_short hshort, h.position, h.size]
    rfl

theorem At.last_agrees (h : r.At c) (count : Nat) : Agrees Eq (r.last count) (c.last count) := by
  have hleft := h.left
  have hle := h.position_le
  rcases Nat.lt_or_ge c.rest.length count with hlt | hge
  · have hshort : r.buf.size < r.position + count := by omega
    rw [last, take_short hshort, Cursor.last, if_pos hlt, h.position, h.size]
    rfl
  · have hroom : r.position + count ≤ r.buf.size := by omega
    rw [last, take_enough hroom, pure_bind, Cursor.last, if_neg (Nat.not_lt.2 hge)]
    dsimp only
    rcases Nat.lt_or_eq_of_le hge with hgt | heq
    · have hne : r.position + count ≠ r.buf.size := by omega
      rw [if_pos hgt, if_pos hne, sub, if_pos hroom, pure_bind, hleft, Nat.sub_sub]
      rfl
    · have hend : ¬ r.position + count ≠ r.buf.size := by omega
      rw [if_neg (Nat.not_lt.2 (Nat.le_of_eq heq.symm)), if_neg hend]
      refine ⟨_, rfl, ?_⟩
      rw [toList_taken, ← h.rest, List.take_of_length_le (Nat.le_of_eq heq.symm)]

end Reader

theorem push_agrees (p : Pages) (maxItems page w : Nat) :
    Agrees Eq (push p maxItems page w) ((p.push maxItems page w).mapError .malformed) := by
  unfold push Pages.push
  split
  · exact ⟨_, rfl, rfl⟩
  · split
    · rfl
    · split
      · rfl
      · next hle =>
        -- the end of the page before was just found to be no larger
        have hsub : sub w p.total = pure (w - p.total) := if_pos (Nat.le_of_not_lt hle)
        rw [hsub, pure_bind]
        split
        · rfl
        · exact ⟨_, rfl, rfl⟩

theorem readPages_agrees {maxItems count page : Nat} {p : Pages} {r : Reader} {c : Cursor} (h : r.At c) :
    Agrees (fun x y => x.1 = y.1 ∧ x.2.At y.2) (readPages maxItems count page p r)
      (Image.readPages maxItems count page p c) := by
  induction count generalizing page p r c with
  | zero => exact ⟨(p, r), rfl, rfl, h⟩
  | succ count ih =>
    have hstep : Image.readPages maxItems (count + 1) page p c =
        c.word >>= fun wc => (p.push maxItems page wc.1).mapError .malformed >>= fun q =>
          Image.readPages maxItems count (page + 1) q wc.2 := by
      rw [Image.readPages]
      cases c.word with
      | error e => rfl
      | ok wc => cases hq : p.push maxItems page wc.1 <;> simp [bind, Except.bind, Except.mapError, hq]
    rw [hstep, readPages]
    refine h.word_agrees.bind ?_
    rintro ⟨w, r⟩ ⟨w', c⟩ ⟨rfl, hr⟩
    refine (push_agrees p maxItems page w).bind ?_
    rintro q q' rfl
    exact ih hr

theorem require_agrees (rule : Prop) [Decidable rule] (fault : ImageFault) :
    Agrees Eq (require rule fault) (Image.require rule fault) := by
  unfold require Image.require
  split
  · exact ⟨(), rfl, rfl⟩
  · rfl

theorem decode_agrees (limits : Limits) (bytes : List UInt8) :
    Agrees Eq (decode limits bytes) (Bitmap.decode limits bytes) := by
  refine (Reader.at_ofBytes bytes).word_agrees.bind ?_
  rintro ⟨n, r⟩ ⟨n', c⟩ ⟨rfl, h⟩
  refine (readPages_agrees h).bind ?_
  rintro ⟨pages, r⟩ ⟨pages', c⟩ ⟨rfl, h⟩
  refine h.word_agrees.bind ?_
  rintro ⟨bits, r⟩ ⟨bits', c⟩ ⟨rfl, h⟩
  refine h.word_agrees.bind ?_
  rintro ⟨capacity, r⟩ ⟨capacity', c⟩ ⟨rfl, h⟩
  refine (require_agrees _ _).bind ?_
  rintro - - -
  refine (h.last_agrees capacity).bind ?_
  rintro buffer buffer' rfl
  refine (require_agrees _ _).bind ?_
  rintro - - -
  exact ⟨_, rfl, rfl⟩

theorem run_decode (limits : Limits) (bytes : List UInt8) :
    (decode limits bytes).run = .ok (Bitmap.decode limits bytes) := by
  have h := decode_agrees limits bytes
  cases hd : Bitmap.decode limits bytes with
  | error e =>
    rw [hd] at h
    exact h
  | ok b =>
    rw [hd] at h
    obtain ⟨b', hb, rfl⟩ := h
    exact hb

/-! ## What decoding accepts, refuses and never does -/

/-- Decoding accepts the images of well-formed fields, each of them the one image of what it says; any other
bytes are malformed or end too early; and nothing on the way is out of range. -/
theorem decode_exact (limits : Limits) (bytes : List UInt8) :
    (∀ b, Bitmap.decode limits bytes = .ok b ↔
      ∃ f : Fields, f.WellFormed limits.maxItems ∧ bytes = f.bytes ∧ b = f.bitmap limits) ∧
    (∀ b, Bitmap.decode limits bytes = .ok b → b.encode = bytes) ∧
    (∀ (limits' : Limits) bytes' b, Bitmap.decode limits bytes = .ok b → Bitmap.decode limits' bytes' = .ok b →
      bytes' = bytes) ∧
    (∀ e, Bitmap.decode limits bytes = .error e → e.Fits bytes.length) ∧
    (decode limits bytes).run = .ok (Bitmap.decode limits bytes) := by
  refine ⟨fun _ => decode_eq_ok_iff, fun _ => encode_of_decode, fun limits' bytes' b h h' => ?_,
    fun _ => decode_error, run_decode limits bytes⟩
  rw [← encode_of_decode h, ← encode_of_decode h']

end Occupancy.Image.Checked
