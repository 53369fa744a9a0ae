import Occupancy.Capacity
/-!
# How large pages and growth steps may be

The default limits are those of pages of 8 KiB. Limits are sound when one chunk holds a bit for every item of
one page, so that a page never makes a buffer grow by more than one chunk. The bits of a chunk are counted in a word
of 64 bits, which wraps around: no chunk is taken for larger than it is, but from 2⁶¹ bytes on one can be refused
that would be large enough.
-/

namespace Occupancy

structure Limits where
  /-- The most items that one page may have. -/
  maxItems : Nat := Capacity.tuplesPerPage 8192
  /-- The step, in bytes, by which a bitmap grows. -/
  chunkBytes : Nat := 1024
  deriving DecidableEq, Repr, Inhabited

/-- Why limits are not sound. -/
inductive LimitsFault where
  | emptyChunk
  | smallChunk (chunkBytes maxItems : Nat)
  deriving DecidableEq, Repr

def LimitsFault.message : LimitsFault → String
  | .emptyChunk => "growth_chunk_bytes must be positive"
  | .smallChunk chunkBytes maxItems =>
    s!"growth_chunk_bytes {chunkBytes} cannot hold {maxItems} items of one page"

namespace Limits

/-- The step by which bitmaps grow under these limits: at least one byte. -/
def chunk (l : Limits) : Nat := max l.chunkBytes 1

/-- The bits of a chunk, in a word. -/
def chunkBits (l : Limits) : Nat := l.chunkBytes * 8 % UInt64.size

def validate (l : Limits) : Except LimitsFault Unit :=
  if l.chunkBytes = 0 then .error .emptyChunk
  else if l.chunkBits < l.maxItems then .error (.smallChunk l.chunkBytes l.maxItems)
  else .ok ()

theorem chunk_pos (l : Limits) : 0 < l.chunk := by simp only [chunk]; omega

theorem chunkBits_eq {l : Limits} (h : l.chunkBytes * 8 < UInt64.size) : l.chunkBits = l.chunkBytes * 8 :=
  Nat.mod_eq_of_lt h

theorem chunkBits_le (l : Limits) : l.chunkBits ≤ l.chunkBytes * 8 := Nat.mod_le _ _

theorem validate_eq_ok_iff (l : Limits) : l.validate = .ok () ↔ 0 < l.chunkBytes ∧ l.maxItems ≤ l.chunkBits := by
  simp only [validate]
  split
  · simp; omega
  · split <;> simp <;> omega

/-- Limits that are accepted are sound, however large the chunk is. -/
theorem maxItems_le_of_validate {l : Limits} (h : l.validate = .ok ()) : l.maxItems ≤ l.chunkBytes * 8 :=
  Nat.le_trans (l.validate_eq_ok_iff.1 h).2 l.chunkBits_le

example : ({ chunkBytes := UInt64.size / 8 - 1 } : Limits).validate = .ok () ∧
    ({ chunkBytes := UInt64.size / 8 } : Limits).validate = .error (.smallChunk (UInt64.size / 8) 291) := ⟨rfl, rfl⟩

end Limits

end Occupancy
