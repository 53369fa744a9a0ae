/-!
# How many bytes a bitmap holds

A bitmap's buffer is a whole number of chunks. It starts with one chunk per `8 * chunk` pages and one more,
and grows by the fewest chunks that make room. `grown_least` says that no smaller number of chunks would do.

A capacity is taken to be one that there is memory for, and so to be below 2⁶⁴: no sum or product that leads to one
wraps around here. New bitmaps keep below that bound as long as their chunk does; a decoded one could pass it only
under a chunk within 2²⁹ bytes of it.
-/

namespace Occupancy.Capacity

/-- The bytes before the first line pointer of a heap page. -/
def pageHeaderBytes : Nat := 24

/-- The bytes that a tuple takes at the least: its line pointer and its header. -/
def leastTupleBytes : Nat := 4 + 24

/-- The most tuples that fit on a heap page of `pageBytes` bytes. -/
def tuplesPerPage (pageBytes : Nat) : Nat := (pageBytes - pageHeaderBytes) / leastTupleBytes

/-- The bytes that hold `bits` bits. -/
def bytesFor (bits : Nat) : Nat := (bits + 7) / 8

/-- The bytes that a new bitmap of `pages` pages holds. -/
def initial (pages chunk : Nat) : Nat := chunk * (pages / chunk / 8 + 1)

/-- The bytes held after growth to at least `required`: `current` and as few chunks as will do. -/
def grown (current required chunk : Nat) : Nat :=
  if required ≤ current then current
  else current + (required - current + (chunk - 1)) / chunk * chunk

/-! ## Chunks of no bytes -/

/-- A chunk of no bytes gives no number of chunks. -/
inductive Fault where
  | emptyChunk
  deriving DecidableEq, Repr

def Fault.message : Fault → String
  | .emptyChunk => "attempt to divide by zero"

/-- `initial`, for chunks of any size. -/
def initial? (pages chunk : Nat) : Except Fault Nat :=
  if chunk = 0 then .error .emptyChunk else .ok (initial pages chunk)

/-- `grown`, for chunks of any size: an empty chunk is a fault only where there is a need to grow. -/
def grown? (current required chunk : Nat) : Except Fault Nat :=
  if chunk = 0 ∧ current < required then .error .emptyChunk else .ok (grown current required chunk)

/-! ## Bounds -/

theorem bytesFor_le {bits n : Nat} : bytesFor bits ≤ n ↔ bits ≤ 8 * n := by
  simp only [bytesFor]; omega

theorem lt_bytesFor {bits k : Nat} (h : k < bits) : k / 8 < bytesFor bits := by
  simp only [bytesFor]; omega

theorem initial_pos (pages : Nat) {chunk : Nat} (h : 0 < chunk) : 0 < initial pages chunk :=
  Nat.mul_pos h (Nat.succ_pos _)

theorem le_grown (current required chunk : Nat) : current ≤ grown current required chunk := by
  simp only [grown]; split <;> omega

theorem required_le_grown (current required : Nat) {chunk : Nat} (h : 0 < chunk) :
    required ≤ grown current required chunk := by
  simp only [grown]
  split
  · assumption
  · have hd := Nat.div_add_mod (required - current + (chunk - 1)) chunk
    have hm := Nat.mod_lt (required - current + (chunk - 1)) h
    rw [Nat.mul_comm] at hd
    omega

theorem grown_least (current required k : Nat) {chunk : Nat} (h : 0 < chunk)
    (hk : required ≤ current + k * chunk) : grown current required chunk ≤ current + k * chunk := by
  simp only [grown]
  split
  · omega
  · have : (required - current + (chunk - 1)) / chunk ≤ k := by
      rw [Nat.div_le_iff_le_mul h]
      omega
    exact Nat.add_le_add_left (Nat.mul_le_mul_right _ this) _

end Occupancy.Capacity
