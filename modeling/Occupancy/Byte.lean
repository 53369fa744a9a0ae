/-!
# Bits of a byte, words of four bytes

Bit 0 of a byte is its least significant one. `bit_put` says what writing one bit does to every bit.
A word is four bytes, least significant first: `ofWord_word` is the round trip of all numbers below 2³².
-/

namespace Occupancy.Byte

/-! ## Bits -/

def bit (b : UInt8) (i : Nat) : Bool := b.toNat.testBit i

/-- The byte whose only set bit is bit `i`; no bit is set when there is no bit `i`. -/
def mask (i : Nat) : UInt8 := UInt8.ofNat (1 <<< i)

/-- The byte with bit `i` written to `on`. -/
def put (b : UInt8) (i : Nat) (on : Bool) : UInt8 :=
  if on then b ||| mask i else b &&& ~~~mask i

/-- The eight bits, bit 0 first. -/
def bits (b : UInt8) : List Bool := (List.range 8).map (bit b)

/-- The bits of all bytes in a row. -/
def row (bs : List UInt8) : List Bool := bs.flatMap bits

theorem length_bits (b : UInt8) : (bits b).length = 8 := by simp [bits]

theorem length_row (bs : List UInt8) : (row bs).length = 8 * bs.length := by
  induction bs with
  | nil => rfl
  | cons b bs ih =>
    rw [row] at ih
    rw [row, List.flatMap_cons, List.length_append, ih, length_bits, List.length_cons]
    omega

theorem bit_zero (i : Nat) : bit 0 i = false := by simp [bit]

theorem bit_mask (i j : Nat) (hi : i < 8) : bit (mask i) j = decide (i = j) := by
  have h : 1 <<< i < 2 ^ 8 := by
    rw [Nat.one_shiftLeft]
    exact Nat.pow_lt_pow_right (by decide) hi
  rw [bit, mask, UInt8.toNat_ofNat', Nat.mod_eq_of_lt h, Nat.one_shiftLeft, Nat.testBit_two_pow]

theorem bit_or (a b : UInt8) (i : Nat) : bit (a ||| b) i = (bit a i || bit b i) := by
  simp [bit]

theorem bit_and (a b : UInt8) (i : Nat) : bit (a &&& b) i = (bit a i && bit b i) := by
  simp [bit]

theorem bit_xor (a b : UInt8) (i : Nat) : bit (a ^^^ b) i = (bit a i ^^ bit b i) := by
  simp [bit]

theorem bit_not (b : UInt8) (i : Nat) (hi : i < 8) : bit (~~~b) i = !bit b i := by
  have h : (~~~b).toBitVec.getLsbD i = !b.toBitVec.getLsbD i := by simp [hi]
  simpa [bit, BitVec.getLsbD] using h

theorem bit_put (b : UInt8) (i j : Nat) (on : Bool) (hi : i < 8) (hj : j < 8) :
    bit (put b i on) j = if i = j then on else bit b j := by
  cases on <;> by_cases h : i = j <;> simp [put, bit_or, bit_and, bit_not, bit_mask, hi, hj, h]

/-! ## Counting bits -/

/-- The number of set bits, added up by twos, fours and eights. -/
def ones (b : UInt8) : Nat :=
  let odd : UInt8 := (b >>> 1) &&& 0x55
  let twos : UInt8 := b - odd
  let fours : UInt8 := (twos &&& (0x33 : UInt8)) + ((twos >>> 2) &&& (0x33 : UInt8))
  let eights : UInt8 := (fours + (fours >>> 4)) &&& 0x0F
  eights.toNat

theorem ones_eq (b : UInt8) : ones b = (bits b).count true := by
  have h : ∀ n : Fin 256, ones (UInt8.ofNat n.val) = (bits (UInt8.ofNat n.val)).count true := by
    decide +kernel
  have := h ⟨b.toNat, b.toNat_lt⟩
  rwa [UInt8.ofNat_toNat] at this

/-- The number of set bits of all bytes. -/
def population (bs : Array UInt8) : Nat := bs.foldl (fun n b => n + ones b) 0

theorem foldl_ones (bs : List UInt8) (n : Nat) :
    bs.foldl (fun n b => n + ones b) n = n + (row bs).count true := by
  induction bs generalizing n with
  | nil => rfl
  | cons b bs ih =>
    rw [List.foldl_cons, ih, row, row, List.flatMap_cons, List.count_append, ones_eq, Nat.add_assoc]

theorem population_eq (bs : Array UInt8) : population bs = (row bs.toList).count true := by
  rw [population, ← Array.foldl_toList, foldl_ones, Nat.zero_add]

/-! ## Words -/

/-- The four bytes of `n` modulo 2³². -/
def word (n : Nat) : List UInt8 :=
  [UInt8.ofNat n, UInt8.ofNat (n / 256), UInt8.ofNat (n / 65536), UInt8.ofNat (n / 16777216)]

def ofWord (a b c d : UInt8) : Nat :=
  a.toNat + 256 * b.toNat + 65536 * c.toNat + 16777216 * d.toNat

theorem ofWord_lt (a b c d : UInt8) : ofWord a b c d < UInt32.size := by
  have := a.toNat_lt; have := b.toNat_lt; have := c.toNat_lt; have := d.toNat_lt
  simp only [ofWord, UInt32.size]
  omega

theorem ofWord_word (n : Nat) (h : n < UInt32.size) :
    ofWord (UInt8.ofNat n) (UInt8.ofNat (n / 256)) (UInt8.ofNat (n / 65536))
      (UInt8.ofNat (n / 16777216)) = n := by
  simp only [UInt32.size] at h
  simp only [ofWord, UInt8.toNat_ofNat']
  omega

theorem word_ofWord (a b c d : UInt8) : word (ofWord a b c d) = [a, b, c, d] := by
  have ha := a.toNat_lt; have hb := b.toNat_lt; have hc := c.toNat_lt; have hd := d.toNat_lt
  simp only [word, List.cons.injEq, and_true, ← UInt8.toNat_inj, UInt8.toNat_ofNat', ofWord]
  omega

end Occupancy.Byte
