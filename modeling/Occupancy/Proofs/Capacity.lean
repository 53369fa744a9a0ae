import Occupancy.Capacity
/-!
# Growth keeps no history

However the need for bytes came about, growth ends at the same capacity. From any capacity on, growing in turn is
growing once to the most that was asked for (`grownAll_eq`). For bitmaps that began as new ones `held` tells the
capacity from the number of pages and the bytes in use, and `grown_held` says that growth leads from one such capacity
to the next.
-/

namespace Occupancy.Capacity

variable {chunk : Nat}

/-- The number of chunks that hold `bytes` bytes. -/
def chunks (bytes chunk : Nat) : Nat := (bytes + (chunk - 1)) / chunk

/-- The bytes that a bitmap of `pages` pages holds once `used` of them are in use. -/
def held (pages used chunk : Nat) : Nat := max (initial pages chunk) (chunk * chunks used chunk)

theorem chunks_le_iff (h : 0 < chunk) {bytes k : Nat} : chunks bytes chunk ≤ k ↔ bytes ≤ chunk * k := by
  unfold chunks
  rw [Nat.div_le_iff_le_mul h, Nat.mul_comm k]
  omega

/-- What is missing after `k` chunks takes `k` chunks fewer than the whole. -/
theorem chunks_sub (h : 0 < chunk) {bytes k : Nat} (hk : chunk * k ≤ bytes) :
    chunks (bytes - chunk * k) chunk = chunks bytes chunk - k := by
  have hshift : bytes - chunk * k + (chunk - 1) = bytes + (chunk - 1) - chunk * k := by omega
  unfold chunks
  rw [hshift]
  exact Nat.sub_mul_div ..

/-- A whole number of chunks stays one. -/
theorem grown_chunks (h : 0 < chunk) (k required : Nat) :
    grown (chunk * k) required chunk = chunk * max k (chunks required chunk) := by
  unfold grown
  split
  · next henough => rw [Nat.max_eq_left ((chunks_le_iff h).2 henough)]
  · next hless =>
    have hmissing := chunks_sub h (Nat.le_of_not_le hless)
    have hmore : k ≤ chunks required chunk := by
      refine Nat.le_of_lt (Nat.lt_of_not_le fun hle => hless ?_)
      exact (chunks_le_iff h).1 hle
    rw [← chunks, hmissing, Nat.max_eq_right hmore, Nat.mul_comm (_ - k), ← Nat.mul_add, Nat.add_sub_of_le hmore]

/-! ## Growth in turn -/

/-- Growth is by whole chunks. -/
theorem exists_grown_eq (current required chunk : Nat) : ∃ k, grown current required chunk = current + k * chunk := by
  unfold grown
  split
  · exact ⟨0, by rw [Nat.zero_mul, Nat.add_zero]⟩
  · exact ⟨_, rfl⟩

theorem grown_le_iff (h : 0 < chunk) {current required k : Nat} :
    grown current required chunk ≤ current + k * chunk ↔ required ≤ current + k * chunk :=
  ⟨Nat.le_trans (required_le_grown current required h), grown_least current required k h⟩

theorem grown_of_le {current required : Nat} (hle : required ≤ current) (chunk : Nat) :
    grown current required chunk = current := if_pos hle

/-- Growing twice is growing once to the larger of the two. -/
theorem grown_grown (h : 0 < chunk) (current r₁ r₂ : Nat) :
    grown (grown current r₁ chunk) r₂ chunk = grown current (max r₁ r₂) chunk := by
  obtain ⟨k₁, hk₁⟩ := exists_grown_eq current r₁ chunk
  obtain ⟨k₂, hk₂⟩ := exists_grown_eq (current + k₁ * chunk) r₂ chunk
  obtain ⟨k, hk⟩ := exists_grown_eq current (max r₁ r₂) chunk
  have henough : max r₁ r₂ ≤ current + k * chunk := (grown_le_iff h).1 (Nat.le_of_eq hk)
  rw [hk₁]
  apply Nat.le_antisymm
  · -- what is held after the growth at once lies whole chunks beyond what is held after the first growth
    have hfirst : current + k₁ * chunk ≤ current + k * chunk := by
      rw [← hk₁]
      exact (grown_le_iff h).2 (Nat.le_trans (Nat.le_max_left ..) henough)
    have hmore : k₁ ≤ k := Nat.le_of_mul_le_mul_right (Nat.le_of_add_le_add_left hfirst) h
    have hsplit : current + k * chunk = current + k₁ * chunk + (k - k₁) * chunk := by
      rw [Nat.add_assoc, ← Nat.add_mul, Nat.add_sub_of_le hmore]
    rw [hk, hsplit]
    refine (grown_le_iff h).2 ?_
    rw [← hsplit]
    exact Nat.le_trans (Nat.le_max_right ..) henough
  · have hjoin : current + k₁ * chunk + k₂ * chunk = current + (k₁ + k₂) * chunk := by
      rw [Nat.add_assoc, ← Nat.add_mul]
    have h₁ : r₁ ≤ current + k₁ * chunk := (grown_le_iff h).1 (Nat.le_of_eq hk₁)
    have h₂ : r₂ ≤ current + k₁ * chunk + k₂ * chunk := (grown_le_iff h).1 (Nat.le_of_eq hk₂)
    rw [hk₂, hjoin]
    refine (grown_le_iff h).2 (Nat.max_le.2 ⟨?_, ?_⟩)
    · rw [← hjoin]
      exact Nat.le_trans h₁ (Nat.le_add_right ..)
    · rwa [← hjoin]

/-- What is held after growth to each of these in turn. -/
def grownAll (current : Nat) (rs : List Nat) (chunk : Nat) : Nat := rs.foldl (fun held r => grown held r chunk) current

theorem grownAll_grown (h : 0 < chunk) (current r : Nat) (rs : List Nat) :
    grownAll (grown current r chunk) rs chunk = grown current (rs.foldl max r) chunk := by
  induction rs generalizing r with
  | nil => rfl
  | cons r' rs ih =>
    have hstep : grownAll (grown current r chunk) (r' :: rs) chunk =
        grownAll (grown (grown current r chunk) r' chunk) rs chunk := rfl
    rw [hstep, grown_grown h, ih, List.foldl_cons]

theorem grownAll_eq (h : 0 < chunk) (current : Nat) (rs : List Nat) :
    grownAll current rs chunk = grown current (rs.foldl max 0) chunk := by
  have hstart := grownAll_grown h current 0 rs
  rwa [grown_of_le (Nat.zero_le _)] at hstart

/-! ## How much is held -/

theorem held_eq (pages used chunk : Nat) :
    held pages used chunk = chunk * max (pages / chunk / 8 + 1) (chunks used chunk) := by
  unfold held initial
  rw [Nat.mul_max_mul_left]

/-- What is held is what growth of a new bitmap to the used bytes leads to. -/
theorem held_eq_grown (h : 0 < chunk) (pages used : Nat) :
    held pages used chunk = grown (initial pages chunk) used chunk := by
  rw [held_eq, initial, grown_chunks h]

theorem held_zero (h : 0 < chunk) (pages : Nat) : held pages 0 chunk = initial pages chunk := by
  rw [held_eq_grown h, grown_of_le (Nat.zero_le _)]

theorem grown_held (h : 0 < chunk) (pages : Nat) {used required : Nat} (hle : used ≤ required) :
    grown (held pages used chunk) required chunk = held pages required chunk := by
  rw [held_eq_grown h, held_eq_grown h, grown_grown h, Nat.max_eq_right hle]

theorem held_pos (h : 0 < chunk) (pages used : Nat) : 0 < held pages used chunk :=
  Nat.lt_of_lt_of_le (initial_pos pages h) (Nat.le_max_left ..)

theorem dvd_held (pages used chunk : Nat) : chunk ∣ held pages used chunk := by
  rw [held_eq]
  exact Nat.dvd_mul_right ..

/-- What growth adds is used but for part of a chunk. -/
theorem held_lt (h : 0 < chunk) {pages used : Nat} (hgrown : initial pages chunk < held pages used chunk) :
    held pages used chunk < used + chunk := by
  have hle : chunk * chunks used chunk ≤ used + (chunk - 1) := Nat.mul_div_le ..
  have hheld : held pages used chunk = chunk * chunks used chunk := by
    unfold held at hgrown ⊢
    omega
  rw [hheld]
  omega

/-- A new bitmap begins with one chunk if it has few pages. -/
theorem initial_of_lt {pages : Nat} (hlt : pages < 8 * chunk) : initial pages chunk = chunk := by
  have hzero : pages / chunk / 8 = 0 := by
    rw [Nat.div_div_eq_div_mul, Nat.mul_comm]
    exact Nat.div_eq_of_lt hlt
  rw [initial, hzero, Nat.zero_add, Nat.mul_one]

/-- A new bitmap has room for one item on each page. -/
theorem held_of_le (h : 0 < chunk) {pages bits : Nat} (hle : bits ≤ pages) :
    held pages (bytesFor bits) chunk = initial pages chunk := by
  have hpages : pages < 8 * (chunk * (pages / chunk / 8 + 1)) :=
    calc pages < chunk * (pages / chunk + 1) := Nat.lt_mul_div_succ pages h
      _ ≤ chunk * (8 * (pages / chunk / 8 + 1)) := Nat.mul_le_mul_left chunk (by omega)
      _ = 8 * (chunk * (pages / chunk / 8 + 1)) := Nat.mul_left_comm ..
  have hroom : bytesFor bits ≤ initial pages chunk := by
    rw [bytesFor_le, initial]
    omega
  rw [held_eq_grown h, grown_of_le hroom]

/-! ## In words -/

theorem initial_le (pages chunk : Nat) : initial pages chunk ≤ max chunk (2 * pages) := by
  rcases Nat.lt_or_ge pages (8 * chunk) with hlt | hge
  · rw [initial_of_lt hlt]
    exact Nat.le_max_left ..
  · have hwhole : chunk * (pages / chunk / 8) ≤ pages :=
      Nat.le_trans (Nat.mul_le_mul_left chunk (Nat.div_le_self ..)) (Nat.mul_div_le ..)
    rw [initial, Nat.mul_add, Nat.mul_one]
    omega

theorem mul_chunks_le (h : 0 < chunk) (bytes : Nat) : chunk * chunks bytes chunk ≤ max chunk (2 * bytes) := by
  rcases Nat.le_total bytes chunk with hle | hge
  · have hone : chunks bytes chunk ≤ 1 := (chunks_le_iff h).2 (by rwa [Nat.mul_one])
    have hchunk : chunk * chunks bytes chunk ≤ chunk * 1 := Nat.mul_le_mul_left chunk hone
    omega
  · have hmore : chunk * chunks bytes chunk ≤ bytes + (chunk - 1) := Nat.mul_div_le ..
    omega

/-- What is held is a word if the chunk is one and pages and bytes are counted in words of 32 bits. -/
theorem held_lt_size (h : 0 < chunk) (hchunk : chunk < UInt64.size) {pages used : Nat} (hpages : pages < UInt32.size)
    (hused : used < UInt32.size) : held pages used chunk < UInt64.size := by
  have hinitial := initial_le pages chunk
  have hmore := mul_chunks_le h used
  unfold held
  rw [UInt32.size] at hpages hused
  rw [UInt64.size] at hchunk ⊢
  omega

theorem grown_le (current required chunk : Nat) :
    grown current required chunk ≤ max current (required + (chunk - 1)) := by
  have hadded := Nat.div_mul_le_self (required - current + (chunk - 1)) chunk
  unfold grown
  split <;> omega

theorem chunks_eq_ite (h : 0 < chunk) (bytes : Nat) :
    chunks bytes chunk = if bytes % chunk = 0 then bytes / chunk else bytes / chunk + 1 := by
  have hdiv := Nat.div_add_mod bytes chunk
  have hmod := Nat.mod_lt bytes h
  have hheld : bytes ≤ chunk * chunks bytes chunk := (chunks_le_iff h).1 (Nat.le_refl _)
  split
  · next hwhole =>
    rw [hwhole, Nat.add_zero] at hdiv
    refine Nat.le_antisymm ((chunks_le_iff h).2 (Nat.le_of_eq hdiv.symm)) ?_
    exact Nat.le_of_mul_le_mul_left (Nat.le_trans (Nat.le_of_eq hdiv) hheld) h
  · next hpart =>
    refine Nat.le_antisymm ((chunks_le_iff h).2 ?_) ?_
    · rw [Nat.mul_add, Nat.mul_one]
      omega
    · exact Nat.lt_of_mul_lt_mul_left (show chunk * (bytes / chunk) < chunk * chunks bytes chunk by omega)

/-- `chunks` as it is worked out in words of 64 bits. -/
def chunksWord (bytes chunk : UInt64) : UInt64 :=
  if bytes % chunk = 0 then bytes / chunk else bytes / chunk + 1

/-- `grown` as it is worked out in words of 64 bits. -/
def grownWord (current required chunk : UInt64) : UInt64 :=
  if required ≤ current then current else current + chunksWord (required - current) chunk * chunk

theorem toNat_chunksWord {bytes chunk : UInt64} (h : 0 < chunk.toNat) :
    (chunksWord bytes chunk).toNat = chunks bytes.toNat chunk.toNat := by
  have hle : chunks bytes.toNat chunk.toNat ≤ bytes.toNat :=
    (chunks_le_iff h).2 (Nat.le_mul_of_pos_left _ h)
  have hlt := Nat.lt_of_le_of_lt hle bytes.toNat_lt
  have hmod : bytes % chunk = 0 ↔ bytes.toNat % chunk.toNat = 0 := by
    rw [← UInt64.toNat_inj, UInt64.toNat_mod, UInt64.toNat_zero]
  rw [chunks_eq_ite h] at hlt ⊢
  unfold chunksWord
  by_cases hwhole : bytes % chunk = 0
  · rw [if_pos hwhole, if_pos (hmod.1 hwhole), UInt64.toNat_div]
  · rw [if_neg (mt hmod.2 hwhole)] at hlt
    rw [if_neg hwhole, if_neg (mt hmod.2 hwhole), UInt64.toNat_add, UInt64.toNat_div]
    exact Nat.mod_eq_of_lt hlt

/-- In words nothing wraps around as long as the result is a word. -/
theorem toNat_grownWord {current required chunk : UInt64} (h : 0 < chunk.toNat)
    (hfits : grown current.toNat required.toNat chunk.toNat < UInt64.size) :
    (grownWord current required chunk).toNat = grown current.toNat required.toNat chunk.toNat := by
  unfold grown at hfits ⊢
  unfold grownWord
  by_cases hle : required ≤ current
  · rw [if_pos hle, if_pos (UInt64.le_iff_toNat_le.1 hle)]
  · have hle' := mt UInt64.le_iff_toNat_le.2 hle
    have hmissing : (required - current).toNat = required.toNat - current.toNat :=
      UInt64.toNat_sub_of_le _ _ (UInt64.le_iff_toNat_le.2 (Nat.le_of_not_le hle'))
    rw [if_neg hle', ← chunks, ← hmissing, ← toNat_chunksWord h] at hfits ⊢
    have hadded := Nat.lt_of_le_of_lt (Nat.le_add_left ..) hfits
    rw [if_neg hle, UInt64.toNat_add, UInt64.toNat_mul, Nat.mod_eq_of_lt hadded]
    exact Nat.mod_eq_of_lt hfits

end Occupancy.Capacity
