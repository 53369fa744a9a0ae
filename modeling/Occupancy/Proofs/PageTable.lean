import Occupancy.PageTable
/-!
# Where the bits of items lie

In a table whose pages end one after the other, the items of registered pages and the bits below the total
correspond one to one (`offset_inj`, `exists_offset`). Registering a page moves no item (`start_push`) and
adds just its own (`has_push`).
-/

namespace Occupancy.PageTable

variable {t : PageTable}

/-- The item is one of a registered page. -/
def Has (t : PageTable) (page item : Nat) : Prop := ∃ items, t.items? page = some items ∧ item < items

/-- Pages end one after the other, and there are no more of them than are tracked. -/
structure Ordered (t : PageTable) : Prop where
  registered_le : t.registered ≤ t.pageCount
  start_le : ∀ page, page < t.registered → t.start page ≤ t.start (page + 1)

/-! ## Ranges -/

theorem start_zero : t.start 0 = 0 := rfl

theorem total_eq_start (t : PageTable) : t.total = t.start t.registered := by
  unfold total registered
  cases h : t.ends.size with
  | zero => simp [start, Array.eq_empty_of_size_eq_zero h]
  | succ n => simp [start, Array.back?_eq_getElem?, h, Array.getD_eq_getD_getElem?]

theorem getElem_ends {page : Nat} (h : page < t.ends.size) : t.ends[page] = t.start (page + 1) := by
  simp [start, h]

theorem getElem?_ends_of_lt {page : Nat} (h : page < t.registered) : t.ends[page]? = some (t.start (page + 1)) := by
  rw [Array.getElem?_eq_getElem h, getElem_ends h]

theorem getElem?_ends_of_ge {page : Nat} (h : t.registered ≤ page) : t.ends[page]? = none :=
  Array.getElem?_eq_none h

theorem range?_of_lt {page : Nat} (h : page < t.registered) :
    t.range? page = some (t.start page, t.start (page + 1)) := by
  have h' : page < t.ends.size := h
  simp [range?, start, h']

theorem items?_eq_some_iff {page items : Nat} :
    t.items? page = some items ↔ page < t.registered ∧ items = t.start (page + 1) - t.start page := by
  by_cases h : page < t.registered
  · rw [items?, range?_of_lt h]
    simp [h, eq_comm]
  · simp [(items?_eq_none_iff t page).2 (Nat.le_of_not_lt h), h]

theorem has_iff {page item : Nat} :
    t.Has page item ↔ page < t.registered ∧ t.start page + item < t.start (page + 1) := by
  constructor
  · rintro ⟨items, h, hi⟩
    obtain ⟨hp, rfl⟩ := items?_eq_some_iff.1 h
    exact ⟨hp, by omega⟩
  · rintro ⟨hp, hi⟩
    exact ⟨_, items?_eq_some_iff.2 ⟨hp, rfl⟩, by omega⟩

theorem lt_getD_items?_iff {page item : Nat} : item < (t.items? page).getD 0 ↔ t.Has page item := by
  unfold Has
  cases t.items? page with
  | none => simp
  | some items => simp

/-! ## One bit for each item -/

theorem Ordered.start_mono (h : t.Ordered) {p q : Nat} (hpq : p ≤ q) (hq : q ≤ t.registered) :
    t.start p ≤ t.start q := by
  induction q with
  | zero => exact Nat.le_of_eq (by rw [Nat.le_zero.1 hpq])
  | succ q ih =>
    rcases Nat.lt_or_ge q p with hlt | hge
    · obtain rfl : p = q + 1 := by omega
      exact Nat.le_refl _
    · exact Nat.le_trans (ih hge (by omega)) (h.start_le q (by omega))

theorem Ordered.offset_lt_total (h : t.Ordered) {page item : Nat} (hi : t.Has page item) :
    t.start page + item < t.total := by
  obtain ⟨hp, hlt⟩ := has_iff.1 hi
  rw [total_eq_start]
  exact Nat.lt_of_lt_of_le hlt (h.start_mono hp (Nat.le_refl _))

/-- Two items never share a bit. -/
theorem Ordered.offset_inj (h : t.Ordered) {p q i j : Nat} (hi : t.Has p i) (hj : t.Has q j)
    (e : t.start p + i = t.start q + j) : p = q ∧ i = j := by
  obtain ⟨hp, hlt⟩ := has_iff.1 hi
  obtain ⟨hq, hlt'⟩ := has_iff.1 hj
  rcases Nat.lt_trichotomy p q with hpq | rfl | hqp
  · have : t.start (p + 1) ≤ t.start q := h.start_mono hpq (by omega)
    omega
  · exact ⟨rfl, by omega⟩
  · have : t.start (q + 1) ≤ t.start p := h.start_mono hqp (by omega)
    omega

/-- Every bit below the total is that of an item. -/
theorem exists_offset (t : PageTable) {k : Nat} (hk : k < t.total) : ∃ p i, t.Has p i ∧ t.start p + i = k := by
  have find (n : Nat) (hn : n ≤ t.registered) (hk : k < t.start n) : ∃ p i, t.Has p i ∧ t.start p + i = k := by
    induction n with
    | zero => rw [start_zero] at hk; omega
    | succ n ih =>
      by_cases hlt : k < t.start n
      · exact ih (by omega) hlt
      · exact ⟨n, k - t.start n, has_iff.2 ⟨hn, by omega⟩, by omega⟩
  exact find t.registered (Nat.le_refl _) (by rwa [← total_eq_start])

/-! ## Registering a page -/

theorem start_push (items : Nat) {page : Nat} (h : page ≤ t.registered) :
    (t.push items).start page = t.start page := by
  cases page with
  | zero => rfl
  | succ before =>
    have h' : before < t.ends.size := h
    simp [start, push, Array.getElem?_push, Nat.ne_of_lt h']

theorem start_push_last (t : PageTable) (items : Nat) :
    (t.push items).start (t.registered + 1) = t.total + items := by
  simp [start, push, registered]

theorem items?_push (t : PageTable) (items page : Nat) :
    (t.push items).items? page = if page = t.registered then some items else t.items? page := by
  rcases Nat.lt_trichotomy page t.registered with hlt | rfl | hgt
  · rw [if_neg (Nat.ne_of_lt hlt), items?_eq_some_iff.2 ⟨hlt, rfl⟩, items?_eq_some_iff, registered_push,
      start_push items hlt, start_push items (Nat.le_of_lt hlt)]
    exact ⟨by omega, rfl⟩
  · rw [if_pos rfl, items?_eq_some_iff, registered_push, start_push_last, start_push items (Nat.le_refl _),
      total_eq_start]
    exact ⟨by omega, by omega⟩
  · rw [if_neg (Nat.ne_of_gt hgt), (items?_eq_none_iff t page).2 (Nat.le_of_lt hgt),
      items?_eq_none_iff, registered_push]
    exact hgt

theorem has_push (t : PageTable) (items page item : Nat) :
    (t.push items).Has page item ↔ t.Has page item ∨ page = t.registered ∧ item < items := by
  unfold Has
  rw [items?_push]
  split
  · next h =>
    have hn : t.items? page = none := (items?_eq_none_iff t page).2 (Nat.le_of_eq h.symm)
    rw [hn]
    simp [h]
  · next h => simp [h]

theorem Ordered.push (h : t.Ordered) (items : Nat) (hlt : t.registered < t.pageCount) : (t.push items).Ordered where
  registered_le := by
    rw [registered_push]
    exact hlt
  start_le page hp := by
    rw [registered_push] at hp
    rcases Nat.lt_or_ge page t.registered with hlt | hge
    · rw [start_push items (Nat.le_of_lt hlt), start_push items hlt]
      exact h.start_le page hlt
    · obtain rfl : page = t.registered := by omega
      rw [start_push items (Nat.le_refl _), start_push_last, total_eq_start]
      omega

/-! ## Tables with the same items -/

/-- The same items are those of registered pages. -/
def SameItems (s t : PageTable) : Prop := ∀ page item, s.Has page item ↔ t.Has page item

theorem SameItems.symm {s t : PageTable} (h : SameItems s t) : SameItems t s := fun page item => (h page item).symm

/-- Items fix where the pages that have them begin. -/
theorem Ordered.start_eq {s t : PageTable} (hs : s.Ordered) (ht : t.Ordered) (h : SameItems s t) {page : Nat}
    (hps : page ≤ s.registered) (hpt : page ≤ t.registered) : s.start page = t.start page := by
  induction page with
  | zero => rfl
  | succ page ih =>
    have hstart : s.start page = t.start page := ih (by omega) (by omega)
    have hls := hs.start_le page hps
    have hlt := ht.start_le page hpt
    -- the page ends where its items do
    have hsame (item : Nat) : s.start page + item < s.start (page + 1) ↔ t.start page + item < t.start (page + 1) := by
      have hiff := h page item
      rw [has_iff, has_iff] at hiff
      constructor
      · exact fun hi => (hiff.1 ⟨hps, hi⟩).2
      · exact fun hi => (hiff.2 ⟨hpt, hi⟩).2
    have h₁ := hsame (s.start (page + 1) - s.start page)
    have h₂ := hsame (t.start (page + 1) - t.start page)
    omega

theorem Ordered.start_eq_of_has {s t : PageTable} (hs : s.Ordered) (ht : t.Ordered) (h : SameItems s t)
    {page item : Nat} (hi : s.Has page item) : s.start page = t.start page := by
  have hps : page < s.registered := (has_iff.1 hi).1
  have hpt : page < t.registered := (has_iff.1 ((h page item).1 hi)).1
  exact hs.start_eq ht h (Nat.le_of_lt hps) (Nat.le_of_lt hpt)

theorem Ordered.total_le {s t : PageTable} (hs : s.Ordered) (ht : t.Ordered) (h : SameItems s t) :
    s.total ≤ t.total := by
  apply Nat.le_of_not_lt
  intro hlt
  -- the first bit past the items of `t` would be that of an item
  obtain ⟨page, item, hi, hoffset⟩ := s.exists_offset hlt
  have hinside := ht.offset_lt_total ((h page item).1 hi)
  rw [← hs.start_eq_of_has ht h hi, hoffset] at hinside
  exact Nat.lt_irrefl _ hinside

theorem Ordered.total_eq {s t : PageTable} (hs : s.Ordered) (ht : t.Ordered) (h : SameItems s t) :
    s.total = t.total :=
  Nat.le_antisymm (hs.total_le ht h) (ht.total_le hs h.symm)

/-- A table says how many items each page has, and nothing else. -/
theorem Ordered.eq_of_items? {s t : PageTable} (hs : s.Ordered) (ht : t.Ordered) (hc : s.pageCount = t.pageCount)
    (h : ∀ page, s.items? page = t.items? page) : s = t := by
  have hhas : SameItems s t := by
    intro page item
    unfold Has
    rw [h]
  have hnone (page : Nat) : s.registered ≤ page ↔ t.registered ≤ page := by
    rw [← items?_eq_none_iff, ← items?_eq_none_iff, h]
  have hregistered : s.registered = t.registered :=
    Nat.le_antisymm ((hnone _).2 (Nat.le_refl _)) ((hnone _).1 (Nat.le_refl _))
  have hends : s.ends = t.ends := by
    refine Array.ext hregistered fun page hps hpt => ?_
    have hstart : s.start (page + 1) = t.start (page + 1) := hs.start_eq ht hhas hps hpt
    simpa [start, hps, hpt] using hstart
  cases s
  cases t
  simp only at hc hends
  rw [hc, hends]

/-! ## Pages that lie at the same place -/

/-- The item is one of a page that has the same bits in both tables. -/
def Shared (s t : PageTable) (page item : Nat) : Prop := s.Has page item ∧ s.range? page = t.range? page

theorem Shared.start_eq {s t : PageTable} {page item : Nat} (h : Shared s t page item) :
    s.start page = t.start page := by
  have hs := range?_of_lt (has_iff.1 h.1).1
  have ht := hs
  rw [h.2] at ht
  exact (start_of_range? hs).symm.trans (start_of_range? ht).symm

theorem Shared.symm {s t : PageTable} {page item : Nat} (h : Shared s t page item) : Shared t s page item := by
  obtain ⟨⟨items, hi, hlt⟩, hr⟩ := h
  refine ⟨⟨items, ?_, hlt⟩, hr.symm⟩
  rwa [items?, ← hr]

theorem shared_self {page item : Nat} : Shared t t page item ↔ t.Has page item := and_iff_left rfl

/-! ## New tables -/

theorem ordered_empty (pageCount : Nat) : ({ pageCount } : PageTable).Ordered :=
  ⟨Nat.zero_le _, fun page h => absurd h (Nat.not_lt_zero page)⟩

end Occupancy.PageTable
