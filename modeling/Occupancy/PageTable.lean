/-!
# Pages and the bits of their items

Pages are registered in order, each with a number of items; every item owns one bit, and the bits of all
items lie side by side in page order. A page table keeps for each registered page where its bits end, so
page `p` owns the bits from the end of the page before it to its own end.
-/

namespace Occupancy

/-- The place of one bit: bit `offset % 8` of byte `offset / 8`. -/
structure BitAddress where
  offset : Nat
  deriving DecidableEq, Repr

namespace BitAddress

def byteIndex (a : BitAddress) : Nat := a.offset / 8

def bitIndex (a : BitAddress) : Nat := a.offset % 8

/-- The value of the byte in which this bit alone is set. -/
def mask (a : BitAddress) : Nat := 1 <<< a.bitIndex

theorem bitIndex_lt (a : BitAddress) : a.bitIndex < 8 := Nat.mod_lt _ (by decide)

theorem byteIndex_bitIndex (a : BitAddress) : 8 * a.byteIndex + a.bitIndex = a.offset := Nat.div_add_mod _ _

end BitAddress

/-- Why an item has no bit. -/
inductive AddressError where
  /-- The page is beyond those that are tracked. -/
  | pageOutOfRange (page pageCount : Nat)
  /-- The page is tracked, but is not registered yet. -/
  | pageNotRegistered (page registered : Nat)
  /-- The page is registered with fewer items. -/
  | itemOutOfRange (page item items : Nat)
  /-- The bit lies beyond the bytes in use. -/
  | byteOutOfRange (byteIndex usedBytes : Nat)
  deriving DecidableEq, Repr

def AddressError.message : AddressError → String
  | .pageOutOfRange page pageCount => s!"invalid page {page} (page count {pageCount})"
  | .pageNotRegistered page registered => s!"page {page} not registered ({registered} pages registered)"
  | .itemOutOfRange page item items => s!"item {item} out of range, page {page} has only {items} items"
  | .byteOutOfRange byteIndex usedBytes => s!"invalid byte {byteIndex} (used bytes {usedBytes})"

/-- The pages that a bitmap tracks; `ends` has one entry for each registered page. -/
structure PageTable where
  pageCount : Nat
  ends : Array Nat := #[]
  deriving DecidableEq, Repr

namespace PageTable

variable (t : PageTable)

/-- The number of registered pages. -/
def registered : Nat := t.ends.size

/-- The items of all registered pages together. -/
def total : Nat := t.ends.back?.getD 0

/-- The first bit of page `page`: where the page before it ends. -/
def start : (page : Nat) → Nat
  | 0 => 0
  | before + 1 => t.ends.getD before 0

/-- The bits of a registered page, from the first to just past the last. -/
def range? (page : Nat) : Option (Nat × Nat) :=
  t.ends[page]?.map fun stop => (t.start page, stop)

/-- The number of items of a registered page. -/
def items? (page : Nat) : Option Nat :=
  (t.range? page).map fun (start, stop) => stop - start

/-- The address of an item, when `usedBytes` bytes are in use. -/
def locate (usedBytes page item : Nat) : Except AddressError BitAddress :=
  if t.pageCount ≤ page then .error (.pageOutOfRange page t.pageCount)
  else match t.items? page with
    | none => .error (.pageNotRegistered page t.registered)
    | some items =>
      let a : BitAddress := ⟨t.start page + item⟩
      if items ≤ item then .error (.itemOutOfRange page item items)
      else if usedBytes ≤ a.byteIndex then .error (.byteOutOfRange a.byteIndex usedBytes)
      else .ok a

/-- The table with one more page, of `items` items. -/
def push (items : Nat) : PageTable := { t with ends := t.ends.push (t.total + items) }

/-! ## Which items have an address -/

theorem range?_eq_none_iff (page : Nat) : t.range? page = none ↔ t.registered ≤ page := by
  simp [range?, registered]

theorem start_of_range? {t : PageTable} {page start stop : Nat} (h : t.range? page = some (start, stop)) :
    t.start page = start := by
  obtain ⟨_, _, h⟩ := Option.map_eq_some_iff.1 h
  exact congrArg Prod.fst h

theorem items?_eq_none_iff (page : Nat) : t.items? page = none ↔ t.registered ≤ page := by
  rw [items?, Option.map_eq_none_iff, range?_eq_none_iff]

theorem locate_eq_ok_iff (usedBytes page item : Nat) (a : BitAddress) :
    t.locate usedBytes page item = .ok a ↔
      page < t.pageCount ∧ (∃ items, t.items? page = some items ∧ item < items) ∧
        a.offset = t.start page + item ∧ a.byteIndex < usedBytes := by
  have ha : a.offset = t.start page + item ↔ a = ⟨t.start page + item⟩ := by
    constructor
    · rintro h
      rw [← h]
    · rintro rfl
      rfl
  simp only [locate, ha]
  split
  · simp; omega
  · cases h : t.items? page with
    | none => simp
    | some items =>
      simp only
      split
      · simp; omega
      · split
        · simp only [reduceCtorEq, false_iff]
          rintro ⟨_, _, rfl, hb⟩
          omega
        · simp only [Except.ok.injEq, Option.some.injEq]
          constructor
          · rintro rfl
            exact ⟨by omega, ⟨items, rfl, by omega⟩, rfl, by omega⟩
          · rintro ⟨_, _, rfl, _⟩
            rfl

/-! ## What registering a page changes -/

theorem registered_push (items : Nat) : (t.push items).registered = t.registered + 1 := by
  simp [push, registered]

theorem total_push (items : Nat) : (t.push items).total = t.total + items := by
  simp [push, total]

end PageTable

end Occupancy
