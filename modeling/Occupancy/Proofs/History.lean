import Mathlib
import Occupancy.Proofs.Bitmap
/-!
# A bitmap remembers its history

A run applies calls one after the other to a new bitmap, and its history pairs each call with the answer.
`run_eq_history`: whatever the calls and whichever of them are refused, the bitmap's layout is the list of
accepted registrations, and an item is marked just when the last accepted write to it marked it and nothing
cleared the bitmap since.
-/

namespace Occupancy.Bitmap

inductive Call where
  | addPage (page items : Nat)
  | set (page item : Nat) (on : Bool)
  | get (page item : Nat)
  | reset
  | duplicate
  | clone
  deriving DecidableEq, Repr

namespace Call

/-- The bitmap that the next call is made on. A refused call leaves it as it was; after `duplicate` and `clone`
it is the new bitmap. -/
def next : Call → Bitmap → Bitmap
  | addPage page items, b =>
    match b.addPage page items with
    | .ok b' => b'
    | .error _ => b
  | set page item on, b => (b.write page item on).1
  | get .., b => b
  | reset, b => b.reset
  | duplicate, b => b.duplicate
  | clone, b => b

/-- The mark that a lookup finds; for other calls, whether the call is accepted. -/
def answer : Call → Bitmap → Bool
  | addPage page items, b => (b.addPage page items).isOk
  | set page item on, b => (b.write page item on).2.isNone
  | get page item, b => b.isMarked page item
  | reset, _ | duplicate, _ | clone, _ => true

end Call

def run (b : Bitmap) (calls : List Call) : Bitmap := calls.foldl (fun b call => call.next b) b

/-- The calls of a run with their answers. -/
def history (b : Bitmap) : List Call → List (Call × Bool)
  | [] => []
  | call :: calls => (call, call.answer b) :: (call.next b).history calls

/-! ## What a history says -/

/-- The page and the number of items that an entry registers. -/
def registration? : Call × Bool → Option (Nat × Nat)
  | (.addPage page items, true) => some (page, items)
  | _ => none

def registrations (log : List (Call × Bool)) : List (Nat × Nat) := log.filterMap registration?

/-- After the entry, earlier writes to the item no longer matter. -/
def Settles (page item : Nat) : Call × Bool → Prop
  | (.set p i _, accepted) => accepted = true ∧ p = page ∧ i = item
  | (.reset, _) | (.duplicate, _) => True
  | _ => False

/-- The last accepted write to the item marked it, and nothing cleared the bitmap since. -/
def LastMarked (page item : Nat) (log : List (Call × Bool)) : Prop :=
  ∃ before after, log = before ++ (.set page item true, true) :: after ∧ ∀ e ∈ after, ¬ Settles page item e

variable {b : Bitmap} {log : List (Call × Bool)} {e : Call × Bool} {page item : Nat}

theorem lastMarked_append_singleton :
    LastMarked page item (log ++ [e]) ↔
      e = (.set page item true, true) ∨ ¬ Settles page item e ∧ LastMarked page item log := by
  constructor
  · rintro ⟨before, after, h, hs⟩
    -- the write is the new entry, or the new entry is the last of those after it
    rcases List.eq_nil_or_concat after with rfl | ⟨after, last, rfl⟩
    · exact .inl (List.append_inj_right' h rfl |> List.singleton_inj.1)
    · rw [List.concat_eq_append, ← List.cons_append, ← List.append_assoc] at h
      obtain ⟨hlog, hlast⟩ := List.append_inj' h rfl
      obtain rfl := List.singleton_inj.1 hlast
      exact .inr ⟨hs e (by simp), before, after, hlog, fun e' he' => hs e' (by simp [he'])⟩
  · rintro (rfl | ⟨he, before, after, rfl, hs⟩)
    · exact ⟨log, [], rfl, by simp⟩
    · refine ⟨before, after ++ [e], by simp, fun e' he' => ?_⟩
      rcases List.mem_append.1 he' with h | h
      · exact hs e' h
      · rw [List.mem_singleton.1 h]
        exact he

theorem not_lastMarked_nil : ¬ LastMarked page item [] := by
  rintro ⟨before, after, h, -⟩
  simp at h

theorem registrations_append (log more : List (Call × Bool)) :
    registrations (log ++ more) = registrations log ++ registrations more :=
  List.filterMap_append

/-! ## One call -/

/-- The bitmap is as its history says. -/
structure Recorded (b : Bitmap) (log : List (Call × Bool)) : Prop where
  valid : b.Valid
  zeroTail : b.ZeroTail
  items_iff : ∀ page items, b.table.items? page = some items ↔ (page, items) ∈ registrations log
  total_eq : b.table.total = ((registrations log).map (·.2)).sum
  marked_iff : ∀ page item, b.isMarked page item = true ↔ LastMarked page item log

/-- An entry that neither registers nor writes adds nothing. -/
theorem Recorded.append_idle (h : Recorded b log) (hr : registration? e = none)
    (hs : ∀ page item, ¬ Settles page item e) : Recorded b (log ++ [e]) := by
  have hl : registrations (log ++ [e]) = registrations log := by
    rw [registrations_append]
    simp [registrations, hr]
  refine ⟨h.valid, h.zeroTail, ?_, ?_, fun page item => ?_⟩
  · rw [hl]
    exact h.items_iff
  · rw [hl]
    exact h.total_eq
  · rw [h.marked_iff, lastMarked_append_singleton]
    constructor
    · exact fun hm => .inr ⟨hs page item, hm⟩
    · rintro (rfl | ⟨-, hm⟩)
      · exact absurd ⟨rfl, rfl, rfl⟩ (hs page item)
      · exact hm

theorem Recorded.append_register (h : Recorded b log) {items : Nat}
    (hr : b.refusal? b.table.registered items = none) :
    Recorded (b.register items) (log ++ [(.addPage b.table.registered items, true)]) := by
  have hl : registrations (log ++ [(.addPage b.table.registered items, true)]) =
      registrations log ++ [(b.table.registered, items)] := by
    rw [registrations_append]
    rfl
  refine ⟨h.valid.register hr, zeroTail_register h.zeroTail items, fun page n => ?_, ?_, fun page item => ?_⟩
  · rw [hl, List.mem_append, ← h.items_iff, table_register, PageTable.items?_push]
    by_cases hp : page = b.table.registered
    · have hn : b.table.items? page = none := (PageTable.items?_eq_none_iff _ page).2 (Nat.le_of_eq hp.symm)
      rw [hn]
      simp [hp, eq_comm]
    · simp [hp]
  · rw [hl, List.map_append, List.sum_append, ← h.total_eq, table_register, PageTable.total_push]
    simp
  · -- the new page shows the bits past the last item, none of which is set
    rw [lastMarked_append_singleton, ← h.marked_iff, h.valid.isMarked_register hr]
    by_cases hp : page = b.table.registered
    · have hno : ¬ b.table.Has page item := fun hi => by have := (PageTable.has_iff.1 hi).1; omega
      simp [hp, h.zeroTail _ (Nat.le_add_right _ item), isMarked_of_not_has (hp ▸ hno)]
    · simp [hp, Settles]

theorem Recorded.append_set (h : Recorded b log) (hi : b.table.Has page item) (on : Bool) :
    Recorded (b.put (b.place page item) on) (log ++ [(.set page item on, true)]) := by
  have hl : registrations (log ++ [(.set page item on, true)]) = registrations log := by
    rw [registrations_append]
    simp [registrations, registration?]
  refine ⟨h.valid.put _ on, h.valid.zeroTail_put h.zeroTail hi on, ?_, ?_, fun p i => ?_⟩
  · rw [hl]
    exact h.items_iff
  · rw [hl]
    exact h.total_eq
  · rw [h.valid.isMarked_put hi, lastMarked_append_singleton, ← h.marked_iff]
    by_cases he : p = page ∧ i = item
    · obtain ⟨rfl, rfl⟩ := he
      simp [Settles]
    · have hne : ¬ (page = p ∧ item = i) := fun ⟨h1, h2⟩ => he ⟨h1.symm, h2.symm⟩
      have hne' : ¬ (page = p ∧ item = i ∧ on = true) := fun ⟨h1, h2, _⟩ => hne ⟨h1, h2⟩
      simp [he, Settles, hne, hne']

/-- A call that clears the bitmap. -/
theorem Recorded.append_clear (h : Recorded b log) (hr : registration? e = none)
    (hs : ∀ page item, Settles page item e) (he : ∀ page item, e ≠ (.set page item true, true)) :
    Recorded b.duplicate (log ++ [e]) := by
  have hl : registrations (log ++ [e]) = registrations log := by
    rw [registrations_append]
    simp [registrations, hr]
  refine ⟨h.valid.duplicate, zeroTail_duplicate b, ?_, ?_, fun page item => ?_⟩
  · rw [hl]
    exact h.items_iff
  · rw [hl]
    exact h.total_eq
  · rw [isMarked_duplicate, lastMarked_append_singleton]
    simp [hs page item, he page item]

theorem Recorded.next (h : Recorded b log) (call : Call) :
    Recorded (call.next b) (log ++ [(call, call.answer b)]) := by
  cases call with
  | addPage page items =>
    cases hr : b.refusal? page items with
    | some reason =>
      simp only [Call.next, Call.answer, addPage, hr]
      exact h.append_idle rfl (fun _ _ hs => hs)
    | none =>
      obtain ⟨-, -, rfl, -⟩ := (b.refusal?_eq_none_iff page items).1 hr
      simp only [Call.next, Call.answer, addPage, hr]
      exact h.append_register hr
  | set page item on =>
    by_cases hi : b.table.Has page item
    · simp only [Call.next, Call.answer, h.valid.write_of_has hi, Option.isNone_none]
      exact h.append_set hi on
    · obtain ⟨reason, -, hw⟩ := write_of_not_has hi on
      simp only [Call.next, Call.answer, hw, Option.isNone_some]
      exact h.append_idle rfl (fun _ _ hs => Bool.false_ne_true hs.1)
  | get page item => exact h.append_idle rfl (fun _ _ hs => hs)
  | reset =>
    simp only [Call.next, reset_eq_duplicate]
    exact h.append_clear rfl (fun _ _ => trivial) (by simp)
  | duplicate => exact h.append_clear rfl (fun _ _ => trivial) (by simp)
  | clone => exact h.append_idle rfl (fun _ _ hs => hs)

/-! ## All calls -/

theorem recorded_blank (limits : Limits) (pageCount : Nat) : Recorded (blank limits pageCount) [] where
  valid := valid_blank limits pageCount
  zeroTail := zeroTail_blank limits pageCount
  items_iff page items := by simp [blank, PageTable.items?, PageTable.range?, registrations]
  total_eq := rfl
  marked_iff page item := by
    simp [isMarked_of_bits (bit_blank limits pageCount), not_lastMarked_nil]

theorem Recorded.run (h : Recorded b log) (calls : List Call) :
    Recorded (b.run calls) (log ++ b.history calls) := by
  induction calls generalizing b log with
  | nil => rwa [history, List.append_nil]
  | cons call calls ih =>
    rw [history, List.append_cons]
    exact ih (h.next call)

theorem recorded_run (limits : Limits) (pageCount : Nat) (calls : List Call) :
    Recorded ((blank limits pageCount).run calls) ((blank limits pageCount).history calls) :=
  (recorded_blank limits pageCount).run calls

/-- After any calls whatever, the pages and marks are those that the history of the run tells: a page has the
items given to its accepted registration, just the items of registered pages can be written, an item reads as
its last accepted write since the bitmap was last cleared, and a new page comes with no item marked and leaves
all other pages as they were. -/
theorem run_eq_history (limits : Limits) (pageCount : Nat) (calls : List Call) :
    let b := (blank limits pageCount).run calls
    let log := (blank limits pageCount).history calls
    (∀ page items, b.table.items? page = some items ↔ (page, items) ∈ registrations log) ∧
      b.table.total = ((registrations log).map (·.2)).sum ∧
      (∀ page item on, (Call.set page item on).answer b = true ↔
        ∃ items, b.table.items? page = some items ∧ item < items) ∧
      (∀ page item, (Call.get page item).answer b = true ↔
        (∃ items, b.table.items? page = some items ∧ item < items) ∧ LastMarked page item log) ∧
      ∀ page items b', b.addPage page items = .ok b' →
        (∀ item, b'.isMarked page item = false) ∧ ∀ p i, p ≠ page → b'.isMarked p i = b.isMarked p i := by
  intro b log
  have h : Recorded b log := recorded_run limits pageCount calls
  refine ⟨h.items_iff, h.total_eq, fun page item on => ?_, fun page item => ?_, fun page items b' hb => ?_⟩
  · rw [Call.answer, Option.isNone_iff_eq_none]
    exact h.valid.write_eq_none_iff page item on
  · rw [Call.answer, ← h.marked_iff]
    constructor
    · exact fun hm => ⟨(h.valid.isMarked_iff.1 hm).1, hm⟩
    · exact fun hm => hm.2
  · constructor
    · intro item
      rw [h.valid.isMarked_addPage hb, if_pos rfl, h.zeroTail _ (Nat.le_add_right _ item), Bool.and_false]
    · intro p i hp
      rw [h.valid.isMarked_addPage hb, if_neg hp]

end Occupancy.Bitmap
