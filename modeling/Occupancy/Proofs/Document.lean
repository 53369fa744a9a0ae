import Mathlib
import Occupancy.Failure
import Occupancy.Proofs.Json
import Occupancy.Proofs.TupleFlags
/-!
# Documents are read as they were meant

A document is made of records, one inside the other. An edit changes how a document is written and not what it says:
somewhere in it members of a record change places, a member that no reader asks for comes in, or a field goes that says
no more than its absence does. `load_of_edits` says that a relation is loaded from every document that edits make of
the one that is written of it, and that a document without a field that has to be given is not loaded.
-/

namespace Occupancy.Document

/-- The records of a document. -/
inductive Kind where
  | relation
  | heapPage
  | slot
  | index
  | indexPage
  | tid
  deriving DecidableEq, Repr

structure Field where
  name : String
  /-- What the field stands for when it is absent; one without it has to be given. -/
  default : Option Json := none
  /-- The kind of the records that are listed in the field, if it is such a list. -/
  items : Option Kind := none

namespace Kind

def fields : Kind → List Field
  | relation => [{ name := "heap", default := some (.array []), items := some heapPage },
      { name := "indexes", default := some (.array []), items := some index }]
  | heapPage => [{ name := "slots", items := some slot }]
  | slot => [{ name := "state" }, { name := "flags", default := some (.text "") }]
  | index => [{ name := "name" }, { name := "pages", default := some (.array []), items := some indexPage }]
  | indexPage => [{ name := "refs", items := some tid }]
  | tid => [{ name := "block" }, { name := "offset" }]

/-- What records of the kind stand for. -/
def Value : Kind → Type
  | relation => Relation
  | heapPage => HeapPage
  | slot => HeapSlot
  | index => Index
  | indexPage => IndexPage
  | tid => HeapTid

def read? : (k : Kind) → Json → Option k.Value
  | relation => Relation.ofJson?
  | heapPage => HeapPage.ofJson?
  | slot => HeapSlot.ofJson?
  | index => Index.ofJson?
  | indexPage => IndexPage.ofJson?
  | tid => HeapTid.ofJson?

end Kind

/-- One change to how a document is written, in the record itself or in one that is listed in it. -/
inductive Edit : Kind → Json → Json → Prop where
  | reorder {k : Kind} {members members' : List (JsonString × Json)} (h : members.Perm members') :
    Edit k (.object members) (.object members')
  | add {k : Kind} {key : String} (hkey : ∀ f ∈ k.fields, f.name ≠ key) (v : Json)
    (before after : List (JsonString × Json)) :
    Edit k (.object (before ++ after)) (.object (before ++ (some key, v) :: after))
  | drop {k : Kind} {f : Field} {v : Json} (hf : f ∈ k.fields) (hv : f.default = some v)
    (before after : List (JsonString × Json)) :
    Edit k (.object (before ++ (some f.name, v) :: after)) (.object (before ++ after))
  | inside {k k' : Kind} {f : Field} {v v' : Json} (hf : f ∈ k.fields) (hi : f.items = some k') (h : Edit k' v v')
    (before after : List (JsonString × Json)) (front back : List Json) :
    Edit k (.object (before ++ (some f.name, .array (front ++ v :: back)) :: after))
      (.object (before ++ (some f.name, .array (front ++ v' :: back)) :: after))

/-- A field that has to be given is missing, in the record itself or in one that is listed in it. -/
inductive Lacks : Kind → Json → Prop where
  | here {k : Kind} {f : Field} {members : List (JsonString × Json)} (hf : f ∈ k.fields) (hd : f.default = none)
    (h : some f.name ∉ members.map (·.1)) : Lacks k (.object members)
  | inside {k k' : Kind} {f : Field} {v : Json} (hf : f ∈ k.fields) (hi : f.items = some k') (h : Lacks k' v)
    (before after : List (JsonString × Json)) (front back : List Json) :
    Lacks k (.object (before ++ (some f.name, .array (front ++ v :: back)) :: after))

/-! ## Members of an object -/

variable {members members' : List (JsonString × Json)}

/-- The members can be those of a record of this kind: keys are texts, and no field is given twice. -/
structure Legible (k : Kind) (members : List (JsonString × Json)) : Prop where
  text : none ∉ members.map (·.1)
  once : ∀ f ∈ k.fields, (members.map (·.1)).count (some f.name) ≤ 1

/-- The value of a member, if there is one with that name. -/
def given (members : List (JsonString × Json)) (name : String) : Option Json := members.lookup (some name)

namespace Kind

/-- The record that fields with these values make. -/
def build : (k : Kind) → (String → Option Json) → Option k.Value
  | relation, g => do
    return ({
      heap := ← optional [] (list? HeapPage.ofJson?) (g "heap")
      indexes := ← optional [] (list? Index.ofJson?) (g "indexes") } : Relation)
  | heapPage, g => do return ({ slots := ← required (array? HeapSlot.ofJson?) (g "slots") } : HeapPage)
  | slot, g => do
    return ({
      state := ← required LineState.ofJson? (g "state")
      flags := ← optional .none TupleFlags.ofJson? (g "flags") } : HeapSlot)
  | index, g => do
    return ({
      name := ← required text? (g "name")
      pages := ← optional [] (list? IndexPage.ofJson?) (g "pages") } : Index)
  | indexPage, g => do return ({ refs := ← required (array? HeapTid.ofJson?) (g "refs") } : IndexPage)
  | tid, g => do
    return ({
      block := UInt32.ofNat (← required (natBelow? UInt32.size) (g "block"))
      offset := UInt16.ofNat (← required (natBelow? UInt16.size) (g "offset")) } : HeapTid)

end Kind

theorem legible_iff {k : Kind} {members : List (JsonString × Json)} :
    Legible k members ↔ ((members.map (·.1)).contains none ||
      (k.fields.map (·.name)).any fun name => 1 < (members.map (·.1)).count (some name)) = false := by
  simp only [Bool.or_eq_false_iff, List.contains_eq_mem, decide_eq_false_iff_not, List.any_eq_false, List.mem_map,
    decide_eq_true_eq, Nat.not_lt, forall_exists_index, and_imp, forall_apply_eq_imp_iff₂]
  constructor
  · rintro ⟨htext, honce⟩
    exact ⟨by simpa using htext, honce⟩
  · rintro ⟨htext, honce⟩
    exact ⟨by simpa using htext, honce⟩

theorem fields?_of_legible {k : Kind} (h : Legible k members) :
    fields? (k.fields.map (·.name)) (.object members) = some ((k.fields.map (·.name)).map (given members)) := by
  unfold fields?
  dsimp only
  rw [legible_iff.1 h]
  rfl

theorem fields?_of_not_legible {k : Kind} (h : ¬ Legible k members) :
    fields? (k.fields.map (·.name)) (.object members) = none := by
  unfold fields?
  dsimp only
  rw [if_pos (Bool.not_eq_false _ ▸ mt legible_iff.2 h)]

theorem read?_of_legible {k : Kind} (h : Legible k members) : k.read? (.object members) = k.build (given members) := by
  have hfields := fields?_of_legible h
  simp only [Kind.fields] at hfields
  cases k <;>
    simp only [Kind.read?, Relation.ofJson?, HeapPage.ofJson?, HeapSlot.ofJson?, Index.ofJson?, IndexPage.ofJson?,
      HeapTid.ofJson?, List.map_cons, List.map_nil] at hfields ⊢ <;>
    rw [hfields] <;> rfl

theorem read?_of_not_legible {k : Kind} (h : ¬ Legible k members) : k.read? (.object members) = none := by
  have hfields := fields?_of_not_legible h
  simp only [Kind.fields] at hfields
  cases k <;>
    simp only [Kind.read?, Relation.ofJson?, HeapPage.ofJson?, HeapSlot.ofJson?, Index.ofJson?, IndexPage.ofJson?,
      HeapTid.ofJson?, List.map_cons, List.map_nil] at hfields ⊢ <;>
    rw [hfields] <;> rfl

/-! ## Fields that say the same -/

/-- As whatever the first value is read, so is the second. -/
def Keeps (k : Kind) (v v' : Json) : Prop := ∀ {x : k.Value}, k.read? v = some x → k.read? v' = some x

/-- The second value of a field says what the first does. -/
inductive Same (f : Field) : Option Json → Option Json → Prop where
  | refl (o : Option Json) : Same f o o
  | drop {v : Json} (hv : f.default = some v) : Same f (some v) none
  | inside {k : Kind} {v v' : Json} (hi : f.items = some k) (h : Keeps k v v') (front back : List Json) :
    Same f (some (.array (front ++ v :: back))) (some (.array (front ++ v' :: back)))

section

variable {α : Type} {read : Json → Option α} {front back : List Json} {v v' : Json}

/-- A list is read item by item. -/
theorem list?_eq_some_iff {xs : List α} :
    list? read (.array (front ++ v :: back)) = some xs ↔
      ∃ as, front.mapM read = some as ∧ ∃ x, read v = some x ∧ ∃ bs, back.mapM read = some bs ∧ as ++ x :: bs = xs := by
  rw [list?, List.mapM_append, List.mapM_cons]
  simp only [Option.bind_eq_bind, Option.bind_eq_some_iff, Option.pure_def, Option.some.injEq]
  constructor
  · rintro ⟨as, hfront, _, ⟨x, hx, bs, hback, rfl⟩, rfl⟩
    exact ⟨as, hfront, x, hx, bs, hback, rfl⟩
  · rintro ⟨as, hfront, x, hx, bs, hback, rfl⟩
    exact ⟨as, hfront, _, ⟨x, hx, bs, hback, rfl⟩, rfl⟩

theorem list?_keeps (h : ∀ {x}, read v = some x → read v' = some x) {xs : List α}
    (hxs : list? read (.array (front ++ v :: back)) = some xs) :
    list? read (.array (front ++ v' :: back)) = some xs := by
  obtain ⟨as, hfront, x, hx, bs, hback, rfl⟩ := list?_eq_some_iff.1 hxs
  exact list?_eq_some_iff.2 ⟨as, hfront, x, h hx, bs, hback, rfl⟩

theorem list?_eq_none (h : read v = none) : list? read (.array (front ++ v :: back)) = none := by
  refine Option.eq_none_iff_forall_ne_some.2 fun xs hxs => ?_
  obtain ⟨-, -, x, hx, -⟩ := list?_eq_some_iff.1 hxs
  rw [h] at hx
  cases hx

theorem array?_keeps (h : ∀ {x}, read v = some x → read v' = some x) {xs : Array α}
    (hxs : array? read (.array (front ++ v :: back)) = some xs) :
    array? read (.array (front ++ v' :: back)) = some xs := by
  obtain ⟨list, hlist, rfl⟩ := Option.map_eq_some_iff.1 hxs
  rw [array?, list?_keeps h hlist]
  rfl

theorem array?_eq_none (h : read v = none) : array? read (.array (front ++ v :: back)) = none := by
  rw [array?, list?_eq_none h]
  rfl

end

variable {f : Field} {o o' : Option Json}

/-- A reader that goes through the records that are listed in the field. -/
def Follows {α : Type} (f : Field) (read : Json → Option α) : Prop :=
  ∀ {k front v v' back x}, f.items = some k → Keeps k v v' → read (.array (front ++ v :: back)) = some x →
    read (.array (front ++ v' :: back)) = some x

theorem Same.required {α : Type} {read : Json → Option α} {x : α} (h : Same f o o') (hd : f.default = none)
    (hread : Follows f read) (hx : Document.required read o = some x) : Document.required read o' = some x := by
  cases h with
  | refl => exact hx
  | drop hv =>
    rw [hd] at hv
    cases hv
  | inside hi h => exact hread hi h hx

theorem Same.optional {α : Type} {read : Json → Option α} {default x : α} (h : Same f o o')
    (hd : ∀ {v}, f.default = some v → read v = some default) (hread : Follows f read)
    (hx : Document.optional default read o = some x) : Document.optional default read o' = some x := by
  cases h with
  | refl => exact hx
  | drop hv =>
    rw [← hx]
    exact (hd hv).symm
  | inside hi h => exact hread hi h hx

theorem optional_list_same {α : Type} {read : Json → Option α} {x : List α} (h : Same f o o')
    (hd : f.default = some (.array [])) (hread : Follows f (list? read)) (hx : optional [] (list? read) o = some x) :
    optional [] (list? read) o' = some x :=
  h.optional (fun hv => by rw [hd] at hv; obtain rfl := Option.some.inj hv; rfl) hread hx

theorem follows_none {α : Type} (hi : f.items = none) (read : Json → Option α) : Follows f read := by
  intro k front v v' back x hk
  rw [hi] at hk
  cases hk

/-- A record is made of fields that say the same. -/
theorem build_same {k : Kind} {g g' : String → Option Json} (h : ∀ f ∈ k.fields, Same f (g f.name) (g' f.name))
    {x : k.Value} (hx : k.build g = some x) : k.build g' = some x := by
  -- field by field, in the order in which a record is read
  cases k with
  | relation =>
    obtain ⟨hheap, hindexes⟩ := List.forall_mem_cons.1 h
    have hindexes := hindexes _ List.mem_cons_self
    obtain ⟨heap, hheap', hx⟩ := Option.bind_eq_some_iff.1 hx
    obtain ⟨indexes, hindexes', hx⟩ := Option.bind_eq_some_iff.1 hx
    have h₁ := optional_list_same hheap rfl (fun hi h hx => by cases hi; exact list?_keeps h hx) hheap'
    have h₂ := optional_list_same hindexes rfl (fun hi h hx => by cases hi; exact list?_keeps h hx) hindexes'
    exact Option.bind_eq_some_iff.2 ⟨heap, h₁, Option.bind_eq_some_iff.2 ⟨indexes, h₂, hx⟩⟩
  | heapPage =>
    obtain ⟨slots, hslots, hx⟩ := Option.bind_eq_some_iff.1 hx
    have h₁ := (h _ List.mem_cons_self).required rfl (fun hi h hx => by cases hi; exact array?_keeps h hx) hslots
    exact Option.bind_eq_some_iff.2 ⟨slots, h₁, hx⟩
  | slot =>
    obtain ⟨hstate, hflags⟩ := List.forall_mem_cons.1 h
    have hflags := hflags _ List.mem_cons_self
    obtain ⟨state, hstate', hx⟩ := Option.bind_eq_some_iff.1 hx
    obtain ⟨flags, hflags', hx⟩ := Option.bind_eq_some_iff.1 hx
    have h₁ := hstate.required rfl (follows_none rfl _) hstate'
    have h₂ := hflags.optional (fun hv => by cases hv; rfl) (follows_none rfl _) hflags'
    exact Option.bind_eq_some_iff.2 ⟨state, h₁, Option.bind_eq_some_iff.2 ⟨flags, h₂, hx⟩⟩
  | index =>
    obtain ⟨hname, hpages⟩ := List.forall_mem_cons.1 h
    have hpages := hpages _ List.mem_cons_self
    obtain ⟨name, hname', hx⟩ := Option.bind_eq_some_iff.1 hx
    obtain ⟨pages, hpages', hx⟩ := Option.bind_eq_some_iff.1 hx
    have h₁ := hname.required rfl (follows_none rfl _) hname'
    have h₂ := optional_list_same hpages rfl (fun hi h hx => by cases hi; exact list?_keeps h hx) hpages'
    exact Option.bind_eq_some_iff.2 ⟨name, h₁, Option.bind_eq_some_iff.2 ⟨pages, h₂, hx⟩⟩
  | indexPage =>
    obtain ⟨refs, hrefs, hx⟩ := Option.bind_eq_some_iff.1 hx
    have h₁ := (h _ List.mem_cons_self).required rfl (fun hi h hx => by cases hi; exact array?_keeps h hx) hrefs
    exact Option.bind_eq_some_iff.2 ⟨refs, h₁, hx⟩
  | tid =>
    obtain ⟨hblock, hoffset⟩ := List.forall_mem_cons.1 h
    have hoffset := hoffset _ List.mem_cons_self
    obtain ⟨block, hblock', hx⟩ := Option.bind_eq_some_iff.1 hx
    obtain ⟨offset, hoffset', hx⟩ := Option.bind_eq_some_iff.1 hx
    have h₁ := hblock.required rfl (follows_none rfl _) hblock'
    have h₂ := hoffset.required rfl (follows_none rfl _) hoffset'
    exact Option.bind_eq_some_iff.2 ⟨block, h₁, Option.bind_eq_some_iff.2 ⟨offset, h₂, hx⟩⟩

/-! ## Fields that spoil a record -/

/-- The field has to be given and is not, or it lists a record that cannot be read. -/
inductive Spoils (f : Field) : Option Json → Prop where
  | absent (hd : f.default = none) : Spoils f none
  | inside {k : Kind} {v : Json} (hi : f.items = some k) (h : k.read? v = none) (front back : List Json) :
    Spoils f (some (.array (front ++ v :: back)))

/-- A reader that reads nothing if there is a record it cannot read among those that are listed in the field. -/
def Refuses {α : Type} (f : Field) (read : Json → Option α) : Prop :=
  ∀ {k front v back}, f.items = some k → k.read? v = none → read (.array (front ++ v :: back)) = none

theorem refuses_none {α : Type} (hi : f.items = none) (read : Json → Option α) : Refuses f read := by
  intro k front v back hk
  rw [hi] at hk
  cases hk

theorem not_spoils_of_required {α : Type} {read : Json → Option α} {x : α} (hread : Refuses f read)
    (hx : Document.required read o = some x) : ¬ Spoils f o := by
  intro h
  cases h with
  | absent => cases hx
  | inside hi h front back =>
    change read _ = some x at hx
    rw [hread hi h] at hx
    cases hx

theorem not_spoils_of_optional {α : Type} {read : Json → Option α} {default x : α} (hd : f.default ≠ none)
    (hread : Refuses f read) (hx : Document.optional default read o = some x) : ¬ Spoils f o := by
  intro h
  cases h with
  | absent hd' => exact hd hd'
  | inside hi h front back =>
    change read _ = some x at hx
    rw [hread hi h] at hx
    cases hx

/-- A record is made of no field that spoils it. -/
theorem not_spoils_of_build {k : Kind} {g : String → Option Json} {x : k.Value} (hx : k.build g = some x) :
    ∀ f ∈ k.fields, ¬ Spoils f (g f.name) := by
  cases k with
  | relation =>
    obtain ⟨heap, hheap, hx⟩ := Option.bind_eq_some_iff.1 hx
    obtain ⟨indexes, hindexes, -⟩ := Option.bind_eq_some_iff.1 hx
    refine List.forall_mem_cons.2 ⟨?_, List.forall_mem_singleton.2 ?_⟩
    · exact not_spoils_of_optional nofun (fun hi h => by cases hi; exact list?_eq_none h) hheap
    · exact not_spoils_of_optional nofun (fun hi h => by cases hi; exact list?_eq_none h) hindexes
  | heapPage =>
    obtain ⟨slots, hslots, -⟩ := Option.bind_eq_some_iff.1 hx
    refine List.forall_mem_singleton.2 ?_
    exact not_spoils_of_required (fun hi h => by cases hi; exact array?_eq_none h) hslots
  | slot =>
    obtain ⟨state, hstate, hx⟩ := Option.bind_eq_some_iff.1 hx
    obtain ⟨flags, hflags, -⟩ := Option.bind_eq_some_iff.1 hx
    refine List.forall_mem_cons.2 ⟨?_, List.forall_mem_singleton.2 ?_⟩
    · exact not_spoils_of_required (refuses_none rfl _) hstate
    · exact not_spoils_of_optional nofun (refuses_none rfl _) hflags
  | index =>
    obtain ⟨name, hname, hx⟩ := Option.bind_eq_some_iff.1 hx
    obtain ⟨pages, hpages, -⟩ := Option.bind_eq_some_iff.1 hx
    refine List.forall_mem_cons.2 ⟨?_, List.forall_mem_singleton.2 ?_⟩
    · exact not_spoils_of_required (refuses_none rfl _) hname
    · exact not_spoils_of_optional nofun (fun hi h => by cases hi; exact list?_eq_none h) hpages
  | indexPage =>
    obtain ⟨refs, hrefs, -⟩ := Option.bind_eq_some_iff.1 hx
    refine List.forall_mem_singleton.2 ?_
    exact not_spoils_of_required (fun hi h => by cases hi; exact array?_eq_none h) hrefs
  | tid =>
    obtain ⟨block, hblock, hx⟩ := Option.bind_eq_some_iff.1 hx
    obtain ⟨offset, hoffset, -⟩ := Option.bind_eq_some_iff.1 hx
    refine List.forall_mem_cons.2 ⟨?_, List.forall_mem_singleton.2 ?_⟩
    · exact not_spoils_of_required (refuses_none rfl _) hblock
    · exact not_spoils_of_required (refuses_none rfl _) hoffset

/-! ## Edited members -/

section

variable {k : Kind} {name : String} {v : Json} {before after : List (JsonString × Json)}

theorem given_cons (key : JsonString) (v : Json) (rest : List (JsonString × Json)) :
    given ((key, v) :: rest) name = if key = some name then some v else given rest name := by
  rw [given, List.lookup_cons, given]
  by_cases h : key = some name
  · rw [if_pos h, beq_iff_eq.2 h.symm]
  · rw [if_neg h, beq_eq_false_iff_ne.2 (Ne.symm h)]

/-- The place of a member does not matter when there is one of its name at most. -/
theorem given_perm (h : members.Perm members') (hone : (members.map (·.1)).count (some name) ≤ 1) :
    given members name = given members' name := by
  -- two members that change places cannot both be the one that is asked for
  induction h with
  | nil => rfl
  | cons m h ih =>
    rw [List.map_cons, List.count_cons] at hone
    rw [given_cons, given_cons, ih (by omega)]
  | swap m m' rest =>
    simp only [List.map_cons, List.count_cons, beq_iff_eq] at hone
    rw [given_cons, given_cons, given_cons, given_cons]
    by_cases hm : m.1 = some name
    · have hm' : m'.1 ≠ some name := by
        intro hm'
        rw [if_pos hm, if_pos hm'] at hone
        omega
      rw [if_neg hm', if_pos hm, if_pos hm]
    · rw [if_neg hm, if_neg hm]
  | trans h h' ih ih' => rw [ih hone, ih' (((h.map (·.1)).count_eq (some name)).symm.trans_le hone)]

theorem given_append (front back : List (JsonString × Json)) :
    given (front ++ back) name = (given front name).or (given back name) := List.lookup_append

theorem given_eq_none_iff : given members name = none ↔ (members.map (·.1)).count (some name) = 0 := by
  induction members with
  | nil => exact ⟨fun _ => rfl, fun _ => rfl⟩
  | cons m rest ih =>
    rw [given_cons, List.map_cons, List.count_cons]
    by_cases hm : m.1 = some name <;> simp [hm, ih]

/-- A member is not seen when another is asked for. -/
theorem given_insert_of_ne {other : String} (h : name ≠ other) :
    given (before ++ (some name, v) :: after) other = given (before ++ after) other := by
  rw [given_append, given_append, given_cons, if_neg (by simpa using h)]

/-- A member that is the only one of its name is seen, and without it there is none. -/
theorem given_insert (hone : ((before ++ (some name, v) :: after).map (·.1)).count (some name) ≤ 1) :
    given (before ++ (some name, v) :: after) name = some v ∧ given (before ++ after) name = none := by
  rw [List.map_append, List.map_cons, List.count_append, List.count_cons_self] at hone
  have hbefore : given before name = none := given_eq_none_iff.2 (by omega)
  have hafter : given after name = none := given_eq_none_iff.2 (by omega)
  rw [given_append, given_append, given_cons, hbefore, hafter, if_pos rfl]
  exact ⟨rfl, rfl⟩

end

/-! ## Edited documents -/

section

variable {k : Kind} {f f' : Field} {v v' : Json} {before after : List (JsonString × Json)}

/-- No two fields of a record have one name. -/
theorem Kind.field_eq (hf : f ∈ k.fields) (hf' : f' ∈ k.fields) (h : f.name = f'.name) : f = f' := by
  cases k <;> simp only [Kind.fields, List.mem_cons, List.not_mem_nil, or_false] at hf hf' <;>
    rcases hf with rfl | rfl <;> rcases hf' with rfl | rfl <;> first | rfl | exact absurd h (by decide)

theorem Legible.perm (h : Legible k members) (hperm : members.Perm members') : Legible k members' where
  text := fun hmem => h.text ((hperm.map _).mem_iff.2 hmem)
  once := fun f hf => ((hperm.map (·.1)).count_eq (some f.name)).symm.trans_le (h.once f hf)

theorem Legible.insert {key : String} (h : Legible k (before ++ after)) (hkey : ∀ f ∈ k.fields, f.name ≠ key)
    (v : Json) : Legible k (before ++ (some key, v) :: after) where
  text := by simpa using h.text
  once := by
    intro f hf
    have hone := h.once f hf
    rw [List.map_append, List.count_append] at hone ⊢
    rwa [List.map_cons, List.count_cons_of_ne (by simpa using (hkey f hf).symm)]

theorem Legible.remove {key : JsonString} (h : Legible k (before ++ (key, v) :: after)) :
    Legible k (before ++ after) := by
  have hsub : (before ++ after).Sublist (before ++ (key, v) :: after) :=
    (List.sublist_cons_self _ _).append_left _
  exact ⟨fun hmem => h.text ((hsub.map _).subset hmem), fun f hf => ((hsub.map _).count_le _).trans (h.once f hf)⟩

theorem Legible.replace {key : JsonString} (h : Legible k (before ++ (key, v) :: after)) :
    Legible k (before ++ (key, v') :: after) := by
  have hkeys : (before ++ (key, v) :: after).map (·.1) = (before ++ (key, v') :: after).map (·.1) := by simp
  exact ⟨hkeys ▸ h.text, hkeys ▸ h.once⟩

/-- What the record reads as is settled by what its fields say. -/
theorem keeps_of_same (hlegible : Legible k members → Legible k members')
    (hsame : Legible k members → ∀ f ∈ k.fields, Same f (given members f.name) (given members' f.name)) :
    Keeps k (.object members) (.object members') := by
  intro x hx
  by_cases h : Legible k members
  · rw [read?_of_legible h] at hx
    rw [read?_of_legible (hlegible h)]
    exact build_same (hsame h) hx
  · rw [read?_of_not_legible h] at hx
    cases hx

/-- Nothing is read from a record with a field that spoils it. -/
theorem read?_of_spoils (hf : f ∈ k.fields) (h : Legible k members → Spoils f (given members f.name)) :
    k.read? (.object members) = none := by
  by_cases hl : Legible k members
  · rw [read?_of_legible hl]
    exact Option.eq_none_iff_forall_ne_some.2 fun x hx => not_spoils_of_build hx f hf (h hl)
  · exact read?_of_not_legible hl

/-- An edit changes nothing of what is read. -/
theorem keeps_of_edit (h : Edit k v v') : Keeps k v v' := by
  -- the field that is edited says the same, and the others are not touched: no two fields have one name
  induction h with
  | reorder h =>
    refine keeps_of_same (fun hl => hl.perm h) fun hl f hf => ?_
    rw [given_perm h (hl.once f hf)]
    exact .refl _
  | add hkey v before after =>
    refine keeps_of_same (fun hl => hl.insert hkey v) fun _ f hf => ?_
    rw [given_insert_of_ne (hkey f hf).symm]
    exact .refl _
  | @drop k f v hf hv before after =>
    refine keeps_of_same Legible.remove fun hl f' hf' => ?_
    by_cases hname : f.name = f'.name
    · obtain rfl := Kind.field_eq hf hf' hname
      obtain ⟨hwith, hwithout⟩ := given_insert (hl.once f hf)
      rw [hwith, hwithout]
      exact .drop hv
    · rw [given_insert_of_ne hname]
      exact .refl _
  | @inside k k' f v v' hf hi _ before after front back ih =>
    refine keeps_of_same Legible.replace fun hl f' hf' => ?_
    by_cases hname : f.name = f'.name
    · obtain rfl := Kind.field_eq hf hf' hname
      rw [(given_insert (hl.once f hf)).1, (given_insert (hl.replace.once f hf)).1]
      exact .inside hi ih front back
    · rw [given_insert_of_ne hname, given_insert_of_ne hname]
      exact .refl _

/-- Nothing is read from a document in which a field that has to be given is missing. -/
theorem read?_of_lacks (h : Lacks k v) : k.read? v = none := by
  induction h with
  | here hf hd h =>
    refine read?_of_spoils hf fun _ => ?_
    rw [given_eq_none_iff.2 (List.count_eq_zero_of_not_mem h)]
    exact .absent hd
  | @inside k k' f v hf hi _ before after front back ih =>
    refine read?_of_spoils hf fun hl => ?_
    rw [(given_insert (hl.once f hf)).1]
    exact .inside hi ih front back

end

/-! ## Written documents -/

/-- A record that is written with each field once is made of these fields. -/
theorem read?_record {k : Kind} {members : List (String × Json)} (h : (members.map (·.1)).Nodup) :
    k.read? (.record members) = k.build fun name => members.lookup name := by
  have hkeys : (members.map fun m => ((some m.1, m.2) : JsonString × Json)).map (·.1) =
      (members.map (·.1)).map some := by simp
  have hlegible : Legible k (members.map fun m => ((some m.1, m.2) : JsonString × Json)) := by
    refine ⟨by simp, fun f _ => ?_⟩
    rw [hkeys]
    exact List.nodup_iff_count_le_one.1 (h.map (Option.some_injective String)) _
  have hgiven : given (members.map fun m => ((some m.1, m.2) : JsonString × Json)) =
      fun name => members.lookup name := by
    funext name
    clear h hkeys hlegible
    induction members with
    | nil => rfl
    | cons m rest ih =>
      rw [List.map_cons, given_cons, ih, List.lookup_cons]
      by_cases hname : m.1 = name
      · rw [if_pos (congrArg some hname), beq_iff_eq.2 hname.symm]
      · rw [if_neg (by simpa using hname), beq_eq_false_iff_ne.2 (Ne.symm hname)]
  rw [← hgiven]
  exact read?_of_legible hlegible

theorem natBelow?_nat {limit n : Nat} (h : n < limit) : natBelow? limit (.nat n) = some n := if_pos h

section

variable {α : Type} {read : Json → Option α} {write : α → Json}

theorem list?_map (h : ∀ a, read (write a) = some a) (as : List α) : list? read (.array (as.map write)) = some as := by
  rw [list?]
  exact mapM_map_eq_some fun a _ => h a

theorem array?_map (h : ∀ a, read (write a) = some a) (as : Array α) :
    array? read (.array (as.toList.map write)) = some as := by
  rw [array?, list?_map h]
  rfl

end

end Occupancy.Document

namespace Occupancy

open Document

theorem HeapTid.ofJson?_toJson (tid : HeapTid) : ofJson? tid.toJson = some tid := by
  have hblock : natBelow? UInt32.size (.nat tid.block.toNat) = some _ := natBelow?_nat tid.block.toNat_lt
  have hoffset : natBelow? UInt16.size (.nat tid.offset.toNat) = some _ := natBelow?_nat tid.offset.toNat_lt
  refine (read?_record (k := .tid) (by simp)).trans ?_
  refine Option.bind_eq_some_iff.2 ⟨_, hblock, Option.bind_eq_some_iff.2 ⟨_, hoffset, ?_⟩⟩
  rw [UInt32.ofNat_toNat, UInt16.ofNat_toNat]
  rfl

theorem IndexPage.ofJson?_toJson (p : IndexPage) : ofJson? p.toJson = some p := by
  refine (read?_record (k := .indexPage) (by simp)).trans ?_
  exact Option.bind_eq_some_iff.2 ⟨_, array?_map HeapTid.ofJson?_toJson p.refs, rfl⟩

theorem Index.ofJson?_toJson (i : Index) : ofJson? i.toJson = some i := by
  refine (read?_record (k := .index) (by simp)).trans ?_
  exact Option.bind_eq_some_iff.2 ⟨_, list?_map IndexPage.ofJson?_toJson i.pages, rfl⟩

theorem HeapSlot.ofJson?_toJson (s : HeapSlot) : ofJson? s.toJson = some s := by
  refine (read?_record (k := .slot) (by simp)).trans ?_
  refine Option.bind_eq_some_iff.2 ⟨s.state, s.state.ofName?_name, ?_⟩
  exact Option.bind_eq_some_iff.2 ⟨s.flags, s.flags.ofText?_text, rfl⟩

theorem HeapPage.ofJson?_toJson (p : HeapPage) : ofJson? p.toJson = some p := by
  refine (read?_record (k := .heapPage) (by simp)).trans ?_
  exact Option.bind_eq_some_iff.2 ⟨_, array?_map HeapSlot.ofJson?_toJson p.slots, rfl⟩

theorem Relation.ofJson?_toJson (r : Relation) : ofJson? r.toJson = some r := by
  refine (read?_record (k := .relation) (by simp)).trans ?_
  refine Option.bind_eq_some_iff.2 ⟨_, list?_map HeapPage.ofJson?_toJson r.heap, ?_⟩
  exact Option.bind_eq_some_iff.2 ⟨_, list?_map Index.ofJson?_toJson r.indexes, rfl⟩

end Occupancy

namespace Occupancy.Document

/-! ## Loading -/

/-- Whatever edits make of the document of a relation is read as that relation. -/
theorem ofJson?_of_edits {r : Occupancy.Relation} {v : Json} (h : Relation.ReflTransGen (Edit .relation) r.toJson v) :
    Relation.ofJson? v = some r := by
  induction h with
  | refl => exact Relation.ofJson?_toJson r
  | tail _ h ih => exact keeps_of_edit h ih

/-- A relation is loaded from the text that is written of it and from every text of a document that edits make of its
own; no text of a document that lacks a field is loaded. -/
theorem load_of_edits (path : String) :
    (∀ r : Occupancy.Relation, Relation.load path (.ok (utf8 r.toJson.compact)) = .ok r ∧
      Relation.load path (.ok (utf8 r.toJson.pretty)) = .ok r) ∧
    ∀ {text : String} {v : Json}, Json.read? text = some v →
      (∀ r : Occupancy.Relation, Relation.ReflTransGen (Edit .relation) r.toJson v →
        Relation.load path (.ok (utf8 text)) = .ok r) ∧
      (Lacks .relation v → ∃ detail, Relation.load path (.ok (utf8 text)) = .error (.invalidJson path detail)) := by
  have hload {text : String} {v : Json} {r : Occupancy.Relation} (htext : Json.read? text = some v)
      (h : Relation.ReflTransGen (Edit .relation) r.toJson v) : Relation.load path (.ok (utf8 text)) = .ok r := by
    rw [Relation.load, load_utf8 htext, ofJson?_of_edits h]
    rfl
  refine ⟨fun r => ⟨hload (Json.read?_compact _) .refl, hload (Json.read?_pretty _) .refl⟩, fun {text v} htext => ?_⟩
  refine ⟨fun r h => hload htext h, fun h => ?_⟩
  have hnone : Relation.ofJson? v = none := read?_of_lacks h
  rw [Relation.load, load_utf8 htext, hnone]
  exact ⟨_, rfl⟩

/-- A heap page with a single tuple, and no index. -/
def onePage : Occupancy.Relation := { heap := [{ slots := #[{ state := .normal }] }] }

/-- A heap page with this slot. -/
def pageOf (slot : Json) : Json := .record [("slots", .array [slot])]

/-- A relation with this heap page, a remark, and nothing that goes without saying. -/
def remarked (page : Json) : Json := .record [("remark", .null), ("heap", .array [page])]

def normalSlot : Json := .record [("state", .text "normal")]

theorem edits_onePage : Relation.ReflTransGen (Edit .relation) onePage.toJson (remarked (pageOf normalSlot)) := by
  have hslot : Edit .slot (.record [("state", .text "normal"), ("flags", .text "")]) normalSlot :=
    .drop (f := ⟨"flags", some (.text ""), none⟩) (List.mem_cons_of_mem _ List.mem_cons_self) rfl
      [(some "state", .text "normal")] []
  have hpage : Edit .heapPage (pageOf (.record [("state", .text "normal"), ("flags", .text "")])) (pageOf normalSlot) :=
    .inside (f := ⟨"slots", none, some .slot⟩) List.mem_cons_self rfl hslot [] [] [] []
  have hheap : Edit .relation onePage.toJson
      (.record [("heap", .array [pageOf normalSlot]), ("indexes", .array [])]) :=
    .inside (f := ⟨"heap", some (.array []), some .heapPage⟩) List.mem_cons_self rfl hpage []
      [(some "indexes", .array [])] [] []
  have hindexes : Edit .relation (.record [("heap", .array [pageOf normalSlot]), ("indexes", .array [])])
      (.record [("heap", .array [pageOf normalSlot])]) :=
    .drop (f := ⟨"indexes", some (.array []), some .index⟩) (List.mem_cons_of_mem _ List.mem_cons_self) rfl
      [(some "heap", .array [pageOf normalSlot])] []
  have hremark : Edit .relation (.record [("heap", .array [pageOf normalSlot])]) (remarked (pageOf normalSlot)) :=
    .add (by decide) .null [] [(some "heap", .array [pageOf normalSlot])]
  exact ((Relation.ReflTransGen.single hheap).tail hindexes).tail hremark

theorem lacks_state : Lacks .relation (remarked (pageOf (.record []))) := by
  have hslot : Lacks .slot (.record []) := .here (f := ⟨"state", none, none⟩) List.mem_cons_self rfl nofun
  have hpage : Lacks .heapPage (pageOf (.record [])) :=
    .inside (f := ⟨"slots", none, some .slot⟩) List.mem_cons_self rfl hslot [] [] [] []
  exact .inside (f := ⟨"heap", some (.array []), some .heapPage⟩) List.mem_cons_self rfl hpage
    [(some "remark", .null)] [] [] []

theorem load_of_edits_onePage :
    Relation.load "relation.json" (.ok (utf8 (remarked (pageOf normalSlot)).pretty)) = .ok onePage ∧
      ∃ detail, Relation.load "relation.json" (.ok (utf8 (remarked (pageOf (.record []))).compact)) =
        .error (.invalidJson "relation.json" detail) := by
  obtain ⟨-, hload⟩ := load_of_edits "relation.json"
  exact ⟨(hload (Json.read?_pretty _)).1 _ edits_onePage, (hload (Json.read?_compact _)).2 lacks_state⟩

end Occupancy.Document
