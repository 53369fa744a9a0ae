import Mathlib
import Occupancy.Command.Run
import Occupancy.Proofs.Check
import Occupancy.Proofs.Image.Format
/-!
# What a run of the command does

A run is followed here on a host that notes, in their order, the directories and files that are made and all that is
shown. `record_follows_check` says how the exit status and the effects of a run follow from the check that it was
asked for: help, a complaint that nothing else goes with, or the report and a line for each index at fault. The limits
of a configuration are judged in words of 64 bits, and there is taken to be memory for the bitmaps that they call for.
-/

namespace Occupancy

/-! ## No message is empty -/

theorem ne_empty_of_append {s t : String} (h : s ≠ "") : s ++ t ≠ "" :=
  fun hst => h (String.append_eq_empty_iff.1 hst).1

theorem RegistrationError.message_ne_empty (e : RegistrationError) : e.message ≠ "" := by
  cases e with
  | outOfOrder => decide
  | _ =>
    unfold RegistrationError.message
    repeat apply ne_empty_of_append
    decide

theorem Failure.message_ne_empty (failure : Failure) : failure.message ≠ "" := by
  unfold Failure.message
  split
  case h_8 error => exact error.message_ne_empty
  all_goals
    repeat apply ne_empty_of_append
    decide

theorem Command.ArgumentError.message_ne_empty {e : Command.ArgumentError} (h : e ≠ .help) : e.message ≠ "" := by
  cases e with
  | help => exact absurd rfl h
  | missingValue flag => cases flag <;> decide
  | unknownFormat text =>
    apply ne_empty_of_append
    decide
  | unknownOption text =>
    apply ne_empty_of_append
    decide
  | noFixture => decide

/-! ## Files that hold a relation -/

theorem Relation.load_utf8 {text : String} {r : Relation} (h : (Json.read? text).bind Relation.ofJson? = some r)
    (path : String) : Relation.load path (.ok (utf8 text)) = .ok r := by
  obtain ⟨v, hv, hr⟩ := Option.bind_eq_some_iff.1 h
  rw [Relation.load, Document.load_utf8 hv, hr]
  rfl

namespace Command

/-! ## A host that takes notes -/

/-- What a run leaves behind, step by step. -/
inductive Effect where
  | directory (path : String)
  | file (path : String) (contents : List UInt8)
  | output (text : String)
  /-- A line beside the output. -/
  | line (text : String)
  deriving DecidableEq, Repr

namespace Effect

def directories (effects : List Effect) : List String :=
  effects.filterMap fun
    | .directory path => some path
    | _ => none

def files (effects : List Effect) : List (String × List UInt8) :=
  effects.filterMap fun
    | .file path contents => some (path, contents)
    | _ => none

def outputs (effects : List Effect) : List String :=
  effects.filterMap fun
    | .output text => some text
    | _ => none

def lines (effects : List Effect) : List String :=
  effects.filterMap fun
    | .line text => some text
    | _ => none

end Effect

def Action.effect : Action → Effect
  | .makeDirectory path => .directory path
  | .saveBitmap path bitmap => .file path bitmap.encode
  | .saveReport path text => .file path (utf8 text)
  | .print text => .output text
  | .warn line => .line line

section host

-- the files that can be read, and the reasons for which directories and files cannot be made
variable (files : String → Contents) (refusal? : Effect → Option String)

def attempt (e : Effect) : StateM (List Effect) (Except String Unit) :=
  match refusal? e with
  | some reason => return .error reason
  | none => do
    modify (· ++ [e])
    return .ok ()

def recorder : Host (StateM (List Effect)) where
  readFile path := return files path
  makeDirectory path := attempt refusal? (.directory path)
  writeFile path contents := attempt refusal? (.file path contents)
  print text := modify (· ++ [.output text])
  complain text := modify (· ++ [.line text])

/-- The exit status of a run, and its effects. -/
def record (words : List String) : Nat × List Effect := Id.run ((execute (recorder files refusal?) words).run [])

/-- What the files that options name hold. -/
def Options.given (o : Options) : Inputs := { config := o.config.map files, fixture := files o.fixture }

end host

/-! ## The ways a run can go -/

section run

variable {files : String → Contents} {refusal? : Effect → Option String} {words : List String} {o : Options}

theorem run_bind {α β σ : Type} (x : StateM σ α) (next : α → StateM σ β) (s : σ) :
    (x >>= next).run s = (next (x.run s).1).run (x.run s).2 := rfl

theorem run_inputs (log : List Effect) : (o.inputs (recorder files refusal?)).run log = (o.given files, log) := by
  unfold Options.inputs Options.given
  cases o.config <;> rfl

theorem run_perform (a : Action) (log : List Effect) :
    (a.perform (recorder files refusal?)).run log = (.ok (), log ++ [a.effect]) ∨
      ∃ reason, refusal? a.effect = some reason ∧
        (a.perform (recorder files refusal?)).run log = (.error reason, log) := by
  have hattempt (e : Effect) : (attempt refusal? e).run log = (.ok (), log ++ [e]) ∨
      ∃ reason, refusal? e = some reason ∧ (attempt refusal? e).run log = (.error reason, log) := by
    unfold attempt
    cases refusal? e with
    | none => exact .inl rfl
    | some reason => exact .inr ⟨reason, rfl, rfl⟩
  cases a with
  | makeDirectory path => exact hattempt _
  | saveBitmap path bitmap => exact hattempt _
  | saveReport path text => exact hattempt _
  | print text => exact .inl rfl
  | warn line => exact .inl rfl

/-- All actions are performed, or one of them is refused. -/
theorem run_performAll (actions : List Action) (log : List Effect) :
    (performAll (recorder files refusal?) actions).run log = (.ok (), log ++ actions.map Action.effect) ∨
      ∃ action ∈ actions, (refusal? action.effect).isSome ∧
        ∃ complaint log', (performAll (recorder files refusal?) actions).run log = (.error complaint, log') := by
  induction actions generalizing log with
  | nil =>
    left
    rw [List.map_nil, List.append_nil]
    rfl
  | cons a actions ih =>
    unfold performAll
    rw [run_bind]
    rcases run_perform a log with hok | ⟨reason, hrefused, herror⟩
    · rw [hok]
      rcases ih (log ++ [a.effect]) with hall | ⟨action, hmem, hsome, complaint, log', hfail⟩
      · left
        rw [List.append_assoc] at hall
        exact hall
      · exact .inr ⟨action, List.mem_cons_of_mem a hmem, hsome, complaint, log', hfail⟩
    · rw [herror]
      exact .inr ⟨a, List.mem_cons_self, by rw [hrefused, Option.isSome_some], _, _, rfl⟩

theorem record_checked {outcome : Outcome} (h : Options.parse words = .ok o)
    (ho : o.outcome (o.given files) = .ok outcome) :
    record files refusal? words = ((o.workOf outcome).status, (o.workOf outcome).actions.map Action.effect) ∨
      (record files refusal? words).1 = 2 ∧ ∃ action ∈ (o.workOf outcome).actions, (refusal? action.effect).isSome := by
  have hwork : o.work (o.given files) = .ok (o.workOf outcome) := by
    rw [Options.work, ho]
    rfl
  have hrun {result : Except String Unit} {log : List Effect}
      (hperform : (performAll (recorder files refusal?) (o.workOf outcome).actions).run [] = (result, log)) :
      (run (recorder files refusal?) words).run [] =
        ((result.map fun _ => (o.workOf outcome).status).mapError Stop.failed, log) := by
    unfold run Options.run
    rw [h]
    dsimp only
    rw [run_bind, run_inputs, hwork]
    dsimp only
    rw [run_bind, hperform]
    cases result <;> rfl
  unfold record execute
  rcases @run_performAll files refusal? (o.workOf outcome).actions [] with hall | ⟨action, hmem, hsome, _, _, hfail⟩
  · left
    rw [run_bind, hrun hall]
    rfl
  · right
    rw [run_bind, hrun hfail]
    exact ⟨rfl, action, hmem, hsome⟩

end run

/-! ## Asking for help -/

theorem ofText_eq_help_iff {word : String} : Word.ofText word = .help ↔ word = "-h" ∨ word = "--help" := by
  constructor
  · intro h
    unfold Word.ofText at h
    split at h
    · cases h
    · split at h
      · cases h
      · split at h
        · assumption
        · cases h
  · rintro (rfl | rfl) <;> decide

theorem setting?_ne_help (flag : Flag) (value : String) : flag.setting? value ≠ .error .help := by
  unfold Flag.setting?
  cases flag with
  | format => cases DumpFormat.ofOption? value <;> simp
  | _ => simp

/-- What a run reads is in order, and the check that it is asked for has an outcome. -/
structure Checks (files : String → Contents) (words : List String) (o : Options) (settings : Settings) (r : Relation)
    (outcome : Outcome) : Prop where
  parsed : Options.parse words = .ok o
  /-- The settings are those of the configuration file, if there is one, but for a format that is asked for. -/
  configured : ∃ own, (o.config.elim (.ok {}) fun path => Settings.load path (files path)) = .ok own ∧
    settings = { own with format := o.format.getD own.format }
  loaded : Relation.load o.fixture (files o.fixture) = .ok r
  checked : r.check settings = .ok outcome

variable {files : String → Contents} {words : List String} {o : Options} {settings : Settings} {r : Relation}
  {outcome : Outcome}

theorem settings_eq_ok_iff :
    o.settings (o.given files).config = .ok settings ↔
      ∃ own, (o.config.elim (.ok {}) fun path => Settings.load path (files path)) = .ok own ∧
        settings = { own with format := o.format.getD own.format } := by
  have hsettings : o.settings (o.given files).config = (do
      let own ← o.config.elim (.ok {}) fun path => Settings.load path (files path)
      return { own with format := o.format.getD own.format }) := by
    unfold Options.settings Options.given
    cases o.config <;> rfl
  rw [hsettings, Image.bind_eq_ok]
  constructor
  · rintro ⟨own, hown, h⟩
    exact ⟨own, hown, (Except.ok.inj h).symm⟩
  · rintro ⟨own, hown, rfl⟩
    exact ⟨own, hown, rfl⟩

theorem mapError_eq_ok_iff {ε ε' α : Type} {f : ε → ε'} {x : Except ε α} {a : α} :
    x.mapError f = .ok a ↔ x = .ok a := by
  cases x <;> simp [Except.mapError]

theorem checks_iff :
    (∃ settings r, Checks files words o settings r outcome) ↔
      Options.parse words = .ok o ∧ o.outcome (o.given files) = .ok outcome := by
  unfold Options.outcome
  constructor
  · rintro ⟨settings, r, h⟩
    refine ⟨h.parsed, Image.bind_eq_ok.2 ⟨settings, settings_eq_ok_iff.2 h.configured, ?_⟩⟩
    exact Image.bind_eq_ok.2 ⟨r, h.loaded, mapError_eq_ok_iff.2 h.checked⟩
  · rintro ⟨hparse, h⟩
    obtain ⟨settings, hsettings, h⟩ := Image.bind_eq_ok.1 h
    obtain ⟨r, hload, h⟩ := Image.bind_eq_ok.1 h
    exact ⟨settings, r, hparse, settings_eq_ok_iff.1 hsettings, hload, mapError_eq_ok_iff.1 h⟩

theorem Checks.outcome_eq (h : Checks files words o settings r outcome) :
    o.outcome (o.given files) = .ok outcome :=
  (checks_iff.1 ⟨settings, r, h⟩).2

/-- The files that keep bitmaps, for indexes with these names. -/
def savedNames (indexes : List String) : List String :=
  "heap.bitmap" :: indexes.mapIdx bitmapFileName

/-- The files with bitmaps, in the order in which they are written. -/
def savedFiles (outcome : Outcome) (directory : String) : List (String × List UInt8) :=
  List.zipWith (fun name bitmap => (filePath directory name, bitmap.encode))
    (savedNames (outcome.report.indexes.map (·.name))) (outcome.heap :: outcome.indexes)

/-- The effects of a run that gets as far as a report: bitmaps are saved if that was asked for, the report goes to one
place, and there is a line for every index that is not consistent. -/
structure Reported (o : Options) (outcome : Outcome) (effects : List Effect) : Prop where
  directories_eq : Effect.directories effects = o.saveBitmaps.toList
  files_eq : Effect.files effects = o.saveBitmaps.elim [] (savedFiles outcome) ++
    (o.output.map fun path => (path, utf8 outcome.report.toJson.pretty)).toList
  outputs_eq : Effect.outputs effects = if o.output.isSome then [] else [outcome.report.toJson.pretty ++ "\n"]
  lines_eq : Effect.lines effects = (outcome.report.indexes.filter (!·.isConsistent)).map warning

theorem effects_keepBitmaps (outcome : Outcome) (directory : String) :
    (keepBitmaps outcome directory).map Action.effect =
      .directory directory :: (savedFiles outcome directory).map fun file => .file file.1 file.2 := by
  unfold keepBitmaps savedFiles savedNames
  simp only [List.map_cons, List.zipWith_cons_cons, List.map_zipWith, Action.effect, List.cons.injEq, true_and]
  apply List.ext_getElem?
  intro i
  simp only [List.getElem?_zipWith, List.getElem?_map, List.getElem?_zipIdx, List.getElem?_mapIdx, Nat.zero_add]
  cases outcome.report.indexes[i]? <;> cases outcome.indexes[i]? <;> rfl

theorem reported_workOf (o : Options) (outcome : Outcome) :
    Reported o outcome ((o.workOf outcome).actions.map Action.effect) := by
  have hsaved : ((o.saveBitmaps.map (keepBitmaps outcome)).getD []).map Action.effect =
      o.saveBitmaps.elim [] fun directory =>
        .directory directory :: (savedFiles outcome directory).map fun file => .file file.1 file.2 := by
    cases o.saveBitmaps with
    | none => rfl
    | some directory => exact effects_keepBitmaps outcome directory
  have heffects : (o.workOf outcome).actions.map Action.effect =
      (o.saveBitmaps.elim [] fun directory =>
        .directory directory :: (savedFiles outcome directory).map fun file => .file file.1 file.2) ++
      (deliver outcome.report o.output).effect ::
        (outcome.report.indexes.filter (!·.isConsistent)).map fun index => .line (warning index) := by
    unfold Options.workOf
    simp only [List.map_append, hsaved, List.append_assoc, List.map_map, List.map_cons, List.cons_append,
      List.nil_append]
    rfl
  rw [heffects]
  constructor <;> cases o.saveBitmaps <;> cases o.output <;>
    simp [Effect.directories, Effect.files, Effect.outputs, Effect.lines, deliver, Action.effect, List.filterMap_map]

/-- Where nothing is refused, all is done that there is to do. -/
theorem Checks.record_eq (h : Checks files words o settings r outcome) :
    record files (fun _ => none) words = ((o.workOf outcome).status, (o.workOf outcome).actions.map Action.effect) := by
  rcases @record_checked files (fun _ => none) words o outcome h.parsed h.outcome_eq with hall | ⟨-, action, -, hnone⟩
  · exact hall
  · cases hnone

end Command

end Occupancy
