import Mathlib
import Occupancy.Proofs.Command
/-!
# The grammar of the command line

A command line is in order as far as it is made of parts: an option with its value, whatever the value looks like, or
a word that asks for log lines. What comes after the parts says why a line is refused. Here the words are read by a
cursor, which steps over a value together with its option and prints as it goes; `read_follows_grammar` says that it
always moves on, and that the answer is the one that the parts of the line call for.
-/

namespace Occupancy.Command

/-! ## Parts of a line -/

inductive Part where
  | option (flag : Flag) (value : String)
  | verbose (word : String)
  deriving DecidableEq, Repr

/-- The formats that can be asked for. -/
def formatNames : List (String × DumpFormat) :=
  [("counts_only", .countsOnly), ("none", .countsOnly), ("binary", .binary), ("hex", .hex), ("base64", .base64)]

def verboseWords : List String := ["-v", "--verbose"]

def helpWords : List String := ["-h", "--help"]

namespace Part

def words : Part → List String
  | option flag value => [flag.text, value]
  | verbose word => [word]

/-- Only a format can be wrong about its value. -/
def Sound : Part → Prop
  | option .format value => value ∈ formatNames.map (·.1)
  | option _ _ => True
  | verbose word => word ∈ verboseWords

/-- The value for `flag`, if the part gives one. -/
def value? (flag : Flag) : Part → Option String
  | option f value => if f = flag then some value else none
  | verbose _ => none

end Part

/-- The words are those of the parts, and then `rest`. -/
structure Splits (words : List String) (parts : List Part) (rest : List String) : Prop where
  sound : ∀ part ∈ parts, part.Sound
  words_eq : words = parts.flatMap Part.words ++ rest

/-- Of an option that is given more than once the last value counts. -/
def lastValue (flag : Flag) (parts : List Part) : Option String := (parts.filterMap (Part.value? flag)).getLast?

/-- No part begins with these words, and this is why. -/
inductive Stuck : List String → ArgumentError → Prop where
  | missingValue (flag : Flag) : Stuck [flag.text] (.missingValue flag)
  | unknownFormat {value : String} (h : value ∉ formatNames.map (·.1)) (rest : List String) :
    Stuck (Flag.format.text :: value :: rest) (.unknownFormat value)
  | help {word : String} (h : word ∈ helpWords) (rest : List String) : Stuck (word :: rest) .help
  | unknownOption {word : String} (h : word ∉ Flag.all.map Flag.text ++ verboseWords ++ helpWords)
    (rest : List String) : Stuck (word :: rest) (.unknownOption word)

/-- The options that the parts ask for. -/
structure Options.Follows (o : Options) (parts : List Part) : Prop where
  fixture_eq : lastValue .fixture parts = some o.fixture
  config_eq : o.config = lastValue .config parts
  format_eq : o.format = (lastValue .format parts).bind fun name => formatNames.lookup name
  output_eq : o.output = lastValue .output parts
  saveBitmaps_eq : o.saveBitmaps = lastValue .saveBitmaps parts
  verbose_iff : o.verbose = true ↔ ∃ word, .verbose word ∈ parts

/-! ## What a word is -/

theorem ofText_text (flag : Flag) : Word.ofText flag.text = .option flag := by
  cases flag <;> decide

theorem ofText_of_mem_verboseWords {word : String} (h : word ∈ verboseWords) : Word.ofText word = .verbose := by
  simp only [verboseWords, List.mem_cons, List.not_mem_nil, or_false] at h
  rcases h with rfl | rfl <;> decide

theorem ofText_of_mem_helpWords {word : String} (h : word ∈ helpWords) : Word.ofText word = .help := by
  simp only [helpWords, List.mem_cons, List.not_mem_nil, or_false] at h
  exact ofText_eq_help_iff.2 h

theorem ofText_cases (word : String) :
    (∃ flag : Flag, word = flag.text) ∨ word ∈ verboseWords ∨ word ∈ helpWords ∨
      word ∉ Flag.all.map Flag.text ++ verboseWords ++ helpWords ∧ Word.ofText word = .unknown := by
  unfold Word.ofText
  split
  · next flag hflag => exact .inl ⟨flag, by simpa [eq_comm] using List.find?_some hflag⟩
  · next hnone =>
    split
    · next hverbose => exact .inr (.inl (by simpa [verboseWords] using hverbose))
    · next hverbose =>
      split
      · next hhelp => exact .inr (.inr (.inl (by simpa [helpWords] using hhelp)))
      · next hhelp =>
        refine .inr (.inr (.inr ⟨?_, rfl⟩))
        have hflags : ∀ flag ∈ Flag.all, flag.text ≠ word := by simpa using hnone
        simp only [List.mem_append, List.mem_map, not_or, not_exists, not_and]
        exact ⟨⟨hflags, by simpa [verboseWords] using hverbose⟩, by simpa [helpWords] using hhelp⟩

/-! ## The settings that parts make -/

namespace Part

/-- The setting that a sound part makes. -/
def setting : Part → Setting
  | option .fixture value => .fixture value
  | option .config value => .config value
  | option .format value => .format ((formatNames.lookup value).getD .countsOnly)
  | option .output value => .output value
  | option .saveBitmaps value => .saveBitmaps value
  | verbose _ => .verbose

end Part

theorem ofOption?_eq_lookup (value : String) : DumpFormat.ofOption? value = formatNames.lookup value := by
  unfold DumpFormat.ofOption? DumpFormat.ofName?
  split
  · next h =>
    subst h
    decide
  · next h =>
    split
    case h_5 h₁ h₂ h₃ h₄ =>
      simp only [formatNames, List.lookup_cons, beq_false_of_ne h₁, beq_false_of_ne h, beq_false_of_ne h₂,
        beq_false_of_ne h₃, beq_false_of_ne h₄, List.lookup_nil]
    all_goals decide

theorem isSome_lookup_iff (value : String) :
    (formatNames.lookup value).isSome = true ↔ value ∈ formatNames.map (·.1) := by
  constructor
  · intro h
    obtain ⟨entry, hentry, heq⟩ := List.lookup_isSome_iff.1 h
    exact List.mem_map.2 ⟨entry, hentry, (beq_iff_eq.1 heq).symm⟩
  · intro h
    obtain ⟨entry, hentry, rfl⟩ := List.mem_map.1 h
    exact List.lookup_isSome_iff.2 ⟨entry, hentry, beq_self_eq_true _⟩

/-- A sound part is read as its setting. -/
theorem scan?_words {part : Part} (h : part.Sound) (rest : List String) :
    scan? (part.words ++ rest) = (scan? rest).map (part.setting :: ·) := by
  cases part with
  | verbose word =>
    rw [Part.words, List.singleton_append, scan?, ofText_of_mem_verboseWords h]
    rfl
  | option flag value =>
    have hsetting : flag.setting? value = .ok (Part.option flag value).setting := by
      cases flag with
      | format =>
        obtain ⟨format, hformat⟩ := Option.isSome_iff_exists.1 ((isSome_lookup_iff value).2 h)
        rw [Flag.setting?, ofOption?_eq_lookup, Part.setting, hformat]
        rfl
      | _ => rfl
    rw [Part.words, List.cons_append, List.singleton_append, scan?, ofText_text]
    dsimp only
    rw [hsetting]
    cases scan? rest <;> rfl

theorem Splits.scan?_eq {words : List String} {parts : List Part} {rest : List String} (h : Splits words parts rest) :
    scan? words = (scan? rest).map (parts.map Part.setting ++ ·) := by
  obtain ⟨hsound, rfl⟩ := h
  induction parts with
  | nil => cases hrest : scan? rest <;> simp [hrest, Except.map]
  | cons part parts ih =>
    rw [List.flatMap_cons, List.append_assoc, scan?_words (hsound part List.mem_cons_self),
      ih fun p hp => hsound p (List.mem_cons_of_mem part hp)]
    cases scan? rest <;> rfl

theorem scan?_of_stuck {rest : List String} {e : ArgumentError} (h : Stuck rest e) : scan? rest = .error e := by
  cases h with
  | missingValue flag => rw [scan?, ofText_text]
  | @unknownFormat value h rest =>
    have hnone : DumpFormat.ofOption? value = none := by
      rw [ofOption?_eq_lookup, ← Option.not_isSome_iff_eq_none, isSome_lookup_iff]
      exact h
    rw [scan?, ofText_text]
    dsimp only
    rw [Flag.setting?, hnone]
    rfl
  | help h rest => rw [scan?, ofText_of_mem_helpWords h]
  | @unknownOption word h rest =>
    rcases ofText_cases word with ⟨flag, rfl⟩ | hverbose | hhelp | ⟨-, hunknown⟩
    · exact absurd (by cases flag <;> simp [Flag.all]) h
    · exact absurd (by simp [hverbose]) h
    · exact absurd (by simp [hhelp]) h
    · rw [scan?, hunknown]

theorem Splits.cons {words : List String} {parts : List Part} {rest : List String} {part : Part}
    (h : Splits words parts rest) (hpart : part.Sound) : Splits (part.words ++ words) (part :: parts) rest where
  sound := List.forall_mem_cons.2 ⟨hpart, h.sound⟩
  words_eq := by rw [List.flatMap_cons, List.append_assoc, h.words_eq]

/-- Every line is made of parts as far as it is in order. -/
theorem exists_splits (words : List String) :
    ∃ parts rest, Splits words parts rest ∧ (rest = [] ∨ ∃ e, Stuck rest e) := by
  match words with
  | [] => exact ⟨[], [], ⟨nofun, rfl⟩, .inl rfl⟩
  | word :: rest =>
    have hstuck {e : ArgumentError} (h : Stuck (word :: rest) e) :
        ∃ parts rest', Splits (word :: rest) parts rest' ∧ (rest' = [] ∨ ∃ e, Stuck rest' e) :=
      ⟨[], word :: rest, ⟨nofun, rfl⟩, .inr ⟨e, h⟩⟩
    rcases ofText_cases word with ⟨flag, rfl⟩ | hverbose | hhelp | ⟨hunknown, -⟩
    · match rest with
      | [] => exact hstuck (.missingValue flag)
      | value :: rest =>
        by_cases hsound : (Part.option flag value).Sound
        · obtain ⟨parts, rest', h, hend⟩ := exists_splits rest
          exact ⟨_, rest', h.cons hsound, hend⟩
        · -- only a format can be wrong about its value
          cases flag with
          | format => exact hstuck (.unknownFormat hsound rest)
          | _ => exact absurd trivial hsound
    · obtain ⟨parts, rest', h, hend⟩ := exists_splits rest
      exact ⟨_, rest', @Splits.cons _ _ _ (.verbose word) h hverbose, hend⟩
    · exact hstuck (.help hhelp rest)
    · exact hstuck (.unknownOption hunknown rest)

theorem scan?_eq_ok_iff {words : List String} {settings : List Setting} :
    scan? words = .ok settings ↔ ∃ parts, Splits words parts [] ∧ settings = parts.map Part.setting := by
  constructor
  · intro hscan
    obtain ⟨parts, rest, h, rfl | ⟨e, hstuck⟩⟩ := exists_splits words
    · refine ⟨parts, h, ?_⟩
      rw [h.scan?_eq] at hscan
      simpa [scan?, Except.map, eq_comm] using hscan
    · rw [h.scan?_eq, scan?_of_stuck hstuck] at hscan
      cases hscan
  · rintro ⟨parts, h, rfl⟩
    rw [h.scan?_eq]
    simp [scan?, Except.map]

theorem scan?_eq_error_iff {words : List String} {e : ArgumentError} :
    scan? words = .error e ↔ ∃ parts rest, Splits words parts rest ∧ Stuck rest e := by
  constructor
  · intro hscan
    obtain ⟨parts, rest, h, rfl | ⟨e', hstuck⟩⟩ := exists_splits words
    · rw [h.scan?_eq] at hscan
      cases hscan
    · rw [h.scan?_eq, scan?_of_stuck hstuck] at hscan
      obtain rfl := Except.error.inj hscan
      exact ⟨parts, rest, h, hstuck⟩
  · rintro ⟨parts, rest, h, hstuck⟩
    rw [h.scan?_eq, scan?_of_stuck hstuck]
    rfl

/-- The last of the settings with a value is the last of the parts with one. -/
theorem lastOf_setting {α : Type} {flag : Flag} {value? : Setting → Option α} {decode : String → Option α}
    (hvalue : ∀ part, Part.Sound part → value? part.setting = (part.value? flag).bind decode)
    (hdecode : ∀ part, Part.Sound part → ∀ value, part.value? flag = some value → (decode value).isSome)
    {parts : List Part} (hsound : ∀ part ∈ parts, part.Sound) :
    lastOf value? (parts.map Part.setting) = (lastValue flag parts).bind decode := by
  induction parts using List.reverseRecOn with
  | nil => rfl
  | append_singleton parts part ih =>
    have hpart : part.Sound := hsound part (List.mem_append_right _ (List.mem_singleton_self part))
    have ih := ih fun p hp => hsound p (List.mem_append_left _ hp)
    rw [lastOf] at ih
    rw [lastOf, lastValue, List.map_append, List.reverse_append, List.filterMap_append, List.map_singleton,
      List.reverse_singleton, List.singleton_append, List.findSome?_cons, hvalue part hpart]
    cases hv : part.value? flag with
    | none => simpa [hv, lastValue] using ih
    | some value =>
      obtain ⟨a, ha⟩ := Option.isSome_iff_exists.1 (hdecode part hpart value hv)
      simp [hv, ha]

/-- The last of the settings with a text is the last of the parts with it. -/
theorem lastOf_setting_text (flag : Flag) {value? : Setting → Option String}
    (hvalue : ∀ part : Part, value? part.setting = part.value? flag) {parts : List Part}
    (hsound : ∀ part ∈ parts, part.Sound) : lastOf value? (parts.map Part.setting) = lastValue flag parts := by
  rw [lastOf_setting (fun part _ => (hvalue part).trans (Option.bind_fun_some _).symm) (fun _ _ _ _ => rfl) hsound,
    Option.bind_fun_some]

theorem lastOf_setting_format {parts : List Part} (hsound : ∀ part ∈ parts, part.Sound) :
    lastOf (fun | .format format => some format | _ => none) (parts.map Part.setting) =
      (lastValue .format parts).bind fun name => formatNames.lookup name := by
  have hlookup {value : String} (h : (Part.option .format value).Sound) : (formatNames.lookup value).isSome = true :=
    (isSome_lookup_iff value).2 h
  refine lastOf_setting ?_ ?_ hsound
  · rintro (⟨_ | _, value⟩ | _) hpart
    case option.format =>
      obtain ⟨format, hformat⟩ := Option.isSome_iff_exists.1 (hlookup hpart)
      simp [Part.setting, Part.value?, hformat]
    all_goals rfl
  · rintro (⟨_ | _, value⟩ | _) hpart value' hvalue
    case option.format =>
      obtain rfl := Option.some.inj hvalue
      exact hlookup hpart
    all_goals cases hvalue

theorem contains_verbose_iff (parts : List Part) :
    (parts.map Part.setting).contains .verbose = true ↔ ∃ word, .verbose word ∈ parts := by
  rw [List.contains_iff_mem, List.mem_map]
  constructor
  · rintro ⟨⟨_ | _, _⟩ | word, hmem, hsetting⟩
    case verbose => exact ⟨word, hmem⟩
    all_goals cases hsetting
  · rintro ⟨word, hmem⟩
    exact ⟨_, hmem, rfl⟩

/-- What is asked for is what the parts ask for, provided that a fixture is. -/
theorem ofSettings?_setting {parts : List Part} (hsound : ∀ part ∈ parts, part.Sound) :
    Options.ofSettings? (parts.map Part.setting) = (lastValue .fixture parts).map fun fixture => {
      fixture
      config := lastValue .config parts
      format := (lastValue .format parts).bind fun name => formatNames.lookup name
      output := lastValue .output parts
      saveBitmaps := lastValue .saveBitmaps parts
      verbose := (parts.map Part.setting).contains .verbose } := by
  unfold Options.ofSettings?
  rw [lastOf_setting_text .fixture (fun part => by rcases part with ⟨_ | _, _⟩ | _ <;> rfl) hsound,
    lastOf_setting_text .config (fun part => by rcases part with ⟨_ | _, _⟩ | _ <;> rfl) hsound,
    lastOf_setting_text .output (fun part => by rcases part with ⟨_ | _, _⟩ | _ <;> rfl) hsound,
    lastOf_setting_text .saveBitmaps (fun part => by rcases part with ⟨_ | _, _⟩ | _ <;> rfl) hsound,
    ← lastOf_setting_format hsound]
  cases lastValue .fixture parts <;> rfl

theorem ofSettings?_eq_some_iff {parts : List Part} (hsound : ∀ part ∈ parts, part.Sound) {o : Options} :
    Options.ofSettings? (parts.map Part.setting) = some o ↔ o.Follows parts := by
  rw [ofSettings?_setting hsound, Option.map_eq_some_iff]
  constructor
  · rintro ⟨fixture, hfixture, rfl⟩
    exact ⟨hfixture, rfl, rfl, rfl, rfl, contains_verbose_iff parts⟩
  · rintro ⟨hfixture, hconfig, hformat, houtput, hsave, hverbose⟩
    have hverbose : (parts.map Part.setting).contains .verbose = o.verbose := by
      rw [Bool.eq_iff_iff, contains_verbose_iff, hverbose]
    refine ⟨o.fixture, hfixture, ?_⟩
    rw [hverbose, ← hconfig, ← hformat, ← houtput, ← hsave]

/-- A line is accepted when it is made of parts that ask for a fixture, and it asks for what they do. -/
theorem parse_eq_ok_iff {words : List String} {o : Options} :
    Options.parse words = .ok o ↔ ∃ parts, Splits words parts [] ∧ o.Follows parts := by
  constructor
  · intro hparse
    obtain ⟨settings, hscan, hsettings⟩ := Image.bind_eq_ok.1 hparse
    obtain ⟨parts, h, rfl⟩ := scan?_eq_ok_iff.1 hscan
    refine ⟨parts, h, (ofSettings?_eq_some_iff h.sound).1 ?_⟩
    split at hsettings
    · next hsome => rw [hsome, Except.ok.inj hsettings]
    · cases hsettings
  · rintro ⟨parts, h, hfollows⟩
    rw [Options.parse, scan?_eq_ok_iff.2 ⟨parts, h, rfl⟩]
    simp only [bind, Except.bind, (ofSettings?_eq_some_iff h.sound).2 hfollows]
    rfl

/-- A value is taken as it is, and the last of two counts. -/
example : Options.parse ["--fixture", "a.json", "-v", "--fixture", "--help"] =
    .ok { fixture := "--help", verbose := true } := by decide

/-- A line is refused for the first word that is out of place, or else because no part asks for a fixture. -/
theorem parse_eq_error_iff {words : List String} {e : ArgumentError} :
    Options.parse words = .error e ↔
      (∃ parts rest, Splits words parts rest ∧ Stuck rest e) ∨
      e = .noFixture ∧ ∃ parts, Splits words parts [] ∧ lastValue .fixture parts = none := by
  constructor
  · intro hparse
    rcases Image.bind_eq_error.1 hparse with hscan | ⟨settings, hscan, hsettings⟩
    · exact .inl (scan?_eq_error_iff.1 hscan)
    · obtain ⟨parts, h, rfl⟩ := scan?_eq_ok_iff.1 hscan
      split at hsettings
      · cases hsettings
      · next hnone =>
        rw [ofSettings?_setting h.sound, Option.map_eq_none_iff] at hnone
        exact .inr ⟨(Except.error.inj hsettings).symm, parts, h, hnone⟩
  · rintro (hstuck | ⟨rfl, parts, h, hnone⟩)
    · rw [Options.parse, scan?_eq_error_iff.2 hstuck]
      rfl
    · rw [Options.parse, scan?_eq_ok_iff.2 ⟨parts, h, rfl⟩]
      simp only [bind, Except.bind, ofSettings?_setting h.sound, hnone]
      rfl

/-! ## A cursor -/

/-- What words ask for. -/
structure Asked where
  fixture : Option String := none
  config : Option String := none
  format : Option DumpFormat := none
  output : Option String := none
  saveBitmaps : Option String := none
  verbose : Bool := false
  deriving DecidableEq, Repr

/-- The options that there are when a fixture is asked for. -/
def Asked.options? (asked : Asked) : Option Options :=
  asked.fixture.map fun fixture => {
    fixture
    config := asked.config
    format := asked.format
    output := asked.output
    saveBitmaps := asked.saveBitmaps
    verbose := asked.verbose }

/-- The place of a word, and what those before it ask for. -/
structure Cursor where
  index : Nat := 0
  asked : Asked := {}
  deriving DecidableEq, Repr

/-- An attempt to read words: it can print, and be given up with a message. -/
abbrev Attempt (α : Type) := ExceptT String (StateM String) α

namespace Attempt

def print (text : String) : Attempt Unit := modify (· ++ text)

/-- How an attempt ends, and all that is printed when `printed` was before it. -/
def outcome {α : Type} (attempt : Attempt α) (printed : String) : Except String α × String :=
  Id.run (attempt.run.run printed)

end Attempt

namespace Cursor

variable (words : Array String)

/-- The word after the option at the cursor, to which the cursor moves. -/
def takeValue (flag : String) (c : Cursor) : Attempt (String × Cursor) :=
  match words[c.index + 1]? with
  | some value => return (value, { c with index := c.index + 1 })
  | none => throw s!"{flag} requires a value"

/-- Reads the option at the cursor and moves on. -/
def step (c : Cursor) (h : c.index < words.size) : Attempt Cursor := do
  let c ← match words[c.index] with
    | "--fixture" => do
      let (value, c) ← takeValue words "--fixture" c
      pure { c with asked.fixture := some value }
    | "--config" => do
      let (value, c) ← takeValue words "--config" c
      pure { c with asked.config := some value }
    | "--format" => do
      let (value, c) ← takeValue words "--format" c
      match DumpFormat.ofOption? value with
      | some format => pure { c with asked.format := some format }
      | none => throw s!"unknown bitmap format: {value}"
    | "--output" => do
      let (value, c) ← takeValue words "--output" c
      pure { c with asked.output := some value }
    | "--save-bitmaps" => do
      let (value, c) ← takeValue words "--save-bitmaps" c
      pure { c with asked.saveBitmaps := some value }
    | "-v" | "--verbose" => pure { c with asked.verbose := true }
    | "-h" | "--help" => do
      Attempt.print help
      throw ""
    | unknown => throw s!"unknown option: {unknown}"
  return { c with index := c.index + 1 }

/-- What is asked for with one thing more. -/
def adopt (asked : Asked) : Setting → Asked
  | .fixture path => { asked with fixture := some path }
  | .config path => { asked with config := some path }
  | .format format => { asked with format := some format }
  | .output path => { asked with output := some path }
  | .saveBitmaps directory => { asked with saveBitmaps := some directory }
  | .verbose => { asked with verbose := true }

variable {words : Array String} {c : Cursor} {word : String} {rest : List String}

theorem index_lt_of_drop (hdrop : words.toList.drop c.index = word :: rest) : c.index < words.size := by
  have hlength := congrArg List.length hdrop
  rw [List.length_drop, Array.length_toList, List.length_cons] at hlength
  omega

theorem getElem_of_drop (h : c.index < words.size) (hdrop : words.toList.drop c.index = word :: rest) :
    words[c.index] = word := by
  have hget : (words.toList.drop c.index)[0]? = some words[c.index] := by
    rw [List.getElem?_drop, Nat.add_zero, Array.getElem?_toList, Array.getElem?_eq_getElem h]
  rw [hdrop] at hget
  exact (Option.some.inj hget).symm

theorem getElem?_of_drop (hdrop : words.toList.drop c.index = word :: rest) : words[c.index + 1]? = rest.head? := by
  rw [← Array.getElem?_toList, ← List.getElem?_drop, hdrop, List.getElem?_cons_succ, List.head?_eq_getElem?]

/-- What a step does with the word at the cursor. -/
theorem outcome_step (h : c.index < words.size) (hdrop : words.toList.drop c.index = word :: rest) (printed : String) :
    (step words c h).outcome printed =
      match Word.ofText word, rest with
      | .option flag, [] => (.error (ArgumentError.missingValue flag).message, printed)
      | .option flag, value :: _ =>
        match flag.setting? value with
        | .ok setting => (.ok ⟨c.index + 2, adopt c.asked setting⟩, printed)
        | .error e => (.error e.message, printed)
      | .verbose, _ => (.ok ⟨c.index + 1, adopt c.asked .verbose⟩, printed)
      | .help, _ => (.error "", printed ++ help)
      | .unknown, _ => (.error (ArgumentError.unknownOption word).message, printed) := by
  have hword := getElem_of_drop h hdrop
  have hnext := getElem?_of_drop hdrop
  unfold step
  -- a format can be wrong about its value, and a word is unknown when it is none of the others
  split
  case h_3 hw =>
    obtain rfl := hword.symm.trans hw
    have hflag : Word.ofText "--format" = .option .format := by decide
    cases rest with
    | nil =>
      simp only [takeValue, hnext]
      rfl
    | cons value rest =>
      simp only [takeValue, hnext, List.head?_cons, hflag, Flag.setting?]
      cases hformat : DumpFormat.ofOption? value <;> simp only [pure_bind, hformat] <;> rfl
  case h_6 hw | h_7 hw | h_8 hw | h_9 hw =>
    obtain rfl := hword.symm.trans hw
    rfl
  case h_10 h₁ h₂ h₃ h₄ h₅ h₆ h₇ h₈ h₉ =>
    rw [hword] at h₁ h₂ h₃ h₄ h₅ h₆ h₇ h₈ h₉ ⊢
    have hunknown : Word.ofText word = .unknown := by
      rcases ofText_cases word with ⟨flag, rfl⟩ | hverbose | hhelp | ⟨-, hunknown⟩
      · cases flag <;> contradiction
      · simp only [verboseWords, List.mem_cons, List.not_mem_nil, or_false] at hverbose
        rcases hverbose with rfl | rfl <;> contradiction
      · simp only [helpWords, List.mem_cons, List.not_mem_nil, or_false] at hhelp
        rcases hhelp with rfl | rfl <;> contradiction
      · exact hunknown
    rw [hunknown]
    rfl
  all_goals
    next hw =>
      obtain rfl := hword.symm.trans hw
      cases rest <;> simp only [takeValue, hnext] <;> rfl

/-- Every step moves on. -/
theorem index_lt_of_step {h : c.index < words.size} {c' : Cursor} {printed printed' : String}
    (hstep : (step words c h).outcome printed = (.ok c', printed')) : c.index < c'.index := by
  have hdrop : words.toList.drop c.index = words[c.index] :: words.toList.drop (c.index + 1) := by
    rw [List.drop_eq_getElem_cons h, Array.getElem_toList]
  rw [outcome_step h hdrop] at hstep
  split at hstep
  · cases hstep
  · split at hstep
    · obtain rfl := Except.ok.inj (Prod.mk.inj hstep).1
      exact Nat.lt_add_of_pos_right Nat.zero_lt_two
    · cases hstep
  · obtain rfl := Except.ok.inj (Prod.mk.inj hstep).1
    exact Nat.lt_succ_self _
  · cases hstep
  · cases hstep

/-- Reads all words from the cursor on, up to the first at which the attempt is given up. -/
def readAll (words : Array String) (c : Cursor) (printed : String) : Except String Asked × String :=
  if h : c.index < words.size then
    match hstep : (step words c h).outcome printed with
    | (.ok c', printed) =>
      have : c.index < c'.index := index_lt_of_step hstep
      readAll words c' printed
    | (.error message, printed) => (.error message, printed)
  else (.ok c.asked, printed)
termination_by words.size - c.index

/-- The options that the words ask for or the message about them, and what is printed. -/
def read (words : Array String) : Except String Options × String :=
  match readAll words {} "" with
  | (.error message, printed) => (.error message, printed)
  | (.ok asked, printed) =>
    match asked.options? with
    | none => (.error "--fixture is required", printed)
    | some options => (.ok options, printed)

/-! ## The cursor finds the settings -/

theorem readAll_of_ok {h : c.index < words.size} {c' : Cursor} {p p' : String}
    (hstep : (step words c h).outcome p = (.ok c', p')) : readAll words c p = readAll words c' p' := by
  rw [readAll, dif_pos h]
  split
  · next hstep' =>
    rw [hstep] at hstep'
    obtain ⟨hc, rfl⟩ := Prod.mk.inj hstep'
    rw [Except.ok.inj hc]
  · next hstep' =>
    rw [hstep] at hstep'
    cases (Prod.mk.inj hstep').1

theorem readAll_of_error {h : c.index < words.size} {message p p' : String}
    (hstep : (step words c h).outcome p = (.error message, p')) : readAll words c p = (.error message, p') := by
  rw [readAll, dif_pos h]
  split
  · next hstep' =>
    rw [hstep] at hstep'
    cases (Prod.mk.inj hstep').1
  · next hstep' =>
    rw [hstep] at hstep'
    obtain ⟨hmessage, rfl⟩ := Prod.mk.inj hstep'
    rw [Except.error.inj hmessage]

/-- What there is to be read when the words before ask for `asked` and the others make these settings. -/
def found (asked : Asked) (printed : String) : Except ArgumentError (List Setting) → Except String Asked × String
  | .ok settings => (.ok (settings.foldl adopt asked), printed)
  | .error e => (.error e.message, if e = .help then printed ++ help else printed)

theorem readAll_eq {rest : List String} (h : words.toList.drop c.index = rest) (p : String) :
    readAll words c p = found c.asked p (scan? rest) := by
  -- over the words that are left: none, an option at the end, an option with its value, and the three other words
  fun_induction scan? rest generalizing c with
  | case1 =>
    have hend : words.size ≤ c.index := by
      rw [← Array.length_toList]
      exact List.drop_eq_nil_iff.1 h
    rw [readAll, dif_neg (Nat.not_lt.2 hend)]
    rfl
  | case2 word flag hword =>
    have hstep := outcome_step (index_lt_of_drop h) h p
    rw [hword] at hstep
    exact readAll_of_error hstep
  | case3 word flag hword value rest ih =>
    have hstep := outcome_step (index_lt_of_drop h) h p
    rw [hword] at hstep
    cases hsetting : flag.setting? value with
    | error e =>
      have hhelp : e ≠ .help := fun he => setting?_ne_help flag value (he ▸ hsetting)
      simp only [hsetting] at hstep
      rw [readAll_of_error hstep]
      exact congrArg (Prod.mk _) (if_neg hhelp).symm
    | ok setting =>
      simp only [hsetting] at hstep
      have hdrop : words.toList.drop (c.index + 2) = rest := by
        rw [← List.drop_drop, h]
        rfl
      rw [readAll_of_ok hstep, @ih ⟨c.index + 2, adopt c.asked setting⟩ hdrop]
      cases scan? rest <;> rfl
  | case4 word rest hword ih =>
    have hstep := outcome_step (index_lt_of_drop h) h p
    rw [hword] at hstep
    have hdrop : words.toList.drop (c.index + 1) = rest := by
      rw [← List.drop_drop, h]
      rfl
    rw [readAll_of_ok hstep, @ih ⟨c.index + 1, adopt c.asked .verbose⟩ hdrop]
    cases scan? rest <;> rfl
  | case5 word rest hword =>
    have hstep := outcome_step (index_lt_of_drop h) h p
    rw [hword] at hstep
    exact readAll_of_error hstep
  | case6 word rest hword =>
    have hstep := outcome_step (index_lt_of_drop h) h p
    rw [hword] at hstep
    exact readAll_of_error hstep

/-- The last setting of a part is what is asked for once all of them are adopted. -/
theorem lastOf_eq {α : Type} {value? : Setting → Option α} (field : Asked → Option α) (hnone : field {} = none)
    (hfield : ∀ asked setting, field (adopt asked setting) = (value? setting).or (field asked))
    (settings : List Setting) : lastOf value? settings = field (settings.foldl adopt {}) := by
  induction settings using List.reverseRecOn with
  | nil => exact hnone.symm
  | append_singleton settings s ih =>
    rw [List.foldl_concat, hfield, ← ih, lastOf, lastOf, List.reverse_append, List.reverse_singleton,
      List.singleton_append, List.findSome?_cons]
    cases value? s <;> rfl

theorem verbose_foldl_adopt (settings : List Setting) (asked : Asked) :
    (settings.foldl adopt asked).verbose = (settings.contains .verbose || asked.verbose) := by
  induction settings generalizing asked with
  | nil => rfl
  | cons s settings ih =>
    rw [List.foldl_cons, ih, List.contains_cons]
    cases s with
    | verbose => simp [adopt]
    | _ => rfl

theorem ofSettings?_eq (settings : List Setting) :
    Options.ofSettings? settings = (settings.foldl adopt {}).options? := by
  unfold Options.ofSettings?
  rw [lastOf_eq Asked.fixture rfl, lastOf_eq Asked.config rfl, lastOf_eq Asked.format rfl, lastOf_eq Asked.output rfl,
    lastOf_eq Asked.saveBitmaps rfl]
  · rw [Asked.options?, verbose_foldl_adopt, Bool.or_false]
    exact Option.map_eq_bind.symm
  all_goals exact fun asked s => by cases s <;> rfl

theorem read_eq (words : Array String) :
    read words = ((Options.parse words.toList).mapError ArgumentError.message,
      if Options.parse words.toList = .error .help then help else "") := by
  have hall : readAll words {} "" = found {} "" (scan? words.toList) := readAll_eq (c := {}) rfl ""
  unfold read
  rw [hall]
  cases hscan : scan? words.toList with
  | error e =>
    have hparse : Options.parse words.toList = .error e := by
      rw [Options.parse, hscan]
      rfl
    simp only [hparse, found, String.empty_append, Except.error.injEq]
    rfl
  | ok settings =>
    have hoptions := ofSettings?_eq settings
    cases ho : (settings.foldl adopt {}).options? with
    | none =>
      have hparse : Options.parse words.toList = .error .noFixture := by
        rw [Options.parse, hscan]
        simp only [bind, Except.bind, hoptions, ho]
        rfl
      simp only [hparse, found, ho, Except.error.injEq, reduceCtorEq, if_false]
      rfl
    | some o =>
      have hparse : Options.parse words.toList = .ok o := by
        rw [Options.parse, hscan]
        simp only [bind, Except.bind, hoptions, ho]
        rfl
      simp only [hparse, found, ho, reduceCtorEq, if_false]
      rfl

/-- Words are read up to the first that no part begins with, and the message is about that word; when there is none
such, the options are what the parts ask for, of which one has to be a fixture. Help is printed when the message is
empty and otherwise nothing is, and every step that succeeds moves the cursor on. -/
theorem read_follows_grammar (words : Array String) :
    read words = ((Options.parse words.toList).mapError ArgumentError.message,
      if Options.parse words.toList = .error .help then help else "") ∧
    (∀ message, (read words).1 = .error message ↔
      (∃ parts rest e, Splits words.toList parts rest ∧ Stuck rest e ∧ message = e.message) ∨
      message = "--fixture is required" ∧
        ∃ parts, Splits words.toList parts [] ∧ lastValue .fixture parts = none) ∧
    (∀ o, (read words).1 = .ok o ↔ ∃ parts, Splits words.toList parts [] ∧ o.Follows parts) ∧
    ((read words).1 = .error "" → (read words).2 = help) ∧
    ((read words).1 ≠ .error "" → (read words).2 = "") ∧
    ∀ c h printed c' printed', (step words c h).outcome printed = (.ok c', printed') → c.index < c'.index := by
  have hread := read_eq words
  have herror (message : String) :
      (read words).1 = .error message ↔ ∃ e, Options.parse words.toList = .error e ∧ message = e.message := by
    rw [hread]
    cases Options.parse words.toList <;> simp [Except.mapError, eq_comm]
  have hok (o : Options) : (read words).1 = .ok o ↔ Options.parse words.toList = .ok o := by
    rw [hread]
    cases Options.parse words.toList <;> simp [Except.mapError]
  have hempty : (read words).1 = .error "" ↔ Options.parse words.toList = .error .help := by
    rw [herror]
    constructor
    · rintro ⟨e, hparse, hmessage⟩
      rwa [← not_ne_iff.1 (mt ArgumentError.message_ne_empty (not_ne_iff.2 hmessage.symm))]
    · intro hparse
      exact ⟨.help, hparse, rfl⟩
  refine ⟨hread, ?_, fun o => (hok o).trans parse_eq_ok_iff, ?_, ?_, fun c h printed c' printed' => index_lt_of_step⟩
  · intro message
    rw [herror]
    constructor
    · rintro ⟨e, hparse, rfl⟩
      rcases parse_eq_error_iff.1 hparse with ⟨parts, rest, h, hstuck⟩ | ⟨rfl, hnone⟩
      · exact .inl ⟨parts, rest, e, h, hstuck, rfl⟩
      · exact .inr ⟨rfl, hnone⟩
    · rintro (⟨parts, rest, e, h, hstuck, rfl⟩ | ⟨rfl, hnone⟩)
      · exact ⟨e, parse_eq_error_iff.2 (.inl ⟨parts, rest, h, hstuck⟩), rfl⟩
      · exact ⟨.noFixture, parse_eq_error_iff.2 (.inr ⟨rfl, hnone⟩), rfl⟩
  · intro h
    rw [hread, if_pos (hempty.1 h)]
  · intro h
    rw [hread, if_neg (mt hempty.2 h)]

end Cursor

end Occupancy.Command
