import EventScript.Command.Run

/-!
# Outcomes of commands

A command computes its result from the files that it reads and only then writes
it.  So it fails with all files as they were if it cannot read what it needs, and
otherwise its result is all that it writes, to one place.  That place may be a
file that the command has read.
-/

namespace EventScript

variable {text : String}

/-! ## Writing a file -/

namespace Directory

variable {directory : Directory} {place : Place}

/-- A file can be written at a path: the directory it is in exists, and there is
no directory of its name. -/
def Writable (directory : Directory) (path : String) : Prop :=
  ∃ place, directory.resolve? path = some place ∧ directory.hasDirectory place.dropLast = true ∧
    directory.hasDirectory place = false

/-- Two directories that differ in one file at most: at a given path the second
one has given contents, and every path to another place leads to what it led to
before. -/
structure Replaces (before : Directory) (path : String) (contents : ByteArray)
    (after : Directory) : Prop where
  written : ∀ other, before.resolve? other = before.resolve? path →
    after.read? other = some contents
  kept : ∀ other, before.resolve? other ≠ before.resolve? path →
    after.read? other = before.read? other

theorem any_put (place : Place) (contents : ByteArray) (property : Place → Bool)
    (files : List (Place × ByteArray)) :
    ((put place contents files).any fun entry => property entry.1) =
      ((files.any fun entry => property entry.1) || property place) := by
  induction files with
  | nil => simp [put]
  | cons entry rest ih =>
    by_cases same : entry.1 = place
    · simp [put, same, Bool.or_comm]
    · simp [put, same, ih, Bool.or_assoc]

/-- Every directory on the way to a file is there already. -/
theorem hasDirectory_of_isPrefix (inside : directory.hasDirectory place.dropLast = true)
    {outer : Place} (isPrefix : outer <+: place) (shorter : outer.length < place.length) :
    directory.hasDirectory outer = true := by
  have within : outer <+: place.dropLast := by
    refine List.prefix_of_prefix_length_le isPrefix place.dropLast_prefix ?_
    rw [List.length_dropLast]
    omega
  simp only [hasDirectory, Bool.or_eq_true, List.isEmpty_iff, List.any_eq_true, Bool.and_eq_true,
    List.isPrefixOf_iff_prefix, decide_eq_true_eq] at inside ⊢
  rcases inside with atRoot | ⟨entry, member, above, longer⟩
  · rw [atRoot, List.prefix_nil] at within
    exact Or.inl within
  · exact Or.inr ⟨entry, member, within.trans above, Nat.lt_of_le_of_lt within.length_le longer⟩

/-- A file that is written to an existing directory makes no other directory. -/
theorem hasDirectory_put (inside : directory.hasDirectory place.dropLast = true)
    (contents : ByteArray) (other : Place) :
    hasDirectory ⟨put place contents directory.files⟩ other = directory.hasDirectory other := by
  rw [hasDirectory, any_put place contents fun entry =>
    other.isPrefixOf entry && other.length < entry.length, ← Bool.or_assoc, ← hasDirectory,
    Bool.or_eq_left_iff_imp]
  intro leads
  rw [Bool.and_eq_true, List.isPrefixOf_iff_prefix, decide_eq_true_eq] at leads
  exact hasDirectory_of_isPrefix inside leads.1 leads.2

/-- Paths lead to the same places as before. -/
theorem resolve?_put (inside : directory.hasDirectory place.dropLast = true)
    (contents : ByteArray) (path : String) :
    resolve? ⟨put place contents directory.files⟩ path = directory.resolve? path := by
  have sameSteps : follow ⟨put place contents directory.files⟩ = directory.follow := by
    funext current name
    simp only [follow, hasDirectory_put inside]
  rw [resolve?, resolve?, sameSteps]

theorem exists_write? {path : String} (writable : directory.Writable path)
    (contents : ByteArray) :
    ∃ after, directory.write? path contents = some after ∧
      directory.Replaces path contents after := by
  obtain ⟨place, leads, inside, free⟩ := writable
  refine ⟨⟨put place contents directory.files⟩, ?_, ?_, ?_⟩
  · rw [write?, leads, Option.bind_some, inside, free]
    rfl
  · intro other same
    rw [read?, resolve?_put inside, same, leads, Option.bind_some]
    exact lookup_put_self place contents directory.files
  · intro other different
    rw [read?, read?, resolve?_put inside]
    cases leadsTo : directory.resolve? other with
    | none => rfl
    | some otherPlace =>
      rw [leadsTo, leads] at different
      exact lookup_put_of_ne (fun same => different (congrArg some same)) contents _

end Directory

/-! ## Reading files -/

/-- A file is missing or is no text in the UTF-8 encoding. -/
def Directory.Unreadable (directory : Directory) (path : String) : Prop :=
  ¬∃ text : String, directory.read? path = some text.toUTF8

theorem fromUTF8?_eq_some_iff {bytes : ByteArray} :
    String.fromUTF8? bytes = some text ↔ bytes = text.toUTF8 := by
  rw [String.fromUTF8?]
  constructor
  · intro isText
    split at isText
    · cases isText
      rfl
    · cases isText
  · rintro rfl
    exact dif_pos text.isValidUTF8

theorem textOf_eq_ok_iff {contents : Option ByteArray} :
    textOf contents = .ok text ↔ contents = some text.toUTF8 := by
  cases contents with
  | none => simp [textOf]
  | some bytes =>
    rw [Option.some.injEq, ← fromUTF8?_eq_some_iff, textOf]
    cases String.fromUTF8? bytes with
    | none => simp
    | some found => simp

theorem mapError_eq_ok_iff {ε φ α : Type} {function : ε → φ} {outcome : Except ε α} {value : α} :
    outcome.mapError function = .ok value ↔ outcome = .ok value := by
  cases outcome with
  | error error => constructor <;> rintro ⟨⟩
  | ok found => constructor <;> (rintro ⟨⟩; rfl)

theorem Options.load_eq_ok_iff {path : String} {contents : Option ByteArray} {options : Options} :
    load path contents = .ok options ↔ ∃ text : String, contents = some text.toUTF8 ∧
      if namesJson path then ofJson? text = some options else options = ofText text := by
  rw [load]
  cases read : textOf contents with
  | error error =>
    simp only [reduceCtorEq, false_iff, not_exists, not_and]
    intro text isText
    rw [textOf_eq_ok_iff.mpr isText] at read
    cases read
  | ok text =>
    have isText := textOf_eq_ok_iff.mp read
    have only (other : String) : contents = some other.toUTF8 ↔ text = other := by
      rw [← textOf_eq_ok_iff, read, Except.ok.injEq]
    simp only [only, exists_eq_left']
    split
    · cases ofJson? text with
      | none => simp
      | some found => simp
    · rw [Except.ok.injEq, eq_comm]

namespace Command

variable {directory : Directory} {command : Command}

/-- The options file of a command, if it has one, holds given options.  Without
one these are the defaults. -/
def LoadsOptions (command : Command) (directory : Directory) (options : Options) : Prop :=
  (command.config = none ∧ options = {}) ∨
    ∃ path text, command.config = some path ∧ directory.read? path = some text.toUTF8 ∧
      if namesJson path then Options.ofJson? text = some options
      else options = Options.ofText text

/-- A command cannot read what it needs: the file with the options is unreadable
or is bad JSON, or the file that it works on is unreadable. -/
def Unfit (command : Command) (directory : Directory) : Prop :=
  (∃ path, command.config = some path ∧ (directory.Unreadable path ∨
    namesJson path = true ∧ ∃ text, directory.read? path = some text.toUTF8 ∧
      Options.ofJson? text = none)) ∨
    directory.Unreadable command.file

/-- What a task makes of a text. -/
inductive Yields (options : Options) (source : String) : Task → String → Prop
  | convert (clientSide : Bool) : Yields options source (.convert clientSide)
      (EventScript.convert { options with clientSide := clientSide } source).code
  | split : Yields options source .split (Bundle.ofSource options source)
  | recover : Yields options source .recover (Bundle.recover source)

theorem yields_transform (task : Task) (options : Options) (source : String) :
    Yields options source task (transform task options source) := by
  cases task with
  | convert clientSide => exact .convert clientSide
  | split => exact .split
  | recover => exact .recover

theorem options_eq_ok_iff {options : Options} :
    command.options directory.read? = .ok options ↔ command.LoadsOptions directory options := by
  rw [Command.options, LoadsOptions]
  cases command.config with
  | none =>
    rw [Except.ok.injEq]
    constructor
    · rintro rfl
      exact Or.inl ⟨rfl, rfl⟩
    · rintro (⟨-, rfl⟩ | ⟨_, _, ⟨⟩, _⟩)
      rfl
  | some path =>
    simp only [mapError_eq_ok_iff, Options.load_eq_ok_iff, reduceCtorEq, false_and, false_or,
      Option.some.injEq]
    constructor
    · rintro ⟨text, isText, isOptions⟩
      exact ⟨path, text, rfl, isText, isOptions⟩
    · rintro ⟨_, text, rfl, isText, isOptions⟩
      exact ⟨text, isText, isOptions⟩

theorem source_eq_ok_iff {source : String} :
    command.source directory.read? = .ok source ↔
      directory.read? command.file = some source.toUTF8 := by
  rw [Command.source, mapError_eq_ok_iff, textOf_eq_ok_iff]

/-- A command finds options and a text to work on, or it is unfit. -/
theorem not_unfit_iff : ¬command.Unfit directory ↔
    ∃ (options : Options) (source : String), command.LoadsOptions directory options ∧
      directory.read? command.file = some source.toUTF8 := by
  constructor
  · intro fit
    rw [Unfit, not_or, Directory.Unreadable, Classical.not_not] at fit
    obtain ⟨fitOptions, source, isSource⟩ := fit
    cases config : command.config with
    | none => exact ⟨{}, source, Or.inl ⟨config, rfl⟩, isSource⟩
    | some path =>
      have readable : ¬directory.Unreadable path :=
        fun unreadable => fitOptions ⟨path, config, Or.inl unreadable⟩
      rw [Directory.Unreadable, Classical.not_not] at readable
      obtain ⟨text, isText⟩ := readable
      by_cases json : namesJson path = true
      · cases read : Options.ofJson? text with
        | none => exact absurd ⟨path, config, Or.inr ⟨json, text, isText, read⟩⟩ fitOptions
        | some options =>
          refine ⟨options, source, Or.inr ⟨path, text, config, isText, ?_⟩, isSource⟩
          rwa [if_pos json]
      · refine ⟨Options.ofText text, source, Or.inr ⟨path, text, config, isText, ?_⟩, isSource⟩
        rw [if_neg json]
  · rintro ⟨options, source, loads, isSource⟩ (⟨path, config, unreadable | ⟨json, text, isText, bad⟩⟩ |
      unreadable)
    · rcases loads with ⟨noConfig, -⟩ | ⟨_, text, isConfig, isText, -⟩
      · cases config.symm.trans noConfig
      · cases config.symm.trans isConfig
        exact unreadable ⟨text, isText⟩
    · rcases loads with ⟨noConfig, -⟩ | ⟨_, other, isConfig, isOther, isOptions⟩
      · cases config.symm.trans noConfig
      · cases config.symm.trans isConfig
        have same : text = other :=
          String.toByteArray_inj.mp (Option.some.inj (isText.symm.trans isOther))
        rw [if_pos json, ← same, bad] at isOptions
        cases isOptions
    · exact unreadable ⟨source, isSource⟩

/-- The result of a command is what its task makes of the text. -/
theorem result_eq_ok_iff : command.result directory.read? = .ok text ↔
    ∃ (options : Options) (source : String), command.LoadsOptions directory options ∧
      directory.read? command.file = some source.toUTF8 ∧
      transform command.task options source = text := by
  simp only [← options_eq_ok_iff, ← source_eq_ok_iff]
  rw [result]
  cases command.options directory.read? with
  | error failure => simp [bind, Except.bind]
  | ok options =>
    cases command.source directory.read? with
    | error failure => simp [bind, Except.bind]
    | ok source => simp [bind, Except.bind, pure, Except.pure]

end Command

/-! ## Outcomes -/

namespace Outcome

/-- A command line failed and left everything as it was. -/
structure Fails (outcome : Outcome) (directory : Directory) : Prop where
  exitCode : outcome.exitCode = 1
  noOutput : outcome.output = ""
  unchanged : outcome.directory = directory

/-- A command line wrote a text to one place: it printed it, or it put it in the
file that is named for the output. -/
structure Delivers (outcome : Outcome) (directory : Directory) (output : Option String)
    (text : String) : Prop where
  exitCode : outcome.exitCode = 0
  printed : output = none → outcome.output = text ∧ outcome.directory = directory
  written : ∀ path, output = some path →
    outcome.output = "" ∧ directory.Replaces path text.toUTF8 outcome.directory

end Outcome

/-- A letter names a file of the directory itself. -/
theorem Directory.resolve?_letter (directory : Directory) {name : String}
    (isName : name = "s" ∨ name = "o") : directory.resolve? name = some [name] := by
  have split : name.splitOn "/" = [name] := by
    rw [String.splitOn, if_neg (by decide)]
    rcases isName with rfl | rfl
    all_goals
      rw [String.splitOnAux, if_neg (by decide), if_neg (by decide), String.splitOnAux,
        if_pos (by decide)]
      decide
  unfold resolve? isUsable
  rw [split]
  rcases isName with rfl | rfl <;> rfl

end EventScript
