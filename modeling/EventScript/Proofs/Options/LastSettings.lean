import EventScript.Options.Settings
import Mathlib.Data.List.TakeDrop

/-!
# The last setting of an option

Options are read from the lines of a text, and each line is read on its own.
`Gives` says of a single line that it gives an option a value.  An option has
the value of the last line that gives it one, and all other lines, whatever they
hold, have no effect on it.  In particular lines for different options can stand
in any order.
-/

namespace EventScript

variable {line : List Char}

/-- The options that lines of text can set. -/
inductive OptionField where
  | clientSide
  | levelCoordinates
  | levelPlayers
  deriving DecidableEq

namespace OptionField

/-- The key of an option, in lower case. -/
def key : OptionField → String
  | clientSide => "clientside"
  | levelCoordinates => "localcoordinates"
  | levelPlayers => "localplayerlist"

/-- The value of an option. -/
def isOn (options : Options) : OptionField → Bool
  | clientSide => options.clientSide
  | levelCoordinates => options.coordinates = .inLevel
  | levelPlayers => options.playerList = .level

/-- Options with the same values are the same. -/
theorem options_ext {options others : Options}
    (same : ∀ field : OptionField, field.isOn options = field.isOn others) : options = others := by
  obtain ⟨side, coordinates, players⟩ := options
  obtain ⟨otherSide, otherCoordinates, otherPlayers⟩ := others
  have sameSide : side = otherSide := same clientSide
  have sameCoordinates := same levelCoordinates
  have samePlayers := same levelPlayers
  simp only [isOn, decide_eq_decide] at sameCoordinates samePlayers
  cases coordinates <;> cases otherCoordinates <;> cases players <;> cases otherPlayers <;>
    simp_all

/-- The words for a truth value, in lower case. -/
def truthWords : Bool → List String
  | true => ["true", "yes", "on", "1"]
  | false => ["false", "no", "off", "0"]

/-- A line gives an option a value: it is no comment, and in front of its first
equals sign and behind it are the key of the option and a word for the value, up
to blanks and the case of letters.  The only character besides Latin capitals
that has a Latin letter as its lower case is the sign for kelvin, and no key and
no word holds a `k`. -/
structure Gives (field : OptionField) (value : Bool) (line : List Char) : Prop where
  noComment : (Text.trimChars line).head? ≠ some '#'
  parts : ∃ before behind, Text.trimChars line = before ++ '=' :: behind ∧ '=' ∉ before ∧
    Setting.word before = field.key ∧ Setting.word behind ∈ truthWords value

/-- A line gives an option some value. -/
def IsGivenBy (field : OptionField) (line : List Char) : Prop :=
  ∃ value, field.Gives value line

/-- The last of several lines that give an option a value gives it this one. -/
def LastGiven (field : OptionField) (value : Bool) (lines : List (List Char)) : Prop :=
  ∃ front line behind, lines = front ++ line :: behind ∧ field.Gives value line ∧
    ∀ later ∈ behind, ¬field.IsGivenBy later

end OptionField

/-! ## Settings -/

namespace Setting

/-- The option that is set. -/
def field : Setting → OptionField
  | clientSide _ => .clientSide
  | levelCoordinates _ => .levelCoordinates
  | levelPlayers _ => .levelPlayers

/-- The value that an option is set to. -/
def value : Setting → Bool
  | clientSide value => value
  | levelCoordinates value => value
  | levelPlayers value => value

theorem isOn_apply (setting : Setting) (options : Options) (option : OptionField) :
    option.isOn (apply options setting) =
      if setting.field = option then setting.value else option.isOn options := by
  cases setting with
  | clientSide value => cases option <;> rfl
  | levelCoordinates value | levelPlayers value => cases option <;> cases value <;> rfl

theorem truth?_eq_some_iff {text : String} {truth : Bool} :
    truth? text = some truth ↔ text ∈ OptionField.truthWords truth := by
  constructor
  · intro isTruth
    unfold truth? at isTruth
    split at isTruth <;> cases isTruth <;> decide
  · intro isWord
    cases truth with
    | true | false =>
      simp only [OptionField.truthWords, List.mem_cons, List.not_mem_nil, or_false] at isWord
      rcases isWord with rfl | rfl | rfl | rfl <;> rfl

theorem ofKey?_eq_some_iff {key : String} {truth : Bool} {setting : Setting} :
    ofKey? key truth = some setting ↔ key = setting.field.key ∧ truth = setting.value := by
  constructor
  · intro isSetting
    unfold ofKey? at isSetting
    split at isSetting <;> cases isSetting <;> exact ⟨rfl, rfl⟩
  · rintro ⟨rfl, rfl⟩
    cases setting <;> rfl

/-- The first equals sign of a text. -/
theorem span_equals_iff {content before behind : List Char} :
    content.span (fun character => character != '=') = (before, '=' :: behind) ↔
      content = before ++ '=' :: behind ∧ '=' ∉ before := by
  rw [List.span_eq_takeWhile_dropWhile, Prod.mk.injEq]
  constructor
  · rintro ⟨rfl, isBehind⟩
    refine ⟨?_, fun member => ?_⟩
    · rw [← isBehind, List.takeWhile_append_dropWhile]
    · simpa using List.all_eq_true.mp List.all_takeWhile _ member
  · rintro ⟨rfl, absent⟩
    have passed : ∀ character ∈ before, (character != '=') = true := by
      intro character member
      rw [bne_iff_ne]
      rintro rfl
      exact absent member
    rw [List.takeWhile_append_of_pos passed, List.dropWhile_append_of_pos passed]
    simp

/-- A line is read as the setting of the option that it gives a value. -/
theorem ofLine?_eq_some_iff {setting : Setting} :
    ofLine? line = some setting ↔ setting.field.Gives setting.value line := by
  rw [ofLine?]
  constructor
  · intro isSetting
    split at isSetting
    · rename_i before behind spanned
      obtain ⟨split, absent⟩ := span_equals_iff.mp spanned
      split at isSetting
      · cases isSetting
      · rename_i noComment
        obtain ⟨truth, isTruth, isKey⟩ := Option.bind_eq_some_iff.mp isSetting
        obtain ⟨sameKey, rfl⟩ := ofKey?_eq_some_iff.mp isKey
        refine ⟨?_, before, behind, split, absent, sameKey, truth?_eq_some_iff.mp isTruth⟩
        rwa [beq_iff_eq] at noComment
    · cases isSetting
  · rintro ⟨noComment, before, behind, split, absent, sameKey, isWord⟩
    rw [span_equals_iff.mpr ⟨split, absent⟩]
    change (if _ then none else _) = some setting
    rw [if_neg (by rwa [beq_iff_eq]), truth?_eq_some_iff.mpr isWord]
    exact ofKey?_eq_some_iff.mpr ⟨sameKey, rfl⟩

end Setting

/-! ## Values of an option -/

namespace OptionField

variable (field : OptionField)
variable (lines : List (List Char))

/-- The value that a line gives an option. -/
def value? (line : List Char) : Option Bool :=
  (Setting.ofLine? line).bind fun setting =>
    if setting.field = field then some setting.value else none

theorem value?_eq_some_iff {value : Bool} :
    field.value? line = some value ↔ field.Gives value line := by
  rw [value?, Option.bind_eq_some_iff]
  constructor
  · rintro ⟨setting, isSetting, isValue⟩
    split at isValue
    · rename_i sameField
      cases isValue
      rw [← sameField]
      exact Setting.ofLine?_eq_some_iff.mp isSetting
    · cases isValue
  · intro gives
    have reads (setting : Setting) (isField : setting.field = field)
        (isValue : setting.value = value) :
        ∃ setting, Setting.ofLine? line = some setting ∧
          (if setting.field = field then some setting.value else none) = some value := by
      refine ⟨setting, Setting.ofLine?_eq_some_iff.mpr ?_, ?_⟩
      · rwa [isField, isValue]
      · rw [if_pos isField, isValue]
    cases field with
    | clientSide => exact reads (.clientSide value) rfl rfl
    | levelCoordinates => exact reads (.levelCoordinates value) rfl rfl
    | levelPlayers => exact reads (.levelPlayers value) rfl rfl

theorem isGivenBy_iff : field.IsGivenBy line ↔ (field.value? line).isSome := by
  rw [Option.isSome_iff_exists]
  exact exists_congr fun _ => field.value?_eq_some_iff.symm

instance : DecidablePred field.IsGivenBy :=
  fun _ => decidable_of_iff _ field.isGivenBy_iff.symm

theorem value?_eq_none_iff : field.value? line = none ↔ ¬field.IsGivenBy line := by
  rw [isGivenBy_iff, Option.not_isSome_iff_eq_none]

/-- Each line replaces the value of the options that it gives one. -/
theorem isOn_foldl (options : Options) :
    field.isOn ((lines.filterMap Setting.ofLine?).foldl Setting.apply options) =
      (lines.filterMap field.value?).getLast?.getD (field.isOn options) := by
  induction lines generalizing options with
  | nil => rfl
  | cons line others ih =>
    cases read : Setting.ofLine? line with
    | none =>
      have noValue : field.value? line = none := by rw [value?, read]; rfl
      rw [List.filterMap_cons_none read, List.filterMap_cons_none noValue]
      exact ih options
    | some setting =>
      rw [List.filterMap_cons_some read, List.foldl_cons, ih,
        Setting.isOn_apply]
      by_cases sameField : setting.field = field
      · have isValue : field.value? line = some setting.value := by
          rw [value?, read]
          exact if_pos sameField
        rw [List.filterMap_cons_some isValue, List.getLast?_cons, if_pos sameField]
        rfl
      · have noValue : field.value? line = none := by
          rw [value?, read]
          exact if_neg sameField
        rw [List.filterMap_cons_none noValue, if_neg sameField]

/-- Only the lines that give an option a value matter. -/
theorem filterMap_value?_filter :
    (lines.filter field.IsGivenBy).filterMap field.value? = lines.filterMap field.value? := by
  induction lines with
  | nil => rfl
  | cons line others ih =>
    by_cases given : field.IsGivenBy line
    · have kept : decide (field.IsGivenBy line) = true := decide_eq_true given
      rw [List.filter_cons, if_pos kept, List.filterMap_cons, List.filterMap_cons,
        ih]
    · have dropped : ¬decide (field.IsGivenBy line) = true := by rwa [decide_eq_true_eq]
      rw [List.filter_cons, if_neg dropped, ih,
        List.filterMap_cons_none (field.value?_eq_none_iff.mpr given)]

/-- The last value is that of the last line that gives one. -/
theorem getLast?_values_cases :
    (∃ value, field.LastGiven value lines ∧
      (lines.filterMap field.value?).getLast? = some value) ∨
    (∀ line ∈ lines, ¬field.IsGivenBy line) ∧ (lines.filterMap field.value?).getLast? = none := by
  induction lines with
  | nil => exact Or.inr ⟨by simp, rfl⟩
  | cons line others ih =>
    rcases ih with ⟨value, ⟨front, last, behind, split, gives, never⟩, isLast⟩ |
      ⟨never, noLast⟩
    · refine Or.inl ⟨value, ⟨line :: front, last, behind, by rw [split]; rfl, gives, never⟩, ?_⟩
      cases read : field.value? line with
      | none => rwa [List.filterMap_cons_none read]
      | some first => rw [List.filterMap_cons_some read, List.getLast?_cons, isLast]; rfl
    · cases read : field.value? line with
      | none =>
        refine Or.inr ⟨List.forall_mem_cons.mpr ⟨field.value?_eq_none_iff.mp read, never⟩, ?_⟩
        rwa [List.filterMap_cons_none read]
      | some value =>
        refine Or.inl ⟨value, ⟨[], line, others, rfl, field.value?_eq_some_iff.mp read, never⟩, ?_⟩
        rw [List.filterMap_cons_some read, List.getLast?_cons, noLast]
        rfl

end OptionField

/-! ## Lines -/

/-- A carriage return at the end of a line is one of the blanks around it. -/
theorem Setting.ofLine?_append_carriageReturn (line : List Char) :
    ofLine? (line ++ ['\r']) = ofLine? line := by
  have trimmed : Text.trimChars (line ++ ['\r']) = Text.trimChars line := by
    rw [Text.trimChars, Text.trimChars, Text.trimStart, Text.trimStart, List.dropWhile_append]
    split
    · rename_i allBlank
      rw [List.isEmpty_iff.mp allBlank]
      rfl
    · rw [Text.trimEnd, Text.trimEnd, List.reverse_append]
      rfl
  rw [ofLine?, ofLine?, trimmed]

/-- The pieces of a text between its line feeds are its lines, some with a
carriage return at their end, and an empty piece where the last line ends. -/
inductive AlikeLines : List (List Char) → List (List Char) → Prop
  | ended : AlikeLines [] [[]]
  | last (line : List Char) : AlikeLines [line] [line]
  | cons {line piece : List Char} {lines pieces : List (List Char)}
      (alike : piece = line ∨ piece = line ++ ['\r']) (others : AlikeLines lines pieces) :
      AlikeLines (line :: lines) (piece :: pieces)

theorem alikeLines_splitOn (text : List Char) :
    AlikeLines (Text.lines text) (text.splitOn '\n') := by
  have split (character : Char) (rest : List Char) : (character :: rest).splitOn '\n' =
      if character = '\n' then [] :: rest.splitOn '\n'
      else (rest.splitOn '\n').modifyHead (character :: ·) := by
    rw [List.splitOn, List.splitOnP_cons_eq_if_modifyHead]
    simp only [beq_iff_eq]
    rfl
  fun_induction Text.lines text with
  | case1 => exact .ended
  | case2 rest ih =>
    rw [split, if_pos rfl]
    exact .cons (Or.inl rfl) ih
  | case3 rest ih =>
    rw [split, split, if_neg (by decide), if_pos rfl]
    exact .cons (Or.inr rfl) ih
  | case4 character rest notFeed _ noLines ih =>
    rw [split, if_neg notFeed]
    rw [noLines] at ih
    generalize rest.splitOn '\n' = pieces at ih ⊢
    cases ih
    exact .last [character]
  | case5 character rest notFeed _ first others isLines ih =>
    rw [split, if_neg notFeed]
    rw [isLines] at ih
    generalize rest.splitOn '\n' = pieces at ih ⊢
    cases ih with
    | last => exact .last (character :: first)
    | cons alike inOthers =>
      refine .cons ?_ inOthers
      rcases alike with rfl | rfl
      · exact Or.inl rfl
      · exact Or.inr rfl

/-- The settings are those of the pieces between line feeds. -/
theorem Options.settings_eq_splitOn (text : String) :
    settings text = (text.toList.splitOn '\n').filterMap Setting.ofLine? := by
  have alike := alikeLines_splitOn text.toList
  rw [settings]
  generalize Text.lines text.toList = lines, text.toList.splitOn '\n' = pieces at alike ⊢
  induction alike with
  | ended => rfl
  | last line => rfl
  | @cons line piece lines pieces alike _ ih =>
    have sameFirst : Setting.ofLine? piece = Setting.ofLine? line := by
      rcases alike with rfl | rfl
      · rfl
      · exact Setting.ofLine?_append_carriageReturn line
    rw [List.filterMap_cons, List.filterMap_cons, sameFirst, ih]

end EventScript
