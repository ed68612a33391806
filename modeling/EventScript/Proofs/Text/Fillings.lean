import EventScript.Proofs.Text.Blocks
import EventScript.Vocabulary.Alias
import Mathlib.Data.List.Infix
import Mathlib.Data.List.Nodup

/-!
# Filling in marks

The marks of a replacement text are filled in one kind after the other: first the
player list, then the helpers for the two axes.  `fillings` keeps apart what was
filled in and the characters that were kept, so that it can be said what became
of each mark.  The text is what the fillings spell, and the helpers that it calls
are those of the axes that were filled in.

The helper for the horizontal axis is named first, also where the one for the
vertical axis is called first.  And the bare word for the player list stands in its
own mark, so that two number signs around a mark make a mark again.
-/

namespace EventScript

variable {text rest : List Char}

/-! ## Occurrences and replacements -/

namespace Text

variable {pattern : List Char}

theorem occursIn_iff_isInfix : occursIn pattern text = true ↔ pattern <:+: text := by
  induction text with
  | nil => simp [occursIn]
  | cons character rest ih =>
    rw [occursIn, Bool.or_eq_true, List.isPrefixOf_iff_prefix, ih,
      List.infix_cons_iff]

/-- A text does not begin where its first character is missing. -/
theorem isInfix_of_append {first : Char} {front : List Char} (absent : first ∉ front)
    (inside : first :: pattern <:+: front ++ rest) : first :: pattern <:+: rest := by
  induction front with
  | nil => exact inside
  | cons character others ih =>
    rw [List.mem_cons, not_or] at absent
    rcases List.infix_cons_iff.mp inside with begins | later
    · exact absurd (List.cons_prefix_cons.mp begins).1 absent.1
    · exact ih absent.2 later

theorem replaceFrom_skip (pattern replacement front rest : List Char) :
    replaceFrom pattern replacement front.length (front ++ rest) =
      replaceFrom pattern replacement 0 rest := by
  induction front with
  | nil => rfl
  | cons character others ih => exact ih

/-- A pattern at the front is replaced. -/
theorem replaceFrom_self_append (nonempty : pattern ≠ []) (replacement rest : List Char) :
    replaceFrom pattern replacement 0 (pattern ++ rest) =
      replacement ++ replaceFrom pattern replacement 0 rest := by
  obtain ⟨first, others, rfl⟩ := List.exists_cons_of_ne_nil nonempty
  have here : (first :: others).isPrefixOf (first :: (others ++ rest)) = true :=
    List.isPrefixOf_iff_prefix.mpr (List.prefix_append (first :: others) rest)
  rw [List.cons_append, replaceFrom, if_pos here, List.length_cons, Nat.add_sub_cancel,
    replaceFrom_skip]

/-- Elsewhere a character is kept. -/
theorem replaceFrom_cons {character : Char} (notHere : ¬pattern <+: character :: rest)
    (replacement : List Char) :
    replaceFrom pattern replacement 0 (character :: rest) =
      character :: replaceFrom pattern replacement 0 rest := by
  rw [replaceFrom, if_neg]
  rwa [List.isPrefixOf_iff_prefix]

end Text

/-! ## Parts of a text -/

/-- A part of a text whose marks are filled in: a character that was kept, or what
stands in the place of a mark. -/
inductive Filling where
  | kept (character : Char)
  | players
  | tile (axis : Axis)
  deriving DecidableEq, Repr

namespace Filling

/-- The text that a part was made from. -/
def source : Filling → List Char
  | kept character => [character]
  | players => playersMark.toList
  | tile axis => axis.mark.toList

/-- The text that a part stands for. -/
def code (options : Options) : Filling → List Char
  | kept character => [character]
  | players => options.players.toList
  | tile axis => (options.coordinates.tileHelper axis).toList

/-- Whether a part is a character that was kept. -/
def isKept : Filling → Bool
  | kept _ => true
  | _ => false

/-- The axis that was filled in. -/
def axis? : Filling → Option Axis
  | tile axis => some axis
  | _ => none

/-- The characters of a text, all kept. -/
def spell (text : List Char) : List Filling :=
  text.map kept

@[simp]
theorem length_spell (text : List Char) : (spell text).length = text.length :=
  List.length_map ..

/-- The text that parts stand for. -/
def render (options : Options) (parts : List Filling) : List Char :=
  parts.flatMap (code options)

/-- Fill in the places behind the next `skip` parts where kept characters spell a
mark, from left to right. -/
def fillFrom (mark : List Char) (filling : Filling) : (skip : Nat) → List Filling → List Filling
  | _, [] => []
  | skip + 1, _ :: rest => fillFrom mark filling skip rest
  | 0, first :: rest =>
    if (spell mark).isPrefixOf (first :: rest) then
      filling :: fillFrom mark filling (mark.length - 1) rest
    else first :: fillFrom mark filling 0 rest

/-- Fill in the mark of one axis. -/
def fillAxis (axis : Axis) (parts : List Filling) : List Filling :=
  fillFrom axis.mark.toList (.tile axis) 0 parts

/-- Fill in the mark of the player list. -/
def fillPlayers (parts : List Filling) : List Filling :=
  fillFrom playersMark.toList .players 0 parts

end Filling

/-- What becomes of the parts of a text when its marks are filled in. -/
def fillings (text : String) : List Filling :=
  Filling.fillAxis .y (Filling.fillAxis .x (Filling.fillPlayers (Filling.spell text.toList)))

namespace Filling

variable {part : Filling}

/-! ## What filling in does -/

/-- Filling in one kind of mark: where kept characters spell it, it is filled in,
and elsewhere parts stay. -/
inductive Fills (mark : List Char) (filling : Filling) : List Filling → List Filling → Prop
  | done : Fills mark filling [] []
  | mark {rest filled : List Filling} (others : Fills mark filling rest filled) :
      Fills mark filling (spell mark ++ rest) (filling :: filled)
  | other {first : Filling} {rest filled : List Filling}
      (notHere : ¬spell mark <+: first :: rest) (others : Fills mark filling rest filled) :
      Fills mark filling (first :: rest) (first :: filled)

theorem fills_fillFrom {mark : List Char} (nonempty : mark ≠ []) (filling : Filling) (skip : Nat)
    (parts : List Filling) :
    Fills mark filling (parts.drop skip) (fillFrom mark filling skip parts) := by
  fun_induction fillFrom mark filling skip parts with
  | case1 skip =>
    rw [List.drop_nil]
    exact .done
  | case2 skip _ rest ih => exact ih
  | case3 first rest found ih =>
    obtain ⟨behind, split⟩ := List.isPrefixOf_iff_prefix.mp found
    have dropped : rest.drop (mark.length - 1) = behind := by
      have size : mark.length = mark.length - 1 + 1 :=
        (Nat.succ_pred_eq_of_pos (List.length_pos_iff.mpr nonempty)).symm
      have whole : (first :: rest).drop mark.length = behind := by
        rw [← split, List.drop_left' (length_spell mark)]
      rwa [size, List.drop_succ_cons] at whole
    rw [dropped] at ih
    rw [List.drop_zero, ← split]
    exact .mark ih
  | case4 first rest notFound ih =>
    rw [List.drop_zero] at ih ⊢
    exact .other (fun begins => notFound (List.isPrefixOf_iff_prefix.mpr begins))
      ih

section Fills

variable {mark : List Char} {filling : Filling} {parts filled : List Filling}

theorem flatMap_source_spell (text : List Char) : (spell text).flatMap source = text := by
  induction text with
  | nil => rfl
  | cons character rest ih => exact congrArg (character :: ·) ih

/-- Filling in changes the text that parts stand for, not the text they were made
from. -/
theorem Fills.source_eq (fills : Fills mark filling parts filled)
    (isSource : filling.source = mark) :
    filled.flatMap source = parts.flatMap source := by
  induction fills with
  | done => rfl
  | mark _ ih =>
    rw [List.flatMap_append, List.flatMap_cons, ih, flatMap_source_spell,
      isSource]
  | other _ _ ih =>
    rw [List.flatMap_cons, List.flatMap_cons, ih]

theorem mem_spell (member : part ∈ spell text) : part.isKept = true := by
  obtain ⟨character, -, rfl⟩ := List.mem_map.mp member
  rfl

theorem notMem_spell (notKept : part.isKept = false) : part ∉ spell text := fun member =>
  absurd (mem_spell member) (by simp [notKept])

/-- Kept characters do not begin with what was filled in. -/
theorem not_spell_isPrefix_cons (notKept : filling.isKept = false) (nonempty : text ≠ [])
    (rest : List Filling) : ¬spell text <+: filling :: rest := by
  obtain ⟨character, others, rfl⟩ := List.exists_cons_of_ne_nil nonempty
  intro begins
  rw [← (List.cons_prefix_cons.mp begins).1] at notKept
  cases notKept

/-- Other fillings stay. -/
theorem Fills.mem_iff (fills : Fills mark filling parts filled) (notKept : part.isKept = false)
    (differ : part ≠ filling) : part ∈ filled ↔ part ∈ parts := by
  induction fills with
  | done => rfl
  | mark _ ih =>
    simp [ih, differ, notMem_spell notKept]
  | other _ _ ih => simp [ih]

/-- A mark is filled in exactly if kept characters spell it. -/
theorem Fills.filling_mem_iff (fills : Fills mark filling parts filled) (nonempty : mark ≠ [])
    (fresh : filling ∉ parts) : filling ∈ filled ↔ spell mark <:+: parts := by
  induction fills with
  | done => simp [spell, nonempty]
  | mark _ _ =>
    exact iff_of_true List.mem_cons_self (List.prefix_append _ _).isInfix
  | other notHere _ ih =>
    rw [List.mem_cons, not_or] at fresh
    rw [List.mem_cons, ih fresh.2, List.infix_cons_iff]
    simp [fresh.1, notHere]

/-- Without a mark nothing changes. -/
theorem Fills.eq_of_not_isInfix (fills : Fills mark filling parts filled)
    (absent : ¬spell mark <:+: parts) : filled = parts := by
  induction fills with
  | done => rfl
  | mark _ _ => exact absurd (List.prefix_append _ _).isInfix absent
  | other _ _ ih =>
    rw [List.infix_cons_iff, not_or] at absent
    rw [ih absent.2]

/-- Kept characters at the front were there before. -/
theorem Fills.spell_isPrefix (fills : Fills mark filling parts filled)
    (notKept : filling.isKept = false) (begins : spell text <+: filled) : spell text <+: parts := by
  induction fills generalizing text with
  | done => exact begins
  | mark _ _ =>
    cases text with
    | nil => exact List.nil_prefix
    | cons character rest =>
      exact absurd begins (not_spell_isPrefix_cons notKept (List.cons_ne_nil _ _) _)
  | other _ _ ih =>
    cases text with
    | nil => exact List.nil_prefix
    | cons character rest =>
      obtain ⟨same, later⟩ := List.cons_prefix_cons.mp begins
      exact List.cons_prefix_cons.mpr ⟨same, ih later⟩

/-- Kept characters that stand together stood together before. -/
theorem Fills.spell_isInfix (fills : Fills mark filling parts filled)
    (notKept : filling.isKept = false) (nonempty : text ≠ []) (inside : spell text <:+: filled) :
    spell text <:+: parts := by
  induction fills with
  | done => exact inside
  | mark _ ih =>
    rcases List.infix_cons_iff.mp inside with begins | later
    · exact absurd begins (not_spell_isPrefix_cons notKept nonempty _)
    · exact (ih later).trans (List.suffix_append _ _).isInfix
  | other notHere others ih =>
    rcases List.infix_cons_iff.mp inside with begins | later
    · exact ((Fills.other notHere others).spell_isPrefix notKept begins).isInfix
    · exact (ih later).trans (List.suffix_cons _ _).isInfix

/-- No kept characters spell the mark any more. -/
theorem Fills.not_spell_isInfix (fills : Fills mark filling parts filled)
    (notKept : filling.isKept = false) (nonempty : mark ≠ []) : ¬spell mark <:+: filled := by
  induction fills with
  | done => simp [spell, nonempty]
  | mark _ ih =>
    rw [List.infix_cons_iff, not_or]
    exact ⟨not_spell_isPrefix_cons notKept nonempty _, ih⟩
  | other notHere others ih =>
    rw [List.infix_cons_iff, not_or]
    exact ⟨fun begins => notHere ((Fills.other notHere others).spell_isPrefix notKept begins),
      ih⟩

end Fills

/-! ## Marks in the text of parts -/

section Render

variable {options : Options} {inner : List Char} {parts : List Filling}

@[simp]
theorem render_nil : render options [] = [] :=
  rfl

@[simp]
theorem render_cons (first : Filling) (rest : List Filling) :
    render options (first :: rest) = first.code options ++ render options rest :=
  List.flatMap_cons

@[simp]
theorem render_append (first second : List Filling) :
    render options (first ++ second) = render options first ++ render options second :=
  List.flatMap_append

@[simp]
theorem render_spell (text : List Char) : render options (spell text) = text := by
  induction text with
  | nil => rfl
  | cons character rest ih => exact congrArg (character :: ·) ih

/-- What is filled in holds no number sign. -/
theorem sign_notMem_code (options : Options) (notKept : part.isKept = false) :
    '#' ∉ part.code options := by
  obtain ⟨clientSide, coordinates, playerList⟩ := options
  cases part with
  | kept => cases notKept
  | players => cases playerList <;> simp [code, Options.players, PlayerListMode.accessor]
  | tile axis => cases coordinates <;> cases axis <;> simp [code, CoordinateMode.tileHelper]

/-- What is filled in is longer than one character. -/
theorem one_lt_length_code (options : Options) (notKept : part.isKept = false) :
    1 < (part.code options).length := by
  obtain ⟨clientSide, coordinates, playerList⟩ := options
  cases part with
  | kept => cases notKept
  | players => cases playerList <;> simp [code, Options.players, PlayerListMode.accessor]
  | tile axis => cases coordinates <;> cases axis <;> simp [code, CoordinateMode.tileHelper]

theorem code_isInfix_render (member : part ∈ parts) :
    part.code options <:+: render options parts := by
  obtain ⟨front, back, rfl⟩ := List.append_of_mem member
  exact ⟨render options front, render options back, by simp⟩

theorem eq_nil_of_render_eq_nil (isEmpty : render options parts = []) : parts = [] := by
  cases parts with
  | nil => rfl
  | cons first rest =>
    rw [render_cons, List.append_eq_nil_iff] at isEmpty
    cases isKept : first.isKept with
    | true =>
      cases first with
      | kept => cases isEmpty.1
      | _ => cases isKept
    | false =>
      have longer := one_lt_length_code options isKept
      rw [isEmpty.1] at longer
      exact absurd longer (by decide)

/-- A mark stands between number signs. -/
structure Encloses (mark inner : List Char) : Prop where
  spelled : mark = '#' :: (inner ++ ['#'])
  noSign : '#' ∉ inner

theorem Encloses.ne_nil {mark : List Char} (encloses : Encloses mark inner) : mark ≠ [] := by
  rw [encloses.spelled]
  exact List.cons_ne_nil _ _

theorem Encloses.spell_eq {mark : List Char} (encloses : Encloses mark inner) :
    spell mark = .kept '#' :: (spell inner ++ [.kept '#']) := by
  simp [encloses.spelled, spell]

/-- A number sign of the text is a kept one: what stands in front of it is spelled
by the parts in front of it. -/
theorem exists_parts_of_render (noSign : '#' ∉ inner)
    (spelled : render options parts = inner ++ '#' :: rest) :
    ∃ run others, parts = run ++ .kept '#' :: others ∧ render options run = inner ∧
      render options others = rest := by
  induction parts generalizing inner with
  | nil => simp at spelled
  | cons first others ih =>
    rw [render_cons] at spelled
    cases isKept : first.isKept with
    | true =>
      cases first with
      | kept character =>
        cases inner with
        | nil =>
          obtain ⟨rfl, same⟩ := List.cons.inj spelled
          exact ⟨[], others, rfl, rfl, same⟩
        | cons head inner =>
          rw [List.mem_cons, not_or] at noSign
          obtain ⟨rfl, later⟩ := List.cons.inj spelled
          obtain ⟨run, behind, rfl, same, sameRest⟩ := ih noSign.2 later
          exact ⟨.kept character :: run, behind, rfl, congrArg (character :: ·) same,
            sameRest⟩
      | _ => cases isKept
    | false =>
      obtain ⟨later, rfl⟩ : first.code options <+: inner := by
        rcases List.append_eq_append_iff.mp spelled with
          ⟨later, same, -⟩ | ⟨later, same, begins⟩
        · exact ⟨later, same.symm⟩
        · cases later with
          | nil => exact ⟨[], by rw [same, List.append_nil, List.append_nil]⟩
          | cons sign behind =>
            obtain ⟨rfl, -⟩ := List.cons.inj begins
            exact absurd (same ▸ by simp) (sign_notMem_code options isKept)
      rw [List.append_assoc, List.append_cancel_left_eq] at spelled
      rw [List.mem_append, not_or] at noSign
      obtain ⟨run, behind, rfl, same, sameRest⟩ := ih noSign.2 spelled
      exact ⟨first :: run, behind, rfl, by rw [render_cons, same], sameRest⟩

/-- Where the text begins with a mark, the parts begin with two kept number signs
and parts between them that spell the inner text of the mark. -/
theorem exists_run_of_isPrefix {mark : List Char} (encloses : Encloses mark inner)
    (begins : mark <+: render options parts) :
    ∃ run, .kept '#' :: (run ++ [.kept '#']) <+: parts ∧ render options run = inner := by
  obtain ⟨rfl, noSign⟩ := encloses
  obtain ⟨behind, split⟩ := begins
  have outer : render options parts = [] ++ '#' :: (inner ++ '#' :: behind) := by simp [← split]
  obtain ⟨front, others, rfl, isEmpty, spelled⟩ := exists_parts_of_render List.not_mem_nil outer
  obtain rfl := eq_nil_of_render_eq_nil isEmpty
  obtain ⟨run, rest, rfl, same, -⟩ := exists_parts_of_render noSign spelled
  exact ⟨run, ⟨rest, by simp⟩, same⟩

/-- A mark in the text lies between two kept number signs. -/
theorem isInfix_render_iff {mark : List Char} (encloses : Encloses mark inner) :
    mark <:+: render options parts ↔
      ∃ run, .kept '#' :: (run ++ [.kept '#']) <:+: parts ∧ render options run = inner := by
  constructor
  · intro inside
    induction parts with
    | nil => exact absurd (List.infix_nil.mp inside) encloses.ne_nil
    | cons first rest ih =>
      have orLater : mark <+: render options (first :: rest) ∨ mark <:+: render options rest := by
        cases first with
        | kept character => exact List.infix_cons_iff.mp inside
        | _ =>
          rw [encloses.spelled] at inside ⊢
          exact .inr (Text.isInfix_of_append (sign_notMem_code options rfl) inside)
      rcases orLater with begins | later
      · obtain ⟨run, here, same⟩ := exists_run_of_isPrefix encloses begins
        exact ⟨run, here.isInfix, same⟩
      · obtain ⟨run, there, same⟩ := ih later
        exact ⟨run, there.trans (List.suffix_cons _ _).isInfix, same⟩
  · rintro ⟨run, ⟨front, back, rfl⟩, rfl⟩
    exact ⟨render options front, render options back, by simp [encloses.spelled, code]⟩

/-- Parts that spell a text are its characters if nothing was filled in that could
stand in it. -/
theorem eq_spell_of_render {run : List Filling}
    (clear : ∀ part ∈ run, part.isKept = false → ¬part.code options <:+: inner)
    (spelled : render options run = inner) : run = spell inner := by
  have allKept : ∀ part ∈ run, part.isKept = true := by
    intro part member
    by_contra notKept
    rw [Bool.not_eq_true] at notKept
    exact clear part member notKept (spelled ▸ code_isInfix_render member)
  clear clear
  subst spelled
  induction run with
  | nil => rfl
  | cons first rest ih =>
    rw [List.forall_mem_cons] at allKept
    cases first with
    | kept character =>
      exact congrArg (.kept character :: ·) (ih allKept.2)
    | _ => cases allKept.1

/-- The text of parts holds a mark exactly if kept characters spell it, if nothing
was filled in that could stand in the mark. -/
theorem mark_isInfix_render_iff {mark : List Char} (encloses : Encloses mark inner)
    (clear : ∀ part ∈ parts, part.isKept = false → ¬part.code options <:+: inner) :
    mark <:+: render options parts ↔ spell mark <:+: parts := by
  rw [isInfix_render_iff encloses, encloses.spell_eq]
  constructor
  · rintro ⟨run, inside, spelled⟩
    have among : run ⊆ parts := fun part member => inside.subset (by simp [member])
    rwa [← eq_spell_of_render (fun part member => clear part (among member)) spelled]
  · intro inside
    exact ⟨spell inner, inside, render_spell inner⟩

/-- Filling in parts and replacing in their text come to the same, if nothing was
filled in before that could stand in the mark. -/
theorem Fills.replaceFrom_render {mark : List Char} {filling : Filling} {filled : List Filling}
    (fills : Fills mark filling parts filled) (encloses : Encloses mark inner)
    (clear : ∀ part ∈ parts, part.isKept = false → ¬part.code options <:+: inner) :
    Text.replaceFrom mark (filling.code options) 0 (render options parts) =
      render options filled := by
  induction fills with
  | done => rfl
  | mark _ ih =>
    rw [render_append, render_spell, Text.replaceFrom_self_append encloses.ne_nil,
      ih fun part member => clear part (List.mem_append_right _ member),
      render_cons]
  | @other first rest filled notHere _ ih =>
    have later := ih fun part member => clear part (.tail _ member)
    rw [render_cons, render_cons, ← later]
    cases first with
    | kept character =>
      refine Text.replaceFrom_cons (fun begins => notHere ?_) _
      obtain ⟨run, here, spelled⟩ :=
        @exists_run_of_isPrefix options inner (.kept character :: rest) mark encloses begins
      have among : run ⊆ .kept character :: rest := fun part member =>
        here.subset (by simp [member])
      rwa [eq_spell_of_render (fun part member => clear part (among member)) spelled,
        ← encloses.spell_eq] at here
    | _ =>
      rw [encloses.spelled]
      exact Text.replaceFrom_append_of_notMem (sign_notMem_code options rfl) _ _ _

end Render

/-! ## Filling in each kind of mark -/

/-- The letter in the mark of an axis. -/
def axisLetter : Axis → Char
  | .x => 'x'
  | .y => 'y'

theorem encloses_axis (axis : Axis) : Encloses axis.mark.toList [axisLetter axis] := by
  cases axis
  · exact ⟨rfl, by decide⟩
  · exact ⟨rfl, by decide⟩

theorem encloses_players : Encloses playersMark.toList "players".toList :=
  ⟨rfl, by decide⟩

theorem fills_fillAxis (axis : Axis) (parts : List Filling) :
    Fills axis.mark.toList (.tile axis) parts (fillAxis axis parts) :=
  fills_fillFrom (encloses_axis axis).ne_nil _ 0 parts

theorem fills_fillPlayers (parts : List Filling) :
    Fills playersMark.toList .players parts (fillPlayers parts) :=
  fills_fillFrom encloses_players.ne_nil _ 0 parts

/-- What is filled in is too long to stand in the mark of an axis. -/
theorem not_code_isInfix_axisLetter (options : Options) (axis : Axis)
    (notKept : part.isKept = false) : ¬part.code options <:+: [axisLetter axis] := by
  intro inside
  have longer := one_lt_length_code options notKept
  have shorter := inside.length_le
  rw [List.length_singleton] at shorter
  omega

theorem toList_fillPlayers (options : Options) (text : String) :
    (options.fillPlayers text).toList = render options (fillPlayers (spell text.toList)) := by
  have clear : ∀ part ∈ spell text.toList, part.isKept = false →
      ¬part.code options <:+: "players".toList := by
    intro part member notKept
    rw [mem_spell member] at notKept
    cases notKept
  have replaced := (fills_fillPlayers (spell text.toList)).replaceFrom_render encloses_players clear
  rw [render_spell] at replaced
  rw [Options.fillPlayers, Text.replace, String.toList_ofList, ← replaced]
  rfl

section Axis

variable {options : Options} {axis : Axis} {text : String} {parts : List Filling}

/-- A text holds the mark of an axis exactly if the mark is filled in. -/
theorem contains_mark_iff (spelled : text.toList = render options parts) :
    Text.contains text axis.mark = true ↔ spell axis.mark.toList <:+: parts := by
  rw [Text.contains, Text.occursIn_iff_isInfix, spelled]
  exact mark_isInfix_render_iff (encloses_axis axis) fun part _ notKept =>
    not_code_isInfix_axisLetter options axis notKept

/-- Filling in an axis: the text of the parts, and the helper if the mark was
there. -/
theorem fillAxis_eq (spelled : text.toList = render options parts) (fresh : .tile axis ∉ parts) :
    (options.fillAxis axis text).1.toList = render options (fillAxis axis parts) ∧
      (options.fillAxis axis text).2 =
        if .tile axis ∈ fillAxis axis parts then [options.coordinates.tileHelper axis] else [] := by
  have fills := fills_fillAxis axis parts
  have marked := fills.filling_mem_iff (encloses_axis axis).ne_nil fresh
  rw [Options.fillAxis]
  by_cases occurs : spell axis.mark.toList <:+: parts
  · have replaced := fills.replaceFrom_render (encloses_axis axis) fun part _ notKept =>
      not_code_isInfix_axisLetter options axis notKept
    rw [if_pos ((contains_mark_iff spelled).mpr occurs), if_pos (marked.mpr occurs)]
    refine ⟨?_, rfl⟩
    rw [← replaced, ← spelled]
    exact String.toList_ofList
  · rw [if_neg (mt (contains_mark_iff spelled).mp occurs), if_neg (mt marked.mp occurs),
      fills.eq_of_not_isInfix occurs]
    exact ⟨spelled, rfl⟩

end Axis

section Fillings

variable (options : Options) (text : String)

theorem flatMap_source_fillings : (fillings text).flatMap source = text.toList := by
  rw [fillings, (fills_fillAxis _ _).source_eq rfl, (fills_fillAxis _ _).source_eq rfl,
    (fills_fillPlayers _).source_eq rfl, flatMap_source_spell]

theorem not_spell_isInfix_fillings (axis : Axis) :
    ¬spell axis.mark.toList <:+: fillings text := by
  cases axis with
  | x =>
    intro inside
    exact (fills_fillAxis .x _).not_spell_isInfix rfl (encloses_axis .x).ne_nil
      ((fills_fillAxis .y _).spell_isInfix rfl (encloses_axis .x).ne_nil inside)
  | y => exact (fills_fillAxis .y _).not_spell_isInfix rfl (encloses_axis .y).ne_nil

theorem not_spell_players_isInfix_fillings : ¬spell playersMark.toList <:+: fillings text := by
  intro inside
  have nonempty := encloses_players.ne_nil
  exact (fills_fillPlayers _).not_spell_isInfix rfl nonempty
    ((fills_fillAxis .x _).spell_isInfix rfl nonempty
      ((fills_fillAxis .y _).spell_isInfix rfl nonempty inside))

/-- The helper of an axis that was filled in. -/
def helperOf (parts : List Filling) (axis : Axis) : List String :=
  if .tile axis ∈ parts then [options.coordinates.tileHelper axis] else []

/-- The marks of a text are filled in as its parts say. -/
theorem substitute_eq :
    (options.substitute text).1.toList = render options (fillings text) ∧
      (options.substitute text).2 =
        helperOf options (fillings text) .x ++ helperOf options (fillings text) .y := by
  have players := toList_fillPlayers options text
  have noTile (axis : Axis) : .tile axis ∉ fillPlayers (spell text.toList) := by
    rw [(fills_fillPlayers _).mem_iff rfl (by simp)]
    exact notMem_spell rfl
  obtain ⟨horizontal, helperX⟩ := fillAxis_eq players (noTile .x)
  have noVertical : .tile .y ∉ fillAxis .x (fillPlayers (spell text.toList)) := by
    rw [(fills_fillAxis .x _).mem_iff rfl (by simp)]
    exact noTile .y
  obtain ⟨vertical, helperY⟩ := fillAxis_eq horizontal noVertical
  have stays : .tile .x ∈ fillings text ↔
      .tile .x ∈ fillAxis .x (fillPlayers (spell text.toList)) :=
    (fills_fillAxis .y _).mem_iff rfl (by simp)
  rw [Options.substitute]
  generalize options.fillAxis .x (options.fillPlayers text) = first at *
  obtain ⟨filled, helper⟩ := first
  dsimp only at *
  generalize options.fillAxis .y filled = second at *
  obtain ⟨filled, helper⟩ := second
  refine ⟨vertical, ?_⟩
  simp only [helperOf, stays, ← helperX]
  exact congrArg (_ ++ ·) helperY

end Fillings

/-! ## The order of helpers -/

theorem tile_mem_iff {axis : Axis} {parts : List Filling} :
    .tile axis ∈ parts ↔ axis ∈ parts.filterMap axis? := by
  rw [List.mem_filterMap]
  constructor
  · exact fun member => ⟨_, member, rfl⟩
  · rintro ⟨part, member, same⟩
    cases part with
    | tile _ =>
      obtain rfl := Option.some.inj same
      exact member
    | _ => cases same

theorem eraseDups_of_forall_eq {axes : List Axis} {axis : Axis}
    (same : ∀ other ∈ axes, other = axis) :
    axes.eraseDups = if axis ∈ axes then [axis] else [] := by
  cases axes with
  | nil => rfl
  | cons first rest =>
    rw [List.forall_mem_cons] at same
    obtain ⟨rfl, same⟩ := same
    have none : rest.filter (fun other => !other == first) = [] := by
      rw [List.filter_eq_nil_iff]
      intro other member
      simp [same other member]
    simp [List.eraseDups_cons, none]

/-- Naming the horizontal axis first is naming the axes in the order in which they
occur, unless the vertical axis occurs first and the horizontal one later. -/
theorem axes_eq_eraseDups_iff (axes : List Axis) :
    [Axis.x, .y].filter (fun axis => axes.contains axis) = axes.eraseDups ↔
      (.x ∈ axes → axes.head? = some .x) := by
  cases axes with
  | nil => simp
  | cons first rest =>
    cases first with
    | x =>
      have others : ∀ axis ∈ rest.filter (fun axis => !axis == Axis.x), axis = .y := by
        intro axis member
        cases axis <;> simp at member ⊢
      rw [List.eraseDups_cons, eraseDups_of_forall_eq others]
      by_cases vertical : Axis.y ∈ rest <;> simp [vertical]
    | y =>
      have others : ∀ axis ∈ rest.filter (fun axis => !axis == Axis.y), axis = .x := by
        intro axis member
        cases axis <;> simp at member ⊢
      rw [List.eraseDups_cons, eraseDups_of_forall_eq others]
      by_cases horizontal : Axis.x ∈ rest <;> simp [horizontal]

theorem tileHelper_injective (mode : CoordinateMode) : Function.Injective mode.tileHelper := by
  intro first second same
  cases mode <;> cases first <;> cases second <;> simp [CoordinateMode.tileHelper] at same ⊢

theorem helpers_eq_map (options : Options) (parts : List Filling) :
    helperOf options parts .x ++ helperOf options parts .y =
      ([Axis.x, .y].filter fun axis => (parts.filterMap axis?).contains axis).map
        options.coordinates.tileHelper := by
  simp only [helperOf, tile_mem_iff]
  generalize parts.filterMap axis? = axes
  by_cases horizontal : Axis.x ∈ axes <;> by_cases vertical : Axis.y ∈ axes <;>
    simp [horizontal, vertical]

/-! ## Marks of the player list -/

/-- The player list is the only filling that can stand in its own mark, and only
where it is the bare word. -/
theorem players_of_isInfix {options : Options} (notKept : part.isKept = false)
    (inside : part.code options <:+: "players".toList) :
    part = .players ∧ options.playerList = .server := by
  obtain ⟨clientSide, coordinates, playerList⟩ := options
  -- every other filling holds a letter that the word lacks
  have lacks : 'i' ∉ "players".toList := by decide
  cases part with
  | kept => cases notKept
  | players =>
    cases playerList with
    | server => exact ⟨rfl, rfl⟩
    | level =>
      refine absurd (inside.subset ?_) lacks
      simp [code, Options.players, PlayerListMode.accessor]
  | tile axis =>
    refine absurd (inside.subset ?_) lacks
    cases coordinates <;> cases axis <;> simp [code, CoordinateMode.tileHelper]

/-- Parts that spell the word for the players are its characters, or the player
list where that is the bare word. -/
theorem run_eq_of_render_players {options : Options} {run : List Filling}
    (spelled : render options run = "players".toList) :
    run = spell "players".toList ∨ (run = [.players] ∧ options.playerList = .server) := by
  by_cases allKept : ∀ part ∈ run, part.isKept = true
  · left
    refine eq_spell_of_render (fun part member notKept => ?_) spelled
    rw [allKept part member] at notKept
    cases notKept
  · right
    rw [not_forall₂] at allKept
    obtain ⟨part, member, notKept⟩ := allKept
    rw [Bool.not_eq_true] at notKept
    obtain ⟨rfl, server⟩ := players_of_isInfix notKept (spelled ▸ code_isInfix_render member)
    refine ⟨?_, server⟩
    obtain ⟨front, back, rfl⟩ := List.append_of_mem member
    have whole : (Filling.code options .players).length = "players".toList.length := by
      rw [code, Options.players, server]
      rfl
    have lengths := congrArg List.length spelled
    simp only [render_append, render_cons, List.length_append, whole] at lengths
    have noFront : (render options front).length = 0 := by omega
    have noBack : (render options back).length = 0 := by omega
    rw [eq_nil_of_render_eq_nil (List.length_eq_zero_iff.mp noFront),
      eq_nil_of_render_eq_nil (List.length_eq_zero_iff.mp noBack)]
    rfl

end Filling

/-- What filling in the marks of a text comes to, in terms of its parts. -/
structure FilledIn (options : Options) (text filled : String) (helpers : List String)
    (parts : List Filling) : Prop where
  /-- Nothing but marks is replaced. -/
  source : parts.flatMap Filling.source = text.toList
  spelled : filled.toList = Filling.render options parts
  /-- No mark of an axis is left. -/
  noAxis : ∀ axis : Axis, Text.contains filled axis.mark = false
  /-- A mark of the player list is there only if it was made anew: by the bare word
  for the player list between two number signs. -/
  players : Text.contains filled playersMark = true ↔
    options.playerList = .server ∧ [.kept '#', .players, .kept '#'] <:+: parts
  /-- No helper is named twice. -/
  once : helpers.Nodup
  /-- The helpers are those of the axes that were filled in. -/
  called : ∀ helper, helper ∈ helpers ↔
    ∃ axis, helper = options.coordinates.tileHelper axis ∧ .tile axis ∈ parts
  /-- They are named in the order of their first calls, unless the vertical axis is
  filled in first and the horizontal one later. -/
  ordered : helpers =
      (parts.filterMap Filling.axis?).eraseDups.map options.coordinates.tileHelper ↔
    (.tile .x ∈ parts → (parts.filterMap Filling.axis?).head? = some .x)

open Filling in
/-- Filling in the marks of a text replaces marks only, leaves no mark of an axis
and names the helpers of the axes once. -/
theorem filledIn_substitute (options : Options) (text : String) :
    FilledIn options text (options.substitute text).1 (options.substitute text).2
      (fillings text) := by
  obtain ⟨spelled, helpers⟩ := substitute_eq options text
  rw [helpers_eq_map] at helpers
  rw [helpers]
  constructor
  case source => exact flatMap_source_fillings text
  case spelled => exact spelled
  case noAxis =>
    intro axis
    rw [Bool.eq_false_iff, ne_eq, contains_mark_iff spelled]
    exact not_spell_isInfix_fillings text axis
  case players =>
    rw [Text.contains, Text.occursIn_iff_isInfix, spelled, isInfix_render_iff encloses_players]
    constructor
    · rintro ⟨run, inside, spelledRun⟩
      rcases run_eq_of_render_players spelledRun with rfl | ⟨rfl, server⟩
      · rw [← encloses_players.spell_eq] at inside
        exact absurd inside (not_spell_players_isInfix_fillings text)
      · exact ⟨server, inside⟩
    · rintro ⟨server, inside⟩
      refine ⟨[.players], inside, ?_⟩
      rw [render_cons, code, Options.players, server]
      rfl
  case once =>
    have distinct : [Axis.x, .y].Nodup := by decide
    exact (distinct.filter _).map (tileHelper_injective _)
  case called =>
    intro helper
    rw [List.mem_map]
    refine exists_congr fun axis => ?_
    rw [tile_mem_iff, List.mem_filter, List.contains_iff_mem, and_comm, eq_comm (a := helper)]
    cases axis <;> simp
  case ordered =>
    rw [tile_mem_iff, ← axes_eq_eraseDups_iff]
    exact (List.map_injective_iff.mpr (tileHelper_injective _)).eq_iff

/-- The helper for the horizontal axis is named first though it is called last, and
number signs around a mark make one anew where the player list is the bare word. -/
theorem helpers_out_of_order_and_mark_made_anew :
    (({} : Options).substitute "#y#(1) #x#(2)" =
        ("localTileY(1) localTileX(2)", ["localTileX", "localTileY"]) ∧
      (fillings "#y#(1) #x#(2)").filterMap Filling.axis? = [.y, .x]) ∧
    (({ playerList := .server } : Options).substitute "##players##" = ("#players#", []) ∧
      fillings "##players##" = [.kept '#', .players, .kept '#']) := by
  decide +kernel

end EventScript
