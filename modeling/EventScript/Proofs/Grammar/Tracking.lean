import EventScript.Proofs.Grammar.Soundness
import EventScript.Proofs.Parser.Follows

/-!
# Expressions in front of different endings

Every rule for expressions reads the same in front of every ending.  A
parenthesis of the ending may be taken for one that closes the expression, and
an unquoted argument that leaves a parenthesis or a quote open runs over the
ending; a call with such an argument is never closed.
-/

namespace EventScript

/-- An ending that closes no block, with no parenthesis but the one it begins
with. -/
structure Ending.Closes (ending : Ending) : Prop where
  noBrace : ending.token ≠ .symbol .closeBrace
  once : .closeParen ∉ ending.tail

namespace Ending.Closes

variable {ending : Ending} (closes : ending.Closes)

include closes

theorem token_cases : ending.token = .endOfInput ∨ ending.token = .symbol .semicolon ∨
    ending.token = .symbol .closeParen := by
  have noBrace := closes.noBrace
  cases ending with
  | nil => exact Or.inl rfl
  | cons mark others =>
    cases mark with
    | semicolon => exact Or.inr (Or.inl rfl)
    | closeBrace => exact absurd rfl noBrace
    | closeParen => exact Or.inr (Or.inr rfl)

theorem eq_closeParen {token : Token}
    (noEnd : token ≠ .symbol .semicolon ∧ token ≠ .endOfInput) (isToken : ending.token = token) :
    token = .symbol .closeParen := by
  subst isToken
  rcases closes.token_cases with atEnd | atSemicolon | atParen
  · exact absurd atEnd noEnd.2
  · exact absurd atSemicolon noEnd.1
  · exact atParen

end Ending.Closes

/-- The value is an unquoted argument that leaves a parenthesis or a quote open
and has taken in the ending. -/
def Ending.RunsOver (ending : Ending) (common : List Char) (value : Expr) (after : Stream) : Prop :=
  ∃ argument, argument <:+ common ∧ LeavesOpen argument ∧
    value = .text (ending.overrun argument) ∧ ending.Past after

theorem Ending.RunsOver.widen {ending : Ending} {common rest : List Char} {value : Expr}
    {after : Stream} (runsOver : ending.RunsOver rest value after) (suffix : rest <:+ common) :
    ending.RunsOver common value after := by
  rcases runsOver with ⟨argument, isSuffix, runs⟩
  exact ⟨argument, isSuffix.trans suffix, runs⟩

/-- The last of several arguments has taken in the ending. -/
def Ending.LastRunsOver (ending : Ending) (common : List Char) (read : List Expr) (after : Stream) :
    Prop :=
  ∃ front value, read = front ++ [value] ∧ ending.RunsOver common value after

/-- Arguments that were not read up to a place in the text. -/
def Ending.LosesArguments (ending : Ending) (common : List Char) (read : List Expr)
    (after : Stream) : Prop :=
  ending.Lost after ∨ ending.LastRunsOver common read after

namespace Parser

variable {ending : Ending} {count : Nat}

/-! ## Expressions -/

/-- In front of every ending a stream gives the same up to the same place, unless
the parenthesis of the ending was taken for one of the expression. -/
theorem exists_gives {taken : List Taken} {tokens : List Token}
    (closes : ending.Closes) (spells : Expr.Spells taken tokens)
    (inside : ∀ token ∈ tokens, token ≠ .symbol .semicolon ∧ token ≠ .endOfInput)
    {stream after : Stream} {common : List Char} (inFront : stream.InFrontOf (ending.behind common))
    (gives : stream.Gives taken after) (clean : after.findings = stream.findings) :
    ending.Lost after ∨ ∃ rest, rest <:+ common ∧ (tokens ≠ [] → rest.length < common.length) ∧
      after.InFrontOf (ending.behind rest) ∧
        ∀ (other : Ending) (twin : Stream), twin.InFrontOf (other.behind common) →
          ∃ twinAfter : Stream, twin.Gives taken twinAfter ∧
            twinAfter.findings = twin.findings ∧ twinAfter.InFrontOf (other.behind rest) := by
  induction spells generalizing stream common with
  | nil =>
    cases gives
    exact .inr ⟨common, List.suffix_refl _, fun none => absurd rfl none, inFront,
      fun other twin twinInFront => ⟨twin, rfl, rfl, twinInFront⟩⟩
  | token token spells ih =>
    obtain ⟨isCurrent, gives⟩ := gives
    by_cases nonempty : common = []
    · subst nonempty
      have isToken := isCurrent.symm.trans inFront.reads_marks.1
      have past : ending.Past stream.advance :=
        ⟨ending.tail, List.suffix_refl _, inFront.advance_marks.1⟩
      exact .inl ⟨isToken ▸ closes.eq_closeParen (inside token List.mem_cons_self) isToken.symm,
        gives.lasts (lasting_past ending) past⟩
    · obtain ⟨left, opens⟩ := Ending.exists_opens inFront nonempty
      obtain ⟨cleanFirst, cleanRest⟩ := findings_eq_of_between
        (lasting_findings _ |>.advance stream (List.prefix_refl _)) gives.findings_grow clean
      obtain ⟨seen, skipped, next, twinNext⟩ := opens.exists_advance inFront cleanFirst
      obtain ⟨suffix, shorter⟩ := opens.shorter skipped
      rcases ih (fun token member => inside token (List.mem_cons_of_mem _ member)) next gives
        cleanRest with isLost | ⟨rest, isSuffix, -, here, there⟩
      · exact .inl isLost
      · refine .inr ⟨rest, isSuffix.trans suffix,
          fun _ => Nat.lt_of_le_of_lt isSuffix.length_le shorter, here, ?_⟩
        intro other twin twinInFront
        obtain ⟨twinInNext, twinClean⟩ := twinNext other twin twinInFront
        obtain ⟨twinAfter, twinGives, thenClean, twinHere⟩ := there other twin.advance twinInNext
        exact ⟨twinAfter, ⟨(opens.current twinInFront).trans isCurrent, twinGives⟩,
          thenClean.trans twinClean, twinHere⟩
  | @raw seen argument mark taken tokens noText isMark spells ih =>
    obtain ⟨isCurrent, isArgument, gives⟩ := gives
    obtain ⟨cleanFirst, cleanRest⟩ := findings_eq_of_between
      (lasting_findings _ |>.takeRaw stream (List.prefix_refl _)) gives.findings_grow clean
    have nonempty : tokens ≠ [] := by
      cases spells
      exact List.cons_ne_nil _ _
    rcases Ending.exists_takeRaw inFront cleanFirst with
      ⟨place, suffix, next, twinNext⟩ | ⟨-, -, past⟩
    · rcases ih (fun token member => inside token (List.mem_cons_of_mem _ member)) next gives
        cleanRest with isLost | ⟨rest, isSuffix, shorter, here, there⟩
      · exact .inl isLost
      · have fewer := Nat.lt_of_lt_of_le (shorter nonempty) suffix.length_le
        obtain ⟨left, opens⟩ := Ending.exists_opens inFront
          (List.ne_nil_of_length_pos (Nat.zero_lt_of_lt fewer))
        refine .inr ⟨rest, isSuffix.trans suffix, fun _ => fewer, here, ?_⟩
        intro other twin twinInFront
        obtain ⟨sameArgument, twinInNext, twinClean⟩ := twinNext other twin twinInFront
        obtain ⟨twinAfter, twinGives, thenClean, twinHere⟩ := there other _ twinInNext
        exact ⟨twinAfter, ⟨(opens.current twinInFront).trans isCurrent,
          sameArgument.trans isArgument, twinGives⟩, thenClean.trans twinClean, twinHere⟩
    · -- an argument that runs over the ending is never closed
      exfalso
      have atMark := gives.1
      rcases past.current_eq with atEnd | ⟨found, member, isFound⟩
      · rw [atMark] at atEnd
        cases atEnd
      · rw [atMark] at isFound
        rcases isMark with rfl | rfl
        · cases found <;> cases isFound
        · cases found with
          | closeParen => exact closes.once member
          | semicolon | closeBrace => cases isFound

/-- Expressions read the same in front of every ending. -/
theorem tracks_expression (closes : ending.Closes) (count : Nat) :
    Tracks ending (Within count) expression expression Takes where
  tame := tame_expression
  follows := by
    intro common stream after expr _ inFront run clean
    obtain ⟨taken, gives, isOperand, again⟩ := ensures_expression inFront.standing run
    obtain ⟨first, others, opens, -⟩ := isOperand.shaped.opens
    rcases exists_gives closes isOperand.spells (fun _ => Expr.ne_of_mem_tokens) inFront gives clean
      with isLost | ⟨rest, suffix, shorter, here, there⟩
    · exact .inl isLost
    · refine .inr ⟨rest, shorter (opens ▸ List.cons_ne_nil _ _), suffix, here, ?_⟩
      intro other _ twin twinInFront
      obtain ⟨twinAfter, twinGives, twinClean, twinHere⟩ := there other twin twinInFront
      refine ⟨twinAfter, again twin twinAfter twinInFront.standing twinGives ?_, twinClean,
        twinHere⟩
      by_cases nonempty : rest = []
      · subst nonempty
        exact .inr ⟨ending, other, here.reads_marks.1, twinHere.reads_marks.1⟩
      · obtain ⟨left, opens⟩ := Ending.exists_opens here nonempty
        exact .inl (opens.current twinHere).symm

/-! ## Arguments -/

section Arguments

variable {expression expressionTwin : Parser Expr}
  (tracks : Tracks ending (Within count) expression expressionTwin Takes)

include tracks

theorem follows_argument (function : String) (position : Nat) :
    Follows ending (Within count) (argument expression function position)
      (argument expressionTwin function position) Anywhere fun common value after =>
        ending.Lost after ∨ ending.RunsOver common value after := by
  have raw (domain : List Char → Prop) :
      Follows ending domain (takeRaw >>= fun read => pure (Expr.text read))
        (takeRaw >>= fun read => pure (Expr.text read)) Anywhere fun common value after =>
          ending.Lost after ∨ ending.RunsOver common value after := by
    refine Follows.bind (fun _ _ => True) Anywhere Follows.takeRaw
      (fun read => Follows.pure _) (fun _ _ _ => trivial) (fun _ _ _ _ => trivial) ?_ ?_
    · rintro common read middle after value ⟨leavesOpen, isOverrun, past⟩ run
      cases run
      exact Or.inr ⟨common, List.suffix_refl _, leavesOpen, by rw [isOverrun], past⟩
    · rintro common rest value after suffix (isLost | runsOver)
      · exact Or.inl isLost
      · exact Or.inr (runsOver.widen suffix)
  have read (domain : List Char → Prop) (within : ∀ common, domain common → Within count common) :
      Follows ending domain expression expressionTwin Anywhere fun common value after =>
        ending.Lost after ∨ ending.RunsOver common value after :=
    Follows.mono tracks within (fun _ _ _ _ => trivial) fun _ _ _ => Or.inl
  have noText (ending : Ending) : ending.token.isText = false := by
    cases ending with
    | nil => rfl
    | cons => rfl
  apply Follows.current_bind
  · intro token
    split
    · exact raw _
    · exact read _ fun _ => And.left
  · intro other _
    rw [noText ending, noText other]
    split
    · exact raw _
    · exact read _ fun _ => And.left

omit tracks in
theorem widens_losesArguments : Widens ending.LosesArguments := by
  rintro common rest read after suffix (isLost | ⟨front, value, isRead, runsOver⟩)
  · exact Or.inl isLost
  · exact Or.inr ⟨front, value, isRead, runsOver.widen suffix⟩

omit tracks in
/-- Behind the ending no comma follows, so an argument that got there is the last
one. -/
theorem runOn_itemStep_of_past {stream : Stream} (past : ending.Past stream)
    (item : List Expr → Parser Expr) (read : List Expr) :
    (itemStep item read).runOn stream = (.ok none, stream) := by
  rw [itemStep, runOn_bind, runOn_accept, if_neg (past.current_ne rfl)]
  rfl

theorem follows_itemStep (function : String) (read : List Expr) :
    Follows ending (Within count)
      (itemStep (fun read => argument expression function read.length) read)
      (itemStep (fun read => argument expressionTwin function read.length) read)
      TakesSome fun common outcome after =>
        ∃ read, outcome = some read ∧ ending.LosesArguments common read after := by
  have widens : Widens fun common (outcome : Option (List Expr)) after =>
      ∃ read, outcome = some read ∧ ending.LosesArguments common read after := by
    rintro common rest outcome after suffix ⟨read, isRead, isLost⟩
    exact ⟨read, isRead, widens_losesArguments _ _ _ _ suffix isLost⟩
  refine Follows.mono (Follows.accept_bind widens rfl TakesSome.of_takes ?_ Follows.pure_none)
    (fun _ => Nat.lt_succ_of_lt) (fun _ _ _ => id) fun _ _ _ => id
  refine Follows.bind (fun _ => Within count) Anywhere
    (follows_argument tracks function read.length) (fun _ => Follows.pure _)
    (fun fits suffix _ => Nat.lt_of_le_of_lt suffix.length_le fits) (fun _ _ _ _ => trivial)
    ?_ widens
  rintro common value middle after outcome isLost run
  cases run
  refine ⟨read ++ [value], rfl, ?_⟩
  rcases isLost with isLost | runsOver
  · exact Or.inl isLost
  · exact Or.inr ⟨read, value, rfl, runsOver⟩

/-- The last argument may have run over the ending. -/
theorem follows_arguments (function : String) :
    Follows ending (Within count) (arguments expression function)
      (arguments expressionTwin function) Anywhere ending.LosesArguments := by
  have steps := follows_itemStep tracks function
  rw [arguments_eq, arguments_eq]
  refine Follows.bind (fun _ => Within count) Anywhere
    (follows_argument tracks function 0)
    (fun first => Follows.loop_anywhere steps ?_ ?_ widens_losesArguments [first])
    (fun fits suffix _ => Nat.lt_of_le_of_lt suffix.length_le fits) (fun _ _ _ _ => trivial) ?_
    widens_losesArguments
  · rintro common next read bound middle after ⟨_, ⟨rfl⟩, isLost | lastRunsOver⟩ run
    · exact Or.inl (Tracks.lost_of_run (.repeatUpTo (fun value => (steps value).tame) _ _) isLost run)
    · obtain ⟨_, _, -, _, -, -, -, past⟩ := id lastRunsOver
      rw [runOn_repeatUpTo_of_none (runOn_itemStep_of_past past _ _)] at run
      cases run
      exact Or.inr lastRunsOver
  · rintro common middle read ⟨_, ⟨⟩, _⟩
  · rintro common value middle after read (isLost | runsOver) run
    · exact Or.inl (Tracks.lost_of_run (.loop (fun value => (steps value).tame) _) isLost run)
    · obtain ⟨_, -, -, -, past⟩ := id runsOver
      rw [runOn_loop_of_none (runOn_itemStep_of_past past _ _)] at run
      cases run
      exact Or.inr ⟨[], value, rfl, runsOver⟩

end Arguments

end Parser

end EventScript
