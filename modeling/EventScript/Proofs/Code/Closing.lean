import EventScript.Proofs.Code.Operands

/-!
# Closed code

A text is closed code if brackets and quotes are balanced in it and it begins no
comment.  Unlike the tokens of a text this can be told of parts of it: a machine
passes over the characters, and closed parts leave its state as it was.  What
the machine passes over reads as tokens that nest alike.
-/

namespace EventScript

variable {character : Char} {text : List Char} {depth : Nat}

/-- Where a character of code stands, with the number of open brackets. -/
inductive CodeState where
  | code (depth : Nat)
  /-- Behind a slash, which must not begin a comment. -/
  | slash (depth : Nat)
  /-- Inside a quoted text. -/
  | quoted (depth : Nat)
  /-- Behind the backslash of an escape. -/
  | escaped (depth : Nat)
  deriving DecidableEq

namespace CodeState

variable {left : List Char} {behind : Nat}

/-- Pass over a character outside of quotes. -/
def outside (depth : Nat) (character : Char) : Option CodeState :=
  if character = '(' || character = '[' || character = '{' then some (code (depth + 1))
  else if character = ')' || character = ']' || character = '}' then
    if depth = 0 then none else some (code (depth - 1))
  else if character = '"' then some (quoted depth)
  else if character = '/' then some (slash depth)
  else some (code depth)

/-- Pass over a character. -/
def step : CodeState → Char → Option CodeState
  | code depth, character => outside depth character
  | slash depth, character =>
    if character = '/' || character = '*' then none else outside depth character
  | quoted depth, character =>
    some (if character = '"' then code depth
      else if character = '\\' then escaped depth else quoted depth)
  | escaped depth, _ => some (quoted depth)

/-- Pass over several characters. -/
def run : CodeState → List Char → Option CodeState
  | state, [] => some state
  | state, character :: rest => (state.step character).bind fun next => next.run rest

@[simp]
theorem run_nil (state : CodeState) : state.run [] = some state :=
  rfl

theorem run_append (state : CodeState) (first second : List Char) :
    state.run (first ++ second) = (state.run first).bind fun next => next.run second := by
  induction first generalizing state with
  | nil => rfl
  | cons character rest ih =>
    rw [List.cons_append, run, run, Option.bind_assoc]
    exact Option.bind_congr fun next _ => ih next

/-- Characters that change nothing outside of quotes. -/
def isPlain (character : Char) : Bool :=
  !(['(', '[', '{', ')', ']', '}', '"', '/'].contains character)

theorem outside_of_isPlain (plain : isPlain character = true) (depth : Nat) :
    outside depth character = some (code depth) := by
  simp only [isPlain, List.contains_eq_mem, List.mem_cons, List.not_mem_nil, or_false,
    Bool.not_eq_true', decide_eq_false_iff_not, not_or] at plain
  simp [outside, plain]

theorem run_of_isPlain (plain : ∀ character ∈ text, isPlain character = true) (depth : Nat) :
    (code depth).run text = some (code depth) := by
  induction text with
  | nil => rfl
  | cons character rest ih =>
    rw [List.forall_mem_cons] at plain
    rw [run, step, outside_of_isPlain plain.1, Option.bind_some, ih plain.2]

theorem isPlain_of_isNameChar (named : isNameChar character = true) : isPlain character = true := by
  rw [isPlain, contains_eq_false (by decide) named]
  rfl

theorem isPlain_of_isBlank (isBlank : Text.isBlank character = true) :
    isPlain character = true := by
  rw [isPlain, contains_eq_false (by decide) isBlank]
  rfl

/-- Behind a quoted text the state is that in front of it. -/
theorem run_quoted {value : List Char} (read : readQuoted text = some (value, left)) (depth : Nat) :
    (quoted depth).run text = (code depth).run left := by
  fun_induction readQuoted text generalizing value with
  | case1 => cases read
  | case2 others =>
    cases read
    rfl
  | case3 character others ih =>
    obtain ⟨inner, readInner, rfl⟩ := exists_of_map_fst read
    exact ih readInner
  | case4 character others notQuote notEscape ih =>
    obtain ⟨inner, readInner, rfl⟩ := exists_of_map_fst read
    have notBackslash : character ≠ '\\' := by
      rintro rfl
      cases others with
      | nil => cases readInner
      | cons next others => exact notEscape next others rfl rfl
    rw [run, step, if_neg notQuote, if_neg notBackslash, Option.bind_some,
      ih readInner]

/-- Where quotes are left, the quoted text is closed. -/
theorem exists_readQuoted_of_run (passed : (quoted depth).run text = some (code behind)) :
    ∃ value left, readQuoted text = some (value, left) := by
  have ofRest {rest : List Char} {extend : List Char × List Char → List Char × List Char}
      (read : ∃ value left, readQuoted rest = some (value, left)) :
      ∃ value left, (readQuoted rest).map extend = some (value, left) := by
    obtain ⟨value, left, same⟩ := read
    exact ⟨(extend (value, left)).1, (extend (value, left)).2, by rw [same]; rfl⟩
  fun_induction readQuoted text with
  | case1 => cases passed
  | case2 others => exact ⟨_, _, rfl⟩
  | case3 character others ih => exact ofRest (ih passed)
  | case4 character others notQuote notEscape ih =>
    by_cases isBackslash : character = '\\'
    · subst isBackslash
      cases others with
      | nil => cases passed
      | cons next others => exact absurd rfl (notEscape next others rfl)
    · rw [run, step, if_neg notQuote, if_neg isBackslash] at passed
      exact ofRest (ih passed)

/-! ## Tokens of closed code -/

/-- Over a token the machine counts brackets as the token nests. -/
theorem run_token {word : List Char} {token : CodeToken} (begun : CodeToken.Begins word token left)
    (notSlash : word ≠ ['/']) (depth : Nat) :
    (code depth).run (word ++ left) =
      (nestStep anywhere depth token).bind fun inner => (code inner).run left := by
  have ofPlain (plain : ∀ character ∈ word, isPlain character = true)
      (notOpen : token.opens = false) (notClosing : token.closes = false) :
      (code depth).run (word ++ left) =
        (nestStep anywhere depth token).bind fun inner => (code inner).run left := by
    rw [run_append, run_of_isPlain plain, nestStep_of_plain notOpen notClosing fun _ => rfl]
    rfl
  cases begun.kind with
  | differs spelled =>
    subst spelled
    exact ofPlain (List.all_eq_true.mp rfl) rfl rfl
  | @other character spelled foreign =>
    subst spelled
    refine ofPlain (List.forall_mem_singleton.mpr ?_) rfl rfl
    rw [isPlain, contains_eq_false (by decide) foreign]
    rfl
  | shared inScripts =>
    cases inScripts.spelled with
    | number numeral =>
      refine ofPlain (fun character inside => ?_) rfl rfl
      rcases isDigit_or_point_of_spanNumber numeral.2 character inside with digit | rfl
      · exact isPlain_of_isNameChar ((isNameChar_iff character).mpr (.inr digit))
      · rfl
    | word spelled =>
      have isWord : ∃ token, Token.ofWord (String.ofList word) = token ∧
          (CodeToken.shared token).opens = false ∧ (CodeToken.shared token).closes = false := by
        unfold Token.ofWord
        split <;> exact ⟨_, rfl, rfl, rfl⟩
      obtain ⟨token, same, notOpen, notClosing⟩ := isWord
      rw [same] at ofPlain ⊢
      exact ofPlain (fun character inside =>
        isPlain_of_isNameChar (isNameChar_of_mem_word spelled inside)) notOpen notClosing
    | quoted closed =>
      rw [nestStep_of_plain rfl rfl fun _ => rfl, List.append_assoc]
      exact run_quoted (closed left) depth
    | single single =>
      unfold Symbol.ofChar? at single
      split at single
      all_goals first
        | exact absurd rfl notSlash
        | cases single
      all_goals first
        | exact ofPlain (List.all_eq_true.mp rfl) rfl rfl
        | (cases depth <;> rfl)
    | pair pair =>
      unfold Symbol.ofPair? at pair
      split at pair
      all_goals cases pair
      all_goals first
        | exact ofPlain (List.all_eq_true.mp rfl) rfl rfl
        | (rw [nestStep_of_plain rfl rfl fun _ => rfl]; rfl)

theorem eq_slash_of_begins {token : CodeToken} (begun : CodeToken.Begins ['/'] token left) :
    token = .shared (.symbol .slash) := by
  generalize spelling : ['/'] = word at begun
  cases begun.kind with
  | differs spelled =>
    subst spelled
    cases spelling
  | other spelled foreign =>
    subst spelled
    cases spelling
    cases foreign
  | shared inScripts =>
    cases inScripts.spelled with
    | number numeral =>
      subst spelling
      cases numeral.1
    | word spelled =>
      subst spelling
      cases spelled
    | quoted => cases spelling
    | single single =>
      cases spelling
      cases single
      rfl
    | pair => cases spelling

/-- A slash that begins no comment changes nothing. -/
theorem run_of_run_slash (passed : (slash depth).run text = some (code behind)) :
    (code depth).run text = some (code behind) ∧
      ∀ character ∈ text.head?, character ≠ '/' ∧ character ≠ '*' := by
  cases text with
  | nil => cases passed
  | cons character rest =>
    rw [run, step] at passed
    split at passed
    · cases passed
    · next noComment =>
      refine ⟨passed, ?_⟩
      rintro _ ⟨rfl⟩
      simpa using noComment

/-- What begins with neither a blank nor a comment, nor with a quoted text that
is never closed, begins with a token. -/
theorem exists_begins {rest : List Char}
    (visible : skipGap .blanks (character :: rest) = .ok (character :: rest))
    (closed : character = '"' → ∃ value left, readQuoted rest = some (value, left)) :
    ∃ word token left, character :: rest = word ++ left ∧ CodeToken.Begins word token left := by
  by_cases strict : ∃ behind, character :: rest = '!' :: '=' :: '=' :: behind
  · obtain ⟨behind, same⟩ := strict
    exact ⟨['!', '=', '='], .differs, behind, same, CodeToken.begins_differs behind⟩
  · rw [not_exists] at strict
    cases read : readToken (character :: rest) with
    | mk outcome left =>
      cases outcome with
      | ok token =>
        obtain ⟨word, split, spelled⟩ := exists_spelled read
        refine ⟨word, .shared token, left, split, spelled.ne_nil, split ▸ visible, ?_⟩
        rw [← split]
        exact CodeToken.readCodeToken_of_readToken read strict
      | error fault =>
        have isUnexpected : ∃ found, fault = .unexpectedCharacter found := by
          rw [readToken] at read
          split at read
          · cases read
          · split at read
            · cases read
            · split at read
              · next isQuote =>
                obtain ⟨value, behind, readInner⟩ := closed (beq_iff_eq.mp isQuote)
                rw [readInner] at read
                cases read
              · split at read
                · cases read
                · cases read
                  exact ⟨_, rfl⟩
        obtain ⟨found, rfl⟩ := isUnexpected
        obtain ⟨same, foreign⟩ := CodeToken.isForeign_of_readToken visible read
        exact ⟨[found], .other found, left, same, CodeToken.begins_other foreign left⟩

/-- Code that the machine passes over reads as tokens, which nest as the machine
counts. -/
theorem exists_readsAs (passed : (code depth).run text = some (code behind)) :
    ∃ tokens, ReadsAs text tokens ∧ nest anywhere depth tokens = some behind := by
  induction isLength : text.length using Nat.strongRecOn generalizing text depth with
  | ind length ih =>
    subst isLength
    cases text with
    | nil =>
      cases passed
      exact ⟨[], .nil, rfl⟩
    | cons character rest =>
      by_cases isBlank : Text.isBlank character = true
      · rw [run, step, outside_of_isPlain (isPlain_of_isBlank isBlank)] at passed
        obtain ⟨tokens, reads, nested⟩ := ih _ (by simp) passed rfl
        exact ⟨tokens, reads.gap (isGap_singleton isBlank), nested⟩
      have noComment : ¬StartsComment (character :: rest) := by
        rw [startsComment_cons_iff]
        rintro ⟨rfl, second, isSecond, isMark⟩
        have notMark := (run_of_run_slash passed).2 second isSecond
        rcases isMark with isSlash | isStar
        · exact notMark.1 isSlash
        · exact notMark.2 isStar
      have visible := skipGap_cons_self (Bool.eq_false_iff.mpr isBlank) noComment
      obtain ⟨word, token, left, split, begun⟩ := exists_begins visible fun isQuote => by
        subst isQuote
        exact exists_readQuoted_of_run passed
      have shorter : left.length < (character :: rest).length := by
        have nonempty := List.length_pos_iff.mpr begun.nonempty
        rw [split, List.length_append]
        omega
      rw [split] at passed ⊢
      by_cases isSlash : word = ['/']
      · subst isSlash
        obtain ⟨tokens, reads, nested⟩ :=
          ih _ shorter (run_of_run_slash passed).1 rfl
        refine ⟨token :: tokens, begun.readsAs reads, nest_cons_eq_some.mpr ⟨depth, ?_, nested⟩⟩
        rw [eq_slash_of_begins begun]
        exact nestStep_of_plain rfl rfl fun _ => rfl
      · rw [run_token begun isSlash, Option.bind_eq_some_iff] at passed
        obtain ⟨inner, stepped, passedLeft⟩ := passed
        obtain ⟨tokens, reads, nested⟩ := ih _ shorter passedLeft rfl
        exact ⟨token :: tokens, begun.readsAs reads, nest_cons_eq_some.mpr ⟨inner, stepped, nested⟩⟩

end CodeState

/-! ## Closed texts -/

/-- Code whose brackets and quotes are closed, and that begins no comment. -/
def Closed (text : String) : Prop :=
  (CodeState.code 0).run text.toList = some (.code 0)

instance (text : String) : Decidable (Closed text) :=
  inferInstanceAs (Decidable (_ = _))

namespace CodeState

/-- The same place with more brackets open. -/
def under (more : Nat) : CodeState → CodeState
  | code depth => code (depth + more)
  | slash depth => slash (depth + more)
  | quoted depth => quoted (depth + more)
  | escaped depth => escaped (depth + more)

theorem outside_under {next : CodeState} (more : Nat)
    (stepped : outside depth character = some next) :
    outside (depth + more) character = some (next.under more) := by
  unfold outside at stepped ⊢
  split at stepped
  · next isOpen =>
    cases stepped
    rw [if_pos isOpen, under, Nat.add_right_comm]
  · next notOpen =>
    rw [if_neg notOpen]
    split at stepped
    · next isClosing =>
      split at stepped
      · cases stepped
      · next positive =>
        cases stepped
        rw [if_pos isClosing, if_neg (by omega), under, Nat.sub_add_comm (by omega)]
    · next notClosing =>
      rw [if_neg notClosing]
      split at stepped
      · next isQuote =>
        cases stepped
        rw [if_pos isQuote]
        rfl
      · next notQuote =>
        rw [if_neg notQuote]
        split at stepped
        · next isSlash =>
          cases stepped
          rw [if_pos isSlash]
          rfl
        · next notSlash =>
          cases stepped
          rw [if_neg notSlash]
          rfl

theorem step_under {state next : CodeState} (more : Nat)
    (stepped : state.step character = some next) :
    (state.under more).step character = some (next.under more) := by
  cases state with
  | code depth => exact outside_under more stepped
  | slash depth =>
    rw [step] at stepped
    split at stepped
    · cases stepped
    · next noComment =>
      rw [under, step, if_neg noComment]
      exact outside_under more stepped
  | quoted depth =>
    cases stepped
    rw [under, step]
    split
    · rfl
    · split <;> rfl
  | escaped depth =>
    cases stepped
    rfl

/-- Further in, the machine passes over the same characters. -/
theorem run_under {state last : CodeState} (more : Nat) (passed : state.run text = some last) :
    (state.under more).run text = some (last.under more) := by
  induction text generalizing state with
  | nil =>
    cases passed
    rfl
  | cons character rest ih =>
    obtain ⟨next, stepped, passedRest⟩ := Option.bind_eq_some_iff.mp passed
    exact Option.bind_eq_some_iff.mpr
      ⟨next.under more, step_under more stepped, ih passedRest⟩

end CodeState

/-- Closed code may stand anywhere outside of quotes. -/
theorem Closed.run {text : String} (closed : Closed text) (depth : Nat) :
    (CodeState.code depth).run text.toList = some (.code depth) := by
  have shifted := CodeState.run_under depth closed
  rwa [CodeState.under, Nat.zero_add] at shifted

theorem Closed.append {first second : String} (closedFirst : Closed first)
    (closedSecond : Closed second) : Closed (first ++ second) := by
  rw [Closed, String.toList_append, CodeState.run_append, closedFirst.run, Option.bind_some,
    closedSecond.run]

theorem closed_of_isPlain {text : String}
    (plain : ∀ character ∈ text.toList, CodeState.isPlain character = true) : Closed text :=
  CodeState.run_of_isPlain plain 0

theorem closed_of_isWord {word : String} (spelled : isWord word.toList = true) : Closed word :=
  closed_of_isPlain fun _ inside =>
    CodeState.isPlain_of_isNameChar (isNameChar_of_mem_word spelled inside)

theorem closed_quote (value : String) : Closed (Text.quote value) := by
  rw [Closed, Text.quote, String.toList_ofList, Text.quoteChars]
  have read := readQuoted_flatMap_escape value.toList []
  exact CodeState.run_quoted read 0

end EventScript
