import EventScript.Proofs.Code.Chains
import EventScript.Proofs.Rendering.ClosedCode

/-!
# Expressions that are written as one operand

Names, numbers, lists, groups and calls of declared functions are written as one
operand of a member access, and so are indices and members of them.
-/

namespace EventScript

namespace Expr

/-- Whether the name in front of a member begins with a letter. -/
def leadsWithLetter : Expr → Bool
  | name spelling => startsWithLetter spelling.toList
  | call function _ => startsWithLetter function.toList
  | index target _ => target.leadsWithLetter
  | _ => false

/-- Whether an expression other than a chain of members is written as one
operand.  Texts with property codes, flags of events inside a condition and calls
of built-in functions may be written as several. -/
def isCompact (inRegion : Bool) : Expr → Bool
  | number _ => true
  | text value => !value.toList.contains '#'
  | name spelling => !(inRegion && (Action.find? spelling).isSome)
  | list _ => true
  | grouped _ => true
  | binary .pow _ _ => true
  | binary .mod _ _ => true
  | conditional _ _ _ => true
  | call function _ => (Builtin.find? function).isNone
  | index target _ => target.isCompact inRegion
  | _ => false

/-- Whether an expression is written as one operand. -/
def isTight (inRegion : Bool) : Expr → Bool
  | dotted (head :: members) => head.isCompact inRegion && members.all leadsWithLetter
  | other => other.isCompact inRegion

end Expr

/-! ## Names -/

/-- Whether a replacement is one operand, and if it is a member of the script
object, one that may stand behind a point. -/
def Alias.isOperand (ofSelf : Bool) (text : String) : Bool :=
  ChainState.start.accepts text &&
    (!ofSelf || ChainState.point.accepts text && startsWithLetter text.toList)

theorem Alias.isOperand_of_find? {name : String} {entry : Alias} (options : Options)
    (found : Alias.find? name = some entry) :
    isOperand entry.ofSelf (options.substitute entry.replacement).1 = true := by
  rcases substitute_cases options found with ⟨known, unmarked, same⟩ | isFilled
  · have checked : ∀ entry ∈ table, '#' ∈ entry.replacement.toList ∨
        isOperand entry.ofSelf entry.replacement = true := by decide +kernel
    rw [same]
    exact (checked entry known).resolve_left unmarked
  · have checked : ∀ filled ∈ filledIn, isOperand filled.1 filled.2 = true := by decide +kernel
    have operand := checked _ isFilled
    dsimp only at operand
    exact operand

section Names

variable {site : Site} {name : String}

/-- What stands for a name is one operand, and if it is a member of the script
object it may stand behind a point. -/
theorem Site.chainText_substitute {entry : Alias} (found : Alias.find? name = some entry) :
    ChainText .start (site.substitute entry.replacement).value ∧
      (entry.ofSelf = true → ChainText .point (site.substitute entry.replacement).value ∧
        startsWithLetter (site.substitute entry.replacement).value.toList = true) := by
  have closed := site.closed_substitute found
  have operand := Alias.isOperand_of_find? site.options found
  rw [← site.value_substitute, Alias.isOperand, Bool.and_eq_true] at operand
  refine ⟨chainText_of_closed closed operand.1, fun ofSelf => ?_⟩
  have member := operand.2
  rw [ofSelf, Bool.not_true, Bool.false_or, Bool.and_eq_true] at member
  exact ⟨chainText_of_closed closed member.1, member.2⟩

theorem chainText_self {text : String} (isMember : ChainText .point text)
    (letter : startsWithLetter text.toList = true) : ChainText .start ("this." ++ text) := by
  have pointed : "this." = "this" ++ "." := by decide
  have self : ChainText .start "this" := chainText_name (by decide) (.inl rfl)
  rw [pointed]
  exact self.append_member isMember letter

theorem Site.chainText_nameCode {context : ExprContext} (named : IsName name)
    (noFlag : (context.inRegion && (Action.find? name).isSome) = false) :
    ChainText .start (site.nameCode context name).value := by
  have asItStands : ChainText .start name := chainText_name named (.inl rfl)
  rw [nameCode]
  split
  · next action isFlag =>
    split at isFlag
    · next inRegion =>
      rw [inRegion, isFlag] at noFlag
      cases noFlag
    · cases isFlag
  · split
    · next entry found =>
      obtain ⟨chain, member⟩ := site.chainText_substitute found
      split
      · exact asItStands
      · simp only [Emission.value_bind, Emission.value_pure]
        split
        · next isSelf =>
          rw [Bool.and_eq_true] at isSelf
          obtain ⟨isMember, letter⟩ := member isSelf.1
          exact chainText_self isMember letter
        · exact chain
    · simp only [Emission.value_pure]
      split
      · exact asItStands
      · exact chainText_memberOf (by decide : IsName "this") (by decide) named

theorem Site.chainText_memberCode (named : IsName name)
    (letter : startsWithLetter name.toList = true) :
    ChainText .point (site.memberCode name).value ∧
      startsWithLetter (site.memberCode name).value.toList = true := by
  have asItStands : ChainText .point name := chainText_name named (.inr rfl)
  rw [memberCode]
  split
  · next entry found =>
    split
    · next isSelf => exact (site.chainText_substitute found).2 isSelf
    · exact ⟨asItStands, letter⟩
  · exact ⟨asItStands, letter⟩

theorem Site.chainText_calleeCode (named : IsName name) :
    ChainText .start (site.calleeCode name).value := by
  rw [calleeCode]
  split
  · next entry found =>
    obtain ⟨chain, member⟩ := site.chainText_substitute found
    simp only [Emission.value_bind, Emission.value_pure]
    split
    · next isSelf =>
      obtain ⟨isMember, letter⟩ := member isSelf
      exact chainText_self isMember letter
    · exact chain
  · simp only [Emission.value_pure]
    split
    · exact chainText_memberOf (by decide : IsName "player") (by decide) named
    · exact chainText_memberOf (by decide : IsName "this") (by decide) named

end Names

/-! ## Expressions -/

theorem startsWithLetter_append_of_leads {first : List Char} (letter : startsWithLetter first = true)
    (second : List Char) : startsWithLetter (first ++ second) = true := by
  cases first with
  | nil => cases letter
  | cons character rest => exact letter

namespace Spot

variable {site : Site}
variable {spot : Spot} {state : ChainState} {callee : String}

theorem closed_layoutText_joinedBy {items : List Expr}
    (closed : ∀ part ∈ spot.arguments items, Closed (part.code site).value) :
    Closed (layoutText site (joinedBy ", " (spot.pieces items))) :=
  run_layoutText
    (fun part inside => closed part (mem_of_mem_map_piece (exists_mem_of_mem_joinedBy inside)))
    (ClosedPieces.joinedBy (by decide) fun _ => closedPieces_of_mem_pieces)

/-- What is written as a call continues a chain that its function continues. -/
theorem chainText_called {opening : String} {inner : List Chunk} (chain : ChainText state callee)
    (spelled : opening = callee ++ "(") (closed : Closed (layoutText site inner)) :
    ChainText state (layoutText site (.fixed opening :: (inner ++ [.fixed ")"]))) := by
  have called := chain.append_enclose .round closed
  rw [spelled]
  simpa [Bracket.enclose, Bracket.opening, Bracket.closing, Chunk.code, String.append_assoc]
    using called

theorem chainText_callPieces {items : List Expr} (chain : ChainText state callee)
    (closed : ∀ part ∈ spot.arguments items, Closed (part.code site).value) :
    ChainText state (layoutText site (spot.callPieces callee items)) :=
  chainText_called chain rfl (closed_layoutText_joinedBy closed)

/-- The layout of a call is one operand if its function is. -/
theorem chainText_of_layout {opening : String} {inner : List Chunk}
    (chain : ChainText .start callee) (spelled : opening = callee ++ "(")
    (closed : ∀ part ∈ spot.operands, Closed (part.code site).value)
    (laid : spot.layout site = .fixed opening :: (inner ++ [.fixed ")"]))
    (closedInner : ClosedPieces inner) : ChainText .start (layoutText site (spot.layout site)) := by
  have isOperand {part : Spot} (inside : .part part ∈ inner) : part ∈ spot.operands := by
    have inLayout : .part part ∈ spot.layout site := by
      rw [laid]
      exact .tail _ (List.mem_append_left _ inside)
    exact mem_operands_of_mem_layout inLayout
  rw [laid]
  exact chainText_called chain spelled
    (run_layoutText (fun part inside => closed part (isOperand inside)) closedInner)

theorem chainText_brackets {base : String} (chain : ChainText state base)
    {indices : List (List Chunk)} (closed : ∀ index ∈ indices, Closed (layoutText site index)) :
    ChainText state (base ++ layoutText site
      (indices.flatMap fun index => .fixed "[" :: (index ++ [.fixed "]"]))) := by
  induction indices generalizing base with
  | nil => simpa using chain
  | cons index others ih =>
    rw [List.forall_mem_cons] at closed
    have indexed := ih (chain.append_enclose .square closed.1) closed.2
    simpa [Bracket.enclose, Bracket.opening, Bracket.closing, Chunk.code, String.append_assoc]
      using indexed

theorem chainText_indexPieces {base : String} (chain : ChainText state base) (asBoard : Bool)
    {indices : List (List Chunk)} (closed : ∀ index ∈ indices, Closed (layoutText site index)) :
    ChainText state (base ++ layoutText site (indexPieces asBoard indices)) := by
  fun_cases indexPieces asBoard indices with
  | case1 column row =>
    have closes : (CodeState.code 1).run
        (")*" ++ toString boardWidth ++ "+(" ++ layoutText site column ++ ")").toList =
        some (.code 0) := by
      have opened : (CodeState.code 1).run (")*" ++ toString boardWidth ++ "+(").toList =
          some (.code 1) := by decide
      rw [String.toList_append, String.toList_append, CodeState.run_append,
        CodeState.run_append, opened, Option.bind_some, (closed column (.head _)).run]
      rfl
    have opens : (CodeState.code 0).run "(".toList = some (.code 1) := by decide
    have inside := (closed row (.tail _ (.head _))).between 1 opens closes
    have indexed := chain.append_enclose .square inside
    have same : base ++ layoutText site (.fixed "[(" :: (row ++
        .fixed (")*" ++ toString boardWidth ++ "+(") :: (column ++ [.fixed ")]"]))) =
        base ++ Bracket.square.enclose ("(" ++ layoutText site row ++
          (")*" ++ toString boardWidth ++ "+(" ++ layoutText site column ++ ")")) := by
      rw [← String.toList_inj]
      simp [Bracket.enclose, Bracket.opening, Bracket.closing, Chunk.code]
    rwa [same]
  | case2 => exact chainText_brackets chain closed

/-- The code for an expression that is not a chain is one operand, if the
expression is written as one. -/
theorem Readable.chainText_of_isCompact (readable : spot.Readable) (known : site.place.Known)
    (free : spot.position = .free) (compact : spot.expr.isCompact spot.context.inRegion = true) :
    ChainText .start (spot.code site).value := by
  induction spot using operandInduction with
  | step spot ih =>
    have closed : ∀ part ∈ spot.operands, Closed (part.code site).value := fun part member =>
      (readable.of_mem_parts (List.mem_append_left _ member)).closed_code known
    obtain ⟨context, position, expr⟩ := spot
    dsimp only at free compact
    subst free
    rw [← layoutText_layout]
    cases readable.sound.shaped with
    | @number spelling numeral =>
      have single : layoutText site (layout site ⟨context, .free, .number spelling⟩) =
          numberCode spelling := by simp [layout, Chunk.code]
      rw [single]
      exact chainText_number (Expr.isNumeral_numberCode numeral)
    | text value =>
      have noMark : '#' ∉ value.toList := by simpa [Expr.isCompact] using compact
      have single : layoutText site (layout site ⟨context, .free, .text value⟩) =
          Text.quote value := by
        simp [layout, Chunk.code, expand_of_no_mark site noMark]
      rw [single]
      exact chainText_quote value
    | @name spelling isName =>
      have single : layoutText site (layout site ⟨context, .free, .name spelling⟩) =
          (site.nameCode context spelling).value := by simp [layout, Chunk.code]
      rw [single]
      rw [Expr.isCompact, Bool.not_eq_true'] at compact
      exact site.chainText_nameCode isName compact
    | @list items inside =>
      have enclosed : layoutText site (layout site ⟨context, .free, .list items⟩) =
          Bracket.square.enclose (layoutText site
            (joinedBy ", " (pieces ⟨context, .free, .list items⟩ items))) := by
        simp [layout, Chunk.code, Bracket.enclose, Bracket.opening, Bracket.closing,
          String.append_assoc]
      rw [enclosed]
      exact Bracket.square.chainText_enclose (closed_layoutText_joinedBy closed)
    | @grouped inner inside =>
      have enclosed : layoutText site (layout site ⟨context, .free, .grouped inner⟩) =
          Bracket.round.enclose (code site ⟨context, .free, inner⟩).value := by
        simp [layout, Chunk.code, Bracket.enclose, Bracket.opening, Bracket.closing,
          String.append_assoc]
      rw [enclosed]
      exact Bracket.round.chainText_enclose (closed _ (.head _))
    | prefixed | postfixed => cases compact
    | @assignment op target value loose =>
      cases op with
      | pow | mod => cases loose
      | _ => cases compact
    | @operation op left right =>
      cases op with
      | pow =>
        have laid : layout site ⟨context, .free, .binary .pow left right⟩ =
            .fixed "pow(" :: ([.part ⟨context.arguments, .free, left⟩, .fixed ", ",
              .part ⟨context.arguments, .free, right⟩] ++ [.fixed ")"]) := rfl
        exact chainText_of_layout (chainText_name (by decide : IsName "pow") (.inl rfl))
          (by decide) closed laid rfl
      | mod =>
        have laid : layout site ⟨context, .free, .binary .mod left right⟩ =
            .fixed "mod(" :: ([.part ⟨context.arguments, .free, left⟩, .fixed ", ",
              .part ⟨context.arguments, .free, right⟩] ++ [.fixed ")"]) := rfl
        exact chainText_of_layout (chainText_name (by decide : IsName "mod") (.inl rfl))
          (by decide) closed laid rfl
      | _ => cases compact
    | within => cases compact
    | @conditional condition whenTrue whenFalse =>
      have keyword : ChainText .start "if" := chainText_of_closed (by decide) (by decide)
      have laid : layout site ⟨context, .free, .conditional condition whenTrue whenFalse⟩ =
          .fixed "if(" :: (joinedBy ", " ([.part ⟨context.tested, .free, condition⟩] ::
            pieces ⟨context, .free, .conditional condition whenTrue whenFalse⟩
              [whenTrue, whenFalse]) ++ [.fixed ")"]) := rfl
      exact chainText_of_layout keyword (by decide) closed laid rfl
    | @call function items isName inside quoted =>
      have notBuiltin : Builtin.find? function = none := by
        simpa [Expr.isCompact] using compact
      have called : layout site ⟨context, .free, .call function items⟩ =
          callPieces ⟨context, .free, .call function items⟩ (site.calleeCode function).value
            items := by simp [layout, notBuiltin]
      rw [called]
      refine chainText_callPieces (site.chainText_calleeCode isName) ?_
      simpa [operands, writtenArguments, notBuiltin] using closed
    | @index target indices shapedTarget tight noChain inside =>
      rw [operands, List.forall_mem_cons] at closed
      have chain := ih ⟨context, .free, target⟩ (.head _)
        (readable.of_mem_parts (List.mem_append_left _ (.head _))) rfl compact
      refine chainText_indexPieces chain _ fun index among => ?_
      obtain ⟨part, isPart, rfl⟩ := List.mem_map.mp among
      simpa [piece, Chunk.code] using closed.2 part isPart
    | dotted => cases compact

/-- The code for a member goes on with a chain behind its point. -/
theorem Readable.chainText_of_leadsWithLetter (readable : spot.Readable) (known : site.place.Known)
    (behindPoint : spot.position = .member) (leads : spot.expr.leadsWithLetter = true) :
    ChainText .point (spot.code site).value ∧
      startsWithLetter (spot.code site).value.toList = true := by
  induction spot using operandInduction with
  | step spot ih =>
    have closed : ∀ part ∈ spot.operands, Closed (part.code site).value := fun part member =>
      (readable.of_mem_parts (List.mem_append_left _ member)).closed_code known
    obtain ⟨context, position, expr⟩ := spot
    dsimp only at behindPoint leads
    subst behindPoint
    rw [← layoutText_layout]
    cases readable.sound.shaped with
    | @name spelling isName =>
      have single : layoutText site (layout site ⟨context, .member, .name spelling⟩) =
          (site.memberCode spelling).value := by simp [layout, Chunk.code]
      rw [single]
      exact site.chainText_memberCode isName leads
    | @call function items isName inside quoted =>
      refine ⟨chainText_callPieces (chainText_name isName (.inr rfl)) closed, ?_⟩
      rw [layout, layoutText_callPieces, String.append_assoc, String.append_assoc,
        String.toList_append]
      exact startsWithLetter_append_of_leads leads _
    | @index target indices shapedTarget tight noChain inside =>
      rw [operands, List.forall_mem_cons] at closed
      obtain ⟨chain, letter⟩ := ih ⟨context, .member, target⟩ (.head _)
        (readable.of_mem_parts (List.mem_append_left _ (.head _))) rfl leads
      refine ⟨chainText_indexPieces chain _ fun index among => ?_, ?_⟩
      · obtain ⟨part, isPart, rfl⟩ := List.mem_map.mp among
        simpa [piece, Chunk.code] using closed.2 part isPart
      · rw [layout, layoutText_cons, String.toList_append]
        exact startsWithLetter_append_of_leads letter _
    | _ => cases leads

theorem chainText_members {head : String} (chain : ChainText .start head) {members : List String}
    (areMembers : ∀ member ∈ members,
      ChainText .point member ∧ startsWithLetter member.toList = true) :
    ChainText .start (".".intercalate (head :: members)) := by
  induction members generalizing head with
  | nil => rwa [String.intercalate_singleton]
  | cons member rest ih =>
    rw [List.forall_mem_cons] at areMembers
    have longer := ih
      (chain.append_member areMembers.1.1 areMembers.1.2) areMembers.2
    cases rest with
    | nil => simpa using longer
    | cons second others => simpa [String.append_assoc] using longer

/-- The code for an expression that is written as one operand. -/
theorem Readable.chainText_of_isTight (readable : spot.Readable) (known : site.place.Known)
    (free : spot.position = .free) (tight : spot.expr.isTight spot.context.inRegion = true) :
    ChainText .start (spot.code site).value := by
  obtain ⟨context, position, expr⟩ := spot
  dsimp only at free tight
  subst free
  cases expr with
  | dotted segments =>
    cases segments with
    | nil => cases tight
    | cons head members =>
      rw [Expr.isTight, Bool.and_eq_true, List.all_eq_true] at tight
      have ofPart {part : Spot}
          (isPart : part ∈ operands ⟨context, .free, .dotted (head :: members)⟩) :
          part.Readable := readable.of_mem_parts (List.mem_append_left _ isPart)
      have chain := (ofPart (.head _)).chainText_of_isCompact known rfl tight.1
      have joined : (code site ⟨context, .free, .dotted (head :: members)⟩).value =
          ".".intercalate ((code site ⟨context, .free, head⟩).value ::
            members.map fun member =>
              (code site ⟨context.suppressed, .member, member⟩).value) := by
        simp [code, codeWith, renderWith, renderAllWith_eq_map, Function.comp_def]
      rw [joined]
      refine chainText_members chain fun member among => ?_
      obtain ⟨segment, isSegment, rfl⟩ := List.mem_map.mp among
      exact (ofPart (.tail _ (List.mem_map_of_mem isSegment))).chainText_of_leadsWithLetter
        known rfl (tight.2 segment isSegment)
  | _ => exact readable.chainText_of_isCompact known rfl tight

end Spot

end EventScript
