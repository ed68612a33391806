import EventScript.Proofs.Rendering.TightCode

/-!
# Tests for membership in generated code

The test whether a value is in a collection is written as `.find(...) !== null`
behind the code for the collection, without parentheses.  Wherever the test
stands in an expression, generated code reads as it is meant exactly if the
collection is written as one operand and the tokens next to the test do not bind
more tightly.
-/

namespace EventScript

namespace Spot

variable {site : Site}

/-- The value and the collection of a test are parts of it. -/
theorem mem_parts_isIn {context : ExprContext} {position : Position} {value collection : Expr}
    (noRange : ∀ low high, collection ≠ .range low high) :
    ⟨context.arguments, .free, value⟩ ∈
        parts ⟨context, position, .binary .isIn value collection⟩ ∧
      ⟨context.arguments, .free, collection⟩ ∈
        parts ⟨context, position, .binary .isIn value collection⟩ := by
  have single : collection.bounds = [collection] := by
    cases collection with
    | range low high => exact absurd rfl (noRange low high)
    | _ => rfl
  simp [parts, operands, Expr.operandsOf, single, ExprContext.operands]

/-- Wherever the test for a collection stands, generated code calls `find` of the
whole collection and compares exactly the result, if and only if the collection
is written as one operand and the test is next to nothing that binds more
tightly.  A tight collection is written as one operand. -/
theorem Stands.testsWhole_isIn_iff {context around : ExprContext} {position : Position}
    {expr value collection : Expr} {before after : String} (shaped : expr.Shaped)
    (known : site.place.Known)
    (legible : ∀ reached, Reaches ⟨context, .free, expr⟩ reached → reached.Legible)
    (noRange : ∀ low high, collection ≠ .range low high)
    (stands : Stands site ⟨context, .free, expr⟩ before
      ⟨around, position, .binary .isIn value collection⟩ after) :
    let text := (render site context expr).value
    let found := (render site around.arguments collection).value
    let sought := (render site around.arguments value).value
    text = before ++ (found ++ ".find(" ++ sought ++ ") !== null") ++ after ∧
      ∃ tokensBefore tokensFound tokensSought tokensAfter,
        codeTokens before = some tokensBefore ∧ codeTokens found = some tokensFound ∧
        codeTokens sought = some tokensSought ∧ codeTokens after = some tokensAfter ∧
        (codeTokens text = some (tokensBefore ++ findCall tokensFound tokensSought ++
              .differs :: nullToken :: tokensAfter) ∧
            TestsWhole tokensBefore tokensFound tokensSought tokensAfter ↔
          isChain tokensFound = true ∧
            (∀ token ∈ tokensBefore.getLast?, token.precedesTest = true) ∧
            ∀ token ∈ tokensAfter.head?, token.followsTest = true) ∧
        (collection.isTight around.inRegion = true → isChain tokensFound = true) := by
  intro text found sought
  have readable : Readable ⟨context, .free, expr⟩ := ⟨.free shaped, legible⟩
  obtain ⟨readableTest, depth, passedBefore, passedAfter⟩ :=
    readable.exists_run_of_stands known stands
  obtain ⟨valuePart, collectionPart⟩ := @mem_parts_isIn around position value collection noRange
  have readableFound := readableTest.of_mem_parts collectionPart
  have readableSought := readableTest.of_mem_parts valuePart
  obtain ⟨tokensBefore, readsBefore, nestedBefore⟩ := CodeState.exists_readsAs passedBefore
  obtain ⟨tokensFound, readsFound, -⟩ :=
    CodeState.exists_readsAs (readableFound.closed_code known)
  obtain ⟨tokensSought, readsSought, nestedSought⟩ :=
    CodeState.exists_readsAs (readableSought.closed_code known)
  obtain ⟨tokensAfter, readsAfter, nestedAfter⟩ := CodeState.exists_readsAs passedAfter
  have isText : text = before ++ (found ++ ".find(" ++ sought ++ ") !== null") ++ after := by
    refine stands.value_code.trans ?_
    rw [code, codeWith, renderWith_isIn noRange]
    rfl
  refine ⟨isText, tokensBefore, tokensFound, tokensSought, tokensAfter, readsBefore.codeTokens_eq,
    ReadsAs.codeTokens_eq readsFound, ReadsAs.codeTokens_eq readsSought, readsAfter.codeTokens_eq, ?_, ?_⟩
  · rw [testsWhole_iff nestedBefore (spans_iff.mpr nestedSought) nestedAfter]
    refine and_iff_right_of_imp ?_
    rintro ⟨chain, precedes, follows⟩
    have characters : text.toList = before.toList ++ (found.toList ++ (".find(".toList ++
        (sought.toList ++ (") !== null".toList ++ after.toList)))) := by
      rw [isText]
      simp only [String.toList_append, List.append_assoc]
    refine ReadsAs.codeTokens_eq ?_
    rw [characters]
    exact readsAs_test readsBefore readsFound readsSought readsAfter chain precedes follows
  · intro tight
    obtain ⟨tokens, reads, reached⟩ := readableFound.chainText_of_isTight known rfl tight
    have same := readsFound.codeTokens_eq.symm.trans reads.codeTokens_eq
    rw [Option.some.inj same]
    exact isChain_iff.mpr reached

set_option maxRecDepth 20000 in
/-- A chain is searched in an argument of a call that is negated behind another
test. -/
theorem Stands.testsWhole_isIn_in_call :
    let test := Expr.binary .isIn (.name "v")
      (.dotted [.index (.name "names") [.name "i"], .name "all"])
    let expr := Expr.binary .and
      (.grouped (.binary .isIn (.name "u") (.list [.name "a", .number "2"])))
      (.unary .not (.call "found" [test]))
    let site : Site := ⟨{}, .dispatcher⟩
    let before := "([this.a, 2].find(this.u) !== null) && !this.found("
    let text := before ++ "this.names[this.i].all.find(this.v) !== null)"
    Expr.parse "(u in \x7ba,2\x7d)&&!found(v in names[i].all)" = .ok expr ∧
      Stands site ⟨.condition, .free, expr⟩ before ⟨ExprContext.condition.arguments, .free, test⟩ ")" ∧
      (render site .condition expr).value = text ∧
      ∃ tokensBefore tokensFound tokensSought tokensAfter,
        codeTokens before = some tokensBefore ∧
        codeTokens "this.names[this.i].all" = some tokensFound ∧
        codeTokens "this.v" = some tokensSought ∧ codeTokens ")" = some tokensAfter ∧
        codeTokens text = some (tokensBefore ++ findCall tokensFound tokensSought ++
          .differs :: nullToken :: tokensAfter) ∧
        TestsWhole tokensBefore tokensFound tokensSought tokensAfter := by
  intro test expr site before text
  have parsed : Expr.parse "(u in \x7ba,2\x7d)&&!found(v in names[i].all)" = .ok expr := by
    rfl
  let left : Expr := .grouped (.binary .isIn (.name "u") (.list [.name "a", .number "2"]))
  let call : Expr := .call "found" [test]
  have stands : Stands site ⟨.condition, .free, expr⟩ before
      ⟨ExprContext.condition.arguments, .free, test⟩ ")" := by
    have inCall := @Stands.inside site ⟨.condition, .free, call⟩ _ _ [.fixed "this.found("]
      [.fixed ")"] _ _ (by rfl) (.here ⟨ExprContext.condition.arguments, .free, test⟩)
    have inNegation := @Stands.inside site ⟨.condition, .free, .unary .not call⟩ _ _ [.fixed "!"]
      [] _ _ (by rfl) inCall
    have inConjunction := @Stands.inside site ⟨.condition, .free, expr⟩ _ _
      [.part ⟨.condition, .free, left⟩, .fixed " && "] [] _ _ (by rfl) inNegation
    have isBefore : layoutText site [.part ⟨.condition, .free, left⟩, .fixed " && "] ++
        (layoutText site [.fixed "!"] ++ (layoutText site [.fixed "this.found("] ++ "")) = before := by
      decide
    rwa [isBefore] at inConjunction
  have noText : ∀ value, .text value ∉ expr.subterms := by
    simp [expr, test, Expr.subterms, Expr.subtermsOfAll]
  have found : (render site ExprContext.condition.arguments.arguments
      (.dotted [.index (.name "names") [.name "i"], .name "all"])).value =
      "this.names[this.i].all" := by decide
  have sought : (render site ExprContext.condition.arguments.arguments (.name "v")).value = "this.v" := by
    decide
  obtain ⟨isText, tokensBefore, tokensFound, tokensSought, tokensAfter, readsBefore, readsFound,
      readsSought, readsAfter, whole, ofTight⟩ :=
    stands.testsWhole_isIn_iff (Expr.shaped_of_parse parsed) (by rintro _ ⟨⟩)
      (fun reached => legible_of_no_text noText) (by simp)
  rw [found] at readsFound
  rw [sought] at readsSought
  have isWhole : (render site .condition expr).value = text := by
    decide
  have last : (codeTokens before).bind List.getLast? = some (.shared (.symbol .openParen)) := by
    decide
  have next : (codeTokens ")").bind List.head? = some (.shared (.symbol .closeParen)) := by
    decide
  rw [readsBefore, Option.bind_some] at last
  rw [readsAfter, Option.bind_some] at next
  rw [isWhole, last, next] at whole
  obtain ⟨reads, tests⟩ := whole.mpr ⟨ofTight (by decide), by rintro _ ⟨⟩; rfl, by rintro _ ⟨⟩; rfl⟩
  exact ⟨parsed, stands, isWhole, tokensBefore, tokensFound, tokensSought, tokensAfter, readsBefore,
    readsFound, readsSought, readsAfter, reads, tests⟩

set_option maxRecDepth 20000 in
/-- Of a sum only the last operand is searched, and behind an equals sign the test
compares what the equality gives. -/
theorem isIn_reads_apart :
    let site : Site := ⟨{}, .create⟩
    let sum := Expr.binary .isIn (.name "x") (.binary .add (.name "a") (.name "b"))
    let equality := Expr.binary .equal (.name "w") (.binary .isIn (.name "x") (.name "a"))
    let word (spelling : String) : CodeToken := .shared (.name spelling)
    let point : CodeToken := .shared (.symbol .dot)
    Expr.parse "x in a + b" = .ok sum ∧
      (render site {} sum).value = "this.a + this.b.find(this.gx) !== null" ∧
      (codeTokens "this.a + this.b").bind memberOperand = some [word "this", point, word "b"] ∧
      Expr.parse "w == x in a" = .ok equality ∧
      (render site {} equality).value = "this.w == this.a.find(this.gx) !== null" ∧
      (codeTokens "this.w == this.a.find(this.gx)").bind leftOperand =
        codeTokens "this.w == this.a.find(this.gx)" := by
  exact ⟨by rfl, by decide, by decide, by rfl, by decide,
    by decide⟩

end Spot

end EventScript
