import EventScript.Proofs.Bundle.Recovery

/-!
# Scripts without comment marks

A script that neither opens nor closes a comment leaves the comment around it
alone, but for one place: the mark that closes that comment begins with a star,
so behind a slash at the end of the script it is read as an opening.  Such a
script is lost, and every other one is recovered.
-/

namespace EventScript.Bundle

/-- What opens a comment. -/
def openingMark : String :=
  "/*"

/-- Reading the comment around a text without marks: the text itself, or nothing
if a slash at its end takes the star of the closing mark. -/
theorem readComment_of_no_marks {text : List Char}
    (noOpening : Text.occursIn openingMark.toList text = false)
    (noClosing : Text.occursIn sourceClosing.toList text = false) :
    readComment 0 (text ++ sourceClosing.toList) =
      if text.getLast? = some '/' then none else some text := by
  have closing : readComment 0 sourceClosing.toList = some [] := rfl
  induction text with
  | nil => exact closing
  | cons character rest ih =>
    rw [Text.occursIn, Bool.or_eq_false_iff] at noOpening noClosing
    have later := ih noOpening.2 noClosing.2
    cases rest with
    | nil =>
      by_cases slash : character = '/'
      · subst slash
        rfl
      · change readComment 0 (character :: '*' :: ['/']) = _
        rw [readComment, show readComment 0 ['*', '/'] = some [] from rfl]
        · simp [slash]
        · simp [slash]
        · simp
    | cons second others =>
      have notOpen : ∀ behind, character = '/' →
          second :: others ++ sourceClosing.toList = '*' :: behind → False := by
        rintro behind rfl begins
        obtain ⟨rfl, -⟩ := List.cons.inj begins
        exact absurd noOpening.1 (by simp [openingMark])
      have notClose : ∀ behind, character = '*' →
          second :: others ++ sourceClosing.toList = '/' :: behind → False := by
        rintro behind rfl begins
        obtain ⟨rfl, -⟩ := List.cons.inj begins
        exact absurd noClosing.1 (by simp [sourceClosing])
      rw [List.cons_append, readComment, later, List.getLast?_cons_cons]
      · split <;> rfl
      · exact notOpen
      · exact notClose

/-- A script that holds no comment mark is recovered from its bundle unless it
ends in a slash; then nothing is recovered. -/
theorem recover_ofSource_of_no_marks (options : Options) {source : String}
    (noOpening : Text.contains source openingMark = false)
    (noClosing : Text.contains source sourceClosing = false) :
    recover (ofSource options source) = if Text.endsWith source '/' then "" else source := by
  rw [recover_ofSource, readComment_of_no_marks noOpening noClosing, Text.endsWith]
  by_cases slash : source.toList.getLast? = some '/'
  · simp [slash]
  · simp [slash]

/-- Slashes and stars that stand apart, the last one at the end. -/
theorem recover_ofSource_trailing_star :
    (Text.contains "a = b / c * *d; // *" openingMark = false ∧
      Text.contains "a = b / c * *d; // *" sourceClosing = false) ∧
      ∀ options, recover (ofSource options "a = b / c * *d; // *") = "a = b / c * *d; // *" :=
  ⟨by decide, fun options => recover_ofSource_of_no_marks options (by decide) (by decide)⟩

/-- A script without comment marks that is not recovered. -/
theorem recover_ofSource_trailing_slash :
    Text.contains "x = 1; // half /" openingMark = false ∧
      Text.contains "x = 1; // half /" sourceClosing = false ∧
        ∀ options, recover (ofSource options "x = 1; // half /") = "" := by
  refine ⟨by decide, by decide, fun options => ?_⟩
  rw [recover_ofSource]
  decide

end EventScript.Bundle
