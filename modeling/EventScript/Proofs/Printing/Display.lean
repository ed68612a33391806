import EventScript.Proofs.Grammar.ReadBack
import EventScript.Proofs.Grammar.Soundness
import EventScript.Proofs.Printing.Written

/-!
# Printed expressions are read back

`Expr.display` quotes texts as they stand and writes no parentheses but those of
the tree.  What it prints for a tree of the grammar is read as that tree, unless
a quoted text holds a character that ends or escapes it, or two tokens of the
tree run together.
-/

namespace EventScript

/-- A text without quotes and backslashes is read as it stands. -/
theorem readQuoted_plain {value : List Char} (noQuote : '"' ∉ value) (noEscape : '\\' ∉ value)
    (rest : List Char) : readQuoted (value ++ '"' :: rest) = some (value, rest) := by
  induction value with
  | nil => rfl
  | cons character others ih =>
    rw [List.mem_cons, not_or] at noQuote noEscape
    rw [List.cons_append, readQuoted, ih noQuote.2 noEscape.2]
    · rfl
    · exact fun isQuote => noQuote.1 isQuote.symm
    · exact fun _ _ isEscape => absurd isEscape.symm noEscape.1

namespace Expr

/-! ## What can be printed -/

/-- A text between quotes, as it stands. -/
def quoted (value : String) : String :=
  "\"" ++ value ++ "\""

/-- Whether a text can stand between quotes. -/
def isQuotable (value : String) : Bool :=
  !value.toList.contains '"' && !value.toList.contains '\\'

mutual

/-- Whether the tokens of an expression stay apart when it is printed: its texts
can stand between quotes, no minus sign is put in front of another one, and no
member is selected from a number. -/
def keepsApart : Expr → Bool
  | number _ => true
  | text value => isQuotable value
  | name _ => true
  | list items => keepsApartAll items
  | range low high => low.keepsApart && high.keepsApart
  | grouped inner => inner.keepsApart
  | unary op operand => operand.keepsApart && !(op == .negate && operand.startsMinus)
  | binary _ left right => left.keepsApart && right.keepsApart
  | conditional condition whenTrue whenFalse =>
    condition.keepsApart && whenTrue.keepsApart && whenFalse.keepsApart
  | call _ arguments => keepsApartAll arguments
  | index target indices => target.keepsApart && keepsApartAll indices
  | dotted segments => keepsApartAll segments && !segments.head?.any isNumber

/-- Whether this holds of each of several expressions. -/
def keepsApartAll : List Expr → Bool
  | [] => true
  | first :: others => first.keepsApart && keepsApartAll others

end

/-- A text that can stand between quotes is read from them. -/
theorem quotes_quoted {value : String} (plain : isQuotable value = true) :
    Quotes quoted value := by
  rw [isQuotable, Bool.and_eq_true, Bool.not_eq_true', Bool.not_eq_true', List.contains_eq_mem,
    List.contains_eq_mem, decide_eq_false_iff_not, decide_eq_false_iff_not] at plain
  have spelled : (quoted value).toList = '"' :: (value.toList ++ ['"']) := by
    simp [quoted]
  refine ⟨⟨_, spelled⟩, fun rest => ⟨by simp [spelled], ?_, ?_⟩⟩
  · rw [spelled]
    exact skipGap_cons_self (by decide) (not_startsComment (by decide) _)
  · rw [spelled, List.cons_append, List.append_assoc, List.singleton_append,
      readToken_quoted (readQuoted_plain plain.1 plain.2 rest), String.ofList_toList]

mutual

/-- Printing is writing with texts that are quoted as they stand. -/
theorem display_eq_written : ∀ expr : Expr, expr.display = expr.written quoted
  | number _ => rfl
  | text _ => rfl
  | name _ => rfl
  | list items => by rw [display, written, displayAll_eq_writtenAll items]
  | range low high => by rw [display, written, display_eq_written low, display_eq_written high]
  | grouped inner => by rw [display, written, display_eq_written inner]
  | unary op operand => by rw [display, written, display_eq_written operand]
  | binary op left right => by
    rw [display, written, display_eq_written left, display_eq_written right]
  | conditional condition whenTrue whenFalse => by
    rw [display, written, display_eq_written condition, display_eq_written whenTrue,
      display_eq_written whenFalse]
  | call _ arguments => by rw [display, written, displayAll_eq_writtenAll arguments]
  | index target indices => by
    rw [display, written, display_eq_written target, displayAll_eq_writtenAll indices]
  | dotted segments => by rw [display, written, displayAll_eq_writtenAll segments]

theorem displayAll_eq_writtenAll :
    ∀ items : List Expr, displayAll items = writtenAll quoted items
  | [] => rfl
  | first :: others => by
    rw [displayAll, writtenAll, display_eq_written first, displayAll_eq_writtenAll others]

end

mutual

/-- An expression whose tokens stay apart can be written. -/
theorem writable_of_keepsApart :
    ∀ expr : Expr, expr.keepsApart = true → expr.Writable quoted
  | number _, _ => trivial
  | text _, plain => quotes_quoted plain
  | name _, _ => trivial
  | list items, apart => writableAll_of_keepsApart items apart
  | range low high, apart =>
    have apart := Bool.and_eq_true_iff.mp apart
    ⟨writable_of_keepsApart low apart.1, writable_of_keepsApart high apart.2⟩
  | grouped inner, apart => writable_of_keepsApart inner apart
  | unary op operand, apart => by
    rw [keepsApart, Bool.and_eq_true] at apart
    refine ⟨writable_of_keepsApart operand apart.1, ?_⟩
    rintro rfl
    simpa using apart.2
  | binary _ left right, apart =>
    have apart := Bool.and_eq_true_iff.mp apart
    ⟨writable_of_keepsApart left apart.1, writable_of_keepsApart right apart.2⟩
  | conditional condition whenTrue whenFalse, apart => by
    rw [keepsApart, Bool.and_eq_true, Bool.and_eq_true] at apart
    exact ⟨writable_of_keepsApart condition apart.1.1, writable_of_keepsApart whenTrue apart.1.2,
      writable_of_keepsApart whenFalse apart.2⟩
  | call _ arguments, apart => writableAll_of_keepsApart arguments apart
  | index target indices, apart =>
    have apart := Bool.and_eq_true_iff.mp apart
    ⟨writable_of_keepsApart target apart.1, writableAll_of_keepsApart indices apart.2⟩
  | dotted segments, apart => by
    rw [keepsApart, Bool.and_eq_true, Bool.not_eq_true', Option.any_eq_false] at apart
    exact ⟨writableAll_of_keepsApart segments apart.1, apart.2⟩

theorem writableAll_of_keepsApart :
    ∀ items : List Expr, keepsApartAll items = true → WritableAll quoted items
  | [], _ => trivial
  | first :: others, apart =>
    have apart := Bool.and_eq_true_iff.mp apart
    ⟨writable_of_keepsApart first apart.1, writableAll_of_keepsApart others apart.2⟩

end

/-! ## Reading what is printed -/

/-- An expression that can be written is read back, however its texts are quoted. -/
theorem Shaped.parse_written {literal : String → String} {expr : Expr} (shaped : expr.Shaped)
    (writable : expr.Writable literal) : Expr.parse (expr.written literal) = .ok expr := by
  refine Expr.parse_of_lexes ?_ shaped
  have whole := shaped.lexesWritten writable [] [] ⟨stops_nil _, .inl (stops_nil _)⟩ lexes_nil
  rwa [List.append_nil, List.append_nil] at whole

/-- What is printed for a tree of the grammar whose tokens stay apart is read as
that tree. -/
theorem parse_display {expr : Expr} (shaped : expr.Shaped) (apart : expr.keepsApart = true) :
    Expr.parse expr.display = .ok expr := by
  rw [display_eq_written]
  exact shaped.parse_written (writable_of_keepsApart expr apart)

set_option maxRecDepth 20000 in
/-- A number that ends in a point in front of a bracket, one that begins with a
point behind one, a range, a prefix operator in front of a chain and an argument
that would be read unquoted if it did not begin with a quote. -/
theorem parse_display_range :
    let tested := binary .isIn
      (unary .negate (dotted [name "x", index (name "y") [number "1."]]))
      (range (number ".5") (binary .add (name "n") (number "2")))
    let expr := conditional tested (call "playersays" [binary .add (text "a") (name "b")]) (list [])
    expr.Shaped ∧ expr.keepsApart = true ∧
      Expr.parse "-x.y[1.] in <.5, n + 2> ? playersays(\"a\" + b) : \x7b\x7d" = .ok expr := by
  intro tested expr
  have shaped : expr.Shaped :=
    @shaped_of_parse "-x.y[1.]in<.5,n+2>?playersays(\"a\"+b):\x7b\x7d" expr rfl
  have apart : expr.keepsApart = true := by decide +kernel
  have printed : expr.display =
      "-x.y[1.] in <.5, n + 2> ? playersays(\"a\" + b) : \x7b\x7d" := by decide +kernel
  exact ⟨shaped, apart, printed ▸ parse_display shaped apart⟩

end Expr

end EventScript
