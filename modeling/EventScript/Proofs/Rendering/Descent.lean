import EventScript.Proofs.Rendering.Nesting

/-!
# Generation comes to an end

To generate the code for an expression, texts are split into segments, arguments
of segments are read as expressions, and these may hold texts again.  Measured in
bytes, an argument is shorter than the text around it, and no text in an
expression is longer than what the expression was read from.  So the rules for
the code determine it: there is one function that satisfies them, and the depth
with which texts are expanded plays no part.
-/

namespace EventScript

/-! ## Bytes -/

theorem byteLength_le_of_isInfix {part text : List Char} (inside : part <:+: text) :
    byteLength part ≤ byteLength text :=
  weigh_le_of_isInfix inside

/-- The argument of a property code has fewer bytes than the property string. -/
theorem byteLength_lt_of_mem_segments {content argument : String} {letter : Char}
    {slot : Option String} (member : .code letter slot (some argument) ∈ segments content) :
    byteLength argument.toList < byteLength content.toList := by
  have bounded := byteLength_le_of_isInfix (Segment.isInfix_of_mem_readUpTo member)
  have paren := Char.utf8Size_pos '('
  rw [Segment.parenthesised, byteLength_cons, byteLength_append] at bounded
  omega

/-! ## The code is determined by its rules -/

/-- The code for a spot consults only spots further inside. -/
theorem Spot.codeWith_expandBy_congr {site : Site} {spot : Spot} {code other : Spot → Emission String}
    (same : ∀ part : Spot, Relation.TransGen Expr.IsInside part.expr spot.expr →
      code part = other part) :
    spot.codeWith (expandBy site code) site = spot.codeWith (expandBy site other) site := by
  refine codeWith_eq_of_texts fun value isText => expandBy_congr fun part member => same part ?_
  obtain ⟨segment, among, isPart⟩ := List.mem_flatMap.mp member
  exact .trans_left (.single (.embedded among isPart)) (Expr.reaches_of_mem_subterms isText)

/-- A rule for the code of a spot: its expression is written down, and its texts
are put together from the code for the spots inside them. -/
def Spot.FollowsRules (site : Site) (code : Spot → Emission String) : Prop :=
  ∀ spot : Spot, code spot = spot.codeWith (expandBy site code) site

theorem Spot.followsRules_code (site : Site) : Spot.FollowsRules site (Spot.code site) := by
  intro spot
  exact codeWith_eq_of_texts fun value _ => expand_eq_expandBy site value

theorem Spot.FollowsRules.eq_code {site : Site} {code : Spot → Emission String}
    (follows : Spot.FollowsRules site code) : code = Spot.code site := by
  funext spot
  induction spot using insideInduction with
  | step spot ih =>
    calc
      code spot = spot.codeWith (expandBy site code) site := follows spot
      _ = spot.codeWith (expandBy site (Spot.code site)) site :=
        codeWith_expandBy_congr ih
      _ = spot.code site := (followsRules_code site spot).symm

/-- Generation goes down and therefore ends.  Arguments of property codes, and the
parts they are split into, have fewer bytes than the text they stand in; no text
in an expression, unquoted arguments included, has more bytes than the source of
the expression.  Hence expressions lie inside one another only to a finite depth,
the code for one consults only those inside it, exactly one function follows the
rules, and more depth than a text has characters changes nothing. -/
theorem generation_descends :
    (∀ content letter slot argument, .code letter slot (some argument) ∈ segments content →
      byteLength argument.toList < byteLength content.toList ∧
        ∀ part ∈ argumentParts argument, byteLength part.toList < byteLength content.toList) ∧
    (∀ source expr, Expr.parse source = .ok expr →
      expr.AllTexts fun value => byteLength value.toList ≤ byteLength source.toList) ∧
    WellFounded Expr.IsInside ∧
    ∀ site : Site,
      (∀ (spot : Spot) (code other : Spot → Emission String),
        (∀ part : Spot, Relation.TransGen Expr.IsInside part.expr spot.expr →
          code part = other part) →
        spot.codeWith (expandBy site code) site = spot.codeWith (expandBy site other) site) ∧
      (∀ code, Spot.FollowsRules site code ↔ code = Spot.code site) ∧
      ∀ content depth, content.length < depth →
        expandUpTo site depth content = expand site content := by
  refine ⟨?_, ?_, Expr.wellFounded_isInside, fun site => ⟨?_, ?_, ?_⟩⟩
  · intro content letter slot argument member
    have shorter := byteLength_lt_of_mem_segments member
    refine ⟨shorter, fun part isPart => ?_⟩
    exact Nat.lt_of_le_of_lt (byteLength_le_of_isInfix (isInfix_of_mem_argumentParts isPart)) shorter
  · exact fun source expr parsed => Expr.weigh_le_of_parse weighs_utf8Size parsed
  · exact fun spot code other same => Spot.codeWith_expandBy_congr same
  · intro code
    constructor
    · exact Spot.FollowsRules.eq_code
    · rintro rfl
      exact Spot.followsRules_code site
  · exact fun content depth enough => expandUpTo_eq enough (Nat.lt_succ_self _)

end EventScript
