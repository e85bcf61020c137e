import Stylesheet.Parse.Media
import Stylesheet.Proofs.Tells.Basic

/-!
# What reading values and media queries reports

A value is placed in the source with all its parts: each part starts at
its token and stops at that token's end or at the end of the bracket
that closes it. Reading one reports nothing but warnings.

Passing over what is broken ends with an error, at which blocks that
were left open are given up.

A media query is placed in the source with its features, each from its
opening bracket to its closing one.
-/

namespace Stylesheet

/-! ## Values made of their parts -/

theorem isPlaced_ofToken {source : List Char} {t : Token} (ht : IsPlaced source t) :
    IsPlaced source (ValuePart.ofToken t) :=
  isPlaced_part.mpr ⟨(isPlaced_token.mp ht).2, ht, isPlaced_none⟩

/-- **A value made of parts** is placed where they are. -/
theorem isPlaced_ofParts {source text : List Char} {parts : List ValuePart}
    (h : IsPlaced source parts) : IsPlaced source (ValueOf.ofParts parts text) := by
  have hparts := isPlaced_list.mp h
  have hlocation : IsPlace source ((parts.head?.map (·.location)).getD .start) := by
    cases hhead : parts.head? with
    | none => exact IsPlace.start source
    | some p =>
      have hp := isPlaced_part.mp (hparts p (List.mem_of_mem_head? hhead))
      exact (isPlaced_token.mp hp.2.1).1
  have hstop : IsPlace source ((parts.getLast?.map (·.stop)).getD
      ((parts.head?.map (·.location)).getD .start)) := by
    cases hlast : parts.getLast? with
    | none => exact hlocation
    | some p => exact (isPlaced_part.mp (hparts p (List.mem_of_getLast? hlast))).1
  exact isPlaced_value.mpr ⟨hlocation, hstop, h⟩

theorem isPlaced_wordPart {source : List Char} {t : Token} (ht : IsPlaced source t) :
    IsPlaced source (Parser.wordPart t) := by
  have hpart := isPlaced_part.mp (isPlaced_ofToken ht)
  unfold Parser.wordPart
  extract_lets part
  split_ifs <;> exact isPlaced_part.mpr hpart

/-- **A reader of values that are placed in a source.** -/
def TellsExpr (source : List Char) (inner : Parser.ExprParser) : Prop :=
  ∀ (held : Bool) (open_ : List BlockKind) (ends : List TokenKind) (raw : Bool),
    Tells source held open_ (inner ends raw) (IsPlaced source)

namespace Emits

variable {source : List Char} {held : Bool} {base open_ : List BlockKind} {t : Token}
  {inner : Parser.ExprParser}

/-! ## Parts -/

theorem hashPart (ht : IsPlaced source t) :
    Tells source held open_ (Parser.hashPart t) (IsPlaced source) := by
  have hpart := isPlaced_part.mp (isPlaced_ofToken ht)
  unfold Parser.hashPart
  exact ite (fun _ => pure (isPlaced_part.mpr hpart)) fun _ =>
    (warn _ (isPlaced_token.mp ht).1).bind fun _ _ => pure (isPlaced_part.mpr hpart)

/-- A bracketed block stops where its closing bracket does. -/
theorem blockPart (hinner : TellsExpr source inner) (ht : IsPlaced source t) (close : TokenKind)
    (raw : Bool) :
    Tells source held open_ (Parser.blockPart inner t close raw) (IsPlaced source) := by
  unfold Parser.blockPart
  refine (hinner _ _ _ _).bind fun inside hinside => current.bind fun last hlast => ?_
  refine ite (fun _ => (slice _ _).bind fun text _ => pure ?_) fun _ => failAt_bind hlast
  exact isPlaced_part.mpr ⟨(isPlaced_token.mp hlast).2, ht, hinside⟩

/-- **A function** stops where its closing bracket does. -/
theorem functionPart (hinner : TellsExpr source inner) (ht : IsPlaced source t) (raw : Bool) :
    Tells source held open_ (Parser.functionPart inner t raw) (IsPlaced source) := by
  unfold Parser.functionPart
  refine (hinner _ _ _ _).bind fun args hargs => current.bind fun close hclose => ?_
  refine ite (fun _ => (slice _ _).bind fun text _ => ?_) fun _ => failAt_bind hclose
  cases args with
  | none => exact pure (isPlaced_part.mpr ⟨(isPlaced_token.mp hclose).2, ht, hargs⟩)
  | some args => exact pure (isPlaced_part.mpr ⟨(isPlaced_token.mp hclose).2, ht, hargs⟩)

theorem plainPart (hinner : TellsExpr source inner) (ht : IsPlaced source t) (raw : Bool) :
    Tells source held open_ (Parser.plainPart inner t raw) (IsPlaced source) := by
  unfold Parser.plainPart
  refine ite (fun _ => ?_) fun _ => ?_
  · exact options.bind fun _ _ => ite (fun _ => failAt_bind ht) fun _ =>
      functionPart hinner ht raw
  · exact ite (fun _ => pure (isPlaced_ofToken ht)) fun _ => ite (fun _ => hashPart ht) fun _ =>
      ite (fun _ => pure (isPlaced_wordPart ht)) fun _ => pure (isPlaced_ofToken ht)

/-! ## Values -/

theorem exprStep (hinner : TellsExpr source inner) (ends : List TokenKind) (raw : Bool)
    {parts : List ValuePart} (hparts : IsPlaced source parts) :
    Tells source held open_ (Parser.exprStep inner ends raw parts)
      (Round (IsPlaced source) (IsPlaced source)) := by
  unfold Parser.exprStep
  refine (next true false).bind fun t ht => ite (fun _ => pure hparts) fun _ => ?_
  cases Parser.closingKind? t.kind with
  | some close =>
    refine ite (fun _ => pure hparts) fun _ => ?_
    exact (blockPart hinner ht.isPlaced close raw).bind fun part hpart =>
      pure (isPlaced_cons.mpr ⟨hpart, hparts⟩)
  | none =>
    exact (plainPart hinner ht.isPlaced raw).bind fun part hpart =>
      pure (isPlaced_cons.mpr ⟨hpart, hparts⟩)

theorem exprTo (depth : Nat) : TellsExpr source (Parser.exprTo depth) := by
  induction depth with
  | zero => exact fun _ _ _ _ => tooDeep
  | succ depth ih =>
    intro held open_ ends raw
    unfold Parser.exprTo
    refine (repeating (IsPlaced source) isPlaced_nil fun parts hparts =>
      exprStep ih ends raw hparts).bind fun parts hparts => ?_
    refine ite (fun _ => pure isPlaced_none) fun _ => state.bind fun s _ => pure ?_
    exact isPlaced_some.mpr (isPlaced_ofParts (isPlaced_reverse.mpr hparts))

theorem expr : TellsExpr source Parser.expr := fun held open_ ends raw =>
  budget.bind fun depth _ => exprTo depth held open_ ends raw

theorem function (ht : IsPlaced source t) (raw : Bool) :
    Tells source held open_ (Parser.function t raw) (IsPlaced source) :=
  functionPart expr ht raw

/-! ## Recovery -/

/-- **Passing over what is broken**: the error that is reported gives up
every block that was left open. -/
theorem recover {e : Diagnostic} (he : IsPlaced source e) (inBlock : Bool)
    (lost : List BlockKind) :
    Emits source held open_ (lost ++ open_) open_ (Parser.recover e inBlock) fun _ => True := by
  unfold Parser.recover
  have hskip : ∀ lost, Emits source held open_ (lost ++ open_) open_
      (do Parser.moveStream (·.skipBroken inBlock); Parser.report e) fun _ => True :=
    fun lost => (skipBroken inBlock).bind fun _ _ => report he lost
  refine state.bind fun s _ => ?_
  cases s.pair with
  | none => exact hskip lost
  | some close =>
    refine (setPair none).bind fun _ _ => ?_
    refine discard_attempt_bind (expr _ _ _ _) fun more => ?_
    rw [← List.append_assoc]
    exact hskip (more ++ lost)

end Emits

/-! ## Media queries -/

/-- A token that was found, if any, is placed in the source. -/
theorem isPlaced_found {source : List Char} {found : Option Token}
    (h : ∀ t, found = some t → t.IsCut source) : IsPlaced source found := by
  cases found with
  | none => exact isPlaced_none
  | some t => exact isPlaced_some.mpr (h t rfl).isPlaced

namespace Emits

variable {source : List Char} {held : Bool} {open_ : List BlockKind}

theorem mediaFeature {start : Option Token} (hstart : IsPlaced source start) :
    Tells source held open_ (Parser.mediaFeature start) (IsPlaced source) := by
  unfold Parser.mediaFeature
  extract_lets feature
  have hfeature : ∀ t, IsPlaced source t →
      Tells source held open_ (feature t) (IsPlaced source) := by
    intro t ht
    refine ite (fun _ => ?_) fun _ => failAt_bind ht
    refine (mustMatchSmart _).bind fun name hname => (expr _ _ _ _).bind fun inside hinside => ?_
    refine (mustReuse _).bind fun close hclose => (slice _ _).bind fun _ _ => pure ?_
    exact isPlaced_feature.mpr ⟨(isPlaced_token.mp ht).1, (isPlaced_token.mp hclose).2,
      hname.1.isPlaced, hinside⟩
  cases start with
  | some t => exact pure_bind (hfeature t (isPlaced_some.mp hstart))
  | none => exact grab.bind fun t ht => hfeature t ht.isPlaced

theorem featureStep {sofar : List MediaFeature × Keywords × Bool}
    (hsofar : IsPlaced source sofar.1) :
    Tells source held open_ (Parser.featureStep sofar)
      (Round (IsPlaced source ·.1) (IsPlaced source ·.1)) := by
  unfold Parser.featureStep
  refine (matchKeyword _).bind fun found _ => ?_
  cases found with
  | none => exact pure hsofar
  | some word =>
    exact (mediaFeature isPlaced_none).bind fun feature hfeature =>
      pure (isPlaced_cons.mpr ⟨hfeature, hsofar⟩)

theorem mediaQuery {start : Token} (hstart : IsPlaced source start) :
    Tells source held open_ (Parser.mediaQuery start) (IsPlaced source) := by
  unfold Parser.mediaQuery
  extract_lets modifier query
  have hquery : ∀ first, IsPlaced source first →
      Tells source held open_ (query first) (IsPlaced source) := by
    intro first hfirst
    unfold query
    extract_lets mediaType joiners rest
    have hrest : ∀ features, IsPlaced source features →
        Tells source held open_ (rest features) (IsPlaced source) := by
      intro features hfeatures
      refine (repeating (IsPlaced source ·.1) hfeatures fun _ h => featureStep h).bind
        fun found hfound => current.bind fun _ _ => (slice _ _).bind fun _ _ => pure ?_
      exact isPlaced_query.mpr ⟨(isPlaced_token.mp hstart).1, isPlaced_reverse.mpr hfound⟩
    exact ite (fun _ => pure_bind (hrest _ isPlaced_nil)) fun _ =>
      (mediaFeature (isPlaced_some.mpr hfirst)).bind fun feature hfeature =>
        pure_bind (hrest _ (isPlaced_cons.mpr ⟨hfeature, isPlaced_nil⟩))
  exact ite (fun _ => (mustMatchSmart _).bind fun first hfirst => hquery first hfirst.1.isPlaced)
    fun _ => pure_bind (hquery start hstart)

/-- One more query, given the token it starts with. -/
theorem queryStep {sofar : List MediaQuery × Option Token}
    (hsofar : IsPlaced source sofar.1 ∧ IsPlaced source sofar.2) :
    Tells source held open_ (Parser.queryStep sofar)
      (Round (fun r => IsPlaced source r.1 ∧ IsPlaced source r.2)
        fun r => IsPlaced source r.1 ∧ IsPlaced source r.2) := by
  unfold Parser.queryStep
  rcases sofar with ⟨queries, _ | t⟩
  · exact pure hsofar
  · refine (mediaQuery (isPlaced_some.mp hsofar.2)).bind fun query hquery => ?_
    have hqueries : IsPlaced source (query :: queries) := isPlaced_cons.mpr ⟨hquery, hsofar.1⟩
    refine (matchSmart _).bind fun comma _ => ite (fun _ => pure ⟨hqueries, isPlaced_none⟩)
      fun _ => ?_
    exact (matchSmart _).bind fun first hfirst => pure ⟨hqueries, isPlaced_found hfirst⟩

theorem mediaQueries (reuse : Bool) :
    Tells source held open_ (Parser.mediaQueries reuse) (IsPlaced source) := by
  unfold Parser.mediaQueries
  extract_lets queries
  have hqueries : ∀ first, IsPlaced source first →
      Tells source held open_ (queries first) (IsPlaced source) := fun first hfirst =>
    (repeating (fun r => IsPlaced source r.1 ∧ IsPlaced source r.2) ⟨isPlaced_nil, hfirst⟩
      fun _ h => queryStep h).bind fun found hfound => pure (isPlaced_reverse.mpr hfound.1)
  cases reuse with
  | true =>
    refine (matchReuse _).bind fun first hfirst => hqueries first ?_
    cases first with
    | none => exact isPlaced_none
    | some t => exact isPlaced_some.mpr (hfirst t rfl)
  | false => exact (matchSmart _).bind fun first hfirst => hqueries first (isPlaced_found hfirst)

end Emits

end Stylesheet
