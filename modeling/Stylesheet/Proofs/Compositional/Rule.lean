import Stylesheet.Parse.Block
import Stylesheet.Proofs.Compositional.Basic

/-!
# Judgements on readers of conditions, at-rules and selectors of rules

The names and most preludes of rules report nothing but warnings, and what
is said of those is said of them. A condition can hold declarations, and an
at-rule a block. What is said of those two is not said here, because a
declaration is checked and a block catches failures: a compositional
judgement holds of a condition if it holds of declarations, and of an
at-rule if it holds of blocks, too. Two at-rules are left to each judgement:
`@scope` passes over a prelude that is broken, and an unknown one asks
whether the parse is strict.
-/

namespace Stylesheet

open Stylesheet.Parser

namespace Reading

variable {J : (α : Type) → Parser α → Prop} (h : Reading J)

include h

/-! ## Parts of declarations -/

theorem propertyName (t : Token) : J _ (Parser.propertyName t) := by
  unfold Parser.propertyName
  exact ite (h.bind (h.mustMatch _) fun _ => h.pure _)
    (h.lookAtOptions (fun _ _ _ _ => rfl) fun _ => ite (h.pure _) (h.pure _))

theorem afterName (colon : Option Token) : J _ (Parser.afterName colon) := by
  unfold Parser.afterName
  extract_lets rest
  have hrest : ∀ found, J _ (rest found) := fun _ =>
    ite (h.bind (h.next true true) fun _ => h.pure _) (h.pure _)
  cases colon with
  | some c => exact pure_bind (hrest (c, c))
  | none =>
    refine h.bind (h.next false true) fun raw => ?_
    exact ite (h.bind h.grab fun seen => pure_bind (hrest (raw, seen))) (pure_bind (hrest (raw, raw)))

theorem declarationEnd (site : DeclarationSite) (t : Token) :
    J _ (Parser.declarationEnd site t) := by
  unfold Parser.declarationEnd
  exact ite (h.bind (h.discard (h.mustMatchKeyword _)) fun _ => h.mustMatchSmart _)
    (ite (h.pure _) (h.mustReuse _))

/-- **The value of a declaration**, and the rest. What is held back while the
value is read is known to those who read it. -/
theorem declarationValue {K : List Event → Prop} {site : DeclarationSite} {t : Token}
    {property : PropertyName}
    (hheld : ∀ {ends : List TokenKind} {f : Option Value × List Event → Parser Bool},
      (∀ r, K r.2 → J _ (f r)) → J _ (exprHeldBack ends >>= f))
    (hdispatch : ∀ {events : List Event}, K events → J _ (events.forM dispatch))
    (htail : ∀ value, J _ (declarationTail site t property value)) (first : TokenKind) :
    J _ (Parser.declarationValue site t property first) := by
  unfold Parser.declarationValue
  extract_lets custom rest
  have hrest : J _ (rest ()) := by
    refine ite (hheld fun r hr => h.bind h.current fun after => ?_) ?_
    · exact ite (h.bind (h.seek _) fun _ => h.pure _)
        (h.bind (hdispatch hr) fun _ => h.bind (htail r.1) fun _ => h.pure _)
    · exact h.bind (h.expr _ _) fun value => h.bind (htail value) fun _ => h.pure _
  exact ite hrest (h.bind h.unget fun _ => hrest)

theorem declaration {site : DeclarationSite} {t : Token}
    (hvalue : ∀ property first, J _ (Parser.declarationValue site t property first)) :
    J _ (Parser.declaration site t) := by
  unfold Parser.declaration
  refine h.bind (h.propertyName t) fun property => h.bind (h.afterName site.colon) fun after => ?_
  cases after with
  | value first => exact hvalue property first
  | pseudo raw => exact h.bind (h.moveStream _) fun _ => ite (h.failAt_bind _ _) (h.pure _)
  | other raw seen =>
    exact h.bind (h.moveStream _) fun _ => ite (h.pure _) (ite (h.failAt_bind _ _) (h.pure _))

/-- **Passing over what is broken**, where a judgement holds of closing a
bracket, and of a report. -/
theorem recover (hpair : J Unit (update ({ · with pair := none })))
    (hexpr : ∀ ends, J _ (attempt (Parser.expr ends true))) {e : Diagnostic}
    (hreport : J _ (report e)) (inBlock : Bool) : J _ (Parser.recover e inBlock) := by
  unfold Parser.recover
  refine h.look (fun _ _ => rfl) fun s => ?_
  have hend : J _ (do Parser.moveStream (·.skipBroken inBlock); report e) :=
    h.bind (h.moveStream _) fun _ => hreport
  cases s.pair with
  | some close => exact h.bind hpair fun _ => h.bind (h.discard (hexpr _)) fun _ => hend
  | none => exact hend

/-! ## Names and preludes -/

theorem closeTest : J _ Parser.closeTest := h.discard (h.mustMatchSmart _)

theorem ruleName : J _ Parser.ruleName := h.bind (h.mustMatchSmart _) fun _ => h.pure _

theorem layerNameStep (sofar : String × Option Token) : J _ (Parser.layerNameStep sofar) := by
  unfold Parser.layerNameStep
  rcases sofar with ⟨name, _ | t⟩
  · exact h.pure _
  · exact h.bind (h.matchKinds _) fun _ => ite (h.pure _)
      (h.bind (h.matchKinds _) fun _ => h.pure _)

theorem layerName (first : Option Token) : J _ (Parser.layerName first) := by
  unfold Parser.layerName
  extract_lets rest
  have hrest : ∀ first, J _ (rest first) := fun _ =>
    h.bind (h.repeating h.layerNameStep _) fun _ => h.pure _
  cases first with
  | some t => exact pure_bind (hrest _)
  | none => exact h.bind (h.matchSmart _) hrest

theorem importLayer : J _ Parser.importLayer := by
  unfold Parser.importLayer
  refine h.bind h.grab fun _ => ite ?_ (ite (h.bind h.grab fun _ => h.pure _) (h.pure _))
  exact h.bind (h.layerName none) fun _ => h.bind (h.discard (h.mustMatchSmart _)) fun _ =>
    h.bind h.grab fun _ => h.pure _

theorem documentStep (t : Token) (functions : List String) :
    J _ (Parser.documentStep t functions) := by
  unfold Parser.documentStep
  extract_lets rest same
  have hrest : ∀ functions, J _ (rest functions) := fun _ =>
    h.bind (h.matchSmart _) fun _ => h.pure _
  refine h.bind (h.matchSmart _) fun found => ?_
  cases found with
  | none =>
    exact h.lookAtOptions (fun _ _ _ _ => rfl) fun _ => ite (pure_bind (hrest functions))
      (h.bind (h.warn _ _) fun _ => pure_bind (hrest functions))
  | some t' =>
    refine ite (pure_bind (hrest _)) (ite (h.bind (h.function t' false) fun part => ?_) ?_)
    · exact ite (pure_bind (hrest _))
        (h.bind (h.warn _ _) fun _ => pure_bind (hrest functions))
    · exact h.bind (h.warn _ _) fun _ => pure_bind (hrest functions)

theorem keyStep (sofar : KeysSoFar) : J _ (Parser.keyStep sofar) := by
  unfold Parser.keyStep
  exact h.bind h.grab fun _ => ite (h.bind h.grab fun _ => h.pure _)
    (ite (h.pure _) (h.failAt _ _))

end Reading

namespace Selecting

open Reading (pure_bind ite)

variable {J : (α : Type) → Parser α → Prop} (h : Selecting J)

include h

theorem scopeSelectors : J _ Parser.scopeSelectors := by
  unfold Parser.scopeSelectors
  exact h.bind (h.selectorGroup _ _ _) fun _ => h.bind (h.discard (h.mustReuse _)) fun _ =>
    h.pure _

theorem scopePrelude : J _ Parser.scopePrelude := by
  unfold Parser.scopePrelude
  refine h.bind h.grab fun t => ?_
  extract_lets rest
  have hrest : ∀ found, J _ (rest found) := by
    rintro ⟨first, t⟩
    unfold rest
    dsimp only
    have hend : ∀ last : Option (List Selector), J _ (do
        Functor.discard (Parser.mustReuse [.lBrace])
        return (first, last)) := fun _ => h.bind (h.discard (h.mustReuse _)) fun _ => h.pure _
    exact ite (h.bind (h.discard (h.mustMatchSmart _)) fun _ => h.bind h.scopeSelectors fun last =>
      h.bind (h.discard h.grab) fun _ => pure_bind (hend last)) (pure_bind (hend none))
  exact ite (h.bind h.scopeSelectors fun first => h.bind h.grab fun t =>
    pure_bind (hrest (first, t))) (pure_bind (hrest (none, t)))

theorem ruleHead (t : Token) : J _ (Parser.ruleHead t) := by
  unfold Parser.ruleHead
  refine h.bind (h.selectorGroup _ _ _) fun r => ?_
  cases r with
  | some selectors => exact h.pure _
  | none => exact h.bind h.unget fun _ => h.pure _

end Selecting

namespace Reporting

open Reading (pure_bind ite)

variable {J : (α : Type) → Parser α → Prop} (h : Reporting J)

include h

/-! ## Conditions -/

section Conditions

variable {K : ConditionKind → Prop} (hplain : K .plain)
  (hselector : K .supports → J _ (Parser.selector none false))
  (hdeclaration : ∀ colon t,
    J _ (Parser.declaration { colon := some colon, inParens := true } t))
  {test : TestParser} (htest : ∀ kind first, K kind → J _ (test kind first))
  {kind : ConditionKind} (hkind : K kind)

include htest hkind in
theorem joinedStep (sofar : Option Token × Keywords × Bool) :
    J _ (Parser.joinedStep test kind sofar) := by
  unfold Parser.joinedStep
  refine h.bind (htest _ _ hkind) fun _ => h.bind (h.matchKeyword _) fun found => ?_
  cases found with
  | none => exact h.pure _
  | some word => exact h.pure _

include htest hkind in
theorem conditionWith (first : Option Token) : J _ (Parser.conditionWith test kind first) := by
  unfold Parser.conditionWith
  extract_lets rest
  have hrest : ∀ t, J _ (rest t) := fun t =>
    ite (htest _ _ hkind) (h.discard (h.repeating (h.joinedStep htest hkind) _))
  cases first with
  | some t => exact pure_bind (hrest t)
  | none => exact h.bind h.grab hrest

include hplain hselector htest hkind in
theorem ownTest (t : Token) (bracket : Option Token) :
    J _ (Parser.ownTest test kind t bracket) := by
  unfold Parser.ownTest
  split
  · refine ite (h.bind (hselector hkind) fun found => ?_) (h.pure _)
    cases found with
    | none => exact h.failHere _
    | some s => exact h.bind h.unget fun _ => h.bind (h.fire rfl) fun _ => h.pure _
  · exact ite (h.bind h.unget fun _ => h.bind (h.discard (h.mediaFeature _)) fun _ =>
      h.bind h.unget fun _ => h.pure _) (h.pure _)
  · exact ite (h.bind (h.conditionWith htest hplain _) fun _ => h.bind h.unget fun _ => h.pure _)
      (h.pure _)
  · exact h.pure _

include hdeclaration in
theorem nameTest (t : Token) : J _ (Parser.nameTest t) := by
  unfold Parser.nameTest
  refine h.bind (h.matchSmart _) fun found => ?_
  cases found with
  | none => exact h.closeTest
  | some after =>
    exact ite (h.discard (hdeclaration after t)) (h.bind (h.discard (h.expr _ _)) fun _ =>
      h.discard (h.mustReuse _))

include hplain hselector hdeclaration htest hkind in
theorem bracketTest (t : Token) : J _ (Parser.bracketTest test kind t) := by
  unfold Parser.bracketTest
  refine h.bind (h.matchSmart _) fun found => ?_
  cases found with
  | none => exact h.closeTest
  | some t' =>
    refine h.bind (h.ownTest hplain hselector htest hkind t' (some t)) fun own =>
      ite h.closeTest (ite ?_ (ite ?_ (h.nameTest hdeclaration t')))
    · exact h.bind (h.conditionWith htest hplain _) fun _ => h.closeTest
    · exact h.bind (htest _ _ hplain) fun _ => h.closeTest

include hplain hselector hdeclaration

/-- **Conditions** of some kinds. A judgement holds of them if it holds of the
declarations in them, and of selectors where the kinds test those. -/
theorem testTo (depth : Nat) (kind : ConditionKind) (first : Option Token) (hkind : K kind) :
    J _ (Parser.testTo depth kind first) := by
  induction depth generalizing kind first with
  | zero => exact h.throw _
  | succ depth ih =>
    unfold Parser.testTo
    extract_lets rest
    have hrest : ∀ t, J _ (rest t) := fun t =>
      h.bind (h.ownTest hplain hselector ih hkind t none) fun own => ite h.closeTest (ite
        (h.discard (h.function t false))
        (ite (h.bracketTest hplain hselector hdeclaration ih hkind t) h.closeTest))
    cases first with
    | some t => exact pure_bind (hrest t)
    | none => exact h.bind (h.mustMatchSmart _) hrest

include hkind

theorem conditionInParens (first : Option Token) : J _ (Parser.conditionInParens kind first) :=
  h.bind h.budget fun depth => h.testTo hplain hselector hdeclaration depth kind first hkind

theorem condition : J _ (Parser.condition kind) :=
  h.bind h.budget fun depth =>
    h.conditionWith (h.testTo hplain hselector hdeclaration depth) hkind none

end Conditions

/-! ## Statements -/

theorem charsetRule (t : Token) : J _ (Parser.charsetRule t) := by
  unfold Parser.charsetRule
  exact h.bind (h.mustMatchSmart _) fun _ => h.bind (h.discard (h.mustMatchSmart _)) fun _ =>
    h.fire rfl

theorem namespaceRule (t : Token) : J _ (Parser.namespaceRule t) := by
  unfold Parser.namespaceRule
  exact h.bind (h.matchSmart _) fun _ => h.bind (h.mustMatchSmart _) fun _ =>
    h.bind (h.discard (h.mustMatchSmart _)) fun _ => h.fire rfl

theorem importRule
    (hcondition : ∀ first, J _ (Parser.conditionInParens .supports first)) (t : Token) :
    J _ (Parser.importRule t) := by
  unfold Parser.importRule
  refine h.bind (h.mustMatchSmart _) fun uri => h.bind h.importLayer fun found => ?_
  rcases found with ⟨layer, t'⟩
  dsimp only
  generalize (t'.kind == .function && t'.name == "supports") = conditional
  have hend : ∀ queries, J _ (do
      Functor.discard (Parser.mustMatchSmart [.semicolon])
      Parser.fire (.import_ (addressOf uri) layer queries) t.location) := fun _ =>
    h.bind (h.discard (h.mustMatchSmart _)) fun _ => h.fire rfl
  cases conditional with
  | true =>
    exact h.bind (hcondition _) fun _ => h.bind (h.mediaQueries false) hend
  | false => exact h.bind (h.mediaQueries true) hend

/-! ## At-rules with a body -/

section AtRules

variable {block : BlockParser}
  (hblock : ∀ start shape, J _ (block start shape))

include hblock

theorem descriptorBlock (t : Token) (scope : String) (kind : BlockKind) (margins : Bool) :
    J _ (Parser.descriptorBlock block t scope kind margins) := h.discard (hblock _ _)

theorem ruleBlock (t : Token) (kind : BlockKind) : J _ (Parser.ruleBlock block t kind) :=
  h.discard (hblock _ _)

theorem marginRule (t : Token) : J _ (Parser.marginRule block t) :=
  h.descriptorBlock hblock t _ _ _

theorem layerStep (t : Token) (sofar : List String × Bool) :
    J _ (Parser.layerStep block t sofar) := by
  unfold Parser.layerStep
  refine h.bind h.grab fun t' => ?_
  extract_lets rest
  have hrest : ∀ found, J _ (rest found) := by
    rintro ⟨ids, t'⟩
    refine ite ?_ (ite (h.pure _) (h.pure _))
    exact ite (h.bind (h.warn _ _) fun _ => h.bind (h.discard (hblock _ _)) fun _ => h.pure _)
      (h.bind (h.discard (hblock _ _)) fun _ => h.pure _)
  exact ite (h.bind (h.layerName _) fun name => h.bind h.grab fun t' =>
    pure_bind (hrest (name :: sofar.1, t'))) (pure_bind (hrest (sofar.1, t')))

theorem layerRule (t : Token) : J _ (Parser.layerRule block t) := by
  unfold Parser.layerRule
  refine h.bind (h.repeating (h.layerStep hblock t) _) fun r => ?_
  rcases r with ⟨ids, blockSeen⟩
  exact ite (h.pure _) (h.bind (h.discard (h.mustReuse _)) fun _ => h.fire rfl)

theorem documentBody (t : Token) : J _ (Parser.documentBody block t) := by
  unfold Parser.documentBody
  exact h.lookAtOptions (fun _ _ _ _ => rfl) fun _ => ite (h.bind (h.moveStream _) fun _ =>
    h.bind (h.mustMatchSmart _) fun _ => h.pure _) (hblock _ _)

theorem documentRule (t : Token) : J _ (Parser.documentRule block t) := by
  unfold Parser.documentRule
  refine h.look (fun _ _ => rfl) fun s => ?_
  extract_lets rest
  have hrest : J _ (rest ()) :=
    h.bind (h.repeating (h.documentStep t) _) fun _ => h.bind (h.discard (h.mustMatchSmart _))
      fun _ => h.bind (h.fire rfl) fun _ => h.bind (h.documentBody hblock t) fun _ => h.fire rfl
  exact ite (h.bind (h.warn _ _) fun _ => hrest) hrest

theorem keyframeStep (sofar : Bool × Token) : J _ (Parser.keyframeStep block sofar) := by
  unfold Parser.keyframeStep
  refine h.bind (h.repeating h.keyStep _) fun head => ?_
  cases head.first with
  | none => exact h.pure _
  | some loc =>
    exact ite (h.bind (h.discard (hblock _ _)) fun _ => h.pure _)
      (h.bind h.unget fun _ => h.bind (h.discard (hblock _ _)) fun _ => h.pure _)

theorem keyframesRule (t : Token) : J _ (Parser.keyframesRule block t) := by
  unfold Parser.keyframesRule
  refine h.bind (h.mustMatchSmart _) fun name => h.bind (h.discard (h.mustMatchSmart _)) fun _ =>
    h.bind (h.fire rfl) fun _ => h.bind (h.repeating (h.keyframeStep hblock) _) fun r => ?_
  exact ite (pure_bind (h.fire rfl)) (h.bind (h.mustMatchSmart _) fun _ => h.fire rfl)

theorem pageRule (t : Token) : J _ (Parser.pageRule block t) := by
  unfold Parser.pageRule
  refine h.bind (h.matchSmart _) fun id => ?_
  extract_lets body page
  have hbody : ∀ pseudo, J _ (body pseudo) := fun _ => h.descriptorBlock hblock t _ _ _
  have hpage : J _ (page ()) :=
    h.bind (h.matchKinds _) fun _ => ite (h.bind (h.mustMatch _) fun name =>
      pure_bind (hbody (some name.text))) (pure_bind (hbody none))
  cases id with
  | none => exact hpage
  | some t' => exact ite (h.failAt_bind _ _) hpage

theorem containerRule (hcondition : J _ (Parser.condition .container)) (t : Token) :
    J _ (Parser.containerRule block t) := by
  unfold Parser.containerRule
  extract_lets rest
  have hrest : ∀ name, J _ (rest name) := fun _ =>
    h.bind hcondition fun _ => h.ruleBlock hblock t _
  refine h.bind (h.matchSmart _) fun found => ?_
  cases found with
  | none => exact pure_bind (hrest _)
  | some t' => exact ite (h.bind h.unget fun _ => pure_bind (hrest _)) (pure_bind (hrest _))

/-- **An at-rule by its name.** What it may take is asked for where it does. -/
theorem namedRule (t : Token) (hcontainer : J _ (Parser.condition .container))
    (himport : t.name = "import" → J _ (Parser.importRule t))
    (hsupports : t.name = "supports" → J _ (Parser.condition .supports))
    (hscope : J _ (scopeRule block t)) (hunknown : J _ (unknownRule t)) :
    J _ (Parser.namedRule block t) := by
  unfold Parser.namedRule
  split
  · exact h.charsetRule t
  · exact h.containerRule hblock hcontainer t
  · exact h.bind h.ruleName fun _ => h.descriptorBlock hblock t _ _ _
  · exact h.documentRule hblock t
  · exact h.descriptorBlock hblock t _ _ _
  · exact h.bind h.ruleName fun _ => h.descriptorBlock hblock t _ _ _
  · next hname => exact himport hname
  · exact h.keyframesRule hblock t
  · exact h.layerRule hblock t
  · exact h.bind (h.mediaQueries false) fun _ => h.ruleBlock hblock t _
  · exact h.namespaceRule t
  · exact h.pageRule hblock t
  · exact h.bind h.ruleName fun _ => h.descriptorBlock hblock t _ _ _
  · exact hscope
  · exact h.descriptorBlock hblock t _ _ _
  · next hname => exact h.bind (hsupports hname) fun _ => h.ruleBlock hblock t _
  · exact hunknown

theorem atRule (t : Token) (top : Bool) (hcontainer : J _ (Parser.condition .container))
    (himport : t.name = "import" → J _ (Parser.importRule t))
    (hsupports : t.name = "supports" → J _ (Parser.condition .supports))
    (hscope : J _ (scopeRule block t)) (hunknown : J _ (unknownRule t)) :
    J _ (Parser.atRule block t top) := by
  unfold Parser.atRule
  exact h.lookAtOptions (fun _ _ _ _ => rfl) fun _ => ite (h.moveStream _)
    (h.namedRule hblock t hcontainer himport hsupports hscope hunknown)

/-! ## Blocks -/

theorem blockItem {shape : BlockShape} {t : Token}
    (hdeclaration : J _ (Parser.declaration { scope := shape.scope } t))
    (hrule : J _ (Parser.atRule block t false)) (hstyle : J _ (styleRule block t)) :
    J _ (Parser.blockItem block shape t) := by
  unfold Parser.blockItem
  refine h.look (fun _ _ => rfl) fun s => ?_
  extract_lets inStyle found rest
  have hrest : ∀ declared, J _ (rest declared) := fun _ =>
    ite (h.pure _) (ite (h.bind hstyle fun _ => h.pure _) (h.failAt _ _))
  refine ite ?_ (h.lookAtOptions (fun _ _ _ _ => rfl) fun _ =>
    ite (h.bind hdeclaration hrest) (pure_bind (hrest _)))
  exact ite (h.bind (h.marginRule hblock t) fun _ => h.pure _) (h.bind hrule fun _ => h.pure _)

omit hblock

theorem blockStep {shape : BlockShape}
    (hitem : ∀ sofar t, J _ (blockItemStep block shape sofar t)) (toEnd : Bool)
    (sofar : BlockSoFar) : J _ (Parser.blockStep block shape toEnd sofar) := by
  unfold Parser.blockStep
  refine h.bind (h.next true false) fun t => ?_
  split
  · exact ite (h.pure _) (h.failAt _ _)
  · exact h.pure _
  · exact h.pure _
  · exact ite (h.pure _) (hitem sofar t)

theorem blockWith {shape : BlockShape} (hitems : J _ (blockItems block shape false))
    (start : Location) : J _ (Parser.blockWith block start shape) := by
  unfold Parser.blockWith
  extract_lets items started
  have hstarted : J _ (started ()) := by
    unfold started items
    cases shape.event with
    | none => exact h.bind hitems fun _ => h.pure _
    | some kind =>
      exact h.bind (h.fire rfl) fun _ => h.bind hitems fun _ => h.bind (h.fire rfl) fun _ =>
        h.pure _
  exact ite hstarted (h.bind (h.discard (h.mustMatchSmart _)) fun _ => hstarted)

end AtRules

/-- **Blocks nested to any depth**, where a judgement of the blocks inside is one
of the items around them. -/
theorem block (hitems : ∀ {block : BlockParser}, (∀ start shape, J _ (block start shape)) →
      ∀ shape, J _ (blockItems block shape false))
    (start : Location) (shape : BlockShape) : J _ (Parser.block start shape) := by
  have hblock : ∀ depth start shape, J _ (blockTo depth start shape) := by
    intro depth
    induction depth with
    | zero => exact fun _ _ => h.throw _
    | succ depth ih => exact fun start shape => h.blockWith (hitems ih shape) start
  exact h.bind h.budget fun depth => hblock depth start shape

end Reporting

/-- **At-rules**, where a judgement is kept in putting parsers together. -/
theorem Compositional.atRule {J : (α : Type) → Parser α → Prop} (h : Compositional J)
    {block : BlockParser} (hdeclaration : ∀ site t, J _ (Parser.declaration site t))
    (hblock : ∀ start shape, J _ (block start shape)) (t : Token) (top : Bool)
    (hscope : J _ (scopeRule block t)) (hunknown : J _ (unknownRule t)) :
    J _ (Parser.atRule block t top) := by
  have hselector : True → J _ (Parser.selector none false) := fun _ => h.selector none false
  have hcondition : ∀ kind, J _ (Parser.condition kind) := fun kind =>
    Reporting.condition (K := fun _ => True) h.toReporting trivial hselector
      (fun _ t => hdeclaration _ t) trivial
  have himport : ∀ first, J _ (Parser.conditionInParens .supports first) :=
    h.toReporting.conditionInParens (K := fun _ => True) trivial hselector
      (fun _ t => hdeclaration _ t) trivial
  exact h.toReporting.atRule hblock t top (hcondition _) (fun _ => h.importRule himport t)
    (fun _ => hcondition _) hscope hunknown

end Stylesheet
