import Stylesheet.Proofs.Lockstep.Block
import Stylesheet.Proofs.Settles.Basic

/-!
# What declarations and conditions leave behind

A value that is held back ends the holding back of events however it ends.
A declaration notes a bracket when a brace stands in its value, but not
within the brackets of a condition, so that conditions are tidy unless
they test selectors.
-/

namespace Stylesheet

open Parse (State)
open Parse.State (Restored)

namespace Settles

variable {tidy : Bool}

/-- **A value whose events are held back** holds none back at its end. -/
theorem exprHeldBack (ends : List TokenKind) :
    Settles Unpaired tidy (Parser.exprHeldBack ends) := by
  have hexpr : Settles Unpaired true (Parser.expr ends false) := reads.expr ends false
  have hrun : ∀ s : State, s.options.strict = false →
      Restored s (Parser.exprHeldBack ends s).2 ∧
        (Unpaired s.pair → Unpaired (Parser.exprHeldBack ends s).2.pair) := by
    intro s hs
    have hrestored := hexpr.restores { s with deferred := some [] } hs
    have hok := hexpr.ok { s with deferred := some [] } hs
    have herror := hexpr.error rfl { s with deferred := some [] } hs
    rw [Parser.exprHeldBack_apply]
    rcases hexprRun : Parser.expr ends false { s with deferred := some [] } with ⟨e | v, s₁⟩ <;>
      rw [hexprRun] at hrestored hok herror <;>
      refine ⟨⟨hrestored.depth, hrestored.inStyle, hrestored.inScope, fun _ => rfl,
        hrestored.options, hrestored.events⟩, fun hP => ?_⟩
    · exact herror hP e rfl
    · exact hok hP v rfl
  exact ⟨fun s hs => (hrun s hs).1, fun s hs hP _ _ => (hrun s hs).2 hP,
    fun _ s hs hP _ _ => (hrun s hs).2 hP⟩

theorem checked (name : PropertyName) (value : Value) (scope : Option String) :
    Settles Unpaired tidy (Parser.checked name value scope) := by
  unfold Parser.checked
  refine of_modifyGet (fun s => ?_) fun s hP => ?_ <;>
    rcases s.validator.check name value scope with ⟨_ | _, validator⟩
  · exact ⟨rfl, rfl, rfl, id, rfl, List.suffix_rfl⟩
  · exact ⟨rfl, rfl, rfl, id, rfl, List.suffix_rfl⟩
  · exact hP
  · exact hP

/-! ## Declarations -/

/-- **The rest of a declaration** is tidy within brackets. -/
theorem declarationTail (site : Parser.DeclarationSite) (t : Token) (property : PropertyName)
    (read : Option Value) :
    Settles Unpaired site.inParens (Parser.declarationTail site t property read) := by
  unfold Parser.declarationTail
  refine reads.current.bind fun after => ?_
  extract_lets important afterRead
  have hafterRead : ∀ value, Settles Unpaired site.inParens (afterRead value) := by
    intro value
    unfold afterRead
    extract_lets afterCheck
    have hend : ∀ invalid, Settles Unpaired site.inParens (afterCheck invalid) := by
      intro invalid
      unfold afterCheck
      extract_lets rest
      have hrest : Settles Unpaired site.inParens (rest ()) :=
        (reads.declarationEnd site after).bind fun last => (fire _ _).bind fun _ =>
          ite reads.unget (pure _)
      exact unless_strict hrest fun o ho => if_neg (by simp [ho])
    refine options_bind fun _ => ite (hend _).pure_bind ?_
    exact (checked _ _ _).bind fun _ => hend _
  split
  · rename_i hbrace
    obtain ⟨hparens, -⟩ : site.inParens = false ∧ after.kind = .lBrace := by simpa using hbrace
    rw [hparens]
    exact pair_bind (throw_untidy _)
  · cases read with
    | some v => exact (hafterRead v).pure_bind
    | none => exact ite (hafterRead _).pure_bind (reads.failAt_bind _ _)

theorem declaration (site : Parser.DeclarationSite) (t : Token) :
    Settles Unpaired site.inParens (Parser.declaration site t) :=
  reads.declaration fun property => reads.declarationValue (K := fun _ => True)
    (fun hf => (exprHeldBack _).bind fun r => hf r trivial) (fun _ => dispatchAll _)
    (declarationTail site t property)

/-! ## Conditions -/

/-- Nothing is asked of a parser that need not be tidy. -/
theorem untidy {q : Prop} : false = true → q := fun h => nomatch h

/-- A test of a selector is not tidy. -/
theorem testedSelector (h : tidy = true → ConditionKind.supports ≠ .supports) :
    Settles Unpaired tidy (Parser.selector none false) := by
  obtain rfl : tidy = false := Bool.eq_false_iff.mpr fun htidy => h htidy rfl
  exact selecting.selector none false

/-- A declaration that is tested is tidy. -/
theorem tested {colon : Token} (t : Token) : Settles Unpaired tidy
    (Parser.declaration { colon := some colon, inParens := true } t) :=
  anyway (declaration { colon := some colon, inParens := true } t)

theorem conditionInParens {kind : ConditionKind} (hkind : tidy = true → kind ≠ .supports)
    (first : Option Token) : Settles Unpaired tidy (Parser.conditionInParens kind first) :=
  reads.conditionInParens (K := fun kind => tidy = true → kind ≠ .supports) (fun _ => nofun)
    testedSelector (fun _ => tested) hkind first

/-- **A condition** is tidy unless it tests selectors. -/
theorem condition {kind : ConditionKind} (hkind : tidy = true → kind ≠ .supports) :
    Settles Unpaired tidy (Parser.condition kind) :=
  reads.condition (K := fun kind => tidy = true → kind ≠ .supports) (fun _ => nofun)
    testedSelector (fun _ => tested) hkind

/-!
## What rules and blocks leave behind

Whatever is broken in a block is caught there and passed over, which takes
the note about a bracket off, so that every block is tidy, and with it
every rule that has one. The prelude of a rule is another matter: that of a
style rule and that of `@scope` are caught where they are read, but the
failure of a selector in a condition of `@supports`, or of an import,
leaves the rule with the bracket still noted.
-/

variable {block : BlockParser}

/-! ## Statements -/

theorem unknownRule (t : Token) : Settles Unpaired tidy (Parser.unknownRule t) := by
  unfold Parser.unknownRule
  exact unless_strict ((reads.warn _ _).bind fun _ => reads.moveStream _) fun o ho =>
    if_neg (by simp [ho])

/-! ## At-rules with a body -/

section AtRules

variable (hblock : ∀ start shape, Settles Unpaired true (block start shape))

include hblock

/-- **The at-rule `@scope`** takes the note off before it passes over
itself. -/
theorem scopeRule (t : Token) : Settles Unpaired tidy (Parser.scopeRule block t) := by
  have hpasses : ∀ e, Settles (fun _ => True) tidy (do
      Parser.update fun s => { s with pair := none }
      if (← Parser.options).strict then MonadExcept.throw e
      Parser.recover e false) := fun e =>
    unpair.bind fun _ => unless_strict (recover e false) fun o ho => if_neg (by simp [ho])
  unfold Parser.scopeRule
  refine selecting.scopePrelude.attempt_bind (fun found => ?_) fun e => ?_
  · exact within (fun s s' h => ⟨h.depth, h.inStyle, by simp [h.inScope], h.deferred, h.options,
      h.events⟩) (fun _ => ⟨rfl, rfl, rfl⟩) (anyway (hblock _ _)) fun _ => pure _
  · exact moveStream_bind ((hpasses e).weaken (fun _ _ => trivial) id)

/-- **An at-rule** is tidy if its prelude tests no selectors. -/
theorem atRule (t : Token) (top : Bool)
    (htidy : tidy = true → t.name ≠ "supports" ∧ t.name ≠ "import") :
    Settles Unpaired tidy (Parser.atRule block t top) := by
  refine reads.atRule (fun _ _ => anyway (hblock _ _)) t top (condition fun _ => nofun)
    (fun hname => ?_) (fun hname => ?_) (scopeRule hblock t) (unknownRule t)
  · obtain rfl : tidy = false := Bool.eq_false_iff.mpr fun h => (htidy h).2 hname
    exact reads.importRule (conditionInParens untidy) t
  · obtain rfl : tidy = false := Bool.eq_false_iff.mpr fun h => (htidy h).1 hname
    exact condition untidy

end AtRules

/-! ## Style rules -/

/-- **Changing the store**, whatever bracket is noted. -/
theorem store_bind {α β : Type} {P : Option TokenKind → Prop} {p : Parser α} {f : α → Parser β}
    (hp : TouchesStore p) (hf : ∀ a, Settles P tidy (f a)) : Settles P tidy (p >>= f) := by
  have hrun : ∀ s, ∃ a store, (p >>= f) s = f a { s with store := store } := by
    intro s
    obtain ⟨a, store, hrun, -⟩ := hp s
    exact ⟨a, store, Parser.bind_ok hrun⟩
  refine ⟨fun s hs => ?_, fun s hs => ?_, fun htidy s hs => ?_⟩ <;>
    obtain ⟨a, store, hrun⟩ := hrun s <;> rw [hrun]
  · have h := (hf a).restores { s with store := store } hs
    exact ⟨h.depth, h.inStyle, h.inScope, h.deferred, h.options, h.events⟩
  · exact (hf a).ok { s with store := store } hs
  · exact (hf a).error htidy { s with store := store } hs

theorem remembered (loc : Location) : Settles Unpaired tidy (Parser.remembered loc) := by
  unfold Parser.remembered
  refine of_modifyGet (fun s => ?_) fun s hP => ?_ <;> cases s.store
  · exact Restored.refl s
  · exact ⟨rfl, rfl, rfl, id, rfl, List.suffix_rfl⟩
  · exact hP
  · exact hP

theorem replay (events : List Event) : Settles Unpaired tidy (Parser.replay events) :=
  of_modifyGet (fun _ => ⟨rfl, rfl, rfl, id, rfl, List.suffix_append _ _⟩) fun _ => id

theorem checkNesting (selectors : List Selector) (loc : Location) :
    Settles Unpaired tidy (Parser.checkNesting selectors loc) := by
  unfold Parser.checkNesting
  exact looking fun s => ite (fire _ _) (pure _)

/-- **A broken rule**, whatever bracket is noted. -/
theorem ruleFailed {P : Option TokenKind → Prop} (e : Diagnostic) (braceSeen : Bool) :
    Settles P tidy (Parser.ruleFailed e braceSeen) := by
  unfold Parser.ruleFailed
  exact unless_strict ((recover e braceSeen).bind fun _ => pure _) fun o ho =>
    if_neg (by simp [ho])

section Rules

variable (hblock : ∀ start shape, Settles Unpaired true (block start shape))

include hblock

theorem ruleBody (t : Token) (storable : Bool) (selectors : List Selector) :
    Settles Unpaired tidy (Parser.ruleBody block t storable selectors) := by
  unfold Parser.ruleBody
  extract_lets start shape filed rest
  have hfailed : ∀ (P : Option TokenKind → Prop) id e braceSeen, Settles P tidy
      (Parser.dropFromStore id >>= fun _ => Parser.ruleFailed e braceSeen) :=
    fun P id e braceSeen => store_bind (Lockstep.dropFromStore_touchesStore id) fun _ =>
      ruleFailed e braceSeen
  have hrest : ∀ id, Settles Unpaired tidy (rest id) := by
    intro id
    refine (checkNesting selectors t.location).bind fun _ => ?_
    have hreuse : Settles Unpaired true (Parser.mustReuse [.lBrace]) := reads.mustReuse _
    refine hreuse.attempt_bind (fun _ => ?_) fun e => hfailed _ id e false
    refine (hblock _ _).attempt_bind (fun stop => ?_) fun e => hfailed _ id e true
    exact ite (store_bind (Lockstep.dropFromStore_touchesStore id) fun _ => pure _)
      (store_bind (Lockstep.fileInStore_touchesStore _ id) fun _ => pure _)
  exact ite (store_bind (Lockstep.openInStore_touchesStore start) hrest) (hrest none).pure_bind

theorem styleRule (t : Token) : Settles Unpaired tidy (Parser.styleRule block t) := by
  unfold Parser.styleRule
  refine looking fun s => ?_
  extract_lets storable rest
  have hrest : ∀ found, Settles Unpaired tidy (rest found) := by
    rintro (_ | ⟨events, stop⟩)
    · refine (selecting.ruleHead t).attempt_bind (fun selectors => ?_) fun e => ruleFailed e false
      cases selectors with
      | none => exact pure _
      | some selectors => exact ruleBody hblock t storable selectors
    · exact (replay _).bind fun _ => (reads.seek _).bind fun _ => pure _
  exact ite ((remembered _).bind hrest) (hrest none).pure_bind

end Rules

/-! ## Blocks -/

section Items

variable (hblock : ∀ start shape, Settles Unpaired true (block start shape))

include hblock

theorem blockItem (shape : BlockShape) (t : Token) :
    Settles Unpaired false (Parser.blockItem block shape t) :=
  reads.blockItem (fun _ _ => anyway (hblock _ _)) (declaration { scope := shape.scope } t)
    (atRule hblock t false untidy) (styleRule hblock t)

/-- **One item that starts with a token.** A broken one is passed over,
which takes the note off. -/
theorem blockItemStep (shape : BlockShape) (sofar : Parser.BlockSoFar) (t : Token) :
    Settles Unpaired tidy (Parser.blockItemStep block shape sofar t) := by
  unfold Parser.blockItemStep
  extract_lets key rest
  refine ite (reads.failAt_bind _ _) ((blockItem hblock shape t).attempt_bind (fun content => pure _)
    fun e => ?_)
  exact unless_strict ((recover e false).bind fun _ => pure _) fun o ho => if_neg (by simp [ho])

theorem blockItems (shape : BlockShape) (toEnd : Bool) :
    Settles Unpaired tidy (Parser.blockItems block shape toEnd) := by
  unfold Parser.blockItems
  extract_lets styles
  exact within (fun s s' h => ⟨by simp [h.depth], by simp [h.inStyle], h.inScope, h.deferred,
    h.options, h.events⟩) (fun _ => ⟨rfl, rfl, rfl⟩)
    (reads.repeating (reads.blockStep (blockItemStep hblock shape) toEnd) _) fun _ => reads.current.bind fun _ => pure _

end Items

end Settles

theorem Settles.block (start : Location) (shape : BlockShape) :
    Settles Unpaired true (Parser.block start shape) :=
  reads.block (fun hblock shape => blockItems hblock shape false) start shape

end Stylesheet
