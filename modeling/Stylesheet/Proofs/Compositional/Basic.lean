import Stylesheet.Parse.Media
import Stylesheet.Parse.Selector
import Stylesheet.Proofs.Reads.Basic

/-!
# Judgements that are kept in putting parsers together

Much of what is said of every parser is said of the few things parsers are
made of, and kept by each way to put them together: what a parser leaves
alone, what it complains about, what it has in common with another. A
judgement of this kind is **compositional**, and holds of everything that
is made of nothing else.

What a judgement has to hold of is little, because a reader of a text looks
at little: at the tokens, the counters and most of the options. Whether the
parse is strict, what was remembered and what was reported is its
**outside**, and is left to those who catch a failure, use the store or
check a declaration. What is proved here is proved of all the others.
-/

namespace Stylesheet

open Parse (State)
open Stylesheet.Parser

namespace Parse

/-- **What a reader of a text neither looks at nor changes.** -/
structure Outside where
  /-- Whether the parse is strict. -/
  strict : Bool
  /-- Whether rules of earlier parses are to be used. -/
  reuseCache : Bool
  /-- Whether declarations go unchecked. -/
  noValidation : Bool
  /-- The memory of the checks. -/
  validator : Validator
  /-- The rules of earlier parses. -/
  store : Option BlockStore
  /-- The events reported. -/
  events : List Event
  /-- The events held back. -/
  deferred : Option (List Event)

/-- A state with another outside. -/
def State.within (s : State) (x : Outside) : State :=
  { s with
    options := { s.options with
      strict := x.strict, reuseCache := x.reuseCache, noValidation := x.noValidation }
    validator := x.validator
    store := x.store
    events := x.events
    deferred := x.deferred }

/-- The outside of a state. -/
def State.outside (s : State) : Outside :=
  ⟨s.options.strict, s.options.reuseCache, s.options.noValidation, s.validator, s.store, s.events,
    s.deferred⟩

/-- A change that does not depend on the outside leaves it alone. -/
theorem State.outside_eq_of_within {α : Type} {m : State → α × State}
    (hsame : ∀ s x, m (s.within x) = ((m s).1, (m s).2.within x)) (s : State) :
    (m s).2.outside = s.outside := by
  have hself : (m s).2 = (m s).2.within s.outside := congrArg Prod.snd (hsame s s.outside)
  rw [hself]
  rfl

end Parse

open Parse (Outside)

/-- **A judgement that is kept in putting parsers together** which report
nothing but warnings, and note no bracket. -/
structure Reading (J : (α : Type) → Parser α → Prop) : Prop where
  /-- It holds of an answer at once. -/
  pure {α : Type} (a : α) : J α (Pure.pure a)
  /-- It holds of a failure. -/
  throw {α : Type} (e : Diagnostic) : J α (MonadExcept.throw e)
  /-- It holds of one parser after another. -/
  bind {α β : Type} {p : Parser α} {f : α → Parser β} : J α p → (∀ a, J β (f a)) → J β (p >>= f)
  /-- It holds where the state is looked at, except for its outside. -/
  look {α : Type} {f : State → Parser α} : (∀ s x, f (s.within x) = f s) → (∀ s, J α (f s)) →
    J α (state >>= f)
  /-- It holds where the stream is asked for something. -/
  ask {α : Type} (f : Stream → α × Stream) : J α (Parser.ask f)
  /-- It holds of a warning. -/
  warn (message : String) (loc : Location) : J Unit (Parser.warn message loc)

/-- **A judgement that is kept by readers of statements**, which report events
that complain about nothing, too. -/
structure Reporting (J : (α : Type) → Parser α → Prop) : Prop extends Reading J where
  /-- It holds where an event is reported that complains about nothing. -/
  fire {kind : EventKind} {loc : Location} : Event.diagnostic? ⟨kind, loc⟩ = none →
    J Unit (fire kind loc)

namespace Reading

variable {J : (α : Type) → Parser α → Prop} (h : Reading J) {α β σ : Type}
  {p q : Parser α} {f : α → Parser β}

include h

/-! ## Constructs -/

omit h in
theorem pure_bind {a : α} (hf : J β (f a)) : J β (Pure.pure a >>= f) := hf

theorem throw_bind {e : Diagnostic} : J β ((MonadExcept.throw e : Parser α) >>= f) := h.throw e

omit h in
theorem ite {c : Prop} [Decidable c] (hpos : J α p) (hneg : J α q) :
    J α (if c then p else q) := by
  by_cases hc : c
  · rwa [if_pos hc]
  · rwa [if_neg hc]

theorem discard (hp : J α p) : J Unit (Functor.discard p) := h.bind hp fun _ => h.pure ()

theorem ofExcept (r : Except Diagnostic α) : J α (Parser.ofExcept r) := by
  cases r with
  | ok a => exact h.pure a
  | error e => exact h.throw e

/-! ## The state -/

theorem lookAtOptions {f : Options → Parser α}
    (hsame : ∀ (o : Options) strict reuse unchecked,
      f { o with strict := strict, reuseCache := reuse, noValidation := unchecked } = f o)
    (hf : ∀ o, J α (f o)) : J α (options >>= f) :=
  h.look (f := fun s => f s.options)
    (fun s x => hsame s.options x.strict x.reuseCache x.noValidation) fun s => hf s.options

theorem budget : J Nat Parser.budget := h.look (fun _ _ => rfl) fun _ => h.pure _

theorem current : J Token Parser.current := h.look (fun _ _ => rfl) fun _ => h.pure _

theorem slice (start stop : Nat) : J String (Parser.slice start stop) :=
  h.look (fun _ _ => rfl) fun _ => h.pure _

theorem moveStream (move : Stream → Stream) : J Unit (Parser.moveStream move) :=
  h.ask fun s => ((), move s)

/-! ## Tokens -/

theorem demand (f : Stream → Except Diagnostic α × Stream) : J α (Parser.demand f) :=
  h.bind (h.ask f) fun r => h.ofExcept r

theorem next (placeholders blanks : Bool) : J Token (Parser.next placeholders blanks) := h.ask _

theorem grab : J Token Parser.grab := h.ask _

theorem matchKinds (kinds : List TokenKind) : J _ (Parser.matchKinds kinds) := h.ask _

theorem matchSmart (kinds : List TokenKind) : J _ (Parser.matchSmart kinds) := h.ask _

theorem matchKeyword (set : Keywords) : J _ (Parser.matchKeyword set) := h.ask _

theorem matchReuse (kinds : List TokenKind) : J _ (Parser.matchReuse kinds) := h.ask _

theorem mustMatch (kinds : List TokenKind) : J _ (Parser.mustMatch kinds) := h.demand _

theorem mustMatchSmart (kinds : List TokenKind) : J _ (Parser.mustMatchSmart kinds) := h.demand _

theorem mustMatchKeyword (set : Keywords) : J _ (Parser.mustMatchKeyword set) := h.demand _

theorem mustReuse (kinds : List TokenKind) : J _ (Parser.mustReuse kinds) := h.demand _

theorem seek (loc : Location) : J Unit (Parser.seek loc) := h.moveStream _

theorem unget : J Unit Parser.unget :=
  h.look (fun _ _ => rfl) fun _ => h.bind (h.ofExcept _) fun _ => h.moveStream _

theorem failAt (expected : String) (t : Token) : J α (Parser.failAt expected t) := h.throw _

theorem failAt_bind (expected : String) (t : Token) :
    J β ((Parser.failAt expected t : Parser α) >>= f) := h.throw_bind

theorem failHere (expected : String) : J α (Parser.failHere expected) :=
  h.bind h.current fun t => h.failAt expected t

/-! ## Repetition -/

theorem rounds {step : σ → Parser (ForInStep σ)} (hstep : ∀ a, J _ (step a)) (n : Nat) (a : σ) :
    J σ (Parser.rounds step n a) := by
  induction n generalizing a with
  | zero => exact h.pure a
  | succ n ih =>
    refine h.bind (hstep a) fun r => ?_
    cases r with
    | done b => exact h.pure b
    | yield b => exact ih b

theorem repeating {step : σ → Parser (ForInStep σ)} (hstep : ∀ a, J _ (step a)) (a : σ) :
    J σ (Parser.repeating a step) :=
  h.bind h.budget fun n => h.rounds hstep n a

/-!
## Judgements on readers of values, media queries and selectors

Nothing here catches a failure or looks outside, and nothing is reported
but warnings, so that a judgement holds of all of it. Where a construct can
hold itself, it holds of what is inside by induction on how deep that may
still be.
-/

/-! ### Values -/

section Values

variable {inner : ExprParser}

theorem hashPart (t : Token) : J _ (Parser.hashPart t) := by
  unfold Parser.hashPart
  exact ite (h.pure _) (h.bind (h.warn _ _) fun _ => h.pure _)

theorem blockPart (hinner : ∀ ends raw, J _ (inner ends raw)) (t : Token) (close : TokenKind)
    (raw : Bool) : J _ (Parser.blockPart inner t close raw) := by
  unfold Parser.blockPart
  exact h.bind (hinner _ _) fun _ => h.bind h.current fun _ =>
    ite (h.bind (h.slice _ _) fun _ => h.pure _) (h.failAt_bind _ _)

theorem functionPart (hinner : ∀ ends raw, J _ (inner ends raw)) (t : Token) (raw : Bool) :
    J _ (Parser.functionPart inner t raw) := by
  unfold Parser.functionPart
  refine h.bind (hinner _ _) fun args => h.bind h.current fun close => ?_
  refine ite (h.bind (h.slice _ _) fun _ => ?_) (h.failAt_bind _ _)
  cases args with
  | none => exact h.pure _
  | some args => exact h.pure _

theorem plainPart (hinner : ∀ ends raw, J _ (inner ends raw)) (t : Token) (raw : Bool) :
    J _ (Parser.plainPart inner t raw) := by
  unfold Parser.plainPart
  refine ite ?_ (ite (h.pure _) (ite (h.hashPart t) (ite (h.pure _) (h.pure _))))
  exact h.lookAtOptions (fun _ _ _ _ => rfl) fun _ =>
    ite (h.failAt_bind _ _) (h.functionPart hinner t raw)

theorem exprStep (hinner : ∀ ends raw, J _ (inner ends raw)) (ends : List TokenKind) (raw : Bool)
    (parts : List ValuePart) : J _ (Parser.exprStep inner ends raw parts) := by
  unfold Parser.exprStep
  refine h.bind (h.next true false) fun t => ite (h.pure _) ?_
  cases closingKind? t.kind with
  | some close =>
    exact ite (h.pure _) (h.bind (h.blockPart hinner t close raw) fun _ => h.pure _)
  | none => exact h.bind (h.plainPart hinner t raw) fun _ => h.pure _

end Values

theorem exprTo (depth : Nat) (ends : List TokenKind) (raw : Bool) :
    J _ (Parser.exprTo depth ends raw) := by
  induction depth generalizing ends raw with
  | zero => exact h.throw _
  | succ depth ih =>
    unfold Parser.exprTo
    refine h.bind (h.repeating (h.exprStep ih ends raw) []) fun parts => ite (h.pure _) ?_
    exact h.look (fun _ _ => rfl) fun _ => h.pure _

theorem expr (ends : List TokenKind) (raw : Bool) : J _ (Parser.expr ends raw) :=
  h.bind h.budget fun depth => h.exprTo depth ends raw

theorem function (t : Token) (raw : Bool) : J _ (Parser.function t raw) :=
  h.functionPart h.expr t raw

/-! ### Media queries -/

theorem mediaFeature (start : Option Token) : J _ (Parser.mediaFeature start) := by
  unfold Parser.mediaFeature
  extract_lets feature
  have hfeature : ∀ t, J _ (feature t) := fun t =>
    ite (h.bind (h.mustMatchSmart _) fun _ => h.bind (h.expr _ _) fun _ =>
      h.bind (h.mustReuse _) fun _ => h.bind (h.slice _ _) fun _ => h.pure _) (h.failAt_bind _ _)
  cases start with
  | some t => exact pure_bind (hfeature t)
  | none => exact h.bind h.grab hfeature

theorem featureStep (sofar : List MediaFeature × Keywords × Bool) :
    J _ (Parser.featureStep sofar) := by
  unfold Parser.featureStep
  refine h.bind (h.matchKeyword _) fun found => ?_
  cases found with
  | none => exact h.pure _
  | some word => exact h.bind (h.mediaFeature none) fun _ => h.pure _

theorem mediaQuery (start : Token) : J _ (Parser.mediaQuery start) := by
  unfold Parser.mediaQuery
  extract_lets modifier query
  have hquery : ∀ first, J _ (query first) := by
    intro first
    unfold query
    extract_lets mediaType joiners rest
    have hrest : ∀ features, J _ (rest features) := fun features =>
      h.bind (h.repeating h.featureStep _) fun _ => h.bind h.current fun _ =>
        h.bind (h.slice _ _) fun _ => h.pure _
    exact ite (pure_bind (hrest _)) (h.bind (h.mediaFeature _) fun _ => pure_bind (hrest _))
  exact ite (h.bind (h.mustMatchSmart _) hquery) (pure_bind (hquery _))

theorem queryStep (sofar : List MediaQuery × Option Token) : J _ (Parser.queryStep sofar) := by
  unfold Parser.queryStep
  rcases sofar with ⟨queries, _ | t⟩
  · exact h.pure _
  · exact h.bind (h.mediaQuery t) fun _ => h.bind (h.matchSmart _) fun _ =>
      ite (h.pure _) (h.bind (h.matchSmart _) fun _ => h.pure _)

theorem mediaQueries (reuse : Bool) : J _ (Parser.mediaQueries reuse) := by
  unfold Parser.mediaQueries
  extract_lets queries
  have hqueries : ∀ first, J _ (queries first) := fun first =>
    h.bind (h.repeating h.queryStep _) fun _ => h.pure _
  cases reuse with
  | true => exact h.bind (h.matchReuse _) hqueries
  | false => exact h.bind (h.matchSmart _) hqueries

/-! ### Modifiers -/

theorem attributeHead (t : Token) : J _ (Parser.attributeHead t) := by
  unfold Parser.attributeHead
  split
  · exact h.pure _
  · exact h.bind (h.discard (h.mustMatch _)) fun _ => h.pure _
  · refine h.bind (h.next false true) fun after => ?_
    split
    · exact h.pure _
    · exact h.pure _
    · exact h.pure _
    · exact h.pure _
    · exact h.pure _
    · exact h.failAt _ _

theorem attributeOp (head : AttributeHead) : J _ (Parser.attributeOp head) := by
  unfold Parser.attributeOp
  exact ite (h.bind (h.mustMatchSmart _) fun _ => ite (h.pure _) (h.pure _)) (h.pure _)

theorem attributeValue : J _ Parser.attributeValue := by
  unfold Parser.attributeValue
  exact h.bind (h.mustMatchSmart _) fun _ => h.bind h.grab fun _ =>
    ite (h.pure _) (ite (h.pure _) (h.failAt _ _))

/-- **An attribute test**, where a judgement holds of noting a bracket. -/
theorem attributeTest_of_setPair (hpair : ∀ pair, J Unit (update ({ · with pair })))
    (t : Token) : J _ (Parser.attributeTest t) := by
  unfold Parser.attributeTest
  refine h.bind (h.mustMatchSmart _) fun first => h.bind (hpair _) fun _ => ?_
  refine h.bind (h.attributeHead first) fun head => ?_
  extract_lets afterName
  have hafterName : ∀ name, J _ (afterName name) := by
    intro name
    refine h.bind (h.attributeOp head) fun head => ?_
    extract_lets afterValue
    have hafterValue : ∀ found, J _ (afterValue found) := by
      rintro ⟨value, flag, close⟩
      have hend : ∀ close : Token, J _ (do
          update fun s => { s with pair := none }
          return (⟨.attribute ⟨head.ns, name, head.op, value, flag⟩,
            ← Parser.slice t.location.offset close.stop.offset, t.location⟩ : Modifier Selector)) :=
        fun close => h.bind (hpair none) fun _ => h.bind (h.slice _ _) fun _ => h.pure _
      cases close with
      | some close => exact pure_bind (hend close)
      | none => exact h.bind (h.mustMatchSmart _) hend
    refine ite (h.bind h.attributeValue fun ⟨value, flag, close⟩ => ?_)
      (pure_bind (hafterValue (none, none, head.close)))
    exact pure_bind (hafterValue (some value, flag, close))
  cases head.name with
  | some name => exact pure_bind (hafterName name)
  | none => exact h.bind (h.mustMatch _) fun _ => pure_bind (hafterName _)

section Arguments

variable {group : GroupParser}

theorem selectorArgs (hgroup : ∀ first relative lax, J _ (group first relative lax))
    (name : String) : J _ (Parser.selectorArgs group name) := by
  unfold Parser.selectorArgs
  refine h.bind (hgroup _ _ _) fun list => ?_
  cases list with
  | none => exact h.failHere _
  | some list => exact h.bind (h.discard (h.mustReuse _)) fun _ => h.pure _

theorem countArgs (hgroup : ∀ first relative lax, J _ (group first relative lax))
    (name : String) : J _ (Parser.countArgs group name) := by
  unfold Parser.countArgs
  refine h.bind (h.ask _) fun count => h.bind (h.next false true) fun first => ?_
  extract_lets rest
  have hrest : ∀ t, J _ (rest t) := by
    intro t
    cases count with
    | some count =>
      exact ite (h.bind (h.selectorArgs hgroup name) fun _ => h.pure _)
        (ite (h.pure _) (h.failAt _ _))
    | none => exact ite (h.pure _) (h.failAt _ _)
  exact ite (h.bind h.grab hrest) (pure_bind (hrest _))

theorem pseudoArgs (hgroup : ∀ first relative lax, J _ (group first relative lax))
    (name : String) : J _ (Parser.pseudoArgs group name) := by
  unfold Parser.pseudoArgs
  refine ite (h.countArgs hgroup name)
    (ite (h.bind (h.selectorArgs hgroup name) fun _ => h.pure _) ?_)
  exact h.bind (h.expr _ _) fun _ => h.bind h.current fun _ =>
    ite (h.pure _) (h.failAt_bind _ _)

/-- **A pseudo-class**, where a judgement holds of noting a bracket. -/
theorem pseudo_of_setPair (hpair : ∀ pair, J Unit (update ({ · with pair })))
    (hgroup : ∀ first relative lax, J _ (group first relative lax)) (t : Token) :
    J _ (Parser.pseudo group t) := by
  unfold Parser.pseudo
  refine h.bind (h.matchKinds _) fun colons => h.bind (h.mustMatch _) fun name => ?_
  extract_lets rest
  have hrest : ∀ found, J _ (rest found) := fun _ =>
    h.bind h.current fun _ => h.bind (h.slice _ _) fun _ => h.pure _
  refine ite (pure_bind (hrest (name.lower, none))) (h.bind (hpair _) fun _ => ?_)
  exact h.bind (h.pseudoArgs hgroup _) fun args => h.bind (hpair _) fun _ =>
    pure_bind (hrest (name.name, some args))

end Arguments

end Reading

/-- **A judgement that is kept by readers of selectors**, which note a bracket
while an attribute test or the argument of a pseudo-class is read. -/
structure Selecting (J : (α : Type) → Parser α → Prop) : Prop extends Reading J where
  /-- It holds of an attribute test. -/
  attributeTest (t : Token) : J _ (Parser.attributeTest t)
  /-- It holds of a pseudo-class if it holds of lists of selectors. -/
  pseudo {group : GroupParser} :
    (∀ first relative lax, J _ (group first relative lax)) → ∀ t, J _ (Parser.pseudo group t)

/-- **A judgement that is kept wherever the state is changed.** -/
structure Composes (J : (α : Type) → Parser α → Prop) : Prop extends Selecting J where
  /-- It holds where the state is changed, except for its outside and the
  options. -/
  act {α : Type} {m : State → α × State} :
    (∀ s x, m (s.within x) = ((m s).1, (m s).2.within x)) →
    (∀ s, (m s).2.options = s.options) → J α (modifyGet m)
  ask _ := act (fun _ _ => rfl) fun _ => rfl
  attributeTest t := toReading.attributeTest_of_setPair
    (fun _ => act (fun _ _ => rfl) fun _ => rfl) t
  pseudo hgroup t := toReading.pseudo_of_setPair
    (fun _ => act (fun _ _ => rfl) fun _ => rfl) hgroup t

/-- **A judgement that is kept in putting parsers together.** -/
structure Compositional (J : (α : Type) → Parser α → Prop) : Prop extends Composes J, Reporting J

namespace Composes

variable {J : (α : Type) → Parser α → Prop} (h : Composes J)

include h

/-- Changing the state, except for its outside. -/
theorem adjust {m : State → State} (hsame : ∀ s x, m (s.within x) = (m s).within x)
    (hoptions : ∀ s, (m s).options = s.options) : J Unit (update m) :=
  h.act (fun s x => Prod.ext rfl (hsame s x)) hoptions

theorem setPair (pair : Option TokenKind) :
    J Unit (update fun s => { s with pair := pair }) :=
  h.adjust (fun _ _ => rfl) fun _ => rfl

end Composes

namespace Selecting

open Reading (pure_bind ite)

variable {J : (α : Type) → Parser α → Prop} (h : Selecting J)

include h

section Selectors

variable {group : GroupParser}

theorem modifier? (hgroup : ∀ first relative lax, J _ (group first relative lax)) (t : Token) :
    J _ (Parser.modifier? group t) := by
  unfold Parser.modifier?
  split
  · exact h.pure _
  · exact h.pure _
  · exact h.bind (h.mustMatch _) fun _ => h.bind h.current fun _ => h.pure _
  · exact h.bind (h.attributeTest t) fun _ => h.bind h.current fun _ => h.pure _
  · exact h.bind (h.pseudo hgroup t) fun _ => h.bind h.current fun _ => h.pure _
  · exact h.pure _

/-! ### Compounds -/

theorem modifierStep (hgroup : ∀ first relative lax, J _ (group first relative lax))
    (c : CompoundSoFar) : J _ (Parser.modifierStep group c) := by
  unfold Parser.modifierStep
  extract_lets rest
  have hrest : ∀ t, J _ (rest t) := by
    intro t
    refine h.bind (h.modifier? hgroup t) fun r => ?_
    rcases r with _ | ⟨m, stop⟩
    · exact h.pure _
    · exact h.pure _
  cases c.pending with
  | some t => exact pure_bind (hrest t)
  | none => exact h.bind (h.next false true) hrest

theorem ampStep (sofar : CompoundSoFar × Token) : J _ (Parser.ampStep sofar) := by
  unfold Parser.ampStep
  exact ite (h.bind (h.next false true) fun _ => h.pure _) (h.pure _)

theorem nameInNamespace (ns : String) (t : Token) : J _ (Parser.nameInNamespace ns t) := by
  unfold Parser.nameInNamespace
  refine h.bind (h.matchKinds _) fun found => ?_
  cases found with
  | some name => exact h.pure _
  | none => exact ite (h.pure _) (h.bind h.unget fun _ => h.pure _)

theorem elementName (t : Token) (stop : Location) : J _ (Parser.elementName t stop) := by
  unfold Parser.elementName
  exact ite (h.nameInNamespace _ _) (ite (h.bind (h.next false true) fun _ =>
    ite (h.nameInNamespace _ _) (h.pure _)) (h.pure _))

theorem compound (hgroup : ∀ first relative lax, J _ (group first relative lax))
    (start : Option Token) : J _ (Parser.compound group start) := by
  unfold Parser.compound
  extract_lets read
  have hread : ∀ t, J _ (read t) := by
    intro t
    refine ite (h.pure _) (h.bind (h.repeating h.ampStep _) fun r => ?_)
    refine h.bind (h.elementName _ _) fun element => ?_
    cases element with
    | none => exact h.pure _
    | some element =>
      exact h.bind (h.repeating (h.modifierStep hgroup) _) fun _ =>
        h.bind (h.slice _ _) fun _ => h.pure _
  cases start with
  | some t => exact pure_bind (hread t)
  | none => exact h.bind h.grab hread

/-! ### Selectors -/

theorem afterCombinator (hgroup : ∀ first relative lax, J _ (group first relative lax))
    (t : Token) (sofar : SelectorSoFar) : J _ (do
      match ← Parser.compound group none with
      | some (c, stop) => return ForInStep.yield (sofar.push (combinatorOf t) c stop)
      | none => Parser.failHere "") := by
  refine h.bind (h.compound hgroup none) fun r => ?_
  rcases r with _ | ⟨c, stop⟩
  · exact h.failHere _
  · exact h.pure _

theorem afterBlank (hgroup : ∀ first relative lax, J _ (group first relative lax))
    (blank : Token) (sofar : SelectorSoFar) :
    J _ (Parser.afterBlank group blank sofar) := by
  unfold Parser.afterBlank
  refine h.bind h.grab fun t => ite (h.pure _) (ite (h.afterCombinator hgroup t sofar) ?_)
  refine h.bind (h.compound hgroup (some t)) fun r => ?_
  rcases r with _ | ⟨c, stop⟩
  · exact h.pure _
  · exact h.pure _

theorem selectorStep (hgroup : ∀ first relative lax, J _ (group first relative lax))
    (sofar : SelectorSoFar) : J _ (Parser.selectorStep group sofar) := by
  unfold Parser.selectorStep
  extract_lets plain step rest
  have hstep : ∀ t, J _ (step t) := fun t =>
    ite (h.afterBlank hgroup t plain) (h.pure _)
  have hrest : ∀ t, J _ (rest t) := fun t =>
    ite (h.afterCombinator hgroup t plain)
      (ite (h.bind (h.next false true) hstep) (pure_bind (hstep t)))
  cases sofar.pending with
  | some t => exact pure_bind (hrest t)
  | none => exact h.bind h.current hrest

theorem selectorWith (hgroup : ∀ first relative lax, J _ (group first relative lax))
    (first : Option Token) (relative : Bool) :
    J _ (Parser.selectorWith group first relative) := by
  unfold Parser.selectorWith
  extract_lets rest
  have hrest : ∀ t, J _ (rest t) := by
    intro t
    unfold rest
    extract_lets items
    have hitems : ∀ head, J _ (items head) := by
      intro head
      cases head with
      | none => exact h.pure _
      | some head =>
        exact h.bind (h.repeating (h.selectorStep hgroup) _) fun _ =>
          h.bind (h.slice _ _) fun _ => h.pure _
    refine ite (pure_bind (hitems (some ⟨[], t.stop, some t⟩)))
      (h.bind (h.compound hgroup (some t)) fun r => ?_)
    rcases r with _ | ⟨c, stop⟩
    · exact pure_bind (hitems none)
    · exact pure_bind (hitems (some ⟨[.compound c], stop, none⟩))
  cases first with
  | some t => exact ite (h.bind h.grab hrest) (pure_bind (hrest t))
  | none => exact h.bind h.grab hrest

theorem groupStep (hgroup : ∀ first relative lax, J _ (group first relative lax))
    (relative lax : Bool) (sofar : GroupSoFar) :
    J _ (Parser.groupStep group relative lax sofar) := by
  unfold Parser.groupStep
  refine h.bind (h.selectorWith hgroup sofar.first relative) fun selector => ite (h.pure _) ?_
  refine h.bind h.current fun t => ?_
  exact ite (h.bind h.grab fun _ => ite (h.pure _) (h.pure _))
    (pure_bind (ite (h.pure _) (h.pure _)))

end Selectors

theorem groupTo (depth : Nat) (first : Option Token) (relative lax : Bool) :
    J _ (Parser.groupTo depth first relative lax) := by
  induction depth generalizing first relative lax with
  | zero => exact h.throw _
  | succ depth ih =>
    unfold Parser.groupTo
    refine h.bind (h.repeating (h.groupStep ih relative lax) _) fun sofar => ?_
    exact ite (h.bind (h.failHere _) fun _ => h.pure _) (h.pure _)

theorem selectorGroup (first : Option Token) (relative lax : Bool) :
    J _ (Parser.selectorGroup first relative lax) :=
  h.bind h.budget fun depth => h.groupTo depth first relative lax

theorem selector (first : Option Token) (relative : Bool) :
    J _ (Parser.selector first relative) :=
  h.bind h.budget fun depth => h.selectorWith (h.groupTo depth) first relative

end Selecting

end Stylesheet
