import Stylesheet.Proofs.Completion
import Stylesheet.Proofs.Lockstep.Block

/-!
# Checks of declarations

A declaration is checked in the middle of being read: after its value, and
before what ends it. Nevertheless a check has no part in the reading. In a
parse that is not strict, it decides only what is reported to be wrong with
the declaration, so that a parse without checks reports the same events
with nothing wrong in them (`events_unchecked`).

Two such parses run **abreast**: they differ in the checks they make, in
what these remember, and in what is reported to be wrong.
-/

namespace Stylesheet

open Parse (State)
open Stylesheet.Parser

/-- **An event as a parse without checks reports it.** -/
def Event.unchecked (e : Event) : Event :=
  match e.kind with
  | .property d => { e with kind := .property { d with invalid := none } }
  | _ => e

/-- An event with nothing wrong in it is reported by a parse without
checks. -/
theorem Event.unchecked_eq_self {e : Event} (h : ∀ d, e.kind = .property d → d.invalid = none) :
    e.unchecked = e := by
  obtain ⟨kind, loc⟩ := e
  cases kind with
  | property d =>
    obtain ⟨_, _, _, _, _, _⟩ := d
    obtain rfl : _ = none := h _ rfl
    rfl
  | _ => rfl

/-- A mild event is reported by a parse without checks. -/
theorem Event.IsMild.unchecked {e : Event} (h : e.IsMild) : e.unchecked = e := by
  refine Event.unchecked_eq_self fun d hd => ?_
  obtain hnone | ⟨loc, rfl⟩ := h
  · obtain ⟨kind, loc⟩ := e
    cases hd
    exact hnone
  · cases hd

/-- What is outside of a parse without checks, beside one with checks; it
may remember other values. -/
def Parse.Outside.unchecked (x : Parse.Outside) (v : Validator) : Parse.Outside :=
  { x with
    noValidation := true
    validator := v
    events := x.events.map Event.unchecked
    deferred := x.deferred.map (·.map Event.unchecked) }

namespace Parse.State

/-- **The state of a parse without checks** beside this one. -/
def unchecked (s : State) (v : Validator) : State := s.within (s.outside.unchecked v)

/-- **Two parses that run abreast**, the second without checks. Neither is
strict, and neither has rules of earlier parses. -/
structure Abreast (s s' : State) : Prop where
  /-- They differ in the checks alone. -/
  unchecked : ∃ v, s' = s.unchecked v
  /-- The first is not strict. -/
  lax : s.options.strict = false
  /-- The first has no rules of earlier parses. -/
  storeless : s.store = none

end Parse.State

open Parse.State (Abreast)

/-- **Two parsers that run abreast**: they come to the same answer. -/
def RunAbreast {α : Type} (p q : Parser α) : Prop :=
  ∀ s s', Abreast s s' → (p s).1 = (q s').1 ∧ Abreast (p s).2 (q s').2

/-- **A parser that checks do not sway.** -/
abbrev Unswayed {α : Type} (p : Parser α) : Prop := RunAbreast p p

namespace RunAbreast

variable {α β : Type} {p q : Parser α} {f g : α → Parser β}

/-! ## Constructs -/

theorem pure (a : α) : Unswayed (Pure.pure a : Parser α) := fun _ _ h => ⟨rfl, h⟩

theorem throw (e : Diagnostic) : Unswayed (MonadExcept.throw e : Parser α) :=
  fun _ _ h => ⟨rfl, h⟩

theorem bind_of {P : α → Prop} (h : RunAbreast p q) (hp : ∀ s a, (p s).1 = .ok a → P a)
    (hf : ∀ a, P a → RunAbreast (f a) (g a)) : RunAbreast (p >>= f) (q >>= g) := by
  intro s s' habreast
  obtain ⟨hanswer, hafter⟩ := h s s' habreast
  rcases hrun : (p s).1 with e | a
  · rw [bind_error (Prod.ext hrun rfl),
      bind_error (Prod.ext (hanswer.symm.trans hrun) rfl)]
    exact ⟨rfl, hafter⟩
  · rw [bind_ok (Prod.ext hrun rfl),
      bind_ok (Prod.ext (hanswer.symm.trans hrun) rfl)]
    exact hf a (hp s a hrun) _ _ hafter

theorem bind (h : RunAbreast p q) (hf : ∀ a, RunAbreast (f a) (g a)) :
    RunAbreast (p >>= f) (q >>= g) :=
  bind_of (P := fun _ => True) h (fun _ _ _ => trivial) fun a _ => hf a

theorem ite {c : Prop} [Decidable c] {p' q' : Parser α} (hpos : RunAbreast p q)
    (hneg : RunAbreast p' q') : RunAbreast (if c then p else p') (if c then q else q') := by
  by_cases hc : c
  · rwa [if_pos hc, if_pos hc]
  · rwa [if_neg hc, if_neg hc]

theorem attempt (h : RunAbreast p q) : RunAbreast (Parser.attempt p) (Parser.attempt q) := by
  intro s s' habreast
  obtain ⟨hanswer, hafter⟩ := h s s' habreast
  rw [attempt_apply, attempt_apply]
  exact ⟨congrArg Except.ok hanswer, hafter⟩

/-! ## The state -/

theorem update {m m' : State → State} (h : ∀ s s', Abreast s s' → Abreast (m s) (m' s')) :
    RunAbreast (Parser.update m) (Parser.update m') := fun s s' habreast =>
  ⟨rfl, h s s' habreast⟩

/-- **Reporting an event, or holding it back**, which a parse without checks
reports in its own form. -/
theorem fire {kind kind' : EventKind} {loc : Location}
    (h : Event.unchecked ⟨kind, loc⟩ = ⟨kind', loc⟩) :
    RunAbreast (Parser.fire kind loc) (Parser.fire kind' loc) := by
  rw [Lockstep.fire_eq, Lockstep.fire_eq]
  refine update fun s s' habreast => ?_
  obtain ⟨⟨v, rfl⟩, hlax, hstore⟩ := habreast
  obtain ⟨_, _, _, _, _, deferred, _, _, _, _, _⟩ := s
  obtain rfl : _ = none := hstore
  cases deferred with
  | none => exact ⟨⟨v, h ▸ rfl⟩, hlax, rfl⟩
  | some held => exact ⟨⟨v, h ▸ rfl⟩, hlax, rfl⟩

/-- Reporting an event that a parse without checks reports, too. -/
theorem fire_same {kind : EventKind} {loc : Location}
    (h : ∀ d, kind = .property d → d.invalid = none) : Unswayed (Parser.fire kind loc) :=
  fire (Event.unchecked_eq_self h)

theorem dispatch {e e' : Event} (h : e.unchecked = e') :
    RunAbreast (Parser.dispatch e) (Parser.dispatch e') := by
  refine update fun s s' habreast => ?_
  obtain ⟨⟨v, rfl⟩, hlax, hstore⟩ := habreast
  obtain ⟨_, _, _, _, _, _, _, _, _, _, _⟩ := s
  obtain rfl : _ = none := hstore
  exact ⟨⟨v, h ▸ rfl⟩, hlax, rfl⟩

theorem dispatchAll {events : List Event} (h : ∀ e ∈ events, e.unchecked = e) :
    Unswayed (events.forM Parser.dispatch) := by
  induction events with
  | nil => exact pure ()
  | cons e events ih =>
    exact bind (dispatch (h e List.mem_cons_self)) fun _ =>
      ih fun e he => h e (List.mem_cons_of_mem _ he)

/-- **Checks do not sway what is put together from parsers that do not look
outside.** -/
theorem compositional : Compositional fun _ p => Unswayed p where
  pure := pure
  throw := throw
  bind h hf := bind h hf
  look {_ f} hsame hf s s' habreast := by
    obtain ⟨v, rfl⟩ := habreast.unchecked
    have hlook : (state >>= f) (s.unchecked v) = f s (s.unchecked v) :=
      congrFun (hsame s (s.outside.unchecked v)) (s.unchecked v)
    rw [hlook]
    exact hf s s _ habreast
  act {_ m} hsame hoptions s s' habreast := by
    obtain ⟨⟨v, rfl⟩, hlax, hstore⟩ := habreast
    have hself : (m s).2 = (m s).2.within s.outside := congrArg Prod.snd (hsame s s.outside)
    have hbeside : m (s.unchecked v) = ((m s).1, (m s).2.within (s.outside.unchecked v)) :=
      hsame s (s.outside.unchecked v)
    refine ⟨congrArg Except.ok (congrArg Prod.fst hbeside).symm, ⟨v, ?_⟩, ?_, ?_⟩
    · show (m (s.unchecked v)).2 = (m s).2.unchecked v
      rw [hbeside, hself]
      rfl
    · exact (congrArg Options.strict (hoptions s)).trans hlax
    · exact (congrArg State.store hself).trans hstore
  warn _ _ := fire_same fun _ hd => by cases hd
  fire h := fire_same fun d hd => by subst hd; exact h

/-! ## Strictness and the store -/

/-- **A parse that is not strict** does not care what a strict one would
do. -/
theorem unless_strict {p' q' : Parser α} (h : RunAbreast p q) :
    RunAbreast (Parser.options >>= fun o => if o.strict = true then p' else p)
      (Parser.options >>= fun o => if o.strict = true then q' else q) := by
  have hrun : ∀ (p p' : Parser α) (s : State), s.options.strict = false →
      (Parser.options >>= fun o => if o.strict = true then p' else p) s = p s := by
    intro p p' s hs
    show (if s.options.strict = true then p' else p) s = _
    rw [if_neg (by simp [hs])]
  intro s s' habreast
  obtain ⟨⟨v, rfl⟩, hlax, -⟩ := id habreast
  rw [hrun p p' s hlax, hrun q q' (s.unchecked v) hlax]
  exact h s _ habreast

/-- **Without a store** there is nothing to be found in it. -/
theorem remembered_bind {loc : Location} {f : Option (List Event × Location) → Parser β}
    (h : Unswayed (f none)) : Unswayed (remembered loc >>= f) := by
  have hrun : ∀ s : State, s.store = none → (remembered loc >>= f) s = f none s := by
    intro s hs
    refine bind_ok ?_
    show (Except.ok _, _) = _
    rw [hs]
  intro s s' habreast
  obtain ⟨⟨v, rfl⟩, -, hstore⟩ := id habreast
  rw [hrun s hstore, hrun (s.unchecked v) hstore]
  exact h s _ habreast

/-- Without a store no rule is opened in it. -/
theorem openInStore (loc : Location) : Unswayed (Parser.openInStore loc) := by
  have hrun : ∀ s : State, s.store = none → Parser.openInStore loc s = (.ok none, s) := by
    intro s hs
    show (Except.ok _, _) = _
    rw [hs]
  intro s s' habreast
  obtain ⟨⟨v, rfl⟩, -, hstore⟩ := id habreast
  rw [hrun s hstore, hrun (s.unchecked v) hstore]
  exact ⟨rfl, habreast⟩

/-- Changing a store that is not there. -/
theorem updateStore (change : State → BlockStore → BlockStore) :
    Unswayed (Parser.update fun s => { s with store := s.store.map (change s) }) := by
  refine update fun s s' habreast => ?_
  obtain ⟨⟨v, rfl⟩, hlax, hstore⟩ := habreast
  obtain ⟨_, _, _, _, _, _, _, _, _, _, _⟩ := s
  obtain rfl : _ = none := hstore
  exact ⟨⟨v, rfl⟩, hlax, rfl⟩

theorem dropFromStore (id : Option Nat) : Unswayed (Parser.dropFromStore id) := by
  cases id with
  | none => exact pure ()
  | some id => exact updateStore _

theorem fileInStore (stop : Location) (id : Option Nat) :
    Unswayed (Parser.fileInStore stop id) := by
  cases id with
  | none => exact pure ()
  | some _ => exact updateStore _

/-! ## Declarations -/

/-- Two parses stay abreast when both begin or end to hold events back. -/
theorem setDeferred {s s' : State} (h : Abreast s s') {deferred : Option (List Event)}
    (hnone : deferred.getD [] = []) :
    Abreast { s with deferred := deferred } { s' with deferred := deferred } := by
  obtain ⟨⟨v, rfl⟩, hlax, hstore⟩ := h
  rcases deferred with _ | ⟨_ | _⟩
  · exact ⟨⟨v, rfl⟩, hlax, hstore⟩
  · exact ⟨⟨v, rfl⟩, hlax, hstore⟩
  · cases hnone

/-- **A value whose events are held back**, which are nothing but
warnings. -/
theorem exprHeldBack (ends : List TokenKind) : Unswayed (Parser.exprHeldBack ends) := by
  intro s s' habreast
  obtain ⟨hanswer, hafter⟩ := compositional.expr ends false _ _
    (@setDeferred _ _ habreast (some []) rfl)
  have hquiet := (Lockstep.expr_quiet ends).quiet rfl { s with deferred := some [] }
  rw [exprHeldBack_apply, exprHeldBack_apply]
  rcases hrun : expr ends false { s with deferred := some [] } with ⟨r, s₁⟩
  rcases hrun' : expr ends false { s' with deferred := some [] } with ⟨r', s₁'⟩
  rw [hrun, hrun'] at hanswer hafter
  rw [hrun] at hquiet
  obtain rfl : r = r' := hanswer
  have hended : Abreast { s₁ with deferred := none } { s₁' with deferred := none } :=
    setDeferred hafter rfl
  cases r with
  | error e => exact ⟨rfl, hended⟩
  | ok read =>
    have hsame (h : s₁.deferred.getD [] = s₁'.deferred.getD []) :
        Except.ok (ε := Diagnostic) (read, (s₁.deferred.getD []).reverse) =
          .ok (read, (s₁'.deferred.getD []).reverse) := by rw [h]
    refine ⟨hsame ?_, hended⟩
    obtain ⟨v, hv⟩ := hafter.unchecked
    obtain rfl : s₁' = s₁.unchecked v := hv
    have hmild : ∀ e ∈ s₁.deferred.getD [], e.unchecked = e := fun e he =>
      ((hquiet.held e he).resolve_left List.not_mem_nil).unchecked
    show s₁.deferred.getD [] = (s₁.deferred.map (·.map Event.unchecked)).getD []
    cases hheld : s₁.deferred with
    | none => rfl
    | some held =>
      rw [hheld] at hmild
      exact ((List.map_congr_left hmild).trans (List.map_id held)).symm

/-- **Checking a value**, or not. The second parse finds nothing wrong,
whatever the first one finds. -/
theorem check_bind {custom : Bool} {property : PropertyName} {value : Value}
    {scope : Option String} {f : Option Diagnostic → Parser β}
    (hf : ∀ invalid, RunAbreast (f invalid) (f none)) :
    Unswayed (Parser.options >>= fun o => if (custom || o.noValidation) = true
      then Pure.pure none >>= f else checked property value scope >>= f) := by
  intro s s' habreast
  obtain ⟨⟨v, rfl⟩, hlax, hstore⟩ := id habreast
  have hunchecked : (Parser.options >>= fun o => if (custom || o.noValidation) = true
      then Pure.pure none >>= f else checked property value scope >>= f) (s.unchecked v) =
        f none (s.unchecked v) := by
    show (if (custom || true) = true then Pure.pure none >>= f
      else checked property value scope >>= f : Parser β) (s.unchecked v) = _
    rw [Bool.or_true, if_pos rfl]
    rfl
  rw [hunchecked]
  show ((if (custom || s.options.noValidation) = true then Pure.pure none >>= f
    else checked property value scope >>= f : Parser β) s).1 = _ ∧ Abreast
      ((if (custom || s.options.noValidation) = true then Pure.pure none >>= f
        else checked property value scope >>= f : Parser β) s).2 _
  split_ifs
  · exact hf none s _ habreast
  · obtain ⟨invalid, v', hchecked⟩ : ∃ invalid v',
        checked property value scope s = (.ok invalid, { s with validator := v' }) := by
      unfold checked
      show ∃ invalid v', (Except.ok _, _) = _
      rcases s.validator.check property value scope with ⟨_ | _, v'⟩
      · exact ⟨_, v', rfl⟩
      · exact ⟨_, v', rfl⟩
    rw [bind_ok hchecked]
    exact hf invalid { s with validator := v' } _ ⟨⟨v, rfl⟩, hlax, hstore⟩

theorem declarationTail (site : DeclarationSite) (t : Token) (property : PropertyName)
    (read : Option Value) : Unswayed (Parser.declarationTail site t property read) := by
  unfold Parser.declarationTail
  refine bind compositional.current fun after => ?_
  extract_lets important afterRead
  have hafterRead : ∀ value, Unswayed (afterRead value) := by
    intro value
    unfold afterRead
    extract_lets afterCheck
    have hend : ∀ invalid : Option Diagnostic, RunAbreast
        (do
          let last ← declarationEnd site after
          Parser.fire (.property
            ⟨property, value, important, site.inParens, site.scope, invalid⟩) t.location
          if last.kind == .rBrace then unget)
        (do
          let last ← declarationEnd site after
          Parser.fire (.property
            ⟨property, value, important, site.inParens, site.scope, none⟩) t.location
          if last.kind == .rBrace then unget) := fun invalid =>
      bind (compositional.declarationEnd site after) fun last => bind (fire rfl) fun _ =>
        ite compositional.unget (pure _)
    refine check_bind fun invalid => ?_
    cases invalid with
    | some e => exact unless_strict (hend (some e))
    | none => exact unless_strict (hend none)
  refine ite (bind (compositional.setPair _) fun _ => compositional.throw_bind) ?_
  cases read with
  | some v => exact hafterRead v
  | none => exact ite (hafterRead _) (compositional.failAt_bind _ _)

theorem declaration (site : DeclarationSite) (t : Token) :
    Unswayed (Parser.declaration site t) :=
  compositional.declaration fun property => compositional.declarationValue
    (K := fun events => ∀ e ∈ events, e.IsMild)
    (fun hf => bind_of (exprHeldBack _) Lockstep.exprHeldBack_mild hf)
    (fun h => dispatchAll fun e he => (h e he).unchecked) (declarationTail site t property)

/-! ## Errors -/

theorem report (error : Diagnostic) : Unswayed (Parser.report error) :=
  compositional.look (fun _ _ => rfl) fun _ => fire rfl

theorem recover (e : Diagnostic) (inBlock : Bool) : Unswayed (Parser.recover e inBlock) :=
  compositional.recover (compositional.setPair none) (fun _ => attempt (compositional.expr _ _))
    (report e) inBlock

theorem ruleFailed (e : Diagnostic) (braceSeen : Bool) :
    Unswayed (Parser.ruleFailed e braceSeen) := by
  unfold Parser.ruleFailed
  exact unless_strict (bind (recover e braceSeen) fun _ => pure _)

theorem unknownRule (t : Token) : Unswayed (Parser.unknownRule t) := by
  unfold Parser.unknownRule
  exact unless_strict (bind (compositional.warn _ _) fun _ => compositional.moveStream _)

/-! ## Rules -/

section Rules

variable {block : BlockParser} (hblock : ∀ start shape, Unswayed (block start shape))

include hblock

theorem scopeRule (t : Token) : Unswayed (Parser.scopeRule block t) := by
  have hdepth : ∀ g : Nat → Nat → Nat,
      Unswayed (Parser.update fun s => { s with inScope := g s.inScope 1 }) := fun _ =>
    compositional.adjust (fun _ _ => rfl) fun _ => rfl
  unfold Parser.scopeRule
  refine bind (attempt compositional.scopePrelude) fun r => ?_
  cases r with
  | error e =>
    exact bind (compositional.seek _) fun _ => bind (compositional.setPair none) fun _ =>
      unless_strict (recover e false)
  | ok found =>
    exact bind (hdepth (· + ·)) fun _ => bind (attempt (hblock _ _)) fun r =>
      bind (hdepth (· - ·)) fun _ => compositional.discard (compositional.ofExcept r)

theorem atRule (t : Token) (top : Bool) : Unswayed (Parser.atRule block t top) :=
  compositional.atRule declaration hblock t top (scopeRule hblock t) (unknownRule t)

omit hblock in
theorem checkNesting (selectors : List Selector) (loc : Location) :
    Unswayed (Parser.checkNesting selectors loc) := by
  unfold Parser.checkNesting
  exact compositional.look (fun _ _ => rfl) fun s => ite (fire rfl) (pure _)

theorem ruleBody (t : Token) (storable : Bool) (selectors : List Selector) :
    Unswayed (Parser.ruleBody block t storable selectors) := by
  unfold Parser.ruleBody
  extract_lets start shape filed rest
  have hrest : ∀ id, Unswayed (rest id) := by
    intro id
    refine bind (checkNesting selectors t.location) fun _ => ?_
    refine bind (attempt (compositional.mustReuse _)) fun r => ?_
    cases r with
    | error e => exact bind (dropFromStore id) fun _ => ruleFailed e false
    | ok _ =>
      refine bind (attempt (hblock _ _)) fun r => ?_
      cases r with
      | error e => exact bind (dropFromStore id) fun _ => ruleFailed e true
      | ok stop =>
        exact ite (bind (dropFromStore id) fun _ => pure _)
          (bind (fileInStore _ id) fun _ => pure _)
  exact ite (bind (openInStore start) hrest) (hrest none)

theorem styleRule (t : Token) : Unswayed (Parser.styleRule block t) := by
  unfold Parser.styleRule
  refine compositional.look (fun _ _ => rfl) fun s => ?_
  extract_lets storable rest
  have hrest : Unswayed (rest none) := by
    refine bind (attempt (compositional.ruleHead t)) fun r => ?_
    rcases r with e | _ | selectors
    · exact ruleFailed e false
    · exact pure _
    · exact ruleBody hblock t storable selectors
  exact ite (remembered_bind hrest) hrest

/-! ## Blocks -/

theorem blockItem (shape : BlockShape) (t : Token) :
    Unswayed (Parser.blockItem block shape t) :=
  compositional.blockItem hblock (declaration _ t) (atRule hblock t false)
    (styleRule hblock t)

/-- One item that starts with a token. -/
theorem blockItemStep (shape : BlockShape) (sofar : BlockSoFar) (t : Token) :
    Unswayed (Parser.blockItemStep block shape sofar t) := by
  unfold Parser.blockItemStep
  extract_lets key rest
  refine ite (compositional.failAt_bind _ _) (bind (attempt (blockItem hblock shape t)) fun r => ?_)
  cases r with
  | ok content => exact pure _
  | error e => exact unless_strict (bind (recover e false) fun _ => pure _)

theorem blockItems (shape : BlockShape) (toEnd : Bool) :
    Unswayed (Parser.blockItems block shape toEnd) := by
  unfold Parser.blockItems
  extract_lets styles
  have hdepth : ∀ g : Nat → Nat → Nat, Unswayed
      (Parser.update fun s => { s with depth := g s.depth 1, inStyle := g s.inStyle styles }) :=
    fun _ => compositional.adjust (fun _ _ => rfl) fun _ => rfl
  exact bind (hdepth (· + ·)) fun _ =>
    bind (attempt (compositional.repeating
      (compositional.blockStep (blockItemStep hblock shape) toEnd) _)) fun r =>
      bind (hdepth (· - ·)) fun _ => bind (compositional.ofExcept r) fun _ =>
        bind compositional.current fun _ => pure _

end Rules

theorem block (start : Location) (shape : BlockShape) : Unswayed (Parser.block start shape) :=
  compositional.block (fun hblock shape => blockItems hblock shape false) start shape

/-! ## Stylesheets -/

theorem topRule (t : Token) : Unswayed (Parser.topRule t) := by
  unfold Parser.topRule
  split
  · exact atRule block t true
  · exact pure ()
  · refine bind (styleRule block t) fun outcome => ?_
    split
    · exact bind compositional.grab fun u => ite (pure _) (compositional.failAt _ _)
    · exact pure ()

theorem sheetStep (u : Unit) : Unswayed (Parser.sheetStep u) := by
  unfold Parser.sheetStep
  refine bind compositional.grab fun t => ite (pure _) (bind (attempt (topRule t)) fun r => ?_)
  cases r with
  | ok _ => exact pure _
  | error e => exact unless_strict (bind (report e) fun _ => pure _)

theorem sheet : Unswayed Parser.sheet :=
  bind (fire rfl) fun _ => bind (compositional.repeating sheetStep ()) fun _ =>
    bind compositional.current fun _ => fire rfl

end RunAbreast

/-- **Checks never influence the parse.** In a parse that is not strict they
decide nothing but what is reported to be wrong with declarations. -/
theorem events_unchecked {text : String} {o : Options} (hlax : o.strict = false) :
    (parseSheet text { o with noValidation := true }).events =
      (parseSheet text { o with noValidation := false }).events.map Event.unchecked := by
  have habreast : Abreast (State.initial text { o with noValidation := false } .fresh none)
      (State.initial text { o with noValidation := true } .fresh none) :=
    ⟨⟨.fresh, rfl⟩, hlax, rfl⟩
  obtain ⟨-, hafter⟩ := RunAbreast.sheet _ _ habreast
  obtain ⟨v, hv⟩ := hafter.unchecked
  rw [parseSheet, parseSheet, events_run, events_run, hv, List.map_reverse]
  rfl

/-- A declaration of a property that is not known. -/
theorem events_unchecked_unknown :
    let checked := (parseSheet "a\x7bq:1\x7d" { noValidation := false }).events
    (diagnosticsOf checked).map (·.message) = ["Unknown property \"q\"."] ∧
      (parseSheet "a\x7bq:1\x7d" { noValidation := true }).events =
        checked.map Event.unchecked :=
  ⟨by decide +kernel, @events_unchecked "a\x7bq:1\x7d" {} rfl⟩

end Stylesheet
