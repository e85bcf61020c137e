import Stylesheet.Proofs.Compositional.Rule
import Stylesheet.Proofs.Lockstep.Basic
import Stylesheet.Proofs.Reads.Declaration
import Stylesheet.Proofs.WellFormed.Stored

/-!
# Parsers that report no selectors

Most of what reads a stylesheet reports no selector and asks for no rule of
an earlier parse. Such a parser is **quiet**: with a store it does what it
would do without one, and what it reports leaves a store laid as it was.
So all that is known of runs without a store is known of its runs in
sessions, too.
-/

namespace Stylesheet

open Parse (State Outside)

namespace Parse.State

/-- **The state without rules of earlier parses.** -/
def alone (s : State) : State := { s with store := none }

/-- **What a state has reported and remembers**, while a source is read
with some blocks open and up to an offset: the selectors are well formed,
and the store is laid. -/
structure Holds (source : List Char) (starts : List Location) (m : Nat) (s : State) : Prop where
  /-- The events reported. -/
  events : ∀ e ∈ s.events, e.IsWellFormed source
  /-- The store. -/
  store : ∀ store, s.store = some store → store.IsLaid source starts m

variable {source : List Char} {starts : List Location} {m : Nat} {s s' : State} {e : Event}

theorem Holds.of_eq (h : s.Holds source starts m) (hevents : s'.events = s.events)
    (hstore : s'.store = s.store) : s'.Holds source starts m :=
  ⟨hevents ▸ h.events, hstore ▸ h.store⟩

theorem Holds.mono {m' : Nat} (h : s.Holds source starts m) (hle : m ≤ m') :
    s.Holds source starts m' :=
  ⟨h.events, fun store hstore => (h.store store hstore).mono hle⟩

/-- The state after an event was reported. -/
def reported (s : State) (e : Event) : State :=
  { s with events := e :: s.events, store := s.store.map (·.addEvent e) }

/-- **Reporting an event** whose selectors lie behind the starts of the open
blocks. -/
theorem Holds.reported (h : s.Holds source starts m) (he : e.IsBehind source starts m) :
    (s.reported e).Holds source starts m := by
  refine ⟨List.forall_mem_cons.mpr ⟨he.isWellFormed, h.events⟩, fun store hstore => ?_⟩
  obtain ⟨before, hbefore, rfl⟩ := Option.map_eq_some_iff.mp hstore
  exact (h.store before hbefore).addEvent he

theorem Holds.reported_of_nil (h : s.Holds source starts m) (he : e.selectors = []) :
    (s.reported e).Holds source starts m :=
  h.reported (Event.isBehind_of_nil he)

end Parse.State

/-- **A quiet parser**: a store makes no difference to it, and it reports
no selectors. -/
structure Quiet {α : Type} (p : Parser α) : Prop where
  /-- A store makes no difference. -/
  alone : ∀ s : State, p s.alone = ((p s).1, (p s).2.alone)
  /-- What was held is held. -/
  holds : ∀ {source : List Char} {starts : List Location} {m : Nat} {s : State},
    s.Holds source starts m → (p s).2.Holds source starts m
  /-- What is held back has no selectors, except for what was held back
  before. -/
  held : ∀ s : State, ∀ e ∈ (p s).2.deferred.getD [], e ∈ s.deferred.getD [] ∨ e.selectors = []

namespace Quiet

variable {α β σ : Type} {p : Parser α} {f : α → Parser β}

/-! ## Constructs -/

theorem pure (a : α) : Quiet (Pure.pure a : Parser α) := ⟨fun _ => rfl, id, fun _ _ => .inl⟩

theorem throw (e : Diagnostic) : Quiet (MonadExcept.throw e : Parser α) :=
  ⟨fun _ => rfl, id, fun _ _ => .inl⟩

theorem bind_of {P : α → Prop} (h : Quiet p) (hp : ∀ s a, (p s).1 = .ok a → P a)
    (hf : ∀ a, P a → Quiet (f a)) : Quiet (p >>= f) := by
  have hfail : ∀ {s : State} {e}, (p s).1 = .error e → (p >>= f) s = (.error e, (p s).2) :=
    fun he => Parser.bind_error (Prod.ext he rfl)
  have hgo : ∀ {s : State} {a}, (p s).1 = .ok a → (p >>= f) s = f a (p s).2 :=
    fun ha => Parser.bind_ok (Prod.ext ha rfl)
  refine ⟨fun s => ?_, fun {_ _ _ s} hs => ?_, fun s e he => ?_⟩
  · have halone := h.alone s
    rcases hrun : (p s).1 with e | a
    · rw [hfail hrun, Parser.bind_error (halone.trans (Prod.ext hrun rfl))]
    · rw [hgo hrun, Parser.bind_ok (halone.trans (Prod.ext hrun rfl))]
      exact (hf a (hp s a hrun)).alone _
  · have hmid := h.holds hs
    rcases hrun : (p s).1 with e | a
    · rw [hfail hrun]
      exact hmid
    · rw [hgo hrun]
      exact (hf a (hp s a hrun)).holds hmid
  · rcases hrun : (p s).1 with e' | a
    · rw [hfail hrun] at he
      exact h.held s e he
    · rw [hgo hrun] at he
      exact ((hf a (hp s a hrun)).held _ e he).elim (h.held s e) .inr

theorem bind (h : Quiet p) (hf : ∀ a, Quiet (f a)) : Quiet (p >>= f) :=
  h.bind_of (P := fun _ => True) (fun _ _ _ => trivial) fun a _ => hf a

/-- **Looking at the state**, except for the store. -/
theorem state_bind {f : State → Parser β} (hsame : ∀ s : State, f s.alone = f s)
    (hf : ∀ s, Quiet (f s)) : Quiet (Parser.state >>= f) := by
  refine ⟨fun s => ?_, fun {_ _ _ s} hs => (hf s).holds hs, fun s => (hf s).held s⟩
  show f s.alone s.alone = _
  rw [hsame]
  exact (hf s).alone s

theorem modifyGet {m : State → α × State} (halone : ∀ s : State, m s.alone = ((m s).1, (m s).2.alone))
    (hholds : ∀ {source : List Char} {starts : List Location} {n : Nat} {s : State},
      s.Holds source starts n → (m s).2.Holds source starts n)
    (hheld : ∀ s : State, ∀ e ∈ (m s).2.deferred.getD [],
      e ∈ s.deferred.getD [] ∨ e.selectors = []) :
    Quiet (MonadStateOf.modifyGet m : Parser α) :=
  ⟨fun s => by
    show (Except.ok (m s.alone).1, (m s.alone).2) = _
    rw [halone]
    rfl, hholds, hheld⟩

theorem attempt (h : Quiet p) : Quiet (Parser.attempt p) := by
  refine ⟨fun s => ?_, fun {_ _ _ s} hs => ?_, fun s => ?_⟩
  · rw [Parser.attempt_apply, Parser.attempt_apply, h.alone]
  · rw [Parser.attempt_apply]
    exact h.holds hs
  · rw [Parser.attempt_apply]
    exact h.held s

/-! ## Events -/

theorem dispatch {e : Event} (he : e.selectors = []) : Quiet (Parser.dispatch e) :=
  modifyGet (m := fun s => ((), s.reported e)) (fun _ => rfl) (fun hs => hs.reported_of_nil he)
    fun _ _ => .inl

theorem dispatchAll {events : List Event} (h : ∀ e ∈ events, e.selectors = []) :
    Quiet (events.forM Parser.dispatch) := by
  induction events with
  | nil => exact pure ()
  | cons e events ih =>
    exact (dispatch (h e List.mem_cons_self)).bind fun _ =>
      ih fun e he => h e (List.mem_cons_of_mem _ he)

/-- Reporting an event without selectors, or holding it back. -/
theorem fire {kind : EventKind} {loc : Location} (he : Event.selectors ⟨kind, loc⟩ = []) :
    Quiet (Parser.fire kind loc) := by
  rw [Lockstep.fire_eq]
  refine modifyGet (m := fun s => ((), Lockstep.logged ⟨kind, loc⟩ s)) (fun s => ?_)
    (fun {_ _ _ s} hs => ?_) fun s e' he' => ?_
  · have hdeferred : s.alone.deferred = s.deferred := rfl
    dsimp only
    unfold Lockstep.logged
    rw [hdeferred]
    cases s.deferred <;> rfl
  · dsimp only
    unfold Lockstep.logged
    cases s.deferred with
    | none => exact (hs.reported_of_nil he).of_eq rfl rfl
    | some held => exact hs.of_eq rfl rfl
  · dsimp only at he'
    unfold Lockstep.logged at he'
    cases hdeferred : s.deferred with
    | none =>
      simp only [hdeferred] at he'
      cases he'
    | some held =>
      simp only [hdeferred] at he'
      rcases List.mem_cons.mp he' with rfl | he'
      · exact .inr he
      · exact .inl he'

/-- **A parser that is put together from parsers that do not look outside**,
and which reports nothing but warnings, is quiet. -/
theorem composes : Composes fun _ p => Quiet p where
  pure := pure
  throw := throw
  bind h hf := bind h hf
  look hsame hf := state_bind (fun s => hsame s { s.outside with store := none }) hf
  act {_ m} hsame _ := by
    have houtside := Parse.State.outside_eq_of_within hsame
    have hevents : ∀ s, (m s).2.events = s.events := fun s => congrArg Outside.events (houtside s)
    have hstore : ∀ s, (m s).2.store = s.store := fun s => congrArg Outside.store (houtside s)
    refine modifyGet (fun s => ?_) (fun {_ _ _ s} hs => hs.of_eq (hevents s) (hstore s))
      fun s e he => .inl ?_
    · have halone : (m s).2.within { s.outside with store := none } = (m s).2.alone := by
        rw [← houtside s]
        rfl
      exact halone ▸ hsame s { s.outside with store := none }
    · have hdeferred : (m s).2.deferred = s.deferred := congrArg Outside.deferred (houtside s)
      exact hdeferred ▸ he
  warn _ _ := fire rfl

theorem report (e : Diagnostic) : Quiet (Parser.report e) :=
  state_bind (fun _ => rfl) fun _ => fire rfl

theorem recover (e : Diagnostic) (inBlock : Bool) : Quiet (Parser.recover e inBlock) :=
  composes.recover (composes.setPair none) (fun _ => (composes.expr _ _).attempt) (report e) inBlock

/-! ## Declarations -/

theorem setDeferred {deferred : Option (List Event)} (hnone : deferred.getD [] = []) :
    Quiet (Parser.update fun s => { s with deferred := deferred }) := by
  refine modifyGet (m := fun s => ((), { s with deferred := deferred })) (fun _ => rfl)
    (fun hs => hs.of_eq rfl rfl) fun s e he => ?_
  have he : e ∈ deferred.getD [] := he
  rw [hnone] at he
  cases he

theorem exprHeldBack (ends : List TokenKind) : Quiet (Parser.exprHeldBack ends) := by
  unfold Parser.exprHeldBack
  refine (setDeferred rfl).bind fun _ => (composes.expr ends false).attempt.bind fun r => ?_
  exact state_bind (fun _ => rfl) fun _ => (setDeferred rfl).bind fun _ =>
    (composes.ofExcept r).bind fun _ => pure _

/-- What is held back while a value is read has no selectors. -/
theorem selectors_of_exprHeldBack {ends : List TokenKind} (s : State)
    (r : Option Value × List Event) (h : (Parser.exprHeldBack ends s).1 = .ok r) :
    ∀ e ∈ r.2, e.selectors = [] := by
  have hquiet := (composes.expr ends false).held { s with deferred := some [] }
  intro e he
  refine (hquiet e (Parser.mem_of_exprHeldBack h he)).resolve_left fun h => ?_
  cases h

theorem checked (name : PropertyName) (value : Value) (scope : Option String) :
    Quiet (Parser.checked name value scope) := by
  unfold Parser.checked
  refine modifyGet (fun s => ?_) (fun {_ _ _ s} hs => ?_) fun s e he => ?_
  · unfold Parse.State.alone
    dsimp only
    rcases s.validator.check name value scope with ⟨_ | _, v⟩ <;> rfl
  · rcases s.validator.check name value scope with ⟨_ | _, v⟩ <;> exact hs.of_eq rfl rfl
  · rcases hcheck : s.validator.check name value scope with ⟨_ | _, v⟩ <;>
      rw [hcheck] at he <;> exact .inl he

theorem options_bind {f : Options → Parser β} (hf : ∀ o, Quiet (f o)) :
    Quiet (Parser.options >>= f) := state_bind (fun _ => rfl) fun s => hf s.options

open Reading (pure_bind ite)

theorem declarationTail (site : Parser.DeclarationSite) (t : Token) (property : PropertyName)
    (read : Option Value) : Quiet (Parser.declarationTail site t property read) := by
  unfold Parser.declarationTail
  refine composes.current.bind fun after => ?_
  extract_lets important afterRead
  have hafterRead : ∀ value, Quiet (afterRead value) := by
    intro value
    unfold afterRead
    extract_lets afterCheck
    have hend : ∀ invalid : Option Diagnostic, Quiet (do
          let last ← Parser.declarationEnd site after
          Parser.fire (.property
            ⟨property, value, important, site.inParens, site.scope, invalid⟩) t.location
          if last.kind == .rBrace then Parser.unget) := fun invalid =>
      (composes.declarationEnd site after).bind fun last => (fire rfl).bind fun _ =>
        ite composes.unget (pure _)
    have hafterCheck : ∀ invalid, Quiet (afterCheck invalid) := fun invalid =>
      options_bind fun _ => by
        cases invalid with
        | some e => exact ite composes.throw_bind (hend (some e))
        | none => exact ite (hend none) (hend none)
    exact options_bind fun _ => ite (pure_bind (hafterCheck none))
      ((checked _ _ _).bind hafterCheck)
  refine ite ((composes.setPair _).bind fun _ => composes.throw_bind) ?_
  cases read with
  | some v => exact pure_bind (hafterRead v)
  | none => exact ite (pure_bind (hafterRead _)) composes.throw_bind

theorem declaration (site : Parser.DeclarationSite) (t : Token) :
    Quiet (Parser.declaration site t) :=
  composes.declaration fun property => composes.declarationValue
    (K := fun events => ∀ e ∈ events, e.selectors = [])
    (fun hf => bind_of (exprHeldBack _) selectors_of_exprHeldBack hf) dispatchAll
    (declarationTail site t property)

/-! ## Rules -/

theorem ruleFailed (e : Diagnostic) (braceSeen : Bool) : Quiet (Parser.ruleFailed e braceSeen) := by
  unfold Parser.ruleFailed
  exact options_bind fun _ => ite composes.throw_bind ((recover e braceSeen).bind fun _ => pure _)

theorem unknownRule (t : Token) : Quiet (Parser.unknownRule t) := by
  unfold Parser.unknownRule
  exact options_bind fun _ => ite composes.throw_bind ((composes.warn _ _).bind fun _ =>
    composes.moveStream _)

end Quiet

end Stylesheet
