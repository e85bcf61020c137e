import Stylesheet.Proofs.Compositional.Basic
import Stylesheet.Proofs.Reuse

/-!
# Parses in lockstep

Two parses of one text are compared, step by step. The first may be strict
and may have rules of earlier parses; the one beside it is no stricter, has
no such rules, and may remember other values if declarations are not
checked. As long as they are **together** the parses differ in nothing
else, and there are two ways to part: the first one takes a rule of an
earlier parse, or it stops at an error while the other goes on. In the
second case the events of the first are the beginning of those of the
other.

`Lockstep` says this of a pair of parsers, which is a parser and itself
nearly everywhere. It also says what a parser may complain about, in one of
three **tones**: a quiet one never complains, a frank one that is strict
complains by failing, and a loud one may do as it likes, but it is only
used where the parse is not strict. The one complaint that does not fit is
that a nested selector stands in no style rule, which is reported whatever
the tone.
-/

namespace Stylesheet

open Parse (State Outside)
open Stylesheet.Parser (attempt_apply bind_error bind_ok state update)

/-- What is reported of a nested selector outside of style rules. -/
def Event.nestingComplaint (loc : Location) : Event :=
  ⟨.error (.at_ "Nested selector must be inside a style rule." loc) true, loc⟩

/-- **An event that no parse stops at**: one without a diagnostic, or the
complaint about a nested selector. -/
def Event.IsMild (e : Event) : Prop :=
  e.diagnostic? = none ∨ ∃ loc, e = .nestingComplaint loc

namespace Parse.State

/-- How often a rule of an earlier parse was found. -/
def hits (s : State) : Nat := (s.store.map (·.hits)).getD 0

/-- **The state of a parse beside this one**, with other options and other
values remembered, and without rules of earlier parses. -/
def beside (s : State) (strict reuse : Bool) (v : Validator) : State :=
  { s with
    options := { s.options with strict := strict, reuseCache := reuse }
    store := none
    validator := v }

/-- **Two parses are together.** The second is no stricter, and checks
declarations as the first does if they are checked at all. -/
inductive Together : State → State → Prop where
  /-- A state and one beside it. -/
  | intro (s : State) {strict reuse : Bool} {v : Validator} :
      (strict = true → s.options.strict = true) →
      (s.options.noValidation = true ∨ v = s.validator) →
      Together s (s.beside strict reuse v)

/-- **What every run keeps**, and what it only adds to. -/
structure Grows (s s' : State) : Prop where
  /-- The options stay. -/
  options : s'.options = s.options
  /-- Events are added. -/
  events : s.events <:+ s'.events
  /-- No store comes from nowhere. -/
  store : s.store = none → s'.store = none
  /-- Rules that were found are counted. -/
  hits : s.hits ≤ s'.hits
  /-- Without checks nothing is remembered of them. -/
  validator : s.options.noValidation = true → s'.validator = s.validator

/-- **Only mild events are added**, to those reported and to those held
back. -/
structure AddsMild (s s' : State) : Prop where
  /-- To those reported. -/
  events : ∀ e ∈ s'.events, e ∈ s.events ∨ e.IsMild
  /-- To those held back. -/
  held : ∀ e ∈ s'.deferred.getD [], e ∈ s.deferred.getD [] ∨ e.IsMild

variable {s s' s'' : State}

theorem Grows.refl (s : State) : Grows s s :=
  ⟨rfl, List.suffix_rfl, id, Nat.le_refl _, fun _ => rfl⟩

theorem Grows.trans (h : Grows s s') (h' : Grows s' s'') : Grows s s'' where
  options := h'.options.trans h.options
  events := h.events.trans h'.events
  store hnone := h'.store (h.store hnone)
  hits := Nat.le_trans h.hits h'.hits
  validator hno := (h'.validator (h.options ▸ hno)).trans (h.validator hno)

theorem AddsMild.refl (s : State) : AddsMild s s := ⟨fun _ => .inl, fun _ => .inl⟩

theorem AddsMild.trans (h : AddsMild s s') (h' : AddsMild s' s'') : AddsMild s s'' where
  events e he := (h'.events e he).elim (h.events e) .inr
  held e he := (h'.held e he).elim (h.held e) .inr

/-- The parse beside a lenient one is lenient. -/
theorem Together.lenient (h : Together s s') (hs : s.options.strict = false) :
    s'.options.strict = false := by
  cases h with
  | intro hstrict _ =>
    refine Bool.eq_false_iff.mpr fun hs' => ?_
    rw [hstrict hs'] at hs
    cases hs

theorem Together.events (h : Together s s') : s'.events = s.events := by
  cases h
  rfl

end Parse.State

open Parse.State (Together Grows AddsMild)

/-- **How a parser complains.** -/
inductive Tone where
  /-- Not at all. -/
  | quiet
  /-- By failing, when it is strict. -/
  | frank
  /-- In any way. -/
  | loud
  deriving DecidableEq

/-- **What two parses come to** that were together in two states. -/
inductive Paired {α : Type} (s s' : State) (x x' : Except Diagnostic α × State) : Prop where
  /-- They are still together, with the same answer. -/
  | alike : x.1 = x'.1 → Together x.2 x'.2 → Paired s s' x x'
  /-- The first took a rule of an earlier parse. -/
  | found : s.hits < x.2.hits → Paired s s' x x'
  /-- The first is strict and stopped at an error, and the other is not. -/
  | stopped (e : Diagnostic) : x.1 = .error e → s.options.strict = true →
      s'.options.strict = false → x.2.events <:+ x'.2.events → Paired s s' x x'

/-- **Two parsers go in lockstep**, in a tone. -/
structure Lockstep {α : Type} (tone : Tone) (p q : Parser α) : Prop where
  /-- What the first keeps. -/
  left : ∀ s, Grows s (p s).2
  /-- What the other keeps. -/
  right : ∀ s, Grows s (q s).2
  /-- What they come to. -/
  paired : ∀ s s', Together s s' → (tone = .loud → s.options.strict = false) →
    Paired s s' (p s) (q s')
  /-- A quiet one adds nothing but mild events. -/
  quiet : tone = .quiet → ∀ s, AddsMild s (p s).2
  /-- A frank one that is strict and succeeds does so without a store. -/
  frank : tone = .frank → ∀ s, s.options.strict = true → s.store = none →
    ∀ a, (p s).1 = .ok a → AddsMild s (p s).2

/-- **A parser that goes in lockstep with itself.** -/
abbrev InStep {α : Type} (tone : Tone) (p : Parser α) : Prop := Lockstep tone p p

/-- **A strict parser fails at once**, without another event. -/
def Rethrows {α : Type} (p : Parser α) : Prop :=
  ∀ s : State, s.options.strict = true →
    (∃ e, (p s).1 = .error e) ∧ (p s).2.events = s.events

/-- What two parses come to from later states, from earlier ones. -/
theorem Paired.lift {α : Type} {s s' t t' : State} {x x' : Except Diagnostic α × State}
    (h : Paired t t' x x') (hs : Grows s t) (hs' : Grows s' t') : Paired s s' x x' := by
  cases h with
  | alike hanswer htogether => exact .alike hanswer htogether
  | found hhits => exact .found (Nat.lt_of_le_of_lt hs.hits hhits)
  | stopped e he hstrict hlenient hevents =>
    exact .stopped e he (hs.options ▸ hstrict) (hs'.options ▸ hlenient) hevents

namespace Lockstep

variable {α β σ : Type} {tone : Tone} {p q : Parser α} {f g : α → Parser β}

/-! ## Constructs -/

/-- **Parsers that change the state alike**, and never fail. -/
theorem of_modifyGet {m m' : State → α × State}
    (hsame : ∀ s strict reuse v,
      m' (s.beside strict reuse v) = ((m s).1, (m s).2.beside strict reuse v))
    (hleft : ∀ s, Grows s (m s).2) (hright : ∀ s, Grows s (m' s).2)
    (hvalidator : ∀ s, (m s).2.validator = s.validator)
    (hmild : tone ≠ .loud → ∀ s, AddsMild s (m s).2) :
    Lockstep tone (modifyGet m) (modifyGet m') where
  left := hleft
  right := hright
  paired s s' htogether _ := by
    obtain ⟨hstrict, hchecks⟩ := htogether
    have happly : ∀ (m : State → α × State) s,
        (modifyGet m : Parser α) s = (.ok (m s).1, (m s).2) := fun _ _ => rfl
    rw [happly, happly, hsame]
    refine .alike rfl (.intro _ ?_ ?_)
    · exact fun h => (congrArg Options.strict (hleft s).options).trans (hstrict h)
    · exact hchecks.imp (fun h => (congrArg Options.noValidation (hleft s).options).trans h)
        fun h => h.trans (hvalidator s).symm
  quiet h := hmild (h ▸ nofun)
  frank h s _ _ _ _ := hmild (h ▸ nofun) s

theorem pure (a : α) : Lockstep tone (Pure.pure a : Parser α) (Pure.pure a) where
  left := Grows.refl
  right := Grows.refl
  paired _ _ htogether _ := .alike rfl htogether
  quiet _ := AddsMild.refl
  frank _ s _ _ _ _ := AddsMild.refl s

theorem throw (e : Diagnostic) :
    Lockstep tone (MonadExcept.throw e : Parser α) (MonadExcept.throw e) where
  left := Grows.refl
  right := Grows.refl
  paired _ _ htogether _ := .alike rfl htogether
  quiet _ := AddsMild.refl
  frank _ s _ _ _ _ := AddsMild.refl s

/-- What the rest of a run keeps. -/
theorem grows_bind {P : α → Prop} (hf : ∀ a, P a → ∀ s, Grows s (f a s).2) {s : State}
    (hP : ∀ a, (p s).1 = .ok a → P a) : Grows (p s).2 ((p >>= f) s).2 := by
  rcases hrun : p s with ⟨e | a, s₁⟩
  · rw [bind_error hrun]
    exact Grows.refl s₁
  · rw [bind_ok hrun]
    exact hf a (hP a (by rw [hrun])) s₁

theorem bind_of {P : α → Prop} (h : Lockstep tone p q) (hp : ∀ s a, (p s).1 = .ok a → P a)
    (hq : ∀ s a, (q s).1 = .ok a → P a) (hf : ∀ a, P a → Lockstep tone (f a) (g a)) :
    Lockstep tone (p >>= f) (q >>= g) where
  left s := (h.left s).trans (grows_bind (fun a ha => (hf a ha).left) (hp s))
  right s := (h.right s).trans (grows_bind (fun a ha => (hf a ha).right) (hq s))
  paired s s' htogether hlenient := by
    have hrest := grows_bind (fun a ha => (hf a ha).left) (hp s)
    have hrest' := grows_bind (fun a ha => (hf a ha).right) (hq s')
    cases h.paired s s' htogether hlenient with
    | found hhits => exact .found (Nat.lt_of_lt_of_le hhits hrest.hits)
    | stopped e he hstrict hlenient hevents =>
      have hrun : (p >>= f) s = (.error e, (p s).2) := bind_error (Prod.ext he rfl)
      rw [hrun]
      exact .stopped e rfl hstrict hlenient (hevents.trans hrest'.events)
    | alike hanswer htogether' =>
      rcases hrun : (p s).1 with e | a
      · rw [bind_error (Prod.ext hrun rfl),
          bind_error (Prod.ext (hanswer.symm.trans hrun) rfl)]
        exact .alike rfl htogether'
      · rw [bind_ok (Prod.ext hrun rfl),
          bind_ok (Prod.ext (hanswer.symm.trans hrun) rfl)]
        refine ((hf a (hp s a hrun)).paired _ _ htogether' fun hloud => ?_).lift (h.left s)
          (h.right s')
        rw [(h.left s).options]
        exact hlenient hloud
  quiet htone s := by
    rcases hrun : p s with ⟨e | a, s₁⟩
    · rw [bind_error hrun]
      exact (congrArg Prod.snd hrun) ▸ h.quiet htone s
    · rw [bind_ok hrun]
      have hfirst : AddsMild s s₁ := by simpa [hrun] using h.quiet htone s
      exact hfirst.trans ((hf a (hp s a (by rw [hrun]))).quiet htone s₁)
  frank htone s hstrict hstore b hb := by
    rcases hrun : p s with ⟨e | a, s₁⟩
    · rw [bind_error hrun] at hb
      cases hb
    · rw [bind_ok hrun] at hb ⊢
      have hgrows : Grows s s₁ := by simpa [hrun] using h.left s
      have hfirst : AddsMild s s₁ := by simpa [hrun] using h.frank htone s hstrict hstore a
      exact hfirst.trans ((hf a (hp s a (by rw [hrun]))).frank htone s₁
        ((congrArg Options.strict hgrows.options).trans hstrict) (hgrows.store hstore) b hb)

theorem bind (h : Lockstep tone p q) (hf : ∀ a, Lockstep tone (f a) (g a)) :
    Lockstep tone (p >>= f) (q >>= g) :=
  bind_of (P := fun _ => True) h (fun _ _ _ => trivial) (fun _ _ _ => trivial) fun a _ => hf a

theorem pure_bind {a : α} (h : Lockstep tone (f a) (g a)) :
    Lockstep tone (Pure.pure a >>= f) (Pure.pure a >>= g) :=
  ⟨h.left, h.right, h.paired, h.quiet, h.frank⟩

theorem throw_bind {e : Diagnostic} :
    Lockstep tone ((MonadExcept.throw e : Parser α) >>= f)
      ((MonadExcept.throw e : Parser α) >>= g) :=
  ⟨Grows.refl, Grows.refl, fun _ _ htogether _ => .alike rfl htogether, fun _ => AddsMild.refl,
    fun _ s _ _ _ _ => AddsMild.refl s⟩

theorem ite {c : Prop} [Decidable c] {p' q' : Parser α} (hpos : Lockstep tone p q)
    (hneg : Lockstep tone p' q') :
    Lockstep tone (if c then p else p') (if c then q else q') := by
  by_cases hc : c
  · rwa [if_pos hc, if_pos hc]
  · rwa [if_neg hc, if_neg hc]

theorem discard (h : Lockstep tone p q) :
    Lockstep tone (Functor.discard p) (Functor.discard q) := by
  show Lockstep tone (p >>= fun _ => Pure.pure ()) (q >>= fun _ => Pure.pure ())
  exact h.bind fun _ => pure ()

/-- **A failure that is caught**, if a strict parse fails again. -/
theorem attempt_bind {f g : Except Diagnostic α → Parser β} (h : Lockstep tone p q)
    (hf : ∀ r, Lockstep tone (f r) (g r)) (hrethrows : ∀ e, Rethrows (f (.error e))) :
    Lockstep tone (Parser.attempt p >>= f) (Parser.attempt q >>= g) := by
  have hleft : ∀ s, (Parser.attempt p >>= f) s = f (p s).1 (p s).2 := fun s =>
    bind_ok (attempt_apply p s)
  have hright : ∀ s, (Parser.attempt q >>= g) s = g (q s).1 (q s).2 := fun s =>
    bind_ok (attempt_apply q s)
  refine ⟨fun s => ?_, fun s => ?_, fun s s' htogether hlenient => ?_, fun htone s => ?_,
    fun htone s hstrict hstore b hb => ?_⟩
  · rw [hleft]
    exact (h.left s).trans ((hf _).left _)
  · rw [hright]
    exact (h.right s).trans ((hf _).right _)
  · rw [hleft, hright]
    cases h.paired s s' htogether hlenient with
    | alike hanswer htogether' =>
      rw [← hanswer]
      refine ((hf _).paired _ _ htogether' fun hloud => ?_).lift (h.left s) (h.right s')
      rw [(h.left s).options]
      exact hlenient hloud
    | found hhits => exact .found (Nat.lt_of_lt_of_le hhits ((hf _).left _).hits)
    | stopped e he hstrict hlenient hevents =>
      obtain ⟨⟨e', he'⟩, hsame⟩ := hrethrows e (p s).2
        ((congrArg Options.strict (h.left s).options).trans hstrict)
      rw [he]
      refine .stopped e' he' hstrict hlenient ?_
      rw [hsame]
      exact hevents.trans ((hf _).right _).events
  · rw [hleft]
    exact (h.quiet htone s).trans ((hf _).quiet htone _)
  · rw [hleft] at hb ⊢
    have hstrict' := (congrArg Options.strict (h.left s).options).trans hstrict
    have hrest := (hf (p s).1).frank htone _ hstrict' ((h.left s).store hstore) b hb
    rcases hrun : (p s).1 with e | a
    · obtain ⟨⟨e', he'⟩, -⟩ := hrethrows e (p s).2 hstrict'
      rw [hrun, he'] at hb
      cases hb
    · exact (h.frank htone s hstrict hstore a hrun).trans (hrun ▸ hrest)

/-- A failure that is caught where the parse is not strict. -/
theorem attempt (h : Lockstep .loud p q) :
    Lockstep .loud (Parser.attempt p) (Parser.attempt q) := by
  refine ⟨fun s => ?_, fun s => ?_, fun s s' htogether hlenient => ?_, nofun, nofun⟩
  · rw [attempt_apply]
    exact h.left s
  · rw [attempt_apply]
    exact h.right s
  · rw [attempt_apply, attempt_apply]
    cases h.paired s s' htogether hlenient with
    | alike hanswer htogether' => exact .alike (congrArg Except.ok hanswer) htogether'
    | found hhits => exact .found hhits
    | stopped e he hstrict hlenient' hevents =>
      rw [hlenient rfl] at hstrict
      cases hstrict

theorem ofExcept (r : Except Diagnostic α) : InStep tone (Parser.ofExcept r) := by
  cases r with
  | ok a => exact pure a
  | error e => exact throw e

/-! ## The state -/

theorem state_bind {f : State → Parser α}
    (hsame : ∀ s strict reuse v, f (s.beside strict reuse v) = f s)
    (hf : ∀ s, InStep tone (f s)) : InStep tone (state >>= f) where
  left s := (hf s).left s
  right s := (hf s).left s
  paired s s' htogether hlenient := by
    have hrun : (state >>= f) s' = f s s' := by
      cases htogether
      exact congrFun (hsame s _ _ _) _
    rw [hrun]
    exact (hf s).paired s s' htogether hlenient
  quiet htone s := (hf s).quiet htone s
  frank htone s := (hf s).frank htone s

/-- **Looking at the options two parses share.** -/
theorem options_bind {f : Options → Parser α}
    (hsame : ∀ (o : Options) strict reuse, f { o with strict := strict, reuseCache := reuse } = f o)
    (hf : ∀ o, InStep tone (f o)) : InStep tone (Parser.options >>= f) :=
  have h := state_bind (f := fun s => f s.options)
    (fun s strict reuse _ => hsame s.options strict reuse) fun s => hf s.options
  ⟨h.left, h.right, h.paired, h.quiet, h.frank⟩

/-- Asking whether the parse is strict, and going on in the same way. -/
theorem options_unused (h : Lockstep tone p q) :
    Lockstep tone (Parser.options >>= fun o => if o.strict = true then p else p)
      (Parser.options >>= fun o => if o.strict = true then q else q) := by
  have hsame : ∀ p : Parser α,
      (Parser.options >>= fun o => if o.strict = true then p else p) = p := by
    intro p
    funext s
    show (if s.options.strict = true then p else p) s = p s
    rw [ite_self]
  rwa [hsame, hsame]

/-- **A strict parse fails where any other goes on.** -/
theorem unless_strict {e : Diagnostic} {f g : α → Parser β} {p q : Parser β}
    (h : Lockstep .loud p q) :
    Lockstep .frank
      (Parser.options >>= fun o => if o.strict = true then MonadExcept.throw e >>= f else p)
      (Parser.options >>= fun o => if o.strict = true then MonadExcept.throw e >>= g else q) := by
  have hfail : ∀ (f : α → Parser β) (p : Parser β) (s : State), s.options.strict = true →
      (Parser.options >>= fun o => if o.strict = true then MonadExcept.throw e >>= f else p) s =
        (.error e, s) := by
    intro f p s hs
    show (if s.options.strict = true then MonadExcept.throw e >>= f else p) s = _
    rw [if_pos hs]
    rfl
  have hgo : ∀ (f : α → Parser β) (p : Parser β) (s : State), s.options.strict = false →
      (Parser.options >>= fun o => if o.strict = true then MonadExcept.throw e >>= f else p) s =
        p s := by
    intro f p s hs
    show (if s.options.strict = true then MonadExcept.throw e >>= f else p) s = _
    rw [if_neg (by simp [hs])]
  have hgrows : ∀ (f : α → Parser β) (p : Parser β), (∀ s, Grows s (p s).2) → ∀ s, Grows s
      ((Parser.options >>= fun o => if o.strict = true then MonadExcept.throw e >>= f else p)
        s).2 := by
    intro f p hp s
    cases hs : s.options.strict with
    | true =>
      rw [hfail f p s hs]
      exact Grows.refl s
    | false =>
      rw [hgo f p s hs]
      exact hp s
  refine ⟨hgrows f p h.left, hgrows g q h.right, fun s s' htogether _ => ?_, nofun,
    fun _ s hs _ a ha => ?_⟩
  · cases hs : s.options.strict with
    | true =>
      rw [hfail f p s hs]
      cases hs' : s'.options.strict with
      | true =>
        rw [hfail g q s' hs']
        exact .alike rfl htogether
      | false =>
        rw [hgo g q s' hs']
        exact .stopped e rfl hs hs' (htogether.events ▸ (h.right s').events)
    | false =>
      rw [hgo f p s hs, hgo g q s' (htogether.lenient hs)]
      exact h.paired s s' htogether fun _ => hs
  · rw [hfail f p s hs] at ha
    cases ha

/-! ## Events -/

/-- The state after an event was reported or held back. -/
def logged (e : Event) (s : State) : State :=
  match s.deferred with
  | some held => { s with deferred := some (e :: held) }
  | none => { s with events := e :: s.events, store := s.store.map (·.addEvent e) }

theorem fire_eq (kind : EventKind) (loc : Location) :
    Parser.fire kind loc = update (logged ⟨kind, loc⟩) := by
  funext ⟨_, _, _, _, _, deferred, _, _, _, _, _⟩
  cases deferred <;> rfl

/-- Recording an event in the store finds nothing there. -/
theorem hits_addEvent (store : Option BlockStore) (e : Event) :
    ((store.map (·.addEvent e)).map (·.hits)).getD 0 = (store.map (·.hits)).getD 0 := by
  cases store <;> rfl

theorem dispatch {e : Event} (hmild : tone ≠ .loud → e.IsMild) :
    InStep tone (Parser.dispatch e) := by
  have hgrows : ∀ s : State, Grows s
      { s with events := e :: s.events, store := s.store.map (·.addEvent e) } := fun s =>
    ⟨rfl, List.suffix_cons _ _, fun h => congrArg (Option.map _) h,
      Nat.le_of_eq (hits_addEvent s.store e).symm, fun _ => rfl⟩
  refine of_modifyGet (fun _ _ _ _ => rfl) hgrows hgrows (fun _ => rfl) fun htone s =>
    ⟨fun e' he' => ?_, fun _ => .inl⟩
  rcases List.mem_cons.mp he' with rfl | he'
  · exact .inr (hmild htone)
  · exact .inl he'

theorem dispatchAll {events : List Event} (hmild : ∀ e ∈ events, e.IsMild) :
    InStep tone (events.forM Parser.dispatch) := by
  induction events with
  | nil => exact pure ()
  | cons e events ih =>
    exact (dispatch fun _ => hmild e List.mem_cons_self).bind fun _ =>
      ih fun e he => hmild e (List.mem_cons_of_mem _ he)

theorem fire {kind : EventKind} {loc : Location} (hmild : tone ≠ .loud → Event.IsMild ⟨kind, loc⟩) :
    InStep tone (Parser.fire kind loc) := by
  rw [fire_eq]
  have hgrows : ∀ s : State, Grows s (logged ⟨kind, loc⟩ s) := by
    intro s
    unfold logged
    cases s.deferred with
    | none =>
      exact ⟨rfl, List.suffix_cons _ _, fun h => congrArg (Option.map _) h,
        Nat.le_of_eq (hits_addEvent s.store _).symm, fun _ => rfl⟩
    | some held => exact ⟨rfl, List.suffix_rfl, id, Nat.le_refl _, fun _ => rfl⟩
  refine of_modifyGet (fun s _ _ _ => Prod.ext rfl ?_) hgrows hgrows (fun s => ?_)
    fun htone s => ?_
  · show logged _ (s.beside _ _ _) = (logged _ s).beside _ _ _
    have hdeferred : ∀ strict reuse v, (s.beside strict reuse v).deferred = s.deferred :=
      fun _ _ _ => rfl
    unfold logged
    rw [hdeferred]
    cases s.deferred <;> rfl
  · show (logged _ s).validator = _
    unfold logged
    cases s.deferred <;> rfl
  · show AddsMild s (logged _ s)
    unfold logged
    cases hdeferred : s.deferred with
    | none =>
      refine ⟨fun e he => ?_, fun e he => ?_⟩
      · exact (List.mem_cons.mp he).elim (fun h => .inr (h ▸ hmild htone)) .inl
      · rw [hdeferred]
        exact .inl he
    | some held =>
      refine ⟨fun _ => .inl, fun e he => ?_⟩
      rw [hdeferred]
      exact (List.mem_cons.mp he).elim (fun h => .inr (h ▸ hmild htone)) .inl

/-- Reporting an event that is mild. -/
theorem fireMild {kind : EventKind} {loc : Location}
    (hmild : Event.diagnostic? ⟨kind, loc⟩ = none) : InStep tone (Parser.fire kind loc) :=
  fire fun _ => .inl hmild

/-- **A parser goes in lockstep with itself**, in every tone, if it is put
together from parsers that do not look outside. -/
theorem inStep : Compositional fun _ p => InStep tone p where
  pure := pure
  throw := throw
  bind h hf := bind h hf
  look hsame hf := state_bind (fun s strict reuse v => hsame s { s.outside with
    strict := strict, reuseCache := reuse, validator := v, store := none }) hf
  act {_ m} hsame hoptions := by
    have houtside := State.outside_eq_of_within hsame
    have hevents : ∀ s, (m s).2.events = s.events := fun s => congrArg Outside.events (houtside s)
    have hdeferred : ∀ s, (m s).2.deferred = s.deferred := fun s =>
      congrArg Outside.deferred (houtside s)
    have hstore : ∀ s, (m s).2.store = s.store := fun s => congrArg Outside.store (houtside s)
    have hvalidator : ∀ s, (m s).2.validator = s.validator := fun s =>
      congrArg Outside.validator (houtside s)
    have hgrows : ∀ s, Grows s (m s).2 := fun s =>
      ⟨hoptions s, hevents s ▸ List.suffix_rfl, fun h => (hstore s).trans h,
        Nat.le_of_eq (congrArg (fun store => (store.map (·.hits)).getD 0) (hstore s)).symm,
        fun _ => hvalidator s⟩
    refine of_modifyGet (fun s strict reuse v => ?_) hgrows hgrows hvalidator fun _ s =>
      ⟨fun e he => .inl (hevents s ▸ he), fun e he => .inl (hdeferred s ▸ he)⟩
    have hbeside : (m s).2.within { s.outside with
        strict := strict, reuseCache := reuse, validator := v, store := none } =
          (m s).2.beside strict reuse v := by
      rw [← houtside s]
      rfl
    have hrun := hsame s { s.outside with
      strict := strict, reuseCache := reuse, validator := v, store := none }
    rw [hbeside] at hrun
    exact hrun
  warn _ _ := fireMild rfl
  fire := fireMild

/-- Reporting an error where the parse is not strict. -/
theorem report (error : Diagnostic) : InStep .loud (Parser.report error) :=
  state_bind (fun _ _ _ _ => rfl) fun _ => fire fun h => absurd rfl h

end Lockstep

/-! ## Failing again -/

namespace Rethrows

variable {α β : Type} {e : Diagnostic} {p : Parser α}

theorem throw_bind {f : β → Parser α} : Rethrows ((MonadExcept.throw e : Parser β) >>= f) :=
  fun _ _ => ⟨⟨e, rfl⟩, rfl⟩

/-- Changing the state before. -/
theorem update_bind {m : State → State} {f : Unit → Parser α} (h : Rethrows (f ()))
    (hm : ∀ s, (m s).options = s.options ∧ (m s).events = s.events) :
    Rethrows (update m >>= f) := by
  intro s hs
  obtain ⟨hfails, hevents⟩ := h (m s) ((congrArg Options.strict (hm s).1).trans hs)
  exact ⟨hfails, hevents.trans (hm s).2⟩

theorem unless_strict {f : β → Parser α} :
    Rethrows (Parser.options >>= fun o => if o.strict = true then MonadExcept.throw e >>= f
      else p) := by
  intro s hs
  have hrun : (Parser.options >>= fun o => if o.strict = true then MonadExcept.throw e >>= f
      else p) s = (.error e, s) := by
    show (if s.options.strict = true then MonadExcept.throw e >>= f else p) s = _
    rw [if_pos hs]
    rfl
  rw [hrun]
  exact ⟨⟨e, rfl⟩, rfl⟩

end Rethrows

end Stylesheet
