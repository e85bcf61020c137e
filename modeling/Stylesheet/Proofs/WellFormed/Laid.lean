import Stylesheet.Proofs.Reads.Block
import Stylesheet.Proofs.WellFormed.Quiet
import Stylesheet.Proofs.WellFormed.Selector

/-!
# Parsers that keep a state laid

While a rule is open, what it reports must lie in its text. So a parser
that reports selectors has to be followed through the source: it never goes
back before a given offset (`Stands`), and the selectors that it reports
lie between there and the offset that it reaches (`Reaches`), which is where
the next parser goes on. `Lays` says this of a run from a state, `Walks` of
the runs from all states.

A quiet parser is known already from its runs without a store, which
`Reads` and `Runs` are about.
-/

namespace Stylesheet

open Parse (State)
open Parse.State (Keeps Stands stands_false stands_true)

namespace Parse.State

variable {source : List Char} {starts : List Location} {m n : Nat} {held : Bool} {s s' : State}

/-- **A state of a parse that is laid** up to an offset, while a source is
read with some blocks open. -/
structure IsLaid (source : List Char) (starts : List Location) (m : Nat) (s : State) : Prop where
  /-- Without its store it is sound. -/
  isSound : s.alone.IsSound
  /-- The source is read. -/
  source_eq : s.stream.source = source
  /-- No block starts after the offset. -/
  start_le : ∀ start ∈ starts, start.offset ≤ m
  /-- No events are held back. -/
  deferred : s.deferred = none
  /-- What was reported and remembered is laid. -/
  holds : s.Holds source starts m

/-- **Where a run stands that comes to an offset or further**: the state is
laid up to there. -/
def Reaches (source : List Char) (starts : List Location) (held : Bool) (n : Nat) (s : State) :
    Prop :=
  ∃ m, n ≤ m ∧ s.IsLaid source starts m ∧ Stands held m s

theorem IsLaid.mono (h : s.IsLaid source starts m) (hle : m ≤ n) : s.IsLaid source starts n :=
  ⟨h.isSound, h.source_eq, fun loc hloc => Nat.le_trans (h.start_le loc hloc) hle, h.deferred,
    h.holds.mono hle⟩

/-- An event that may be reported is. -/
theorem IsLaid.reported {e : Event} (h : s.IsLaid source starts m)
    (he : e.IsBehind source starts m) : (s.reported e).IsLaid source starts m :=
  ⟨⟨h.isSound.stream, h.isSound.budget, rfl, h.isSound.deferred⟩, h.source_eq, h.start_le,
    h.deferred, h.holds.reported he⟩

theorem IsLaid.reaches (h : s.IsLaid source starts m) (hstands : Stands held m s) (hle : n ≤ m) :
    s.Reaches source starts held n := ⟨m, hle, h, hstands⟩

theorem Reaches.lower (h : s.Reaches source starts held n) (hle : m ≤ n) :
    s.Reaches source starts held m := by
  obtain ⟨k, hk, h, hstands⟩ := h
  exact ⟨k, Nat.le_trans hle hk, h, hstands⟩

theorem Reaches.release (h : s.Reaches source starts held n) :
    s.Reaches source starts false n := by
  obtain ⟨k, hk, h, hstands⟩ := h
  exact ⟨k, hk, h, hstands.release⟩

/-- With nothing in hand, a run stands where the next token is looked for. -/
theorem Reaches.at_offset (h : s.Reaches source starts false n) :
    n ≤ s.offset ∧ s.IsLaid source starts s.offset := by
  obtain ⟨k, hk, h, hstands⟩ := h
  exact ⟨Nat.le_trans hk hstands.1, h.mono hstands.1⟩

end Parse.State

/-- **A parser that keeps a state laid**, run from it. -/
structure Lays {α : Type} (source : List Char) (starts : List Location) (n : Nat) (p : Parser α)
    (s : State) (Q : α → State → Prop) : Prop where
  /-- A failure has not gone back before the offset. -/
  error : ∀ e, (p s).1 = .error e → (p s).2.Reaches source starts false n
  /-- A success has its condition. -/
  ok : ∀ a, (p s).1 = .ok a → Q a (p s).2

namespace Lays

variable {α β σ : Type} {source : List Char} {starts : List Location} {m n : Nat} {held : Bool}
  {s : State} {p q : Parser α} {f : α → Parser β} {Q R : α → State → Prop}
  {Q' : β → State → Prop}

/-! ## Constructs -/

theorem weaken (h : Lays source starts n p s Q) (himp : ∀ a s', Q a s' → R a s') :
    Lays source starts n p s R := ⟨h.error, fun a ha => himp a _ (h.ok a ha)⟩

theorem lower (h : Lays source starts n p s Q) (hle : m ≤ n) : Lays source starts m p s Q :=
  ⟨fun e he => (h.error e he).lower hle, h.ok⟩

/-- **A quiet parser** does what is known of it without a store. -/
theorem of_quiet (hp : Quiet p) (hs : s.IsLaid source starts m) (h : Reads m p p s.alone Q) :
    Lays source starts m p s fun a s' => s'.IsLaid source starts m ∧ Q a s'.alone := by
  have halone := hp.alone s
  have hkeeps := h.keeps
  have herror := h.error
  have hok := h.ok
  rw [halone] at hkeeps herror hok
  have hlaid : (p s).2.IsLaid source starts m :=
    ⟨hkeeps.isSound, hkeeps.source_eq.trans hs.source_eq, hs.start_le,
      hkeeps.deferred hs.deferred, hp.holds hs.holds⟩
  exact ⟨fun e he => hlaid.reaches (stands_false (herror e he)) (Nat.le_refl m),
    fun a ha => ⟨hlaid, hok a ha⟩⟩

theorem pure {a : α} (hQ : Q a s) : Lays source starts n (Pure.pure a) s Q where
  error _ he := by cases he
  ok b hb := by
    obtain rfl : a = b := Except.ok.inj hb
    exact hQ

theorem throw {e : Diagnostic} (hs : s.Reaches source starts held n) :
    Lays source starts n (MonadExcept.throw e : Parser α) s Q where
  error _ _ := hs.release
  ok a ha := by cases ha

theorem throw_bind {e : Diagnostic} (hs : s.Reaches source starts held n) :
    Lays source starts n ((MonadExcept.throw e : Parser α) >>= f) s Q' where
  error _ _ := hs.release
  ok a ha := by cases ha

theorem bind (h : Lays source starts n p s Q)
    (hf : ∀ a s₁, Q a s₁ → Lays source starts n (f a) s₁ Q') :
    Lays source starts n (p >>= f) s Q' := by
  rcases hp : p s with ⟨r, s₁⟩
  have herror := h.error
  have hok := h.ok
  rw [hp] at herror hok
  cases r with
  | error e =>
    have hrun : (p >>= f) s = (.error e, s₁) := Parser.bind_error hp
    refine ⟨fun _ _ => ?_, fun _ ha => ?_⟩ <;> rw [hrun] at *
    · exact herror e rfl
    · cases ha
  | ok a =>
    have hrun : (p >>= f) s = f a s₁ := Parser.bind_ok hp
    have hnext := hf a s₁ (hok a rfl)
    exact ⟨hrun ▸ hnext.error, hrun ▸ hnext.ok⟩

theorem pure_bind {a : α} (h : Lays source starts n (f a) s Q') :
    Lays source starts n (Pure.pure a >>= f) s Q' := ⟨h.error, h.ok⟩

theorem ite {c : Prop} [Decidable c] (hpos : c → Lays source starts n p s Q)
    (hneg : ¬c → Lays source starts n q s Q) :
    Lays source starts n (if c then p else q) s Q := by
  by_cases hc : c
  · rw [if_pos hc]
    exact hpos hc
  · rw [if_neg hc]
    exact hneg hc

theorem discard {Q : Unit → State → Prop} (h : Lays source starts n p s fun _ => Q ()) :
    Lays source starts n (Functor.discard p) s Q := by
  show Lays source starts n (p >>= fun _ => Pure.pure ()) s Q
  exact h.bind fun _ _ hQ => pure hQ

theorem attempt {starts' : List Location} (h : Lays source starts' n p s Q) :
    Lays source starts m (Parser.attempt p) s fun r s' =>
      (∀ a, r = .ok a → Q a s') ∧ ∀ e, r = .error e → s'.Reaches source starts' false n := by
  have hrun : Parser.attempt p s = (.ok (p s).1, (p s).2) := Parser.attempt_apply p s
  refine ⟨fun e he => ?_, fun r hr => ?_⟩
  · rw [hrun] at he
    cases he
  · rw [hrun] at hr ⊢
    obtain rfl := Except.ok.inj hr
    exact ⟨h.ok, h.error⟩

theorem state_bind {f : State → Parser β} (h : Lays source starts n (f s) s Q') :
    Lays source starts n (Parser.state >>= f) s Q' := ⟨h.error, h.ok⟩

theorem options_bind {f : Options → Parser β} (h : Lays source starts n (f s.options) s Q') :
    Lays source starts n (Parser.options >>= f) s Q' := ⟨h.error, h.ok⟩

theorem budget_bind {f : Nat → Parser β} (h : Lays source starts n (f s.budget) s Q') :
    Lays source starts n (Parser.budget >>= f) s Q' := ⟨h.error, h.ok⟩

theorem current_bind {f : Token → Parser β} (h : Lays source starts n (f s.stream.current) s Q') :
    Lays source starts n (Parser.current >>= f) s Q' := ⟨h.error, h.ok⟩

/-! ## Events -/

theorem modifyGet {g : State → α × State} (hQ : Q (g s).1 (g s).2) :
    Lays source starts n (MonadStateOf.modifyGet g : Parser α) s Q where
  error _ he := by cases he
  ok a ha := by
    obtain rfl : (g s).1 = a := Except.ok.inj ha
    exact hQ

theorem fire {starts' : List Location} {kind : EventKind} {loc : Location}
    (hs : s.IsLaid source starts' m) (he : Event.IsBehind source starts' m ⟨kind, loc⟩) :
    Lays source starts n (Parser.fire kind loc) s fun _ s' =>
      s'.IsLaid source starts' m ∧ s'.stream = s.stream := by
  rw [Lockstep.fire_eq]
  refine modifyGet (g := fun s => ((), Lockstep.logged ⟨kind, loc⟩ s)) ?_
  have hlogged : Lockstep.logged ⟨kind, loc⟩ s = s.reported ⟨kind, loc⟩ := by
    unfold Lockstep.logged State.reported
    simp only [hs.deferred]
  dsimp only
  rw [hlogged]
  exact ⟨hs.reported he, rfl⟩

/-! ## Repetition -/

theorem rounds {step : σ → Parser (ForInStep σ)} {Q : σ → State → Prop} (I : σ → State → Prop)
    (μ : σ → State → Nat)
    (hstep : ∀ a s, I a s → Lays source starts n (step a) s (Reads.Turn I μ (μ a s) Q)) {k : Nat}
    {a : σ} (hI : I a s) (hk : μ a s < k) : Lays source starts n (Parser.rounds step k a) s Q := by
  induction k generalizing a s with
  | zero => exact absurd hk (Nat.not_lt_zero _)
  | succ k ih =>
    refine (hstep a s hI).bind fun r s₁ hturn => ?_
    cases r with
    | done b => exact pure hturn
    | yield b => exact ih hturn.1 (by have := hturn.2; omega)

theorem repeating {step : σ → Parser (ForInStep σ)} {Q : σ → State → Prop} (I : σ → State → Prop)
    (μ : σ → State → Nat) {a : σ} (hs : s.IsLaid source starts m) (hI : I a s)
    (hμ : μ a s < s.left + 64)
    (hstep : ∀ a s, I a s → Lays source starts n (step a) s (Reads.Turn I μ (μ a s) Q)) :
    Lays source starts n (Parser.repeating a step) s Q := by
  refine budget_bind (rounds I μ hstep hI (Nat.lt_of_lt_of_le hμ ?_))
  exact Nat.le_trans s.left_add_le_bound hs.isSound.budget

/-- **A step over and over whose first round leaves** what the others
keep. -/
theorem repeating_first {step : σ → Parser (ForInStep σ)} (I : σ → State → Prop) {a : σ}
    (hs : s.IsLaid source starts m) (hfirst : Lays source starts n (step a) s (Ensures.Round I))
    (hstep : ∀ a s₁, I a s₁ → Lays source starts n (step a) s₁ (Ensures.Round I)) :
    Lays source starts n (Parser.repeating a step) s I := by
  have hrest : ∀ k a s₁, I a s₁ → Lays source starts n (Parser.rounds step k a) s₁ I := by
    intro k
    induction k with
    | zero => exact fun a s₁ hI => pure hI
    | succ k ih =>
      refine fun a s₁ hI => (hstep a s₁ hI).bind fun r s₂ hr => ?_
      cases r with
      | done b => exact pure hr
      | yield b => exact ih b s₂ hr
  refine budget_bind ?_
  obtain ⟨k, hk⟩ : ∃ k, s.budget = k + 1 := by
    have hbudget : s.alone.bound ≤ s.budget := hs.isSound.budget
    unfold Parse.State.bound at hbudget
    exact ⟨s.budget - 1, by omega⟩
  rw [hk]
  refine hfirst.bind fun r s₁ hr => ?_
  cases r with
  | done b => exact pure hr
  | yield b => exact hrest k b s₁ hr

end Lays

/-! ## From all states -/

/-- **A parser that keeps every state laid**, with a token in hand before if
`held` and after if `held'`. -/
def Walks {α : Type} (source : List Char) (held held' : Bool) (p : Parser α) : Prop :=
  ∀ (starts : List Location) (s : State) (m : Nat), s.IsLaid source starts m → Stands held m s →
    Lays source starts m p s fun _ s' => s'.Reaches source starts held' m

namespace Walks

variable {α β σ : Type} {source : List Char} {starts : List Location} {m n : Nat} {a b c : Bool}
  {s : State} {p q : Parser α} {f : α → Parser β}

/-- What a parser does from a state that it reaches. -/
theorem lays (h : Walks source a b p) (hs : s.Reaches source starts a n) :
    Lays source starts n p s fun _ s' => s'.Reaches source starts b n := by
  obtain ⟨m, hle, hlaid, hstands⟩ := hs
  exact ((h starts s m hlaid hstands).lower hle).weaken fun _ _ hs' => hs'.lower hle

/-- **A quiet parser** walks as it runs. -/
theorem of_runs (hp : Quiet p) (h : ∀ d, Runs d a b p p) : Walks source a b p :=
  fun _ _ m hs hstands => (Lays.of_quiet hp hs (Runs.reads h hs.isSound hstands)).weaken
    fun _ _ hs' => hs'.1.reaches hs'.2 (Nat.le_refl m)

/-! ### Constructs -/

theorem of_false (h : Walks source false b p) : Walks source a b p := fun starts s m hs hstands =>
  h starts s m hs hstands.release

theorem release (h : Walks source a b p) : Walks source a false p := fun starts s m hs hstands =>
  (h starts s m hs hstands).weaken fun _ _ hs' => hs'.release

theorem pure (x : α) : Walks source a a (Pure.pure x : Parser α) := fun _ _ m hs hstands =>
  Lays.pure (hs.reaches hstands (Nat.le_refl m))

theorem throw (e : Diagnostic) : Walks source a b (MonadExcept.throw e : Parser α) :=
  fun _ _ m hs hstands => Lays.throw (hs.reaches hstands (Nat.le_refl m))

theorem throw_bind (e : Diagnostic) :
    Walks source a b ((MonadExcept.throw e : Parser α) >>= f) := fun _ _ m hs hstands =>
  Lays.throw_bind (hs.reaches hstands (Nat.le_refl m))

theorem bind (h : Walks source a b p) (hf : ∀ x, Walks source b c (f x)) :
    Walks source a c (p >>= f) := fun starts s m hs hstands =>
  (h starts s m hs hstands).bind fun x _ hs₁ => (hf x).lays hs₁

theorem pure_bind {x : α} (h : Walks source a b (f x)) : Walks source a b (Pure.pure x >>= f) :=
  fun starts s m hs hstands => (h starts s m hs hstands).pure_bind

theorem ite {test : Prop} [Decidable test] (hpos : test → Walks source a b p)
    (hneg : ¬test → Walks source a b q) : Walks source a b (if test then p else q) :=
  fun starts s m hs hstands => Lays.ite (fun h => hpos h starts s m hs hstands)
    fun h => hneg h starts s m hs hstands

theorem discard (h : Walks source a b p) : Walks source a b (Functor.discard p) :=
  fun starts s m hs hstands => (h starts s m hs hstands).discard

theorem options_bind {f : Options → Parser β} (hf : ∀ o, Walks source a b (f o)) :
    Walks source a b (Parser.options >>= f) := fun starts s m hs hstands =>
  Lays.options_bind (hf s.options starts s m hs hstands)

theorem budget_bind {f : Nat → Parser β} (hf : ∀ n, Walks source a b (f n)) :
    Walks source a b (Parser.budget >>= f) := fun starts s m hs hstands =>
  Lays.budget_bind (hf s.budget starts s m hs hstands)

theorem current_bind {f : Token → Parser β} (hf : ∀ t, Walks source a b (f t)) :
    Walks source a b (Parser.current >>= f) := fun starts s m hs hstands =>
  Lays.current_bind (hf s.stream.current starts s m hs hstands)

theorem ofExcept (r : Except Diagnostic α) : Walks source a a (Parser.ofExcept r) := by
  cases r with
  | error e => exact throw e
  | ok x => exact pure x

/-! ### Tokens and events -/

theorem next (placeholders blanks : Bool) :
    Walks source a true (Parser.next placeholders blanks) :=
  of_runs (Quiet.composes.next _ _) fun _ => Runs.next placeholders blanks

theorem grab : Walks source a true Parser.grab := next false false

theorem mustMatch (kinds : List TokenKind) : Walks source a true (Parser.mustMatch kinds) :=
  of_runs (Quiet.composes.mustMatch _) fun _ => Runs.mustMatch kinds

theorem mustMatchSmart (kinds : List TokenKind) :
    Walks source a true (Parser.mustMatchSmart kinds) :=
  of_runs (Quiet.composes.mustMatchSmart _) fun _ => Runs.mustMatchSmart kinds

theorem mustReuse (kinds : List TokenKind) : Walks source true true (Parser.mustReuse kinds) :=
  of_runs (Quiet.composes.mustReuse _) fun _ => Runs.mustReuse kinds

theorem unget : Walks source true false Parser.unget :=
  of_runs Quiet.composes.unget fun _ => Runs.unget

theorem matchKinds (kinds : List TokenKind) : Walks source a a (Parser.matchKinds kinds) :=
  of_runs (Quiet.composes.matchKinds _) fun _ => Runs.matchKinds kinds

theorem matchSmart (kinds : List TokenKind) : Walks source a a (Parser.matchSmart kinds) :=
  of_runs (Quiet.composes.matchSmart _) fun _ => Runs.matchSmart kinds

/-- **A request for a token**, with what follows when it is granted and when
it is not. -/
theorem found_bind {p : Parser (Option Token)} {f : Option Token → Parser β}
    {accepted : Token → Prop} (hp : Quiet p)
    (hfound : ∀ (s : State) (n : Nat), s.IsSound → Reads n p p s (Reads.Found s accepted))
    (hsome : ∀ t, Walks source true b (f (some t))) (hnone : Walks source a b (f none)) :
    Walks source a b (p >>= f) := by
  intro starts s m hs hstands
  refine (Lays.of_quiet hp hs (hfound s.alone m hs.isSound)).bind fun r s₁ ⟨hs₁, hr⟩ => ?_
  cases r with
  | some t => exact hsome t starts s₁ m hs₁ (Runs.stands_of_got hstands.1 hr.1)
  | none => exact hnone starts s₁ m hs₁ (Runs.stands_of_stays hstands hr)

theorem matchSmart_bind {kinds : List TokenKind} {f : Option Token → Parser β}
    (hsome : ∀ t, Walks source true b (f (some t))) (hnone : Walks source a b (f none)) :
    Walks source a b (Parser.matchSmart kinds >>= f) :=
  found_bind (Quiet.composes.matchSmart _) (fun _ _ hs => Reads.matchSmart hs kinds) hsome hnone

theorem matchKeyword_bind {set : Keywords} {f : Option Token → Parser β}
    (hsome : ∀ t, Walks source true b (f (some t))) (hnone : Walks source a b (f none)) :
    Walks source a b (Parser.matchKeyword set >>= f) :=
  found_bind (Quiet.composes.matchKeyword _) (fun _ _ hs => Reads.matchKeyword hs set) hsome hnone

theorem fire {kind : EventKind} {loc : Location} (he : Event.selectors ⟨kind, loc⟩ = [])
    (hinner : Event.IsInner ⟨kind, loc⟩) : Walks source a a (Parser.fire kind loc) :=
  of_runs (Quiet.fire he) fun _ => Runs.fire hinner

theorem warn (message : String) (loc : Location) : Walks source a a (Parser.warn message loc) :=
  of_runs (Quiet.composes.warn _ _) fun _ => Runs.warn message loc

theorem repeating {step : σ → Parser (ForInStep σ)} {x : σ}
    (hstep : ∀ x, Walks source false b (step x)) : Walks source a b (Parser.repeating x step) := by
  intro starts s m hs hstands
  have hround : ∀ {x s₁},
      Lays source starts m (step x) s₁ (fun _ s' => s'.Reaches source starts b m) →
      Lays source starts m (step x) s₁
        (Ensures.Round fun _ s' => s'.Reaches source starts b m) := fun h =>
    h.weaken fun r _ hr => by cases r <;> exact hr
  exact Lays.repeating_first _ hs (hround (hstep x starts s m hs hstands.release))
    fun x s₁ hs₁ => hround ((hstep x).lays hs₁.release)

end Walks

end Stylesheet
