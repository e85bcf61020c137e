import Stylesheet.Proofs.Nesting
import Stylesheet.Proofs.Places.Basic
import Stylesheet.Proofs.Reads.Basic

/-!
# What parsers report

A parser only ever adds to what was reported before. `Emits` says what it
adds: true events, whose places are places of the source and whose ends
of blocks stand at closing braces, and which take a stack of open blocks
from one state to another. When the parser fails, the blocks it opened
and did not close are left on the stack, on top of those that were open
at some base; whoever catches the failure has to report an error before
going on, and at that error they are given up.

Most parsers leave the stack as it is: `Tells` says this of them, and
that what they return or fail with is placed in the source.
-/

namespace Stylesheet

open Parse (State)
open Parse.State (Keeps)
open Stylesheet.Parser

/-- **An event that is true to a source**: its places are places of it,
and a block ends at a closing brace. -/
def Event.IsTrue (source : List Char) (e : Event) : Prop :=
  IsPlaced source e ∧ ∀ kind empty, e.kind = .stop kind empty →
    ∃ t : Token, t.IsCut source ∧ t.kind = .rBrace ∧ e.location = t.location

/-- Where events are reported to, the latest first: to those held back if
there are any, and otherwise to the others. -/
def Parse.State.log (s : State) : List Event := s.deferred.getD s.events

/-- **What a run adds** to the events: some true ones, all in one place. -/
structure Adds (source : List Char) (s s' : State) (new : List Event) : Prop where
  /-- What every run keeps is kept. -/
  keeps : Keeps s s'
  /-- Events are held back if they were before. -/
  held_eq : s'.deferred.isSome = s.deferred.isSome
  /-- The new events come after the old ones. -/
  log_eq : s'.log = new.reverse ++ s.log
  /-- While events are held back no others are reported. -/
  events_eq : s.deferred.isSome = true → s'.events = s.events
  /-- The new events are true. -/
  isTrue : ∀ e ∈ new, e.IsTrue source

namespace Adds

variable {source : List Char} {s s' s'' : State} {new new' : List Event}

theorem refl (hs : s.IsSound) : Adds source s s [] :=
  ⟨Keeps.refl hs, rfl, rfl, fun _ => rfl, fun _ he => by cases he⟩

theorem trans (h : Adds source s s' new) (h' : Adds source s' s'' new') :
    Adds source s s'' (new ++ new') where
  keeps := h.keeps.trans h'.keeps
  held_eq := h'.held_eq.trans h.held_eq
  log_eq := by rw [h'.log_eq, h.log_eq, List.reverse_append, List.append_assoc]
  events_eq hheld := (h'.events_eq (h.held_eq.trans hheld)).trans (h.events_eq hheld)
  isTrue e he := (List.mem_append.mp he).elim (h.isTrue e) (h'.isTrue e)

/-- A run that leaves the events alone adds none. -/
theorem of_eq (hkeeps : Keeps s s') (hevents : s'.events = s.events)
    (hdeferred : s'.deferred = s.deferred) : Adds source s s' [] :=
  ⟨hkeeps, congrArg Option.isSome hdeferred, by
    unfold Parse.State.log
    rw [hevents, hdeferred]
    rfl, fun _ => hevents, fun _ he => by cases he⟩

end Adds

/-- **A parser that takes the open blocks from one stack to another.** It
adds true events; if it succeeds, its result has a property, and if it
fails, its failure is placed in the source and the blocks of the base are
still open. -/
structure Emits {α : Type} (source : List Char) (held : Bool) (base before after : List BlockKind)
    (p : Parser α) (Q : α → Prop) : Prop where
  /-- What a run from a sound state adds and leaves. -/
  run : ∀ s : State, s.IsSound → s.stream.source = source → s.deferred.isSome = held →
    ∃ new, Adds source s (p s).2 new ∧
      (∀ a, (p s).1 = .ok a → Q a ∧ Nests before new after) ∧
      (∀ e, (p s).1 = .error e → IsPlaced source e ∧ ∃ lost, Nests before new (lost ++ base))

/-- **A parser that leaves the open blocks as they are.** -/
abbrev Tells {α : Type} (source : List Char) (held : Bool) (open_ : List BlockKind)
    (p : Parser α) (Q : α → Prop) : Prop :=
  Emits source held open_ open_ open_ p Q

namespace Emits

variable {α β σ : Type} {source : List Char} {held : Bool}
  {base before between after open_ : List BlockKind} {p q : Parser α} {f : α → Parser β}
  {Q R : α → Prop} {Q' : β → Prop}

/-! ## Constructs -/

/-- A property can be given up for a weaker one. -/
theorem weaken (h : Emits source held base before after p Q) (himp : ∀ a, Q a → R a) :
    Emits source held base before after p R := by
  refine ⟨fun s hs hsource hheld => ?_⟩
  obtain ⟨new, hadds, hok, herror⟩ := h.run s hs hsource hheld
  exact ⟨new, hadds, fun a ha => ⟨himp a (hok a ha).1, (hok a ha).2⟩, herror⟩

/-- A base can be given up for a part of it. -/
theorem rebase (h : Emits source held before before after p Q) (hbase : base <:+ before) :
    Emits source held base before after p Q := by
  refine ⟨fun s hs hsource hheld => ?_⟩
  obtain ⟨new, hadds, hok, herror⟩ := h.run s hs hsource hheld
  refine ⟨new, hadds, hok, fun e he => ⟨(herror e he).1, ?_⟩⟩
  obtain ⟨more, rfl⟩ := hbase
  obtain ⟨lost, hnests⟩ := (herror e he).2
  exact ⟨lost ++ more, by rwa [List.append_assoc]⟩

/-- A parser that leaves the events alone. -/
theorem silent (h : ∀ s : State, s.IsSound → s.stream.source = source → s.deferred.isSome = held →
      Keeps s (p s).2 ∧ (p s).2.events = s.events ∧ (p s).2.deferred = s.deferred ∧
        (∀ a, (p s).1 = .ok a → Q a) ∧ ∀ e, (p s).1 = .error e → IsPlaced source e) :
    Tells source held open_ p Q := by
  refine ⟨fun s hs hsource hheld => ?_⟩
  obtain ⟨hkeeps, hevents, hdeferred, hok, herror⟩ := h s hs hsource hheld
  exact ⟨[], .of_eq hkeeps hevents hdeferred, fun a ha => ⟨hok a ha, .done _⟩,
    fun e he => ⟨herror e he, [], .done _⟩⟩

theorem pure {a : α} (ha : Q a) : Emits source held base open_ open_ (Pure.pure a) Q :=
  ⟨fun s hs _ _ => ⟨[], .refl hs, fun b hb => by
    obtain rfl : a = b := Except.ok.inj hb
    exact ⟨ha, .done _⟩, fun _ he => by cases he⟩⟩

/-- **A failure** where the blocks of the base are still open. -/
theorem throw_of_suffix {e : Diagnostic} (hbase : base <:+ before) (he : IsPlaced source e) :
    Emits source held base before after (MonadExcept.throw e : Parser α) Q := by
  obtain ⟨lost, rfl⟩ := hbase
  refine ⟨fun s hs _ _ => ?_⟩
  refine ⟨[], .refl hs, fun _ ha => (by cases ha), fun e' he' => ?_⟩
  obtain rfl : e = e' := Except.error.inj he'
  exact ⟨he, lost, .done _⟩

theorem throw {e : Diagnostic} (he : IsPlaced source e) :
    Emits source held open_ open_ after (MonadExcept.throw e : Parser α) Q :=
  throw_of_suffix List.suffix_rfl he

theorem bind (h : Emits source held base before between p Q)
    (hf : ∀ a, Q a → Emits source held base between after (f a) Q') :
    Emits source held base before after (p >>= f) Q' := by
  refine ⟨fun s hs hsource hheld => ?_⟩
  obtain ⟨new, hadds, hok, herror⟩ := h.run s hs hsource hheld
  rcases hp : p s with ⟨e | a, s₁⟩ <;> rw [hp] at hadds hok herror
  · rw [bind_error hp]
    refine ⟨new, hadds, fun _ ha => ?_, fun e' he' => ?_⟩
    · cases ha
    · obtain rfl : e = e' := Except.error.inj he'
      exact herror e rfl
  · obtain ⟨ha, hnests⟩ := hok a rfl
    obtain ⟨new', hadds', hok', herror'⟩ := (hf a ha).run s₁ hadds.keeps.isSound
      (hadds.keeps.source_eq.trans hsource) (hadds.held_eq.trans hheld)
    rw [bind_ok hp]
    refine ⟨new ++ new', hadds.trans hadds', fun b hb => ?_, fun e he => ?_⟩
    · exact ⟨(hok' b hb).1, hnests.append (hok' b hb).2⟩
    · obtain ⟨he, lost, hlost⟩ := herror' e he
      exact ⟨he, lost, hnests.append hlost⟩

theorem pure_bind {a : α} (h : Emits source held base before after (f a) Q') :
    Emits source held base before after (Pure.pure a >>= f) Q' := ⟨h.run⟩

theorem ite {c : Prop} [Decidable c] (hpos : c → Emits source held base before after p Q)
    (hneg : ¬c → Emits source held base before after q Q) :
    Emits source held base before after (if c then p else q) Q := by
  by_cases hc : c
  · rw [if_pos hc]
    exact hpos hc
  · rw [if_neg hc]
    exact hneg hc

theorem discard (h : Emits source held base before after p Q) :
    Emits source held base before after (Functor.discard p) fun _ => True := by
  show Emits source held base before after (p >>= fun _ => Pure.pure ()) _
  exact h.bind fun _ _ => pure trivial

/-- **A failure that is caught**: on the way on, the blocks that were
opened and not closed are still open. -/
theorem attempt_bind {f : Except Diagnostic α → Parser β}
    (h : Emits source held before before between p Q)
    (hok : ∀ a, Q a → Emits source held base between after (f (.ok a)) Q')
    (herror : ∀ e lost, IsPlaced source e →
      Emits source held base (lost ++ before) after (f (.error e)) Q') :
    Emits source held base before after (attempt p >>= f) Q' := by
  refine ⟨fun s hs hsource hheld => ?_⟩
  obtain ⟨new, hadds, hp_ok, hp_error⟩ := h.run s hs hsource hheld
  rw [bind_ok (attempt_apply p s)]
  rcases hp : p s with ⟨e | a, s₁⟩ <;> rw [hp] at hadds hp_ok hp_error
  · obtain ⟨he, lost, hnests⟩ := hp_error e rfl
    obtain ⟨new', hadds', hok', herror'⟩ := (herror e lost he).run s₁ hadds.keeps.isSound
      (hadds.keeps.source_eq.trans hsource) (hadds.held_eq.trans hheld)
    refine ⟨new ++ new', hadds.trans hadds', fun b hb => ?_, fun e he => ?_⟩
    · exact ⟨(hok' b hb).1, hnests.append (hok' b hb).2⟩
    · obtain ⟨he, lost, hlost⟩ := herror' e he
      exact ⟨he, lost, hnests.append hlost⟩
  · obtain ⟨ha, hnests⟩ := hp_ok a rfl
    obtain ⟨new', hadds', hok', herror'⟩ := (hok a ha).run s₁ hadds.keeps.isSound
      (hadds.keeps.source_eq.trans hsource) (hadds.held_eq.trans hheld)
    refine ⟨new ++ new', hadds.trans hadds', fun b hb => ?_, fun e he => ?_⟩
    · exact ⟨(hok' b hb).1, hnests.append (hok' b hb).2⟩
    · obtain ⟨he, lost, hlost⟩ := herror' e he
      exact ⟨he, lost, hnests.append hlost⟩

/-- A failure that is caught and forgotten. -/
theorem discard_attempt_bind {f : Unit → Parser β} (h : Tells source held before p Q)
    (hf : ∀ lost, Emits source held base (lost ++ before) after (f ()) Q') :
    Emits source held base before after (Functor.discard (attempt p) >>= f) Q' := by
  have hrun : (Functor.discard (attempt p) >>= f) = (attempt p >>= fun _ => f ()) := by
    funext s
    have hdiscard : Functor.discard (attempt p) s = (.ok (), (p s).2) := by
      show (attempt p >>= fun _ => Pure.pure ()) s = _
      rw [bind_ok (attempt_apply p s)]
      rfl
    rw [bind_ok hdiscard, bind_ok (attempt_apply p s)]
  rw [hrun]
  exact attempt_bind h (fun _ _ => hf []) fun _ lost _ => hf lost

/-! ## The state -/

theorem state : Emits source held base open_ open_ Parser.state
    fun s => s.IsSound ∧ s.stream.source = source :=
  ⟨fun s hs hsource _ => ⟨[], .refl hs, fun a ha => by
    obtain rfl : s = a := Except.ok.inj ha
    exact ⟨⟨hs, hsource⟩, .done _⟩, fun _ he => by cases he⟩⟩

theorem options : Emits source held base open_ open_ Parser.options fun _ => True :=
  state.bind fun _ _ => pure trivial

theorem budget : Emits source held base open_ open_ Parser.budget fun _ => True :=
  state.bind fun _ _ => pure trivial

theorem slice (start stop : Nat) :
    Emits source held base open_ open_ (Parser.slice start stop) fun _ => True :=
  state.bind fun _ _ => pure trivial

theorem adjust {g : State → State}
    (hsame : ∀ s, (g s).stream = s.stream ∧ (g s).options = s.options ∧ (g s).budget = s.budget ∧
      (g s).store = s.store ∧ (g s).deferred = s.deferred ∧ (g s).events = s.events) :
    Emits source held base open_ open_ (update g) fun _ => True := by
  refine ⟨fun s hs _ _ => ?_⟩
  obtain ⟨hstream, hoptions, hbudget, hstore, hdeferred, hevents⟩ := hsame s
  exact ⟨[], .of_eq (hs.keeps_of_eq hstream hoptions hbudget hstore hdeferred hevents) hevents
    hdeferred, fun _ _ => ⟨trivial, .done _⟩, fun _ he => by cases he⟩

theorem setPair (pair : Option TokenKind) :
    Emits source held base open_ open_ (update fun s => { s with pair := pair })
      fun _ => True :=
  adjust fun _ => ⟨rfl, rfl, rfl, rfl, rfl, rfl⟩

/-! ## Repetition -/

/-- The results of a round: `I` for those that go on, `J` for the last. -/
def Round (I J : σ → Prop) : ForInStep σ → Prop
  | .yield a => I a
  | .done a => J a

/-- **A loop whose rounds keep an invariant.** -/
theorem rounds {step : σ → Parser (ForInStep σ)} (I J : σ → Prop) {n : Nat} {a : σ} (ha : I a)
    (hstep : ∀ a, I a → Tells source held open_ (step a) (Round I J)) :
    Tells source held open_ (Parser.rounds step n a) fun b => I b ∨ J b := by
  induction n generalizing a with
  | zero => exact pure (.inl ha)
  | succ n ih =>
    refine (hstep a ha).bind fun r hr => ?_
    cases r with
    | done b => exact pure (.inr hr)
    | yield b => exact ih hr

/-- A step over and over, with one invariant throughout. -/
theorem repeating {step : σ → Parser (ForInStep σ)} (I : σ → Prop) {a : σ} (ha : I a)
    (hstep : ∀ a, I a → Tells source held open_ (step a) (Round I I)) :
    Tells source held open_ (Parser.repeating a step) I :=
  budget.bind fun _ _ => (rounds I I ha hstep).weaken fun _ h => h.elim id id

/-! ## Events -/

theorem fire {kind : EventKind} {location : Location}
    (hinner : Event.IsInner ⟨kind, location⟩) (htrue : Event.IsTrue source ⟨kind, location⟩)
    (hnests : Nests before [⟨kind, location⟩] after) :
    Emits source held base before after (Parser.fire kind location) fun _ => True := by
  refine ⟨fun s hs _ _ => ?_⟩
  have hkeeps := (Reads.fire (n := 0) hs hinner).keeps
  have htrue' : ∀ e ∈ [(⟨kind, location⟩ : Event)], e.IsTrue source := fun e he =>
    List.mem_singleton.mp he ▸ htrue
  refine ⟨[⟨kind, location⟩], ?_, fun _ _ => ⟨trivial, hnests⟩, ?_⟩
  · cases hdeferred : s.deferred with
    | none =>
      rw [fire_apply hdeferred hs.store] at hkeeps ⊢
      exact ⟨hkeeps, rfl, by simp [Parse.State.log, hdeferred], fun h => by simp [hdeferred] at h,
        htrue'⟩
    | some events =>
      rw [fire_apply_of_held hdeferred] at hkeeps ⊢
      exact ⟨hkeeps, by simp [hdeferred], by simp [Parse.State.log, hdeferred], fun _ => rfl,
        htrue'⟩
  · cases hdeferred : s.deferred with
    | none =>
      rw [fire_apply hdeferred hs.store]
      exact fun _ he => by cases he
    | some events =>
      rw [fire_apply_of_held hdeferred]
      exact fun _ he => by cases he

end Emits

/-!
## What parsers report: tokens and plain events

The steps that every production is made of: asking the stream for
tokens, which gives cuts of the source or a failure placed in it, moving
the stream, and reporting warnings and errors. An error is where blocks
that were opened and not closed are given up.
-/

open Stylesheet.Stream (Got Stays)

/-- A complaint about a token is placed where the token is. -/
theorem Token.unexpected_isPlaced {source : List Char} {t : Token} (ht : IsPlaced source t)
    (expected : String) : IsPlaced source (t.unexpected expected) := by
  rw [isPlaced_diagnostic]
  rintro loc ⟨⟩
  exact (isPlaced_token.mp ht).1

namespace Stream.IsSound

variable {s : Stream} {kinds : List TokenKind} {e : Diagnostic}

/-- The token handed out last is placed in the source. -/
theorem current_isPlaced (h : s.IsSound) : IsPlaced s.source s.current := by
  unfold current current?
  cases hbehind : s.behind with
  | nil => exact isPlaced_token.mpr ⟨h.isAt.isPlace, h.isAt.isPlace⟩
  | cons t behind => exact (h.isCut t (by simp [window, hbehind])).isPlaced

/-- A complaint about the next token is placed in the source. -/
theorem complain_isPlaced (h : s.IsSound) {expected : String}
    (he : (s.complain expected).1 = .error e) : IsPlaced s.source e := by
  obtain rfl := Except.error.inj he
  exact Token.unexpected_isPlaced (h.get false false).isCut.isPlaced expected

theorem mustMatch_isPlaced (h : s.IsSound) (he : (s.mustMatch kinds).1 = .error e) :
    IsPlaced s.source e := by
  have hnone := ((h.get false true).accept (p := (kinds.contains ·.kind))).2
  unfold Stream.mustMatch Stream.matchKinds at he
  split at he
  · cases he
  · next heq =>
    rw [heq] at hnone
    exact (hnone rfl).source_eq ▸ (hnone rfl).isSound.complain_isPlaced he

theorem mustMatchSmart_isPlaced (h : s.IsSound) (he : (s.mustMatchSmart kinds).1 = .error e) :
    IsPlaced s.source e := by
  have hnone := ((h.get false (kinds.contains .whitespace)).accept
    (p := (kinds.contains ·.kind))).2
  unfold Stream.mustMatchSmart Stream.matchSmart at he
  split at he
  · cases he
  · next heq =>
    rw [heq] at hnone
    exact (hnone rfl).source_eq ▸ (hnone rfl).isSound.complain_isPlaced he

theorem mustMatchKeyword_isPlaced (h : s.IsSound) {kind : TokenKind} {set : Keywords}
    (he : (s.mustMatchKeyword kind set).1 = .error e) : IsPlaced s.source e := by
  have hnone := ((h.get false false).accept (p := fun t => t.kind == kind && set.has t.text)).2
  unfold Stream.mustMatchKeyword Stream.matchKeyword at he
  split at he
  · cases he
  · next heq =>
    unfold grab at heq
    rw [heq] at hnone
    exact (hnone rfl).source_eq ▸ (hnone rfl).isSound.complain_isPlaced he

end Stream.IsSound

namespace Emits

variable {α β : Type} {source : List Char} {held : Bool} {base before after open_ : List BlockKind}
  {f : α → Parser β} {Q : α → Prop} {Q' : β → Prop}

variable {e : Diagnostic} {t : Token} {expected : String} {location : Location}

/-! ## Asking the stream -/

theorem ask {f : Stream → α × Stream} (h : ∀ st : Stream, st.IsSound → st.source = source →
      (f st).2.IsSound ∧ (f st).2.source = source ∧ Q (f st).1) :
    Emits source held base open_ open_ (Parser.ask f) Q := by
  refine ⟨fun s hs hsource _ => ?_⟩
  obtain ⟨hsound, hsource', hQ⟩ := h s.stream hs.stream hsource
  refine ⟨[], .of_eq (hs.withStream hsound (hsource'.trans hsource.symm)) rfl rfl, fun a ha => ?_,
    fun _ he => by cases he⟩
  obtain rfl : (f s.stream).1 = a := Except.ok.inj ha
  exact ⟨hQ, .done _⟩

theorem next (placeholders blanks : Bool) :
    Emits source held base open_ open_ (Parser.next placeholders blanks) (Token.IsCut source) :=
  ask fun st hst hsource => by
    have hgot := hst.get placeholders blanks
    exact ⟨hgot.isSound, hgot.source_eq.trans hsource, hsource ▸ hgot.isCut⟩

theorem grab : Emits source held base open_ open_ Parser.grab (Token.IsCut source) :=
  next false false

theorem accept {f : Stream → Token × Stream} {test : Token → Bool}
    (hgot : ∀ st : Stream, st.IsSound → Got st (f st).1 (f st).2) :
    Emits source held base open_ open_ (Parser.ask fun st => Stream.accept (f st) test)
      fun r => ∀ t, r = some t → t.IsCut source := by
  refine ask fun st hst hsource => ?_
  obtain ⟨hsome, hnone⟩ := (hgot st hst).accept (p := test)
  rcases haccept : Stream.accept (f st) test with ⟨_ | t, st'⟩ <;> rw [haccept] at hsome hnone
  · exact ⟨(hnone rfl).isSound, (hnone rfl).source_eq.trans hsource, fun _ h => by cases h⟩
  · obtain ⟨hgot, -⟩ := hsome t rfl
    refine ⟨hgot.isSound, hgot.source_eq.trans hsource, ?_⟩
    rintro _ ⟨⟩
    exact hsource ▸ hgot.isCut

theorem matchKinds (kinds : List TokenKind) :
    Emits source held base open_ open_ (Parser.matchKinds kinds)
      fun r => ∀ t, r = some t → t.IsCut source :=
  accept fun _ hst => hst.get false true

theorem matchSmart (kinds : List TokenKind) :
    Emits source held base open_ open_ (Parser.matchSmart kinds)
      fun r => ∀ t, r = some t → t.IsCut source :=
  accept fun _ hst => hst.get false _

theorem matchKeyword (set : Keywords) :
    Emits source held base open_ open_ (Parser.matchKeyword set)
      fun r => ∀ t, r = some t → t.IsCut source :=
  accept fun _ hst => hst.get false false

theorem demand {f : Stream → Except Diagnostic α × Stream}
    (h : ∀ st : Stream, st.IsSound → st.source = source →
      (f st).2.IsSound ∧ (f st).2.source = source ∧ (∀ a, (f st).1 = .ok a → Q a) ∧
        ∀ e, (f st).1 = .error e → IsPlaced source e) :
    Tells source held open_ (Parser.demand f) Q := by
  refine (ask (Q := fun r => (∀ a, r = .ok a → Q a) ∧ ∀ e, r = .error e → IsPlaced source e)
    h).bind fun r hr => ?_
  cases r with
  | ok a => exact pure (hr.1 a rfl)
  | error e => exact throw (hr.2 e rfl)

/-- Demanding a token. -/
theorem demandToken {f : Stream → Except Diagnostic Token × Stream} {accepted : Token → Prop}
    (hanswers : ∀ st : Stream, st.IsSound → Stream.Answers st accepted (f st).1 (f st).2)
    (hplaced : ∀ (st : Stream) e, st.IsSound → (f st).1 = .error e → IsPlaced st.source e) :
    Tells source held open_ (Parser.demand f) fun t => t.IsCut source ∧ accepted t := by
  refine demand fun st hst hsource => ?_
  have hanswer := hanswers st hst
  have herror := fun e => hplaced st e hst
  rw [hsource] at herror
  rcases hrun : f st with ⟨e | t, st'⟩ <;> rw [hrun] at hanswer herror
  · have hstays := hanswer.error e rfl
    exact ⟨hstays.isSound, hstays.source_eq.trans hsource, fun _ h => (by cases h), herror⟩
  · obtain ⟨hgot, haccepted⟩ := hanswer.ok t rfl
    refine ⟨hgot.isSound, hgot.source_eq.trans hsource, ?_, herror⟩
    rintro _ ⟨⟩
    exact ⟨hsource ▸ hgot.isCut, haccepted⟩

theorem mustMatch (kinds : List TokenKind) :
    Tells source held open_ (Parser.mustMatch kinds)
      fun t => t.IsCut source ∧ kinds.contains t.kind = true :=
  demandToken (fun _ hst => hst.mustMatch kinds) fun _ _ hst => hst.mustMatch_isPlaced

theorem mustMatchSmart (kinds : List TokenKind) :
    Tells source held open_ (Parser.mustMatchSmart kinds)
      fun t => t.IsCut source ∧ kinds.contains t.kind = true :=
  demandToken (fun _ hst => hst.mustMatchSmart kinds) fun _ _ hst => hst.mustMatchSmart_isPlaced

theorem mustMatchKeyword (set : Keywords) :
    Tells source held open_ (Parser.mustMatchKeyword set)
      fun t => t.IsCut source ∧ t.kind = .ident :=
  demandToken (fun _ hst => hst.mustMatchKeyword .ident set)
    fun _ _ hst => hst.mustMatchKeyword_isPlaced

theorem matchReuse (kinds : List TokenKind) :
    Emits source held base open_ open_ (Parser.matchReuse kinds)
      fun r => ∀ t, r = some t → IsPlaced source t := by
  refine ask fun st hst hsource => ?_
  unfold Stream.matchReuse
  split_ifs
  · refine ⟨hst, hsource, ?_⟩
    rintro _ ⟨⟩
    exact hsource ▸ hst.current_isPlaced
  · exact ⟨hst.back.1, hst.back.2.1.trans hsource, fun _ h => by cases h⟩

theorem mustReuse (kinds : List TokenKind) :
    Tells source held open_ (Parser.mustReuse kinds) (IsPlaced source) := by
  refine demand fun st hst hsource => ?_
  have hcurrent : IsPlaced source st.current := hsource ▸ hst.current_isPlaced
  unfold Stream.mustReuse Stream.matchReuse
  by_cases hkind : kinds.contains st.current.kind
  · rw [if_pos hkind]
    refine ⟨hst, hsource, ?_, fun _ h => by cases h⟩
    rintro _ ⟨⟩
    exact hcurrent
  · rw [if_neg hkind]
    refine ⟨hst.back.1, hst.back.2.1.trans hsource, fun _ h => (by cases h), ?_⟩
    rintro _ ⟨⟩
    exact Token.unexpected_isPlaced hcurrent _

theorem current :
    Emits source held base open_ open_ Parser.current (IsPlaced source) := by
  refine state.bind fun s hs => pure ?_
  rw [← hs.2]
  exact hs.1.stream.current_isPlaced

/-! ## Moving the stream -/

theorem moveStream {f : Stream → Stream} (h : ∀ st : Stream, st.IsSound → st.source = source →
      (f st).IsSound ∧ (f st).source = source) :
    Emits source held base open_ open_ (Parser.moveStream f) fun _ => True := by
  refine ⟨fun s hs hsource _ => ?_⟩
  obtain ⟨hsound, hsource'⟩ := h s.stream hs.stream hsource
  exact ⟨[], .of_eq (hs.withStream hsound (hsource'.trans hsource.symm)) rfl rfl,
    fun _ _ => ⟨trivial, .done _⟩, fun _ he => by cases he⟩

theorem seek {loc : Location} (hloc : IsPlace source loc) :
    Emits source held base open_ open_ (Parser.seek loc) fun _ => True :=
  moveStream fun st _ hsource => by
    obtain ⟨hsound, hsource', -⟩ := Stream.isSound_seek (s := st) (hsource ▸ hloc)
    exact ⟨hsound, hsource'.trans hsource⟩

theorem rewindTo (ht : t.IsCut source) :
    Emits source held base open_ open_ (Parser.moveStream (·.rewindTo t)) fun _ => True :=
  moveStream fun st hst hsource => by
    obtain ⟨hsound, hsource', -⟩ := hst.rewindTo (hsource ▸ ht)
    exact ⟨hsound, hsource'.trans hsource⟩

theorem skipBroken (inBlock : Bool) :
    Emits source held base open_ open_ (Parser.moveStream (·.skipBroken inBlock))
      fun _ => True :=
  moveStream fun _ hst hsource =>
    ⟨(hst.skipBroken inBlock).isSound, (hst.skipBroken inBlock).source_eq.trans hsource⟩

theorem readNth :
    Emits source held base open_ open_ (Parser.ask (·.readNth)) fun _ => True :=
  ask fun _ hst hsource => ⟨hst.readNth.isSound, hst.readNth.source_eq.trans hsource, trivial⟩

/-! ## Failures -/

theorem failAt (ht : IsPlaced source t) :
    Emits source held open_ open_ after (Parser.failAt expected t : Parser α) Q :=
  throw (Token.unexpected_isPlaced ht expected)

/-- Nothing runs after a failure. -/
theorem throw_bind_of_suffix (hbase : base <:+ before) (he : IsPlaced source e) :
    Emits source held base before after ((MonadExcept.throw e : Parser α) >>= f) Q' := by
  have hthrow : Emits source held base before after (MonadExcept.throw e : Parser α)
      fun _ => False := throw_of_suffix hbase he
  exact hthrow.bind fun _ h => h.elim

theorem throw_bind (he : IsPlaced source e) :
    Emits source held open_ open_ after ((MonadExcept.throw e : Parser α) >>= f) Q' :=
  throw_bind_of_suffix List.suffix_rfl he

theorem failAt_bind (ht : IsPlaced source t) :
    Emits source held open_ open_ after (Parser.failAt expected t >>= f) Q' :=
  throw_bind (Token.unexpected_isPlaced ht expected)

theorem failHere : Tells source held open_ (Parser.failHere expected : Parser α) Q :=
  current.bind fun _ ht => failAt ht

/-- The failure that ends what is nested too deeply is placed nowhere. -/
theorem tooDeep : Tells source held open_ (MonadExcept.throw Parser.tooDeep : Parser α) Q :=
  throw (isPlaced_diagnostic.mpr fun _ h => by cases h)

theorem unget : Tells source held open_ Parser.unget fun _ => True := by
  unfold Parser.unget
  refine state.bind fun s hs => ?_
  unfold Stream.unget
  split_ifs
  · exact throw_bind (isPlaced_diagnostic.mpr fun _ h => by cases h)
  · exact moveStream fun st _ _ => ⟨hs.1.stream.back.1, hs.1.stream.back.2.1.trans hs.2⟩

/-! ## Reports -/

/-- **Reporting a plain event.** -/
theorem firePlain {kind : EventKind} (hinner : Event.IsInner ⟨kind, location⟩)
    (hplain : Event.IsPlain ⟨kind, location⟩) (hkind : IsPlaced source kind)
    (hlocation : IsPlace source location) :
    Emits source held base open_ open_ (Parser.fire kind location) fun _ => True := by
  refine fire hinner ⟨isPlaced_event.mpr ⟨hlocation, hkind⟩, fun block empty hstop => ?_⟩
    (.plain hplain (.done _))
  obtain rfl : kind = .stop block empty := hstop
  exact hplain.elim

theorem warn (message : String) (hlocation : IsPlace source location) :
    Emits source held base open_ open_ (Parser.warn message location) fun _ => True :=
  firePlain ⟨EventKind.noConfusion, EventKind.noConfusion⟩ trivial (fun _ h => by cases h)
    hlocation

/-- **Reporting an error**, at which some open blocks are given up. -/
theorem fireError {recoverable : Bool} (he : IsPlaced source e)
    (hlocation : IsPlace source location) (lost : List BlockKind) :
    Emits source held base (lost ++ open_) open_ (Parser.fire (.error e recoverable) location)
      fun _ => True :=
  fire ⟨EventKind.noConfusion, EventKind.noConfusion⟩
    ⟨isPlaced_event.mpr ⟨hlocation, he⟩, fun _ _ h => by cases h⟩ (.error lost (.done _))

/-- Reporting an error where it was found, or where reading stands. -/
theorem report (he : IsPlaced source e) (lost : List BlockKind) :
    Emits source held base (lost ++ open_) open_ (Parser.report e) fun _ => True := by
  unfold Parser.report
  refine state.bind fun s hs => fireError he ?_ lost
  cases hlocation : e.location with
  | none => exact hs.2 ▸ hs.1.stream.isAt.isPlace
  | some loc => exact isPlaced_diagnostic.mp he loc hlocation

end Emits

end Stylesheet
