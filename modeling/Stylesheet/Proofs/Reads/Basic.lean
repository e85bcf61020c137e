import Stylesheet.Parse.Basic
import Stylesheet.Proofs.Window

/-!
# Parsers that read on

A parser is bounded by a budget that it should never use up, and it
moves its stream back and forth. `Reads` says that neither matters: run
from a sound state, the parser ends in a sound state, it gives the same
answer for every budget that is large enough for the source, and when it
fails it has not gone back before a given offset. What holds when it
succeeds is a condition of its own.

The rules below follow the constructs that parsers are written with. The
one that carries the weight is the rule of repetition: a loop whose
rounds each bring down a measure that starts below the budget is never
cut short.
-/

namespace Stylesheet

/-- **An event from inside a stylesheet**: neither its start nor its
end. -/
def Event.IsInner (e : Event) : Prop := e.kind ≠ .startStylesheet ∧ e.kind ≠ .endStylesheet

namespace Parse.State

/-- The offset at which the next token will be looked for. -/
def offset (s : State) : Nat := s.stream.place.offset

/-- **What is left to read**, in bytes. -/
def left (s : State) : Nat := Text.byteLength s.stream.source - s.offset

/-- The same state with another budget. -/
def withBudget (s : State) (b : Nat) : State := { s with budget := b }

/-- **How long repetitions can get, and how deep constructs.** -/
def bound (s : State) : Nat := Text.byteLength s.stream.source + 64

/-- A budget that is large enough. -/
def IsEnough (s : State) (b : Nat) : Prop := s.bound ≤ b

/-- **A sound state**: a sound stream, a budget that is large enough, no
rules of earlier parses, and only inner events held back. -/
structure IsSound (s : State) : Prop where
  /-- The stream is sound. -/
  stream : s.stream.IsSound
  /-- The budget is large enough. -/
  budget : s.IsEnough s.budget
  /-- No rules of earlier parses are used. -/
  store : s.store = none
  /-- The events held back are inner ones. -/
  deferred : ∀ held, s.deferred = some held → ∀ e ∈ held, e.IsInner

/-- **What every run keeps**: the state is still sound, the source, the
options and the budget are the same, the events reported since are inner
ones, and none are held back from then on. -/
structure Keeps (s s' : State) : Prop where
  /-- The state is still sound. -/
  isSound : s'.IsSound
  /-- The source is the same. -/
  source_eq : s'.stream.source = s.stream.source
  /-- The options are the same. -/
  options_eq : s'.options = s.options
  /-- The budget is the same. -/
  budget_eq : s'.budget = s.budget
  /-- The events reported since are inner ones. -/
  events : ∃ new, s'.events = new ++ s.events ∧ ∀ e ∈ new, e.IsInner
  /-- Events are not held back if they were not before. -/
  deferred : s.deferred = none → s'.deferred = none

variable {s s' s'' : State} {n b : Nat}

theorem Keeps.refl (h : s.IsSound) : Keeps s s :=
  ⟨h, rfl, rfl, rfl, ⟨[], rfl, fun _ he => absurd he List.not_mem_nil⟩, id⟩

theorem Keeps.trans (h : Keeps s s') (h' : Keeps s' s'') : Keeps s s'' := by
  obtain ⟨new, hnew, hinner⟩ := h.events
  obtain ⟨new', hnew', hinner'⟩ := h'.events
  refine ⟨h'.isSound, h'.source_eq.trans h.source_eq, h'.options_eq.trans h.options_eq,
    h'.budget_eq.trans h.budget_eq, ⟨new' ++ new, ?_, fun e he => ?_⟩, h'.deferred ∘ h.deferred⟩
  · rw [hnew', hnew, List.append_assoc]
  · exact (List.mem_append.mp he).elim (hinner' e) (hinner e)

/-- A budget that is large enough stays so. -/
theorem Keeps.isEnough (h : Keeps s s') (hb : s.IsEnough b) : s'.IsEnough b := by
  unfold IsEnough bound
  rw [h.source_eq]
  exact hb

/-- The offset reached lies in the source. -/
theorem IsSound.offset_le (h : s.IsSound) : s.offset ≤ Text.byteLength s.stream.source :=
  h.stream.isPlace.offset_le

/-- **Less is left after reading on.** -/
theorem Keeps.left_lt (h : Keeps s s') (hlt : s.offset < s'.offset) : s'.left < s.left := by
  have hle := h.isSound.offset_le
  unfold left
  rw [h.source_eq] at hle ⊢
  omega

/-- No more is left when nothing was given back. -/
theorem Keeps.left_le (h : Keeps s s') (hle : s.offset ≤ s'.offset) : s'.left ≤ s.left := by
  unfold left
  rw [h.source_eq]
  omega

/-- What is left stays below the bound with room to spare. -/
theorem left_add_le_bound (s : State) : s.left + 64 ≤ s.bound :=
  Nat.add_le_add_right (Nat.sub_le _ _) 64

/-- **Where a run stands**: the offset is no earlier than a given one,
and if a token is held, it starts no earlier either. -/
def Stands (held : Bool) (n : Nat) (s : State) : Prop :=
  n ≤ s.offset ∧ (held = true → s.stream.HeldFrom n)

theorem stands_false (h : n ≤ s.offset) : Stands false n s := ⟨h, fun h => by cases h⟩

theorem stands_true (h : n ≤ s.offset) (hheld : s.stream.HeldFrom n) : Stands true n s :=
  ⟨h, fun _ => hheld⟩

/-- What stands at an offset stands at every earlier one. -/
theorem Stands.mono {held : Bool} {m : Nat} (h : Stands held n s) (hle : m ≤ n) :
    Stands held m s :=
  ⟨Nat.le_trans hle h.1, fun hheld => (h.2 hheld).mono hle⟩

/-- Whether a token is held can be left open. -/
theorem Stands.release {held : Bool} (h : Stands held n s) : Stands false n s := stands_false h.1

/-- With a token held, it does not matter whether one is asked for. -/
theorem Stands.of_true (h : Stands true n s) (held : Bool) : Stands held n s :=
  ⟨h.1, fun _ => h.2 rfl⟩

/-- Where a run stands depends on its stream only. -/
theorem Stands.of_stream {held : Bool} (h : Stands held n s) (hstream : s'.stream = s.stream) :
    Stands held n s' := by
  unfold Stands offset
  rw [hstream]
  exact h

theorem offset_of_stream (hstream : s'.stream = s.stream) : s'.offset = s.offset :=
  congrArg (fun st : Stream => st.place.offset) hstream

/-- Another sound stream of the same source keeps a state sound. -/
theorem IsSound.withStream (h : s.IsSound) {st : Stream} (hst : st.IsSound)
    (hsource : st.source = s.stream.source) : Keeps s { s with stream := st } := by
  refine ⟨⟨hst, ?_, h.store, h.deferred⟩, hsource, rfl, rfl,
    ⟨[], rfl, fun _ he => absurd he List.not_mem_nil⟩, id⟩
  show Text.byteLength st.source + 64 ≤ s.budget
  rw [hsource]
  exact h.budget

/-- **What reading does not look at** may change. -/
theorem IsSound.keeps_of_eq (h : s.IsSound) (hstream : s'.stream = s.stream)
    (hoptions : s'.options = s.options) (hbudget : s'.budget = s.budget)
    (hstore : s'.store = s.store) (hdeferred : s'.deferred = s.deferred)
    (hevents : s'.events = s.events) : Keeps s s' := by
  refine ⟨⟨hstream ▸ h.stream, ?_, hstore.trans h.store, hdeferred ▸ h.deferred⟩,
    congrArg Stream.source hstream, hoptions, hbudget,
    ⟨[], hevents, fun _ he => absurd he List.not_mem_nil⟩, hdeferred.trans⟩
  unfold IsEnough bound
  rw [hstream, hbudget]
  exact h.budget

end Parse.State

open Parse (State)
open Parse.State (Keeps Stands)

/-- **A parser reads on from a state.** A second parser stands for the
first one with other bounds on how deep it may go. -/
structure Reads {α : Type} (n : Nat) (p p' : Parser α) (s : State) (Q : α → State → Prop) :
    Prop where
  /-- The answer is the same for every budget that is large enough. -/
  alike : ∀ b, s.IsEnough b → p' (s.withBudget b) = ((p s).1, (p s).2.withBudget b)
  /-- What every run keeps is kept. -/
  keeps : Keeps s (p s).2
  /-- A failure has not gone back before the offset. -/
  error : ∀ e, (p s).1 = .error e → n ≤ (p s).2.offset
  /-- A success has its condition. -/
  ok : ∀ a, (p s).1 = .ok a → Q a (p s).2

namespace Parser

variable {α β : Type} {p : Parser α} {f : α → Parser β} {s s₁ : State}

/-- After a success the rest runs. -/
theorem bind_ok {a : α} (h : p s = (.ok a, s₁)) : (p >>= f) s = f a s₁ := by
  show ExceptT.bindCont f (p s).1 (p s).2 = _
  rw [h]
  rfl

/-- After a failure nothing does. -/
theorem bind_error {e : Diagnostic} (h : p s = (.error e, s₁)) : (p >>= f) s = (.error e, s₁) := by
  show ExceptT.bindCont f (p s).1 (p s).2 = _
  rw [h]
  rfl

/-- What an attempt answers. -/
theorem attempt_apply (p : Parser α) (s : State) : attempt p s = (.ok (p s).1, (p s).2) := by
  rcases hp : p s with ⟨_ | a, s₁⟩
  · have hrun : (p >>= fun a => Pure.pure (Except.ok a) : Parser (Except Diagnostic α)) s =
        (.error _, s₁) := bind_error hp
    simp only [attempt, tryCatch, tryCatchThe, MonadExceptOf.tryCatch, ExceptT.tryCatch,
      ExceptT.mk, Bind.bind, StateT.bind] at hrun ⊢
    rw [hrun]
    rfl
  · have hrun : (p >>= fun a => Pure.pure (Except.ok a) : Parser (Except Diagnostic α)) s =
        (.ok (.ok a), s₁) := bind_ok hp
    simp only [attempt, tryCatch, tryCatchThe, MonadExceptOf.tryCatch, ExceptT.tryCatch,
      ExceptT.mk, Bind.bind, StateT.bind] at hrun ⊢
    rw [hrun]
    rfl

/-- Reporting an event with nothing held back and no store. -/
theorem fire_apply (hdeferred : s.deferred = none) (hstore : s.store = none) (kind : EventKind)
    (location : Location) :
    fire kind location s = (.ok (), { s with events := ⟨kind, location⟩ :: s.events }) := by
  have hdispatch : dispatch ⟨kind, location⟩ s = (.ok (), { s with
      events := ⟨kind, location⟩ :: s.events
      store := s.store.map fun store => store.addEvent ⟨kind, location⟩ }) := rfl
  have hfire : fire kind location s = dispatch ⟨kind, location⟩ s := by
    unfold fire
    refine (bind_ok (show state s = (.ok s, s) from rfl)).trans ?_
    rw [hdeferred]
  rw [hfire, hdispatch, hstore]
  rfl

/-- Holding an event back. -/
theorem fire_apply_of_held {held : List Event} (hdeferred : s.deferred = some held)
    (kind : EventKind) (location : Location) :
    fire kind location s = (.ok (), { s with deferred := some (⟨kind, location⟩ :: held) }) := by
  unfold fire
  refine (bind_ok (show state s = (.ok s, s) from rfl)).trans ?_
  rw [hdeferred]
  rfl

/-- Parsers that come to the same go on in the same way. -/
theorem bind_eq {p q : Parser α} (h : p s = q s₁) : (p >>= f) s = (q >>= f) s₁ := by
  show ExceptT.bindCont f (p s).1 (p s).2 = ExceptT.bindCont f (q s₁).1 (q s₁).2
  rw [h]

/-- An attempt at what succeeds. -/
theorem attempt_ok {a : α} (h : p s = (.ok a, s₁)) : attempt p s = (.ok (.ok a), s₁) := by
  rw [attempt_apply, h]

section

variable {σ : Type} {step : σ → Parser (ForInStep σ)} {a b : σ} {n : Nat}

theorem rounds_done (h : step a s = (.ok (.done b), s₁)) :
    rounds step (n + 1) a s = (.ok b, s₁) := bind_ok h

theorem rounds_yield (h : step a s = (.ok (.yield b), s₁)) :
    rounds step (n + 1) a s = rounds step n b s₁ := bind_ok h

theorem repeating_apply : repeating a step s = rounds step s.budget a s := rfl

end

end Parser

namespace Reads

variable {α β σ : Type} {n m : Nat} {s : State} {p p' : Parser α} {f f' : α → Parser β}
  {Q R : α → State → Prop} {Q' : β → State → Prop}

/-- A condition can be given up for a weaker one. -/
theorem weaken (h : Reads n p p' s Q) (himp : ∀ a s', Keeps s s' → Q a s' → R a s') :
    Reads n p p' s R :=
  ⟨h.alike, h.keeps, h.error, fun a ha => himp a _ h.keeps (h.ok a ha)⟩

theorem lower (h : Reads n p p' s Q) (hle : m ≤ n) : Reads m p p' s Q :=
  ⟨h.alike, h.keeps, fun e he => Nat.le_trans hle (h.error e he), h.ok⟩

theorem pure {a : α} (hs : s.IsSound) (hQ : Q a s) :
    Reads n (Pure.pure a) (Pure.pure a) s Q where
  alike _ _ := rfl
  keeps := Keeps.refl hs
  error _ he := by cases he
  ok b hb := by
    obtain rfl : a = b := Except.ok.inj hb
    exact hQ

theorem throw {e : Diagnostic} (hs : s.IsSound) (hn : n ≤ s.offset) :
    Reads n (MonadExcept.throw e : Parser α) (MonadExcept.throw e) s Q where
  alike _ _ := rfl
  keeps := Keeps.refl hs
  error _ _ := hn
  ok a ha := by cases ha

theorem bind (h : Reads n p p' s Q)
    (hf : ∀ a s₁, Keeps s s₁ → Q a s₁ → Reads n (f a) (f' a) s₁ Q') :
    Reads n (p >>= f) (p' >>= f') s Q' := by
  rcases hp : p s with ⟨r, s₁⟩
  have hkeeps := h.keeps
  have halike := h.alike
  have herror := h.error
  have hok := h.ok
  rw [hp] at hkeeps herror hok
  simp only [hp] at halike
  cases r with
  | error e =>
    have hrun : (p >>= f) s = (.error e, s₁) := Parser.bind_error hp
    refine ⟨fun b hb => ?_, ?_, ?_, ?_⟩
    · rw [hrun]
      exact Parser.bind_error (halike b hb)
    · rw [hrun]
      exact hkeeps
    · rw [hrun]
      exact fun _ _ => herror e rfl
    · rw [hrun]
      exact fun _ ha => by cases ha
  | ok a =>
    have hrun : (p >>= f) s = f a s₁ := Parser.bind_ok hp
    have hnext := hf a s₁ hkeeps (hok a rfl)
    refine ⟨fun b hb => ?_, ?_, ?_, ?_⟩
    · rw [hrun, Parser.bind_ok (halike b hb)]
      exact hnext.alike b (hkeeps.isEnough hb)
    · rw [hrun]
      exact hkeeps.trans hnext.keeps
    · rw [hrun]
      exact hnext.error
    · rw [hrun]
      exact hnext.ok

/-- Going on with an answer that is there at once. -/
theorem pure_bind {a : α} (h : Reads n (f a) (f' a) s Q') :
    Reads n (Pure.pure a >>= f) (Pure.pure a >>= f') s Q' :=
  ⟨h.alike, h.keeps, h.error, h.ok⟩

theorem ite {c : Prop} [Decidable c] {q q' : Parser α} (hpos : c → Reads n p p' s Q)
    (hneg : ¬c → Reads n q q' s Q) :
    Reads n (if c then p else q) (if c then p' else q') s Q := by
  by_cases hc : c
  · rw [if_pos hc, if_pos hc]
    exact hpos hc
  · rw [if_neg hc, if_neg hc]
    exact hneg hc

theorem attempt {Q : Except Diagnostic α → State → Prop} (h : Reads n p p' s fun a => Q (.ok a))
    (herror : ∀ e s', Keeps s s' → n ≤ s'.offset → Q (.error e) s') :
    Reads m (Parser.attempt p) (Parser.attempt p') s Q := by
  rcases hp : p s with ⟨r, s₁⟩
  have hkeeps := h.keeps
  have halike := h.alike
  have hfloor := h.error
  have hok := h.ok
  rw [hp] at hkeeps hfloor hok
  simp only [hp] at halike
  cases r with
  | error e =>
    have hrun : Parser.attempt p s = (.ok (.error e), s₁) := by
      rw [Parser.attempt_apply, hp]
    refine ⟨fun b hb => ?_, ?_, ?_, ?_⟩
    · rw [hrun]
      rw [Parser.attempt_apply, halike b hb]
    · rw [hrun]
      exact hkeeps
    · rw [hrun]
      exact fun _ he => by cases he
    · rw [hrun]
      rintro _ ⟨⟩
      exact herror e s₁ hkeeps (hfloor e rfl)
  | ok a =>
    have hrun : Parser.attempt p s = (.ok (.ok a), s₁) := by
      rw [Parser.attempt_apply, hp]
    refine ⟨fun b hb => ?_, ?_, ?_, ?_⟩
    · rw [hrun]
      rw [Parser.attempt_apply, halike b hb]
    · rw [hrun]
      exact hkeeps
    · rw [hrun]
      exact fun _ he => by cases he
    · rw [hrun]
      rintro _ ⟨⟩
      exact hok a rfl

theorem state {g g' : State → Parser β}
    (h : ∀ b, Reads n (g s) (g' (s.withBudget b)) s Q') :
    Reads n (Parser.state >>= g) (Parser.state >>= g') s Q' where
  alike b hb := (h b).alike b hb
  keeps := (h 0).keeps
  error := (h 0).error
  ok := (h 0).ok

theorem options {g g' : Options → Parser β} (h : Reads n (g s.options) (g' s.options) s Q') :
    Reads n (Parser.options >>= g) (Parser.options >>= g') s Q' where
  alike := h.alike
  keeps := h.keeps
  error := h.error
  ok := h.ok

theorem budget {g g' : Nat → Parser β}
    (h : ∀ b, s.IsEnough b → Reads n (g s.budget) (g' b) s Q') (hs : s.IsSound) :
    Reads n (Parser.budget >>= g) (Parser.budget >>= g') s Q' where
  alike b hb := (h b hb).alike b hb
  keeps := (h _ hs.budget).keeps
  error := (h _ hs.budget).error
  ok := (h _ hs.budget).ok

theorem update {g : State → State} {Q : Unit → State → Prop}
    (hbudget : ∀ b, g (s.withBudget b) = (g s).withBudget b) (hkeeps : Keeps s (g s))
    (hQ : Q () (g s)) : Reads n (Parser.update g) (Parser.update g) s Q where
  alike b _ := congrArg (Prod.mk _) (hbudget b)
  keeps := hkeeps
  error _ he := by cases he
  ok _ _ := hQ

/-- An answer and another state, both made from the state. -/
theorem modifyGet {g : State → α × State} {r : α} {s' : State} (hrun : g s = (r, s'))
    (hbudget : ∀ b, g (s.withBudget b) = (r, s'.withBudget b)) (hkeeps : Keeps s s')
    (hQ : Q r s') :
    Reads n (MonadStateOf.modifyGet g : Parser α) (MonadStateOf.modifyGet g) s Q := by
  have happly : ∀ s, (MonadStateOf.modifyGet g : Parser α) s = (.ok (g s).1, (g s).2) :=
    fun _ => rfl
  refine ⟨fun b _ => ?_, ?_, ?_, ?_⟩
  · rw [happly, happly, hbudget, hrun]
  · rw [happly, hrun]
    exact hkeeps
  · rw [happly]
    exact fun _ he => by cases he
  · rw [happly, hrun]
    rintro _ ⟨⟩
    exact hQ

theorem discard {Q : Unit → State → Prop} (h : Reads n p p' s fun _ => Q ()) :
    Reads n (Functor.discard p) (Functor.discard p') s Q := by
  show Reads n (p >>= fun _ => Pure.pure ()) (p' >>= fun _ => Pure.pure ()) s Q
  exact h.bind fun _ _ hkeeps hQ => pure hkeeps.isSound hQ

/-! ## Repetition -/

/-- **What a round of a loop leaves**: the condition of the result if it
is done, and otherwise the invariant with a smaller measure. -/
def Turn (I : σ → State → Prop) (μ : σ → State → Nat) (bound : Nat) (Q : σ → State → Prop) :
    ForInStep σ → State → Prop
  | .done a, s => Q a s
  | .yield a, s => I a s ∧ μ a s < bound

/-- **A loop that its rounds do not cut short**: each round that goes on
brings the measure down, and the rounds are more than the measure. -/
theorem rounds {step step' : σ → Parser (ForInStep σ)} {Q : σ → State → Prop}
    (I : σ → State → Prop) (μ : σ → State → Nat) {s₀ : State}
    (hstep : ∀ a s, Keeps s₀ s → I a s → Reads n (step a) (step' a) s (Turn I μ (μ a s) Q))
    {k k' : Nat} {a : σ} (hkeeps : Keeps s₀ s) (hI : I a s) (hk : μ a s < k) (hk' : μ a s < k') :
    Reads n (Parser.rounds step k a) (Parser.rounds step' k' a) s Q := by
  induction k generalizing k' a s with
  | zero => exact absurd hk (Nat.not_lt_zero _)
  | succ k ih =>
    cases k' with
    | zero => exact absurd hk' (Nat.not_lt_zero _)
    | succ k' =>
      refine (hstep a s hkeeps hI).bind fun r s₁ h₁ hturn => ?_
      cases r with
      | done b => exact pure h₁.isSound hturn
      | yield b =>
        obtain ⟨hI', hμ⟩ := hturn
        exact ih (hkeeps.trans h₁) hI' (by omega) (by omega)

theorem repeating {step step' : σ → Parser (ForInStep σ)} {Q : σ → State → Prop}
    (I : σ → State → Prop) (μ : σ → State → Nat) {a : σ} (hs : s.IsSound) (hI : I a s)
    (hμ : μ a s < s.left + 64)
    (hstep : ∀ a s₁, Keeps s s₁ → I a s₁ →
      Reads n (step a) (step' a) s₁ (Turn I μ (μ a s₁) Q)) :
    Reads n (Parser.repeating a step) (Parser.repeating a step') s Q := by
  refine budget (fun b hb => ?_) hs
  have hbound : μ a s < s.bound := Nat.lt_of_lt_of_le hμ s.left_add_le_bound
  exact rounds I μ hstep (Keeps.refl hs) hI (Nat.lt_of_lt_of_le hbound hs.budget)
    (Nat.lt_of_lt_of_le hbound hb)

/-! ## Tokens -/

open Stylesheet.Stream (Got Stays)

theorem ask {f : Stream → α × Stream} (hs : s.IsSound) (hsound : (f s.stream).2.IsSound)
    (hsource : (f s.stream).2.source = s.stream.source)
    (hQ : Q (f s.stream).1 { s with stream := (f s.stream).2 }) :
    Reads n (Parser.ask f) (Parser.ask f) s Q where
  alike _ _ := rfl
  keeps := hs.withStream hsound hsource
  error _ he := by cases he
  ok a ha := by
    obtain rfl : (f s.stream).1 = a := Except.ok.inj ha
    exact hQ

theorem next (hs : s.IsSound) (placeholders blanks : Bool) :
    Reads n (Parser.next placeholders blanks) (Parser.next placeholders blanks) s
      fun t s' => Got s.stream t s'.stream := by
  have hgot := hs.stream.get placeholders blanks
  exact ask hs hgot.isSound hgot.source_eq hgot

theorem grab (hs : s.IsSound) :
    Reads n Parser.grab Parser.grab s fun t s' => Got s.stream t s'.stream :=
  next hs false false

/-- **What a request leaves**: the token that was asked for, or nothing
handed out. -/
def Found (s : State) (accepted : Token → Prop) : Option Token → State → Prop
  | some t, s' => Got s.stream t s'.stream ∧ accepted t
  | none, s' => Stays s.stream s'.stream

theorem accept {f : Stream → Token × Stream} {test : Token → Bool} (hs : s.IsSound)
    (hgot : Got s.stream (f s.stream).1 (f s.stream).2) :
    Reads n (Parser.ask fun st => Stream.accept (f st) test)
      (Parser.ask fun st => Stream.accept (f st) test) s (Found s fun t => test t = true) := by
  obtain ⟨hsome, hnone⟩ := hgot.accept (p := test)
  rcases haccept : Stream.accept (f s.stream) test with ⟨_ | t, st⟩ <;>
    rw [haccept] at hsome hnone
  · have hstays := hnone rfl
    refine ask hs ?_ ?_ ?_ <;> rw [haccept]
    · exact hstays.isSound
    · exact hstays.source_eq
    · exact hstays
  · have hfound := hsome t rfl
    refine ask hs ?_ ?_ ?_ <;> rw [haccept]
    · exact hfound.1.isSound
    · exact hfound.1.source_eq
    · exact hfound

/-- The next token of some kinds, blanks included. -/
theorem matchKinds (hs : s.IsSound) (kinds : List TokenKind) :
    Reads n (Parser.matchKinds kinds) (Parser.matchKinds kinds) s
      (Found s fun t => kinds.contains t.kind = true) :=
  accept hs (hs.stream.get false true)

theorem matchSmart (hs : s.IsSound) (kinds : List TokenKind) :
    Reads n (Parser.matchSmart kinds) (Parser.matchSmart kinds) s
      (Found s fun t => kinds.contains t.kind = true) :=
  accept hs (hs.stream.get false (kinds.contains .whitespace))

/-- The next name that is a word of a set. -/
theorem matchKeyword (hs : s.IsSound) (set : Keywords) :
    Reads n (Parser.matchKeyword set) (Parser.matchKeyword set) s
      (Found s fun t => t.kind = .ident) := by
  refine (accept hs (hs.stream.get false false)).weaken fun r s' _ hfound => ?_
  cases r with
  | none => exact hfound
  | some t => exact ⟨hfound.1, by simpa using (Bool.and_eq_true_iff.mp hfound.2).1⟩

/-- **Demanding a token**; a failure hands nothing out. -/
theorem demand {f : Stream → Except Diagnostic Token × Stream} {accepted : Token → Prop}
    (hs : s.IsSound) (hn : n ≤ s.offset)
    (h : Stream.Answers s.stream accepted (f s.stream).1 (f s.stream).2) :
    Reads n (Parser.demand f) (Parser.demand f) s
      fun t s' => Got s.stream t s'.stream ∧ accepted t := by
  rcases hanswer : f s.stream with ⟨e | t, st⟩ <;> rw [hanswer] at h
  · have hstays := h.error e rfl
    refine (ask (Q := fun r s' => r = .error e ∧ s'.stream = st) hs ?_ ?_ ?_).bind
      fun r s₁ h₁ hr => ?_
    · rw [hanswer]
      exact hstays.isSound
    · rw [hanswer]
      exact hstays.source_eq
    · rw [hanswer]
      exact ⟨rfl, rfl⟩
    · obtain ⟨rfl, rfl⟩ := hr
      exact throw h₁.isSound (Nat.le_trans hn hstays.place_le)
  · have hfound := h.ok t rfl
    refine (ask (Q := fun r s' => r = .ok t ∧ s'.stream = st) hs ?_ ?_ ?_).bind
      fun r s₁ h₁ hr => ?_
    · rw [hanswer]
      exact hfound.1.isSound
    · rw [hanswer]
      exact hfound.1.source_eq
    · rw [hanswer]
      exact ⟨rfl, rfl⟩
    · obtain ⟨rfl, rfl⟩ := hr
      exact pure h₁.isSound hfound

theorem mustMatch (hs : s.IsSound) (hn : n ≤ s.offset) (kinds : List TokenKind) :
    Reads n (Parser.mustMatch kinds) (Parser.mustMatch kinds) s
      fun t s' => Got s.stream t s'.stream ∧ kinds.contains t.kind = true :=
  demand hs hn (hs.stream.mustMatch kinds)

theorem mustMatchSmart (hs : s.IsSound) (hn : n ≤ s.offset) (kinds : List TokenKind) :
    Reads n (Parser.mustMatchSmart kinds) (Parser.mustMatchSmart kinds) s
      fun t s' => Got s.stream t s'.stream ∧ kinds.contains t.kind = true :=
  demand hs hn (hs.stream.mustMatchSmart kinds)

theorem mustMatchKeyword (hs : s.IsSound) (hn : n ≤ s.offset) (set : Keywords) :
    Reads n (Parser.mustMatchKeyword set) (Parser.mustMatchKeyword set) s
      fun t s' => Got s.stream t s'.stream ∧ t.kind = .ident :=
  demand hs hn (hs.stream.mustMatchKeyword .ident set)

theorem moveStream {f : Stream → Stream} {Q : Unit → State → Prop} (hs : s.IsSound)
    (hsound : (f s.stream).IsSound) (hsource : (f s.stream).source = s.stream.source)
    (hQ : Q () { s with stream := f s.stream }) :
    Reads n (Parser.moveStream f) (Parser.moveStream f) s Q :=
  update (fun _ => rfl) (hs.withStream hsound hsource) hQ

theorem unget (hs : s.IsSound) (hn : n ≤ s.offset) (hm : m ≤ s.offset)
    (hheld : s.stream.HeldFrom m) :
    Reads n Parser.unget Parser.unget s
      fun _ s' => m ≤ s'.offset ∧ s'.stream = s.stream.back := by
  refine state fun _ => ?_
  have hback := hs.stream.back
  have hplace := hs.stream.back_of_heldFrom hm hheld
  show Reads n (Parser.ofExcept s.stream.unget >>= _) (Parser.ofExcept s.stream.unget >>= _) s _
  unfold Stream.unget
  split_ifs
  · exact (throw hs hn).bind (Q := fun _ _ => False) fun _ _ _ h => h.elim
  · exact moveStream (f := fun _ => s.stream.back)
      (Q := fun _ s' => m ≤ s'.offset ∧ s'.stream = s.stream.back) hs hback.1 hback.2.1
      ⟨hplace, rfl⟩

theorem matchReuse (hs : s.IsSound) (hholds : Stands true n s) (kinds : List TokenKind) :
    Reads m (Parser.matchReuse kinds) (Parser.matchReuse kinds) s fun r s' =>
      n ≤ s'.offset ∧ ∀ t, r = some t → s'.stream = s.stream := by
  have hback := hs.stream.back
  have hplace := hs.stream.back_of_heldFrom hholds.1 (hholds.2 rfl)
  by_cases hkind : kinds.contains s.stream.current.kind
  · have heq : s.stream.matchReuse kinds = (some s.stream.current, s.stream) := if_pos hkind
    refine ask hs ?_ ?_ ?_ <;> rw [heq]
    · exact hs.stream
    · exact ⟨hholds.1, fun _ _ => rfl⟩
  · have heq : s.stream.matchReuse kinds = (none, s.stream.back) := if_neg hkind
    refine ask hs ?_ ?_ ?_ <;> rw [heq]
    · exact hback.1
    · exact hback.2.1
    · exact ⟨hplace, fun t ht => by cases ht⟩

theorem mustReuse (hs : s.IsSound) (hholds : Stands true n s) (kinds : List TokenKind) :
    Reads n (Parser.mustReuse kinds) (Parser.mustReuse kinds) s fun t s' =>
      s'.stream = s.stream ∧ t = s.stream.current ∧ kinds.contains t.kind = true := by
  have hback := hs.stream.back
  have hplace := hs.stream.back_of_heldFrom hholds.1 (hholds.2 rfl)
  by_cases hkind : kinds.contains s.stream.current.kind
  · have heq : s.stream.mustReuse kinds = (.ok s.stream.current, s.stream) := by
      unfold Stream.mustReuse Stream.matchReuse
      rw [if_pos hkind]
    refine (ask (Q := fun r s' => r = .ok s.stream.current ∧ s'.stream = s.stream)
      hs ?_ ?_ ?_).bind fun r s₁ h₁ hr => ?_
    · rw [heq]
      exact hs.stream
    · rw [heq]
    · rw [heq]
      exact ⟨rfl, rfl⟩
    · obtain ⟨rfl, hstream⟩ := hr
      exact pure h₁.isSound ⟨hstream, rfl, hkind⟩
  · have heq : s.stream.mustReuse kinds =
        (.error (s.stream.current.unexpected (TokenKind.describeAll kinds)), s.stream.back) := by
      unfold Stream.mustReuse Stream.matchReuse
      rw [if_neg hkind]
    refine (ask (Q := fun r s' => (∃ e, r = .error e) ∧ s'.stream = s.stream.back)
      hs ?_ ?_ ?_).bind fun r s₁ h₁ hr => ?_
    · rw [heq]
      exact hback.1
    · rw [heq]
      exact hback.2.1
    · rw [heq]
      exact ⟨⟨_, rfl⟩, rfl⟩
    · obtain ⟨⟨e, rfl⟩, hstream⟩ := hr
      refine throw h₁.isSound ?_
      unfold Parse.State.offset
      rw [hstream]
      exact hplace

/-- **Going on at another place** of the source, with no token in
hand. -/
theorem seek {loc : Location} (hs : s.IsSound) (hloc : IsPlace s.stream.source loc) :
    Reads n (Parser.seek loc) (Parser.seek loc) s
      fun _ s' => s'.offset = loc.offset ∧ s'.stream.current? = none := by
  obtain ⟨hsound, hsource, hplace⟩ := Stream.isSound_seek hloc
  exact moveStream hs hsound hsource ⟨congrArg Location.offset hplace, rfl⟩

theorem rewindTo {t : Token} (hs : s.IsSound) (ht : t.IsCut s.stream.source) :
    Reads n (Parser.moveStream (·.rewindTo t)) (Parser.moveStream (·.rewindTo t)) s
      fun _ s' => t.stop.offset ≤ s'.offset ∧ s'.stream.HeldFrom t.location.offset := by
  obtain ⟨hsound, hsource, hplace, hheld⟩ := hs.stream.rewindTo ht
  refine moveStream hs hsound hsource ⟨hplace, fun u hu => ?_⟩
  obtain rfl := hheld u hu
  exact Nat.le_refl _

theorem skipBroken (hs : s.IsSound) (inBlock : Bool) :
    Reads n (Parser.moveStream (·.skipBroken inBlock)) (Parser.moveStream (·.skipBroken inBlock)) s
      fun _ s' => s.offset ≤ s'.offset := by
  have hmoves := hs.stream.skipBroken inBlock
  exact moveStream hs hmoves.isSound hmoves.source_eq hmoves.place_le

theorem current {g g' : Token → Parser β}
    (h : Reads n (g s.stream.current) (g' s.stream.current) s Q') :
    Reads n (Parser.current >>= g) (Parser.current >>= g') s Q' :=
  ⟨h.alike, h.keeps, h.error, h.ok⟩

theorem slice {start stop : Nat} {g g' : String → Parser β}
    (h : Reads n (g (s.stream.slice start stop)) (g' (s.stream.slice start stop)) s Q') :
    Reads n (Parser.slice start stop >>= g) (Parser.slice start stop >>= g') s Q' :=
  ⟨h.alike, h.keeps, h.error, h.ok⟩

theorem failAt {expected : String} {t : Token} (hs : s.IsSound) (hn : n ≤ s.offset) :
    Reads n (Parser.failAt expected t : Parser α) (Parser.failAt expected t) s Q :=
  throw hs hn

theorem failAt_bind {expected : String} {t : Token} (hs : s.IsSound) (hn : n ≤ s.offset) :
    Reads n (Parser.failAt expected t >>= f) (Parser.failAt expected t >>= f') s Q' :=
  (failAt (Q := fun _ _ => False) hs hn).bind fun _ _ _ h => h.elim

theorem failHere {expected : String} (hs : s.IsSound) (hn : n ≤ s.offset) :
    Reads n (Parser.failHere expected : Parser α) (Parser.failHere expected) s Q :=
  current (failAt hs hn)

/-! ## Events and memory -/

theorem adjust {g : State → State} (hs : s.IsSound)
    (hbudget : ∀ b, g (s.withBudget b) = (g s).withBudget b)
    (hsame : (g s).stream = s.stream ∧ (g s).options = s.options ∧ (g s).budget = s.budget ∧
      (g s).store = s.store ∧ (g s).deferred = s.deferred ∧ (g s).events = s.events) :
    Reads n (Parser.update g) (Parser.update g) s fun _ s' => s'.stream = s.stream := by
  obtain ⟨hstream, hoptions, hbudget', hstore, hdeferred, hevents⟩ := hsame
  exact update hbudget (hs.keeps_of_eq hstream hoptions hbudget' hstore hdeferred hevents) hstream

theorem setPair (hs : s.IsSound) (pair : Option TokenKind) :
    Reads n (Parser.update fun s => { s with pair := pair })
      (Parser.update fun s => { s with pair := pair }) s fun _ s' => s'.stream = s.stream :=
  adjust hs (fun _ => rfl) ⟨rfl, rfl, rfl, rfl, rfl, rfl⟩

theorem dispatch {e : Event} (hs : s.IsSound) (he : e.IsInner) :
    Reads n (Parser.dispatch e) (Parser.dispatch e) s fun _ s' => s'.stream = s.stream := by
  refine update (fun _ => rfl) ⟨⟨hs.stream, hs.budget, ?_, hs.deferred⟩, rfl, rfl, rfl,
    ⟨[e], rfl, fun e' he' => ?_⟩, id⟩ rfl
  · show s.store.map _ = none
    rw [hs.store]
    rfl
  · rw [List.mem_singleton.mp he']
    exact he

/-- Reporting an inner event, or holding it back. -/
theorem fire {kind : EventKind} {location : Location} (hs : s.IsSound)
    (he : Event.IsInner ⟨kind, location⟩) :
    Reads n (Parser.fire kind location) (Parser.fire kind location) s
      fun _ s' => s'.stream = s.stream := by
  refine state fun b => ?_
  dsimp only [Parse.State.withBudget]
  cases hdeferred : s.deferred with
  | none => exact dispatch hs he
  | some held =>
    refine update (fun _ => rfl) ⟨⟨hs.stream, hs.budget, hs.store, ?_⟩, rfl, rfl, rfl,
      ⟨[], rfl, fun _ h => absurd h List.not_mem_nil⟩, fun h => absurd h (by simp [hdeferred])⟩ rfl
    rintro held' ⟨⟩ e' he'
    rcases List.mem_cons.mp he' with rfl | he'
    · exact he
    · exact hs.deferred held hdeferred e' he'

theorem warn {message : String} {location : Location} (hs : s.IsSound) :
    Reads n (Parser.warn message location) (Parser.warn message location) s
      fun _ s' => s'.stream = s.stream :=
  fire hs ⟨EventKind.noConfusion, EventKind.noConfusion⟩

theorem report {e : Diagnostic} (hs : s.IsSound) :
    Reads n (Parser.report e) (Parser.report e) s fun _ s' => s'.stream = s.stream :=
  state fun _ => fire hs ⟨EventKind.noConfusion, EventKind.noConfusion⟩

end Reads

end Stylesheet
