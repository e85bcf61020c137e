import Stylesheet.Proofs.InTurn.Value
import Stylesheet.Proofs.Lockstep.Basic
import Stylesheet.Proofs.Lookahead.Basic

/-!
# Complaints that come in turn

What is complained of in a run is an error that was recovered from, or a
declaration that does not fit. Each complaint points to a place, and the
complaints come in the order of their places: `Complained` says that this has
been so up to an offset, and `InTurn` that a parser keeps it up. The offset
grows from one complaint to the next and never passes the place where reading
stands, so that what fails later points no earlier.

There is one exception. A broken prelude of `@scope` is read again from where
it starts, and there may be something in it to complain of once more; so the
complaint about it can come too early. It **strays**, and all that can be said
is that what comes after it lies behind the name of the rule.
-/

namespace Stylesheet

open Parse (State)
open Parse.State (Keeps)
open Stylesheet.Stream (Anyhow)
open Stylesheet.Parser

/-! ## The order of complaints -/

namespace Diagnostic

/-- **A complaint that strays**: the prelude of an `@scope` is broken, whose
name stops at an offset or before it. -/
def Strays (source : List Char) (n : Nat) (e : Diagnostic) : Prop :=
  ∃ (t : Token) (s : State), t.IsCut source ∧ t.kind = .at ∧ t.name = "scope" ∧
    t.stop.offset ≤ n ∧ s.IsSound ∧ s.stream.source = source ∧ s.stream.At t ∧
    (scopePrelude s).1 = .error e

/-- **A complaint that is past at an offset**: it points no further, or it
strays. -/
def IsPast (source : List Char) (n : Nat) (e : Diagnostic) : Prop :=
  ∃ loc, e.location = some loc ∧ (loc.offset ≤ n ∨ e.Strays source n)

/-- **A complaint that comes after another one.** -/
def IsAfter (source : List Char) (later earlier : Diagnostic) : Prop :=
  ∃ loc, later.location = some loc ∧ earlier.IsPast source loc.offset

variable {source : List Char} {m n : Nat} {e : Diagnostic}

theorem Strays.mono (h : e.Strays source m) (hle : m ≤ n) : e.Strays source n := by
  obtain ⟨t, s, hcut, hkind, hname, hstop, hrest⟩ := h
  exact ⟨t, s, hcut, hkind, hname, Nat.le_trans hstop hle, hrest⟩

theorem IsPast.mono (h : e.IsPast source m) (hle : m ≤ n) : e.IsPast source n := by
  obtain ⟨loc, hloc, hpast⟩ := h
  exact ⟨loc, hloc, hpast.imp (Nat.le_trans · hle) (Strays.mono · hle)⟩

end Diagnostic

namespace Parse.State

/-- **What was complained of so far came in turn**, and all of it is past at an
offset that is not behind the place. The parse is not strict, and nothing is
held back. -/
structure Complained (n : Nat) (s : State) : Prop where
  /-- The parse goes on after errors. -/
  lax : s.options.strict = false
  /-- Nothing is held back. -/
  reported : s.deferred = none
  /-- The offset is not behind the place. -/
  le : n ≤ s.offset
  /-- All complaints are past there. -/
  past : ∀ e ∈ diagnosticsOf s.events, e.IsPast s.stream.source n
  /-- They came in turn; the latest is the first. -/
  inTurn : (diagnosticsOf s.events).Pairwise (Diagnostic.IsAfter s.stream.source)

variable {m n : Nat} {s s' : State} {e : Diagnostic} {loc : Location}

/-- **What is past stays past.** -/
theorem Complained.raise (h : s.Complained m) (hle : m ≤ n) (hn : n ≤ s.offset) :
    s.Complained n :=
  ⟨h.lax, h.reported, hn, fun e he => (h.past e he).mono hle, h.inTurn⟩

/-- A run that complains of nothing. -/
theorem Complained.of_keeps (h : s.Complained n) (hkeeps : Keeps s s')
    (hsame : diagnosticsOf s'.events = diagnosticsOf s.events) (hn : n ≤ s'.offset) :
    s'.Complained n where
  lax := by rw [hkeeps.options_eq]; exact h.lax
  reported := hkeeps.deferred h.reported
  le := hn
  past := by rw [hsame, hkeeps.source_eq]; exact h.past
  inTurn := by rw [hsame, hkeeps.source_eq]; exact h.inTurn

/-- **One more complaint**, which points no earlier than what is past and is
past itself from an offset on. -/
theorem Complained.cons (h : s.Complained m) (hkeeps : Keeps s s')
    (hevents : diagnosticsOf s'.events = e :: diagnosticsOf s.events) (hloc : e.location = some loc)
    (hm : m ≤ loc.offset) (hmn : m ≤ n) (hn : n ≤ s'.offset)
    (hpast : loc.offset ≤ n ∨ e.Strays s.stream.source n) : s'.Complained n where
  lax := by rw [hkeeps.options_eq]; exact h.lax
  reported := hkeeps.deferred h.reported
  le := hn
  past := by
    rw [hevents, hkeeps.source_eq]
    exact List.forall_mem_cons.mpr ⟨⟨loc, hloc, hpast⟩, fun e' he' => (h.past e' he').mono hmn⟩
  inTurn := by
    rw [hevents, hkeeps.source_eq]
    exact List.pairwise_cons.mpr ⟨fun e' he' => ⟨loc, hloc, (h.past e' he').mono hm⟩, h.inTurn⟩

end Parse.State

/-! ## Parsers that complain of nothing -/

/-- **A mute parser** complains of nothing, neither in what it reports nor in
what it holds back. -/
structure Mute {α : Type} (p : Parser α) : Prop where
  /-- What was complained of is the same. -/
  events : ∀ s : State, diagnosticsOf (p s).2.events = diagnosticsOf s.events
  /-- So is what is held back of it. -/
  deferred : ∀ s : State,
    diagnosticsOf ((p s).2.deferred.getD []) = diagnosticsOf (s.deferred.getD [])

namespace Mute

variable {α β : Type} {p : Parser α} {f : α → Parser β}

theorem bind (h : Mute p) (hf : ∀ a, Mute (f a)) : Mute (p >>= f) := by
  refine ⟨fun s => ?_, fun s => ?_⟩ <;> rcases hp : p s with ⟨e | a, s₁⟩
  · rw [bind_error hp, ← h.events s, hp]
  · rw [bind_ok hp, (hf a).events, ← h.events s, hp]
  · rw [bind_error hp, ← h.deferred s, hp]
  · rw [bind_ok hp, (hf a).deferred, ← h.deferred s, hp]

theorem fire {kind : EventKind} {loc : Location} (h : Event.diagnostic? ⟨kind, loc⟩ = none) :
    Mute (Parser.fire kind loc) := by
  rw [Lockstep.fire_eq]
  refine ⟨fun s => ?_, fun s => ?_⟩
  · show diagnosticsOf (Lockstep.logged ⟨kind, loc⟩ s).events = _
    unfold Lockstep.logged
    cases s.deferred with
    | none => exact List.filterMap_cons_none h
    | some held => rfl
  · show diagnosticsOf ((Lockstep.logged ⟨kind, loc⟩ s).deferred.getD []) = _
    unfold Lockstep.logged
    cases hdeferred : s.deferred with
    | none => simp
    | some held => exact List.filterMap_cons_none h

theorem modifyGet {m : State → α × State} (hevents : ∀ s, (m s).2.events = s.events)
    (hdeferred : ∀ s, (m s).2.deferred = s.deferred) :
    Mute (MonadStateOf.modifyGet m : Parser α) :=
  ⟨fun s => congrArg diagnosticsOf (hevents s), fun s => by
    show diagnosticsOf ((m s).2.deferred.getD []) = _
    rw [hdeferred]⟩

/-- **What is put together from parsers that report no more than warnings** and
events that complain of nothing is mute. -/
theorem compositional : Compositional fun _ p => Mute p where
  pure _ := ⟨fun _ => rfl, fun _ => rfl⟩
  throw _ := ⟨fun _ => rfl, fun _ => rfl⟩
  bind h hf := bind h hf
  look _ hf := ⟨fun s => (hf s).events s, fun s => (hf s).deferred s⟩
  act hsame _ := modifyGet
    (fun s => congrArg Parse.Outside.events (Parse.State.outside_eq_of_within hsame s))
    (fun s => congrArg Parse.Outside.deferred (Parse.State.outside_eq_of_within hsame s))
  warn _ _ := fire rfl
  fire h := fire h

end Mute

/-! ## The judgement -/

/-- **A parser whose complaints come in turn**, run from a state: if it succeeds
there is an offset up to which all complaints are past, and if it fails its
complaint is the next one in turn. -/
structure InTurn {α : Type} (n : Nat) (p : Parser α) (s : State)
    (Q : α → Nat → State → Prop) : Prop where
  /-- What every run keeps is kept. -/
  keeps : Keeps s (p s).2
  /-- A failure points to where all other complaints are past. -/
  error : ∀ e, (p s).1 = .error e →
    ∃ loc, e.location = some loc ∧ n ≤ loc.offset ∧ (p s).2.Complained loc.offset
  /-- After a success all complaints are past from an offset on. -/
  ok : ∀ a, (p s).1 = .ok a → ∃ m, n ≤ m ∧ (p s).2.Complained m ∧ Q a m (p s).2

namespace InTurn

variable {α β σ : Type} {m n : Nat} {s s₁ : State} {p q : Parser α} {f : α → Parser β}
  {Q R : α → Nat → State → Prop} {Q' : β → Nat → State → Prop} {T : α → State → Prop}
  {E : Stream → Prop} {e : Diagnostic} {loc : Location}

/-! ## Constructs -/

theorem weaken (h : InTurn n p s Q)
    (hQ : ∀ a m s', Keeps s s' → n ≤ m → s'.Complained m → Q a m s' → R a m s') :
    InTurn n p s R :=
  ⟨h.keeps, h.error, fun a ha =>
    let ⟨m, hm, hs', hQm⟩ := h.ok a ha
    ⟨m, hm, hs', hQ a m _ h.keeps hm hs' hQm⟩⟩

theorem lower (h : InTurn m p s Q) (hle : n ≤ m) : InTurn n p s Q :=
  ⟨h.keeps, fun e he =>
    let ⟨loc, hloc, hm, hs'⟩ := h.error e he
    ⟨loc, hloc, Nat.le_trans hle hm, hs'⟩, fun a ha =>
    let ⟨k, hk, hs', hQ⟩ := h.ok a ha
    ⟨k, Nat.le_trans hle hk, hs', hQ⟩⟩

/-- **What is known of the run from elsewhere.** -/
theorem and_orderly (h : InTurn n p s Q) (ho : Orderly p s T E) :
    InTurn n p s fun a m s' => Q a m s' ∧ s'.InOrder ∧ T a s' :=
  ⟨h.keeps, h.error, fun a ha =>
    let ⟨m, hm, hs', hQ⟩ := h.ok a ha
    ⟨m, hm, hs', hQ, ho.inOrder, ho.ok a ha⟩⟩

theorem pure {a : α} (hs : s.IsSound) (hn : s.Complained n) (hQ : Q a n s) :
    InTurn n (Pure.pure a) s Q := by
  refine ⟨Keeps.refl hs, fun e he => (by cases he), fun b hb => ⟨n, Nat.le_refl n, hn, ?_⟩⟩
  obtain rfl : a = b := Except.ok.inj hb
  exact hQ

theorem throw (hs : s.IsSound) (hloc : e.location = some loc) (hn : n ≤ loc.offset)
    (hm : s.Complained loc.offset) : InTurn n (MonadExcept.throw e : Parser α) s Q := by
  refine ⟨Keeps.refl hs, fun e' he => ?_, fun _ ha => by cases ha⟩
  obtain rfl : e = e' := Except.error.inj he
  exact ⟨loc, hloc, hn, hm⟩

theorem bind (h : InTurn n p s Q) (hf : ∀ a m s₁, Keeps s s₁ → n ≤ m → s₁.Complained m →
    Q a m s₁ → InTurn m (f a) s₁ Q') : InTurn n (p >>= f) s Q' := by
  obtain ⟨hkeeps, herror, hok⟩ := h
  rcases hp : p s with ⟨e | a, s₁⟩ <;> rw [hp] at hkeeps herror hok
  · have hrun : (p >>= f) s = (.error e, s₁) := bind_error hp
    refine ⟨?_, ?_, ?_⟩ <;> rw [hrun]
    · exact hkeeps
    · rintro _ ⟨⟩
      exact herror e rfl
    · exact fun _ hb => by cases hb
  · have hrun : (p >>= f) s = f a s₁ := bind_ok hp
    obtain ⟨m, hm, hs₁, hQ⟩ := hok a rfl
    have hnext := (hf a m s₁ hkeeps hm hs₁ hQ).lower hm
    refine ⟨?_, ?_, ?_⟩ <;> rw [hrun]
    · exact hkeeps.trans hnext.keeps
    · exact hnext.error
    · exact hnext.ok

theorem pure_bind {a : α} (h : InTurn n (f a) s Q') : InTurn n (Pure.pure a >>= f) s Q' :=
  ⟨h.keeps, h.error, h.ok⟩

/-- **What is known to run** up to a state. -/
theorem of_ran {a : α} (hrun : p s = (.ok a, s₁)) (hkeeps : Keeps s s₁)
    (h : InTurn n (f a) s₁ Q') : InTurn n (p >>= f) s Q' := by
  have hbind : (p >>= f) s = f a s₁ := bind_ok hrun
  refine ⟨?_, ?_, ?_⟩ <;> rw [hbind]
  · exact hkeeps.trans h.keeps
  · exact h.error
  · exact h.ok

theorem ite {c : Prop} [Decidable c] (hpos : c → InTurn n p s Q) (hneg : ¬c → InTurn n q s Q) :
    InTurn n (if c then p else q) s Q := by
  by_cases hc : c
  · rw [if_pos hc]
    exact hpos hc
  · rw [if_neg hc]
    exact hneg hc

theorem discard {Q : Unit → Nat → State → Prop} (h : InTurn n p s fun _ => Q ()) :
    InTurn n (Functor.discard p) s Q := by
  show InTurn n (p >>= fun _ => Pure.pure ()) s Q
  exact h.bind fun _ _ _ hkeeps _ hs₁ hQ => pure hkeeps.isSound hs₁ hQ

theorem attempt_bind {f : Except Diagnostic α → Parser β} (h : InTurn n p s Q)
    (hok : ∀ a m s₁, p s = (.ok a, s₁) → Keeps s s₁ → n ≤ m → s₁.Complained m → Q a m s₁ →
      InTurn m (f (.ok a)) s₁ Q')
    (herror : ∀ e loc s₁, p s = (.error e, s₁) → Keeps s s₁ → e.location = some loc →
      n ≤ loc.offset → s₁.Complained loc.offset → InTurn loc.offset (f (.error e)) s₁ Q') :
    InTurn n (attempt p >>= f) s Q' := by
  have hrun : (attempt p >>= f) s = f (p s).1 (p s).2 :=
    bind_ok (attempt_apply p s)
  have hnext : InTurn n (f (p s).1) (p s).2 Q' := by
    rcases hanswer : (p s).1 with e | a
    · obtain ⟨loc, hloc, hn, hs₁⟩ := h.error e hanswer
      exact (herror e loc _ (Prod.ext hanswer rfl) h.keeps hloc hn hs₁).lower hn
    · obtain ⟨m, hm, hs₁, hQ⟩ := h.ok a hanswer
      exact (hok a m _ (Prod.ext hanswer rfl) h.keeps hm hs₁ hQ).lower hm
  refine ⟨?_, ?_, ?_⟩ <;> rw [hrun]
  · exact h.keeps.trans hnext.keeps
  · exact hnext.error
  · exact hnext.ok

theorem state_bind {f : State → Parser β} (h : InTurn n (f s) s Q') :
    InTurn n (state >>= f) s Q' := ⟨h.keeps, h.error, h.ok⟩

theorem options_bind {f : Options → Parser β} (hn : s.Complained n)
    (h : s.options.strict = false → InTurn n (f s.options) s Q') :
    InTurn n (Parser.options >>= f) s Q' :=
  ⟨(h hn.lax).keeps, (h hn.lax).error, (h hn.lax).ok⟩

theorem budget_bind {f : Nat → Parser β} (h : InTurn n (f s.budget) s Q') :
    InTurn n (Parser.budget >>= f) s Q' := ⟨h.keeps, h.error, h.ok⟩

theorem current_bind {f : Token → Parser β} (h : InTurn n (f s.stream.current) s Q') :
    InTurn n (current >>= f) s Q' := ⟨h.keeps, h.error, h.ok⟩

/-! ## Parsers that complain of nothing -/

/-- **A mute parser whose failures point to where reading stands.** -/
theorem of_points {Q : α → Stream → Prop} (hn : s.Complained n) (h : PointsAt n p s Q)
    (hmute : Mute p) : InTurn n p s fun a m s' => m = n ∧ Q a s'.stream where
  keeps := h.keeps
  error e he := by
    obtain ⟨loc, hloc, hle, hle'⟩ := h.error e he
    exact ⟨loc, hloc, hle, (hn.raise (Nat.le_refl n) hn.le).of_keeps h.keeps (hmute.events s)
      (Nat.le_trans hle hle') |>.raise hle hle'⟩
  ok a ha := ⟨n, Nat.le_refl n, hn.of_keeps h.keeps (hmute.events s) (h.ok a ha).1, rfl,
    (h.ok a ha).2⟩

/-- The same, whatever is left to read. -/
theorem read {P : Nat → Stream → Prop} {Q : α → Nat → Stream → Prop} (hs : s.IsSound)
    (hn : s.Complained n) (hP : P n s.stream) (h : ∀ d, Points d P p Q) (hmute : Mute p) :
    InTurn n p s fun a m s' => m = n ∧ Q a n s'.stream :=
  of_points hn (h (Text.byteLength s.stream.source + 1) s n hs (by omega) hn.le hP) hmute

theorem adjust_bind {g : State → State} {f : Unit → Parser β} (hs : s.IsSound)
    (hsame : (g s).stream = s.stream ∧ (g s).options = s.options ∧ (g s).budget = s.budget ∧
      (g s).store = s.store ∧ (g s).deferred = s.deferred ∧ (g s).events = s.events)
    (hn : s.Complained n)
    (h : Keeps s (g s) → (g s).Complained n → InTurn n (f ()) (g s) Q') :
    InTurn n (update g >>= f) s Q' := by
  obtain ⟨hstream, hoptions, hbudget, hstore, hdeferred, hevents⟩ := hsame
  have hkeeps := hs.keeps_of_eq hstream hoptions hbudget hstore hdeferred hevents
  refine of_ran rfl hkeeps (h hkeeps (hn.of_keeps hkeeps (congrArg diagnosticsOf hevents) ?_))
  rw [Parse.State.offset_of_stream hstream]
  exact hn.le

theorem fire {kind : EventKind} {location : Location} (hs : s.IsSound) (hn : s.Complained n)
    (hinner : Event.IsInner ⟨kind, location⟩) (hmute : Event.diagnostic? ⟨kind, location⟩ = none) :
    InTurn n (Parser.fire kind location) s fun _ m s' => m = n ∧ s'.stream = s.stream := by
  have hkeeps := (Reads.fire (n := 0) hs hinner).keeps
  have hrun := fire_apply hn.reported hs.store kind location
  refine ⟨hkeeps, fun e he => ?_, fun _ _ => ⟨n, Nat.le_refl n,
    hn.of_keeps hkeeps ((Mute.fire hmute).events s) ?_, rfl, ?_⟩⟩
  · rw [hrun] at he
    cases he
  · rw [hrun]
    exact hn.le
  · rw [hrun]

/-- **Reporting an event that complains**, and is past from an offset on. -/
theorem fire_complaint {kind : EventKind} {location : Location} (hs : s.IsSound)
    (hinner : Event.IsInner ⟨kind, location⟩) (hm : s.Complained m)
    (hmute : Event.diagnostic? ⟨kind, location⟩ = some e) (hloc : e.location = some loc)
    (hle : m ≤ loc.offset) (hmn : m ≤ n) (hn : n ≤ s.offset)
    (hpast : loc.offset ≤ n ∨ e.Strays s.stream.source n) :
    InTurn n (Parser.fire kind location) s fun _ k s' => k = n ∧ s'.stream = s.stream := by
  have hkeeps := (Reads.fire (n := 0) hs hinner).keeps
  have hrun := fire_apply hm.reported hs.store kind location
  refine ⟨hkeeps, fun e he => ?_, fun _ _ => ⟨n, Nat.le_refl n,
    hm.cons hkeeps ?_ hloc hle hmn ?_ hpast, rfl, ?_⟩⟩
  · rw [hrun] at he
    cases he
  · rw [hrun]
    exact List.filterMap_cons_some hmute
  · rw [hrun]
    exact hn
  · rw [hrun]

/-! ## Going on after an error -/

/-- **Reporting an error** that is past from an offset on. -/
theorem report (hs : s.IsSound) (hm : s.Complained m) (hloc : e.location = some loc)
    (hle : m ≤ loc.offset) (hmn : m ≤ n) (hn : n ≤ s.offset)
    (hpast : loc.offset ≤ n ∨ e.Strays s.stream.source n) :
    InTurn n (Parser.report e) s fun _ k s' => k = n ∧ s'.stream = s.stream :=
  state_bind (fire_complaint hs ⟨EventKind.noConfusion, EventKind.noConfusion⟩ hm rfl hloc hle hmn
    hn hpast)

/-- **An error that was recovered from** is reported where reading goes on. -/
theorem recover (hs : s.IsSound) (hm : s.Complained m) (hloc : e.location = some loc)
    (hle : m ≤ loc.offset) (hmn : m ≤ n) (hn : n ≤ s.offset)
    (hpast : loc.offset ≤ n ∨ e.Strays s.stream.source n) (inBlock : Bool) :
    InTurn n (Parser.recover e inBlock) s fun _ k _ => k = n := by
  have hrest : ∀ {s₁ : State}, Keeps s s₁ →
      diagnosticsOf s₁.events = diagnosticsOf s.events → n ≤ s₁.offset →
      InTurn n (do
        moveStream (·.skipBroken inBlock)
        Parser.report e) s₁ fun _ k _ => k = n := by
    intro s₁ h₁ hsame hn₁
    have hmoves := h₁.isSound.stream.skipBroken inBlock
    have h₂ := h₁.isSound.withStream hmoves.isSound hmoves.source_eq
    have hn₂ : n ≤ (s₁.stream.skipBroken inBlock).place.offset :=
      Nat.le_trans hn₁ hmoves.place_le
    have hm₂ := hm.of_keeps (h₁.trans h₂) hsame (Nat.le_trans hmn hn₂)
    refine of_ran rfl h₂ ((report h₂.isSound hm₂ hloc hle hmn hn₂ ?_).weaken
      fun _ _ _ _ _ _ h => h.1)
    rw [h₂.source_eq, h₁.source_eq]
    exact hpast
  unfold Parser.recover
  refine state_bind ?_
  cases s.pair with
  | none => exact pure_bind (hrest (Keeps.refl hs) rfl hn)
  | some close =>
    have h₁ : Keeps s { s with pair := none } := hs.keeps_of_eq rfl rfl rfl rfl rfl rfl
    refine of_ran rfl h₁ ?_
    -- the bracket is looked for, and reading does not go back
    have hvalue := Points.expr (d := Text.byteLength s.stream.source + 1) [close] true
      { s with pair := none } n h₁.isSound (by show Text.byteLength s.stream.source < _; omega) hn
      trivial
    have hmute := (Mute.compositional.expr [close] true).events { s with pair := none }
    have hrun : Functor.discard (attempt (Parser.expr [close] true)) { s with pair := none } =
        (.ok (), (Parser.expr [close] true { s with pair := none }).2) :=
      bind_ok (attempt_apply _ _)
    refine of_ran hrun hvalue.keeps (hrest (h₁.trans hvalue.keeps) hmute ?_)
    rcases hanswer : (Parser.expr [close] true { s with pair := none }).1 with e' | v
    · obtain ⟨_, _, hle', hle''⟩ := hvalue.error e' hanswer
      exact Nat.le_trans hle' hle''
    · exact (hvalue.ok v hanswer).1

/-! ## Repetition -/

/-- **What a round of a loop leaves.** -/
def Turn (I Q : σ → Nat → State → Prop) : ForInStep σ → Nat → State → Prop
  | .done a => Q a
  | .yield a => I a

/-- **A step over and over**, as long as the source can ask for it. The offset
up to which complaints are past may grow in each round. The first round is one
that the budget allows for, so that the invariant need not hold before it. -/
theorem repeating_first {step : σ → Parser (ForInStep σ)} {I Q : σ → Nat → State → Prop} {a : σ}
    (hs : s.IsSound) (hfirst : InTurn n (step a) s (Turn I Q))
    (hstep : ∀ a m s₁, Keeps s s₁ → n ≤ m → s₁.Complained m → I a m s₁ →
      InTurn m (step a) s₁ (Turn I Q))
    (hlast : ∀ a m s₁, I a m s₁ → Q a m s₁) : InTurn n (Parser.repeating a step) s Q := by
  have hrounds : ∀ k {a m} {s₁ : State}, Keeps s s₁ → n ≤ m → s₁.Complained m → I a m s₁ →
      InTurn m (rounds step k a) s₁ Q := by
    intro k
    induction k with
    | zero => exact fun h₁ _ hm hI => pure h₁.isSound hm (hlast _ _ _ hI)
    | succ k ih =>
      intro a m s₁ h₁ hnm hm hI
      refine (hstep a m s₁ h₁ hnm hm hI).bind fun r j s₂ h₂ hmj hj hturn => ?_
      cases r with
      | done b => exact pure h₂.isSound hj hturn
      | yield b => exact ih (h₁.trans h₂) (Nat.le_trans hnm hmj) hj hturn
  refine budget_bind ?_
  obtain ⟨k, hk⟩ : ∃ k, s.budget = k + 1 := by
    have hbudget : Text.byteLength s.stream.source + 64 ≤ s.budget := hs.budget
    exact ⟨s.budget - 1, by omega⟩
  rw [hk]
  refine hfirst.bind fun r m s₁ h₁ hnm hm hturn => ?_
  cases r with
  | done b => exact pure h₁.isSound hm hturn
  | yield b => exact hrounds k h₁ hnm hm hturn

theorem repeating {step : σ → Parser (ForInStep σ)} {I Q : σ → Nat → State → Prop} {a : σ}
    (hs : s.IsSound) (hn : s.Complained n) (hI : I a n s)
    (hstep : ∀ a m s₁, Keeps s s₁ → n ≤ m → s₁.Complained m → I a m s₁ →
      InTurn m (step a) s₁ (Turn I Q))
    (hlast : ∀ a m s₁, I a m s₁ → Q a m s₁) : InTurn n (Parser.repeating a step) s Q :=
  repeating_first hs (hstep a n s (Keeps.refl hs) (Nat.le_refl n) hn hI) hstep hlast

end InTurn

end Stylesheet
