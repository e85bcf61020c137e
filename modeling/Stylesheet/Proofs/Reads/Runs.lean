import Stylesheet.Proofs.Reads.Basic

/-!
# Parsers that read on from anywhere

Most parsers read on from every state, and all there is to say about
them is whether they need a token in hand and whether they leave one:
`Runs d held held'` says so, for states in which less than `d` bytes lie
after the offset that is not gone back before. The rules are those of
`Reads` without the states in between.
-/

namespace Stylesheet

open Parse (State)
open Parse.State (Keeps Stands stands_false stands_true)
open Stylesheet.Stream (Got Stays)

/-- **A parser that reads on from every state**, with a token in hand
before if `held` and after if `held'`. -/
def Runs {α : Type} (d : Nat) (held held' : Bool) (p p' : Parser α) : Prop :=
  ∀ (s : State) (n : Nat), s.IsSound → Text.byteLength s.stream.source < n + d →
    Stands held n s → Reads n p p' s fun _ => Stands held' n

namespace Runs

variable {α β σ : Type} {d : Nat} {a b c : Bool} {p p' q q' : Parser α} {f f' : α → Parser β}

/-- A parser that reads on whatever is left reads on from a state. -/
theorem reads {s : State} {n : Nat} (h : ∀ d, Runs d a b p p') (hs : s.IsSound)
    (hstands : Stands a n s) : Reads n p p' s fun _ => Stands b n :=
  h (Text.byteLength s.stream.source + 1) s n hs (by omega) hstands

/-! ## Constructs -/

/-- A parser that needs no token can have one. -/
theorem of_false (h : Runs d false b p p') : Runs d a b p p' := fun s n hs hd hstands =>
  h s n hs hd hstands.release

/-- A token that is left need not be used. -/
theorem of_true (h : Runs d a true p p') (b : Bool) : Runs d a b p p' := fun s n hs hd hstands =>
  (h s n hs hd hstands).weaken fun _ _ _ hstands => hstands.of_true b

theorem release (h : Runs d a b p p') : Runs d a false p p' := fun s n hs hd hstands =>
  (h s n hs hd hstands).weaken fun _ _ _ hstands => hstands.release

/-- A parser that can do with more can do with less. -/
theorem mono {d' : Nat} (h : Runs d a b p p') (hle : d' ≤ d) : Runs d' a b p p' :=
  fun s n hs hd hstands => h s n hs (Nat.lt_of_lt_of_le hd (Nat.add_le_add_left hle n)) hstands

theorem pure (x : α) : Runs d a a (Pure.pure x) (Pure.pure x) := fun _ _ hs _ hstands =>
  Reads.pure hs hstands

theorem throw (e : Diagnostic) :
    Runs d a b (MonadExcept.throw e : Parser α) (MonadExcept.throw e) := fun _ _ hs _ hstands =>
  Reads.throw hs hstands.1

theorem bind (h : Runs d a b p p') (hf : ∀ x, Runs d b c (f x) (f' x)) :
    Runs d a c (p >>= f) (p' >>= f') := by
  intro s n hs hd hstands
  refine (h s n hs hd hstands).bind fun x s₁ h₁ hstands₁ => ?_
  exact hf x s₁ n h₁.isSound (by rw [h₁.source_eq]; exact hd) hstands₁

theorem pure_bind {x : α} (h : Runs d a b (f x) (f' x)) :
    Runs d a b (Pure.pure x >>= f) (Pure.pure x >>= f') := fun s n hs hd hstands =>
  (h s n hs hd hstands).pure_bind

theorem ite {test : Prop} [Decidable test] (hpos : test → Runs d a b p p')
    (hneg : ¬test → Runs d a b q q') :
    Runs d a b (if test then p else q) (if test then p' else q') := fun s n hs hd hstands =>
  Reads.ite (fun h => hpos h s n hs hd hstands) fun h => hneg h s n hs hd hstands

theorem discard (h : Runs d a b p p') : Runs d a b (Functor.discard p) (Functor.discard p') :=
  fun s n hs hd hstands => (h s n hs hd hstands).discard

/-- **A failure that is caught** leaves nothing in hand. -/
theorem attempt (h : Runs d a b p p') :
    Runs d a false (Parser.attempt p) (Parser.attempt p') := fun s n hs hd hstands =>
  (h.release s n hs hd hstands).attempt fun _ _ _ hn => stands_false hn

theorem options : Runs d a a Parser.options Parser.options := fun _ _ hs _ hstands =>
  ⟨fun _ _ => rfl, Keeps.refl hs, fun _ he => (by cases he), fun _ _ => hstands⟩

theorem current : Runs d a a Parser.current Parser.current := fun _ _ hs _ hstands =>
  Reads.current (Reads.pure hs hstands)

theorem slice (start stop : Nat) : Runs d a a (Parser.slice start stop) (Parser.slice start stop) :=
  fun _ _ hs _ hstands => Reads.slice (Reads.pure hs hstands)

theorem failAt (expected : String) (t : Token) :
    Runs d a b (Parser.failAt expected t : Parser α) (Parser.failAt expected t) :=
  throw _

theorem throw_bind (e : Diagnostic) :
    Runs d a b ((MonadExcept.throw e : Parser α) >>= f) (MonadExcept.throw e >>= f') :=
  fun _ _ hs _ hstands => (Reads.throw (Q := fun _ _ => False) hs hstands.1).bind
    fun _ _ _ h => h.elim

theorem failAt_bind (expected : String) (t : Token) :
    Runs d a b (Parser.failAt expected t >>= f) (Parser.failAt expected t >>= f') :=
  throw_bind _

theorem failHere (expected : String) :
    Runs d a b (Parser.failHere expected : Parser α) (Parser.failHere expected) :=
  current.bind fun t => failAt expected t

theorem ofExcept (r : Except Diagnostic α) :
    Runs d a a (Parser.ofExcept r) (Parser.ofExcept r) := by
  cases r with
  | error e => exact throw e
  | ok x => exact pure x

/-! ## Tokens -/

/-- A token in hand after it was handed out. -/
theorem stands_of_got {s s' : State} {t : Token} {n : Nat} (hn : n ≤ s.offset)
    (hgot : Got s.stream t s'.stream) : Stands true n s' :=
  stands_true (Nat.le_trans hn hgot.place_le_place) (hgot.heldFrom hn)

/-- What is in hand stays there when nothing is handed out. -/
theorem stands_of_stays {s s' : State} {n : Nat} (hstands : Stands a n s)
    (hstays : Stays s.stream s'.stream) : Stands a n s' :=
  ⟨Nat.le_trans hstands.1 hstays.place_le, fun ha => hstays.heldFrom hstands.1 (hstands.2 ha)⟩

theorem next (placeholders blanks : Bool) :
    Runs d a true (Parser.next placeholders blanks) (Parser.next placeholders blanks) :=
  fun _ _ hs _ hstands => (Reads.next hs placeholders blanks).weaken fun _ _ _ hgot =>
    stands_of_got hstands.1 hgot

theorem grab : Runs d a true Parser.grab Parser.grab := next false false

theorem mustMatch (kinds : List TokenKind) :
    Runs d a true (Parser.mustMatch kinds) (Parser.mustMatch kinds) := fun _ _ hs _ hstands =>
  (Reads.mustMatch hs hstands.1 kinds).weaken fun _ _ _ hgot => stands_of_got hstands.1 hgot.1

theorem mustMatchSmart (kinds : List TokenKind) :
    Runs d a true (Parser.mustMatchSmart kinds) (Parser.mustMatchSmart kinds) :=
  fun _ _ hs _ hstands => (Reads.mustMatchSmart hs hstands.1 kinds).weaken fun _ _ _ hgot =>
    stands_of_got hstands.1 hgot.1

/-- **A token that must be there** leaves less for what follows. -/
theorem mustMatch_bind {kinds : List TokenKind} {f f' : Token → Parser β}
    (heof : TokenKind.eof ∉ kinds) (hf : ∀ t, Runs d false b (f t) (f' t)) :
    Runs (d + 1) a b (Parser.mustMatch kinds >>= f) (Parser.mustMatch kinds >>= f') := by
  intro s n hs hd hstands
  refine (Reads.mustMatch hs hstands.1 kinds).bind fun t s₁ h₁ hgot => ?_
  have hkind : t.kind ≠ .eof := fun hkind =>
    heof (by rw [← hkind]; exact List.contains_iff_mem.mp hgot.2)
  have hlt : s.offset < s₁.offset := hgot.1.place_lt_place hkind
  have hn := hstands.1
  have hd₁ : Text.byteLength s₁.stream.source < n + 1 + d := by
    rw [h₁.source_eq]
    omega
  exact ((hf t s₁ (n + 1) h₁.isSound hd₁ (stands_false (by omega))).lower (Nat.le_succ n)).weaken
    fun _ _ _ hstands₂ => hstands₂.mono (Nat.le_succ n)

/-- **A request for a token**, with what follows when it is granted and
when it is not. -/
theorem found_bind {p : Parser (Option Token)} {f f' : Option Token → Parser β}
    {accepted : Token → Prop}
    (hp : ∀ (s : State) (n : Nat), s.IsSound → Reads n p p s (Reads.Found s accepted))
    (hsome : ∀ t, accepted t → Runs d true b (f (some t)) (f' (some t)))
    (hnone : Runs d a b (f none) (f' none)) : Runs d a b (p >>= f) (p >>= f') := by
  intro s n hs hd hstands
  refine (hp s n hs).bind fun r s₁ h₁ hfound => ?_
  have hd₁ : Text.byteLength s₁.stream.source < n + d := by
    rw [h₁.source_eq]
    exact hd
  cases r with
  | some t => exact hsome t hfound.2 s₁ n h₁.isSound hd₁ (stands_of_got hstands.1 hfound.1)
  | none => exact hnone s₁ n h₁.isSound hd₁ (stands_of_stays hstands hfound)

theorem matchKinds (kinds : List TokenKind) :
    Runs d a a (Parser.matchKinds kinds) (Parser.matchKinds kinds) :=
  found_bind (f := Pure.pure) (fun _ _ hs => Reads.matchKinds hs kinds)
    (fun t _ => (pure (some t)).of_true a) (pure none)

theorem matchSmart (kinds : List TokenKind) :
    Runs d a a (Parser.matchSmart kinds) (Parser.matchSmart kinds) :=
  found_bind (f := Pure.pure) (fun _ _ hs => Reads.matchSmart hs kinds)
    (fun t _ => (pure (some t)).of_true a) (pure none)

theorem unget : Runs d true false Parser.unget Parser.unget := fun _ _ hs _ hstands =>
  (Reads.unget hs hstands.1 hstands.1 (hstands.2 rfl)).weaken fun _ _ _ h => stands_false h.1

theorem mustReuse (kinds : List TokenKind) :
    Runs d true true (Parser.mustReuse kinds) (Parser.mustReuse kinds) := fun _ _ hs _ hstands =>
  (Reads.mustReuse hs hstands kinds).weaken fun _ _ _ h => hstands.of_stream h.1

theorem matchReuse (kinds : List TokenKind) :
    Runs d true false (Parser.matchReuse kinds) (Parser.matchReuse kinds) :=
  fun _ _ hs _ hstands => (Reads.matchReuse hs hstands kinds).weaken fun _ _ _ h =>
    stands_false h.1

theorem readNth : Runs d a false (Parser.ask (·.readNth)) (Parser.ask (·.readNth)) :=
  fun _ _ hs _ hstands =>
    have hmoves := hs.stream.readNth
    Reads.ask hs hmoves.isSound hmoves.source_eq
      (stands_false (Nat.le_trans hstands.1 hmoves.place_le))

theorem skipBroken (inBlock : Bool) :
    Runs d a false (Parser.moveStream (·.skipBroken inBlock))
      (Parser.moveStream (·.skipBroken inBlock)) := fun _ _ hs _ hstands =>
  (Reads.skipBroken hs inBlock).weaken fun _ _ _ hle => stands_false (Nat.le_trans hstands.1 hle)

/-! ## Events and memory -/

theorem adjust {g : State → State} (hbudget : ∀ s b, g (s.withBudget b) = (g s).withBudget b)
    (hsame : ∀ s, (g s).stream = s.stream ∧ (g s).options = s.options ∧
      (g s).budget = s.budget ∧ (g s).store = s.store ∧ (g s).deferred = s.deferred ∧
      (g s).events = s.events) :
    Runs d a a (Parser.update g) (Parser.update g) := fun s _ hs _ hstands =>
  (Reads.adjust hs (hbudget s) (hsame s)).weaken fun _ _ _ hstream => hstands.of_stream hstream

theorem setPair (pair : Option TokenKind) :
    Runs d a a (Parser.update fun s => { s with pair := pair })
      (Parser.update fun s => { s with pair := pair }) :=
  adjust (fun _ _ => rfl) fun _ => ⟨rfl, rfl, rfl, rfl, rfl, rfl⟩

theorem fire {kind : EventKind} {location : Location} (he : Event.IsInner ⟨kind, location⟩) :
    Runs d a a (Parser.fire kind location) (Parser.fire kind location) := fun _ _ hs _ hstands =>
  (Reads.fire hs he).weaken fun _ _ _ hstream => hstands.of_stream hstream

theorem warn (message : String) (location : Location) :
    Runs d a a (Parser.warn message location) (Parser.warn message location) :=
  fire ⟨EventKind.noConfusion, EventKind.noConfusion⟩

theorem report (e : Diagnostic) : Runs d a a (Parser.report e) (Parser.report e) :=
  fun _ _ hs _ hstands => (Reads.report hs).weaken fun _ _ _ hstream => hstands.of_stream hstream

/-! ## Repetition -/

/-- **What a round of a loop leaves** when it reads something: the offset
has moved on if there is a next round. -/
def Round (b : Bool) (n : Nat) : ForInStep σ → State → Prop
  | .done _, s => Stands b n s
  | .yield _, s => n < s.offset

end Runs

/-- **A round of a loop that reads something** before there is a next
one. -/
def Steps {σ : Type} (d : Nat) (held held' : Bool) (p p' : Parser (ForInStep σ)) : Prop :=
  ∀ (s : State) (n : Nat), s.IsSound → Text.byteLength s.stream.source < n + d →
    Stands held n s → Reads n p p' s (Runs.Round held' n)

/-- **A loop each of whose rounds reads something.** -/
theorem Runs.repeating {σ : Type} {d : Nat} {a b : Bool} {step step' : σ → Parser (ForInStep σ)}
    {x : σ} (hstep : ∀ x, Steps d false b (step x) (step' x)) :
    Runs d a b (Parser.repeating x step) (Parser.repeating x step') := by
  intro s n hs hd hstands
  refine Reads.repeating (fun _ s' => n ≤ s'.offset) (fun _ s' => s'.left) hs hstands.1
    (by omega) fun x s₁ h₁ hn₁ => ?_
  have hd₁ : Text.byteLength s₁.stream.source < s₁.offset + d := by
    rw [h₁.source_eq]
    omega
  refine ((hstep x s₁ s₁.offset h₁.isSound hd₁ (stands_false (Nat.le_refl _))).lower hn₁).weaken
    fun r s₂ h₂ hround => ?_
  cases r with
  | done y => exact hround.mono hn₁
  | yield y =>
    have hlt : s₁.offset < s₂.offset := hround
    exact ⟨by omega, h₂.left_lt hlt⟩

/-- **The rest of a round once something was read.** -/
def GoesOn {σ : Type} (d : Nat) (held : Bool) (p p' : Parser (ForInStep σ)) : Prop :=
  ∀ (s : State) (n : Nat), s.IsSound → Text.byteLength s.stream.source < n + d →
    n < s.offset → Reads n p p' s (Runs.Round held n)

namespace GoesOn

variable {α σ : Type} {d : Nat} {a b : Bool} {p p' : Parser α} {f f' : α → Parser (ForInStep σ)}

theorem yield (x : σ) : GoesOn d b (Pure.pure (.yield x)) (Pure.pure (.yield x)) :=
  fun _ _ hs _ hlt => Reads.pure hs hlt

/-- **Something more is read** that does not go back. -/
theorem bind (h : Runs d false a p p') (hf : ∀ x, GoesOn d b (f x) (f' x)) :
    GoesOn d b (p >>= f) (p' >>= f') := by
  intro s n hs hd hlt
  refine ((h s (n + 1) hs (by omega) (stands_false hlt)).lower (Nat.le_succ n)).bind
    fun x s₁ h₁ hstands => ?_
  exact hf x s₁ n h₁.isSound (by rw [h₁.source_eq]; exact hd) hstands.1

end GoesOn

namespace Steps

variable {α σ : Type} {d : Nat} {a b c : Bool} {p p' : Parser α}
  {f f' : α → Parser (ForInStep σ)} {q q' r r' : Parser (ForInStep σ)}

theorem done (x : σ) : Steps d b b (Pure.pure (.done x)) (Pure.pure (.done x)) :=
  fun _ _ hs _ hstands => Reads.pure hs hstands

theorem bind (h : Runs d a b p p') (hf : ∀ x, Steps d b c (f x) (f' x)) :
    Steps d a c (p >>= f) (p' >>= f') := by
  intro s n hs hd hstands
  refine (h s n hs hd hstands).bind fun x s₁ h₁ hstands₁ => ?_
  exact hf x s₁ n h₁.isSound (by rw [h₁.source_eq]; exact hd) hstands₁

theorem pure_bind {x : α} (h : Steps d a b (f x) (f' x)) :
    Steps d a b (Pure.pure x >>= f) (Pure.pure x >>= f') := fun s n hs hd hstands =>
  (h s n hs hd hstands).pure_bind

theorem ite {test : Prop} [Decidable test] (hpos : test → Steps d a b q q')
    (hneg : ¬test → Steps d a b r r') :
    Steps d a b (if test then q else r) (if test then q' else r') := fun s n hs hd hstands =>
  Reads.ite (fun h => hpos h s n hs hd hstands) fun h => hneg h s n hs hd hstands

/-- **A round that goes on only with a token that was asked for.** -/
theorem found_bind {p : Parser (Option Token)} {f f' : Option Token → Parser (ForInStep σ)}
    {accepted : Token → Prop}
    (hp : ∀ (s : State) (n : Nat), s.IsSound → Reads n p p s (Reads.Found s accepted))
    (hkind : ∀ t, accepted t → t.kind ≠ .eof)
    (hsome : ∀ t, GoesOn d b (f (some t)) (f' (some t)))
    (hnone : Steps d a b (f none) (f' none)) : Steps d a b (p >>= f) (p >>= f') := by
  intro s n hs hd hstands
  refine (hp s n hs).bind fun found s₁ h₁ hfound => ?_
  have hd₁ : Text.byteLength s₁.stream.source < n + d := by
    rw [h₁.source_eq]
    exact hd
  cases found with
  | some t =>
    have hlt : s.offset < s₁.offset := hfound.1.place_lt_place (hkind t hfound.2)
    exact hsome t s₁ n h₁.isSound hd₁ (Nat.lt_of_le_of_lt hstands.1 hlt)
  | none => exact hnone s₁ n h₁.isSound hd₁ (Runs.stands_of_stays hstands hfound)

/-- **A round that goes on only with a token of some kinds.** -/
theorem matched_bind {kinds : List TokenKind} {p : Parser (Option Token)}
    {f f' : Option Token → Parser (ForInStep σ)}
    (hp : ∀ (s : State) (n : Nat), s.IsSound →
      Reads n p p s (Reads.Found s fun t => kinds.contains t.kind = true))
    (heof : TokenKind.eof ∉ kinds) (hsome : ∀ t, GoesOn d b (f (some t)) (f' (some t)))
    (hnone : Steps d a b (f none) (f' none)) : Steps d a b (p >>= f) (p >>= f') :=
  found_bind hp (fun t ht hkind => heof (by rw [← hkind]; exact List.contains_iff_mem.mp ht))
    hsome hnone

theorem matchKeyword_bind {set : Keywords} {f f' : Option Token → Parser (ForInStep σ)}
    (hsome : ∀ t, GoesOn d b (f (some t)) (f' (some t)))
    (hnone : Steps d a b (f none) (f' none)) :
    Steps d a b (Parser.matchKeyword set >>= f) (Parser.matchKeyword set >>= f') :=
  found_bind (fun _ _ hs => Reads.matchKeyword hs set)
    (fun t ht heof => by rw [ht] at heof; cases heof) hsome hnone

end Steps

end Stylesheet
