import Stylesheet.Proofs.InTurn.Condition

/-!
# Complaints in at-rules

Most of what an at-rule is made of complains of nothing, and is known to be in
order. `Queues` puts it together with the blocks and the conditions, in which
there may be complaints: a parser whose complaints come in turn from wherever
something is known of the stream.

A block whose opening brace was read already comes after the brace. The one
at-rule whose complaint can stray is `@scope`.
-/

namespace Stylesheet

open Parse (State)
open Parse.State (Keeps)
open Stylesheet.Stream (Anyhow At Beyond Fresh Grasps Has Near)

/-! ## Parts that complain of nothing -/

namespace Points

variable {d : Nat} {P : Nat → Stream → Prop}

theorem ruleName : Points d P Parser.ruleName fun _ => Anyhow := by
  unfold Parser.ruleName
  exact (mustMatchSmart _).bind fun _ => pure fun _ _ _ _ => trivial

theorem charsetRule (start : Token) : Points d P (Parser.charsetRule start) fun _ => Anyhow := by
  unfold Parser.charsetRule
  refine (mustMatchSmart _).bind fun _ => (mustMatchSmart _).discard_anyhow.bind fun _ => ?_
  exact fire ⟨EventKind.noConfusion, EventKind.noConfusion⟩

theorem namespaceRule (start : Token) :
    Points d Anyhow (Parser.namespaceRule start) fun _ => Anyhow := by
  unfold Parser.namespaceRule
  refine (matchSmart lasts_anyhow _).bind fun _ => (mustMatchSmart _).bind fun _ =>
    (mustMatchSmart _).discard_anyhow.bind fun _ => ?_
  exact fire ⟨EventKind.noConfusion, EventKind.noConfusion⟩

/-- Nothing need be known of what a request leaves. -/
theorem matchKinds_anyhow (kinds : List TokenKind) :
    Points d P (Parser.matchKinds kinds) fun _ => Anyhow :=
  ((matchKinds lasts_anyhow kinds).of fun _ _ _ _ => trivial).weaken fun _ _ _ _ _ => trivial

theorem matchSmart_anyhow (kinds : List TokenKind) :
    Points d P (Parser.matchSmart kinds) fun _ => Anyhow :=
  ((matchSmart lasts_anyhow kinds).of fun _ _ _ _ => trivial).weaken fun _ _ _ _ _ => trivial

/-- A result of which nothing need be known. -/
theorem pure_anyhow {α : Type} (a : α) : Points d P (Pure.pure a) fun _ => Anyhow :=
  pure fun _ _ _ _ => trivial

theorem layerNameStep (sofar : String × Option Token) :
    Points d P (Parser.layerNameStep sofar) fun _ => Anyhow := by
  obtain ⟨name, _ | t⟩ := sofar
  · exact pure_anyhow _
  · unfold Parser.layerNameStep
    exact (matchKinds_anyhow _).bind fun _ => ite (fun _ => pure_anyhow _) fun _ =>
      (matchKinds_anyhow _).bind fun _ => pure_anyhow _

/-- A round of which nothing need be known. -/
theorem turn_anyhow {σ : Type} {p : Parser (ForInStep σ)} (h : Points d P p fun _ => Anyhow) :
    Points d P p (Turn (fun _ => Anyhow) fun _ => Anyhow) :=
  h.weaken fun r _ _ _ _ => by cases r <;> trivial

theorem layerName (first : Option Token) : Points d P (Parser.layerName first) fun _ => Anyhow := by
  unfold Parser.layerName
  extract_lets rest
  have hrest : ∀ {R : Nat → Stream → Prop} (first : Option Token),
      Points d R (rest first) fun _ => Anyhow := fun first =>
    (repeating (Q := fun _ => Anyhow) (fun _ _ _ => trivial)
      (fun sofar => turn_anyhow (layerNameStep sofar)) fun _ _ _ h => h).bind fun _ => pure_anyhow _
  cases first with
  | some t => exact pure_bind (hrest _)
  | none => exact (matchSmart_anyhow _).bind fun _ => hrest _

theorem importLayer : Points d P Parser.importLayer fun r => Has r.2 := by
  unfold Parser.importLayer
  refine grab.bind fun t => ite (fun _ => ?_) fun _ => ite (fun _ => ?_) fun _ =>
    pure fun _ _ _ => id
  · refine (layerName none).bind fun _ => (mustMatchSmart _).discard_anyhow.bind fun _ => ?_
    exact grab.bind fun _ => pure fun _ _ _ => id
  · exact grab.bind fun _ => pure fun _ _ _ => id

theorem documentStep (start : Token) (functions : List String) :
    Points d P (Parser.documentStep start functions) fun _ => Anyhow := by
  unfold Parser.documentStep
  extract_lets rest same
  have hrest : ∀ {R : Nat → Stream → Prop} (functions : List String),
      Points d R (rest functions) fun _ => Anyhow := fun _ =>
    (matchSmart_anyhow _).bind fun _ => pure_anyhow _
  refine (matchSmart_anyhow _).bind fun found => ?_
  cases found with
  | none =>
    refine options_bind fun _ => ite (fun _ => pure_bind (hrest _)) fun _ => ?_
    exact (warn _ _).bind fun _ => pure_bind (hrest _)
  | some t =>
    refine ite (fun _ => pure_bind (hrest _)) fun _ => ite (fun _ => ?_) fun _ => ?_
    · refine (function t false).bind fun part => ite (fun _ => pure_bind (hrest _)) fun _ => ?_
      exact (warn _ _).bind fun _ => pure_bind (hrest _)
    · exact (warn _ _).bind fun _ => pure_bind (hrest _)

/-- One more key; the token read last is in hand. -/
theorem keyStep (sofar : Parser.KeysSoFar) : Points d P (Parser.keyStep sofar)
    (Turn (fun sofar => Has sofar.last) fun sofar => Has sofar.last) := by
  unfold Parser.keyStep
  refine grab.bind fun t => ite (fun _ => ?_) fun _ => ite (fun _ => ?_) fun _ => failAt_has
  · refine grab.bind fun last => ?_
    extract_lets sofar
    split_ifs <;> exact pure fun _ _ _ => id
  · exact pure fun _ _ _ => id

/-- The keys of a keyframe. -/
theorem keys (sofar : Parser.KeysSoFar) :
    Points d P (Parser.repeating sofar Parser.keyStep) fun sofar => Has sofar.last :=
  repeating_first (keyStep sofar) (fun _ => keyStep _) fun _ _ _ => id

end Points

/-! ## The judgement -/

/-- **A reader of blocks whose complaints come in turn**, where less than a bound
is left to read. A block that was opened already comes after its brace. -/
structure InTurnBlock (d : Nat) (block : BlockParser) : Prop where
  /-- The reader is orderly. -/
  orderly : OrderlyBlock block
  /-- Its complaints come in turn. -/
  inTurn : ∀ (start : Location) (shape : BlockShape) {s : State} {n : Nat}, s.InOrder →
    s.stream.Near → (∀ selectors, shape.event = some (.rule selectors) →
      ∀ selector ∈ selectors, selector.IsRead s.options s.stream.source) →
    Text.byteLength s.stream.source < n + d → s.Complained n →
    (shape.opened = true → n < s.offset) → InTurn n (block start shape) s fun _ _ _ => True

/-- **A parser whose complaints queue up**: they come in turn from wherever
something is known of the stream, and less than `d` bytes are left to read. -/
def Queues {α : Type} (d : Nat) (P : Nat → Stream → Prop) (p : Parser α)
    (Q : α → Nat → Stream → Prop) : Prop :=
  ∀ (s : State) (n : Nat), s.InOrder → Text.byteLength s.stream.source < n + d →
    s.Complained n → P n s.stream → InTurn n p s fun a m s' => s'.InOrder ∧ Q a m s'.stream

namespace Queues

variable {α β σ : Type} {d : Nat} {P R : Nat → Stream → Prop} {p q : Parser α}
  {f : α → Parser β} {Q Q₁ : α → Nat → Stream → Prop} {Q' : β → Nat → Stream → Prop}

/-! ## Constructs -/

theorem adapt (h : Queues d P p Q) (hP : ∀ n st, st.IsSound → R n st → P n st)
    (hQ : ∀ a n st, st.IsSound → Q a n st → Q₁ a n st) : Queues d R p Q₁ := fun s n hs hd hn hR =>
  (h s n hs hd hn (hP n s.stream hs.isSound.stream hR)).weaken fun a m _ _ _ _ ⟨hs', hQ'⟩ =>
    ⟨hs', hQ a m _ hs'.isSound.stream hQ'⟩

theorem of (h : Queues d P p Q) (hP : ∀ n st, st.IsSound → R n st → P n st) : Queues d R p Q :=
  h.adapt hP fun _ _ _ _ => id

theorem weaken (h : Queues d P p Q) (hQ : ∀ a n st, st.IsSound → Q a n st → Q₁ a n st) :
    Queues d P p Q₁ := h.adapt (fun _ _ _ => id) hQ

theorem pure {a : α} (hQ : ∀ n st, P n st → Q a n st) : Queues d P (Pure.pure a) Q :=
  fun s n hs _ hn hP => .pure hs.isSound hn ⟨hs, hQ n s.stream hP⟩

theorem bind (h : Queues d P p Q) (hf : ∀ a, Queues d (Q a) (f a) Q') :
    Queues d P (p >>= f) Q' := fun s n hs hd hn hP =>
  (h s n hs hd hn hP).bind fun a m s₁ hkeeps hnm hm ⟨hs₁, hQ⟩ =>
    hf a s₁ m hs₁ (by rw [hkeeps.source_eq]; omega) hm hQ

theorem pure_bind {a : α} (h : Queues d P (f a) Q') : Queues d P (Pure.pure a >>= f) Q' :=
  fun s n hs hd hn hP => .pure_bind (h s n hs hd hn hP)

theorem ite {c : Prop} [Decidable c] (hpos : c → Queues d P p Q) (hneg : ¬c → Queues d P q Q) :
    Queues d P (if c then p else q) Q := fun s n hs hd hn hP =>
  .ite (fun hc => hpos hc s n hs hd hn hP) fun hc => hneg hc s n hs hd hn hP

theorem discard {Q : Nat → Stream → Prop} (h : Queues d P p fun _ => Q) :
    Queues d P (Functor.discard p) fun _ => Q := fun s n hs hd hn hP => .discard (h s n hs hd hn hP)

theorem state_bind {f : State → Parser β} (h : ∀ s, Queues d P (f s) Q') :
    Queues d P (Parser.state >>= f) Q' := fun s n hs hd hn hP => .state_bind (h s s n hs hd hn hP)

theorem options_bind {f : Options → Parser β} (h : ∀ o, o.strict = false → Queues d P (f o) Q') :
    Queues d P (Parser.options >>= f) Q' := fun s n hs hd hn hP =>
  .options_bind hn fun hlax => h s.options hlax s n hs hd hn hP

theorem repeating_first {step : σ → Parser (ForInStep σ)} {I Q : σ → Nat → Stream → Prop} {a : σ}
    (hfirst : Queues d P (step a) (Points.Turn I Q))
    (hstep : ∀ a, Queues d (I a) (step a) (Points.Turn I Q))
    (hlast : ∀ a n st, I a n st → Q a n st) : Queues d P (Parser.repeating a step) Q := by
  intro s n hs hd hn hP
  have hturn : ∀ {p : Parser (ForInStep σ)} {P' : Nat → Stream → Prop} {s₁ : State} {m : Nat},
      Queues d P' p (Points.Turn I Q) → Keeps s s₁ → n ≤ m → s₁.Complained m → s₁.InOrder →
      P' m s₁.stream → InTurn m p s₁ (InTurn.Turn
        (fun a m s' => s'.InOrder ∧ I a m s'.stream) fun a m s' => s'.InOrder ∧ Q a m s'.stream) := by
    intro p P' s₁ m h hkeeps hnm hm hs₁ hP'
    refine (h s₁ m hs₁ (by rw [hkeeps.source_eq]; omega) hm hP').weaken ?_
    rintro (_ | _) _ _ _ _ _ hturn <;> exact hturn
  exact .repeating_first hs.isSound
    (hturn hfirst (Keeps.refl hs.isSound) (Nat.le_refl n) hn hs hP)
    (fun a m s₁ h₁ hnm hm ⟨hs₁, hI⟩ => hturn (hstep a) h₁ hnm hm hs₁ hI)
    fun a m s₁ ⟨hs₁, hI⟩ => ⟨hs₁, hlast a m s₁.stream hI⟩

theorem part {A : Stream → Prop} {B : α → Stream → Prop} (h : ∀ d, Points d P p Q) (hmute : Mute p)
    (horderly : ∀ s : State, s.InOrder → A s.stream → Orderly p s fun a s' => B a s'.stream)
    (hA : ∀ n st, P n st → A st) : Queues d P p fun a n st => Q a n st ∧ B a st :=
  fun s n hs _ hn hP => (InTurn.part hs hn hP h hmute (horderly s hs (hA n _ hP))).weaken
    fun a m s' _ _ _ ⟨hm, hQ, hs', hB⟩ => ⟨hs', by rw [hm]; exact hQ, hB⟩

/-- A part of which nothing need be known but where it leads. -/
theorem plainPart {A B : Stream → Prop} (h : ∀ d, Points d Anyhow p fun _ => Anyhow)
    (hmute : Mute p) (hleads : Leads A B p) : Queues d (fun _ => A) p fun _ _ => B :=
  (part (fun d => (h d).of_anyhow) hmute hleads fun _ _ => id).weaken fun _ _ _ _ h => h.2

theorem fire {kind : EventKind} {location : Location} (hinner : Event.IsInner ⟨kind, location⟩)
    (hevent : ∀ o source, Event.IsOrderly o source ⟨kind, location⟩)
    (hmute : Event.diagnostic? ⟨kind, location⟩ = none) :
    Queues d P (Parser.fire kind location) fun _ => P :=
  (part (A := fun _ => True) (B := fun _ _ => True) (fun _ => Points.fire hinner) (.fire hmute)
    (Leads.fire (P := fun _ => True) hinner hevent) fun _ _ _ => trivial).weaken fun _ _ _ _ h => h.1

theorem warn (message : String) (location : Location) :
    Queues d P (Parser.warn message location) fun _ => P :=
  fire ⟨EventKind.noConfusion, EventKind.noConfusion⟩ (fun _ _ => trivial) rfl

theorem grab (hP : ∀ n st, P n st → st.Near) :
    Queues d P Parser.grab fun t n st => Has t n st ∧ st.At t :=
  part (fun _ => Points.grab) Mute.compositional.grab
    (fun _ hs hnear => (Orderly.grab hs hnear).weaken fun _ _ _ h => h.1) hP

/-- **What a request leaves**: the token asked for at hand, or again at most one
ahead. -/
def Kept : Option Token → Nat → Stream → Prop
  | some t, n, st => Has t n st ∧ st.At t
  | none, _, st => st.Near

theorem matchSmart (kinds : List TokenKind) :
    Queues d (fun _ => Near) (Parser.matchSmart kinds) Kept := by
  intro s n hs _ hn hnear
  refine (InTurn.part (P := Anyhow) hs hn trivial
    (fun _ => Points.matchSmart Points.lasts_anyhow kinds) (Mute.compositional.matchSmart kinds)
    (Orderly.matchSmart hs hnear kinds)).weaken fun r m s' _ _ _ ⟨hm, hhas, hs', hfound⟩ => ⟨hs', ?_⟩
  obtain rfl := hm
  cases r with
  | none => exact hfound.1
  | some t => exact ⟨hhas, hfound.1⟩

theorem unget : Queues d (fun n st => Grasps n st ∧ st.Fresh) Parser.unget fun _ _ => Near :=
  (part (fun _ => Points.unget.of fun _ _ _ h => h.1) Mute.compositional.unget Leads.unget
    fun _ _ h => h.2).weaken fun _ _ _ _ h => h.2

theorem failAt_bind {t : Token} {expected : String} :
    Queues d (fun n st => Has t n st ∧ st.At t) ((Parser.failAt expected t : Parser α) >>= f) Q' :=
  fun _ _ hs _ hn ⟨ht, _⟩ => (InTurn.throw (Q := fun _ _ _ => False) hs.isSound rfl ht.2
    (hn.raise ht.2 (ht.passed hs.isSound.stream).2)).bind fun _ _ _ _ _ _ h => h.elim

/-- Demanding a token; the end of the source is not demanded. -/
theorem mustMatchSmart (kinds : List TokenKind) (hkinds : kinds.contains .eof = false)
    (hP : ∀ n st, P n st → st.Near) :
    Queues d P (Parser.mustMatchSmart kinds) fun _ n st => st.Near ∧ Beyond n st :=
  (part (fun _ => Points.beyond hkinds (Points.mustMatchSmart_kind kinds))
    (Mute.compositional.mustMatchSmart kinds) (Leads.mustMatchSmart kinds) hP).weaken
      fun _ _ _ _ ⟨⟨_, hbeyond⟩, hfresh⟩ => ⟨hfresh.near, hbeyond⟩

/-! ## Blocks of at-rules -/

section Blocks

variable {block : BlockParser} (hblock : InTurnBlock d block)

include hblock

/-- A block that is none of a rule. -/
theorem plainBlock (start : Location) (shape : BlockShape)
    (hshape : ∀ selectors, shape.event ≠ some (.rule selectors)) :
    Queues d (fun n st => st.Near ∧ (shape.opened = true → Beyond n st)) (block start shape)
      fun _ _ => Near := by
  intro s n hs hd hn ⟨hnear, hopened⟩
  have hselectors : ∀ selectors, shape.event = some (.rule selectors) →
      ∀ selector ∈ selectors, selector.IsRead s.options s.stream.source :=
    fun selectors h => absurd h (hshape selectors)
  exact ((hblock.inTurn start shape hs hnear hselectors hd hn hopened).and_orderly
    (hblock.orderly start shape hs hnear hselectors)).weaken
      fun _ _ _ _ _ _ ⟨_, hs', hfresh⟩ => ⟨hs', hfresh.near⟩

theorem descriptorBlock (start : Token) (scope : String) {kind : BlockKind} (margins : Bool)
    (hkind : ∀ selectors, kind ≠ .rule selectors) :
    Queues d (fun _ => Near) (Parser.descriptorBlock block start scope kind margins)
      fun _ _ => Near :=
  discard ((plainBlock hblock _ _ fun selectors h => hkind selectors (Option.some.inj h)).of
    fun _ _ _ hnear => ⟨hnear, fun h => by cases h⟩)

theorem ruleBlock (start : Token) {kind : BlockKind} (hkind : ∀ selectors, kind ≠ .rule selectors) :
    Queues d (fun _ => Near) (Parser.ruleBlock block start kind) fun _ _ => Near :=
  discard ((plainBlock hblock _ _ fun selectors h => hkind selectors (Option.some.inj h)).of
    fun _ _ _ hnear => ⟨hnear, fun h => by cases h⟩)

omit hblock

/-! ## Statements -/

theorem condition (kind : ConditionKind) :
    Queues d (fun _ => Near) (Parser.condition kind) fun _ _ => Near := fun _ _ hs _ hn hnear =>
  ((InTurn.condition hs hnear hn).and_orderly (Orderly.condition hs hnear)).weaken
    fun _ _ _ _ _ _ ⟨_, hs', hbetween⟩ => ⟨hs', hbetween.1⟩

theorem mediaQueries {reuse : Bool} (hP : ∀ n st, P n st → st.Near)
    (hreuse : reuse = true → ∀ n st, P n st → Grasps n st ∧ st.Fresh) :
    Queues d P (Parser.mediaQueries reuse) fun _ _ => Near := fun _ n hs _ hn hPn =>
  (InTurn.part hs hn hPn (fun _ => Points.mediaQueries reuse fun h n st hPn => (hreuse h n st hPn).1)
    (Mute.compositional.mediaQueries reuse) (Orderly.mediaQueries hs reuse (hP n _ hPn)
      fun h => (hreuse h n _ hPn).2)).weaken
    fun _ _ _ _ _ _ ⟨_, _, hs', hnear⟩ => ⟨hs', hnear⟩

theorem importRule (start : Token) :
    Queues d (fun _ => Near) (Parser.importRule start) fun _ _ => Near := by
  unfold Parser.importRule
  refine (mustMatchSmart _ (by decide) fun _ _ => id).bind fun uri => ?_
  refine (part (fun _ => Points.importLayer) Mute.compositional.importLayer Leads.importLayer
    fun _ _ => And.left).bind fun found => ?_
  rcases found with ⟨layer, t⟩
  dsimp only
  generalize (t.kind == .function && t.name == "supports") = conditional
  have hend : ∀ queries : List MediaQuery, Queues d (fun _ => Near) (do
      Functor.discard (Parser.mustMatchSmart [.semicolon])
      Parser.fire (.import_ (Parser.addressOf uri) layer queries) start.location)
      fun _ _ => Near := fun _ =>
    ((mustMatchSmart _ (by decide) fun _ _ => id).weaken fun _ _ _ _ h => h.1).discard.bind
      fun _ => fire ⟨EventKind.noConfusion, EventKind.noConfusion⟩ (fun _ _ => trivial) rfl
  cases conditional with
  | true =>
    have hcondition : Queues d (fun _ => Fresh)
        (Parser.conditionInParens .supports (some (Parser.openParen t))) fun _ _ => Near :=
      fun _ _ hs _ hn hfresh => ((InTurn.conditionInParens hs hfresh.near hn _).and_orderly
        (Orderly.conditionInParens hs hfresh.near _)).weaken
          fun _ _ _ _ _ _ ⟨_, hs', hbetween⟩ => ⟨hs', hbetween.1⟩
    exact (hcondition.of fun _ _ _ h => h.2).bind fun _ =>
      (mediaQueries (fun _ _ => id) fun h => (by cases h)).bind hend
  | false =>
    exact (mediaQueries (fun _ _ h => h.2.near) fun _ _ _ h => ⟨h.1.grasps, h.2⟩).bind hend

/-! ## Layers and documents -/

include hblock

omit hblock in
/-- **Within a list of layers**: without a block some token is at hand. -/
def Listed (r : List String × Bool) (n : Nat) (st : Stream) : Prop :=
  st.Near ∧ (r.2 = false → Grasps n st ∧ st.Fresh)

theorem layerStep (start : Token) (sofar : List String × Bool) :
    Queues d (fun _ => Near) (Parser.layerStep block start sofar) (Points.Turn Listed Listed) := by
  unfold Parser.layerStep
  refine (grab fun _ _ => id).bind fun t => ?_
  extract_lets found
  have hfound : ∀ r : List String × Token, Queues d (fun n st => Has r.2 n st ∧ st.At r.2) (found r)
      (Points.Turn Listed Listed) := by
    rintro ⟨ids, t⟩
    refine ite (fun hbrace => ?_) fun _ => ite (fun _ => ?_) fun _ => ?_
    · -- the block comes after its brace
      have heof : t.kind ≠ .eof := by
        rw [eq_of_beq hbrace]
        exact TokenKind.noConfusion
      have hbody : Queues d (fun n st => Has t n st ∧ st.At t) (do
          Functor.discard (block start.location
            { event := some (.layer ids.reverse.head?), opened := true })
          return ForInStep.done (ids, true)) (Points.Turn Listed Listed) :=
        ((plainBlock hblock _ _ fun _ h => BlockKind.noConfusion (Option.some.inj h)).discard.of
          fun _ _ hs ⟨ht, hat⟩ => ⟨hat.near, fun _ => ht.lt_place hs heof⟩).bind
            fun _ => pure fun _ _ hnear => ⟨hnear, fun h => by cases h⟩
      exact ite (fun _ => (warn _ _).bind fun _ => hbody) fun _ => hbody
    · exact pure fun _ _ h => ⟨h.2.near, fun _ => ⟨h.1.grasps, t, h.2⟩⟩
    · exact pure fun _ _ h => ⟨h.2.near, fun _ => ⟨h.1.grasps, t, h.2⟩⟩
  refine ite (fun _ => ?_) fun _ => pure_bind (hfound (sofar.1, t))
  refine ((plainPart (fun _ => Points.layerName _) (Mute.compositional.layerName _)
    (Leads.layerName (some t))).of fun _ _ _ h => h.2.near).bind fun name => ?_
  exact (grab fun _ _ => id).bind fun t => pure_bind (hfound (name :: sofar.1, t))

theorem layerRule (start : Token) :
    Queues d (fun _ => Near) (Parser.layerRule block start) fun _ _ => Near := by
  unfold Parser.layerRule
  refine (repeating_first (layerStep hblock start _)
    (fun sofar => (layerStep hblock start sofar).of fun _ _ _ h => h.1) fun _ _ _ => id).bind
      fun r => ?_
  rcases r with ⟨ids, blockSeen⟩
  refine ite (fun _ => pure fun _ _ h => h.1) fun hnone => ?_
  have hend : Queues d (fun n st => Grasps n st ∧ st.Fresh)
      (Functor.discard (Parser.mustReuse [.semicolon])) fun _ _ => Near :=
    (part (fun _ => (Points.mustReuse _).discard_anyhow.of fun _ _ _ h => h.1)
      (Mute.compositional.discard (Mute.compositional.mustReuse _))
      (Leads.mustReuse [.semicolon]).discard fun _ _ h => h.2).weaken fun _ _ _ _ h => h.2.near
  refine (hend.of fun _ _ _ h => h.2 (Bool.eq_false_iff.mpr hnone)).bind fun _ => ?_
  exact fire ⟨EventKind.noConfusion, EventKind.noConfusion⟩ (fun _ _ => trivial) rfl

/-- The body of a document, after its opening brace. -/
theorem documentBody (start : Token) : Queues d (fun n st => st.Near ∧ Beyond n st)
    (Parser.documentBody block start) fun _ _ => Near := by
  unfold Parser.documentBody
  refine options_bind fun _ _ => ite (fun _ => ?_) fun _ =>
    (plainBlock hblock _ _ fun _ h => by cases h).of fun _ _ _ h => ⟨h.1, fun _ => h.2⟩
  refine ((plainPart (fun _ => Points.skipBroken true) (Mute.compositional.moveStream _)
    (Leads.skipBroken true)).of fun _ _ _ h => h.1).bind fun _ => ?_
  exact (part (fun _ => Points.mustMatchSmart _) (Mute.compositional.mustMatchSmart _)
    (Leads.mustMatchSmart _) fun _ _ => id).bind fun _ => pure fun _ _ h => h.2.near

theorem documentRule (start : Token) :
    Queues d (fun _ => Near) (Parser.documentRule block start) fun _ _ => Near := by
  unfold Parser.documentRule
  refine state_bind fun _ => ?_
  extract_lets rest
  have hfunctions : Queues d (fun _ => Near) (Parser.repeating [] (Parser.documentStep start))
      fun _ _ => Near :=
    plainPart (fun _ => Points.repeating (Q := fun _ => Anyhow) (fun _ _ _ => trivial)
        (fun functions => Points.turn_anyhow (Points.documentStep start functions)) fun _ _ _ h => h)
      (Mute.compositional.repeating (Mute.compositional.documentStep start) [])
      (Leads.repeating (Leads.documentStep start) (fun _ => id) [])
  have hrest : Queues d (fun _ => Near) (rest ()) fun _ _ => Near := by
    refine hfunctions.bind fun functions => ?_
    refine (mustMatchSmart _ (by decide) fun _ _ => id).discard.bind fun _ => ?_
    refine Queues.bind (fire ⟨EventKind.noConfusion, EventKind.noConfusion⟩
      (fun _ _ => trivial) rfl) fun _ => ?_
    refine (documentBody hblock start).bind fun stop => ?_
    exact fire ⟨EventKind.noConfusion, EventKind.noConfusion⟩ (fun _ _ => trivial) rfl
  exact ite (fun _ => (warn _ _).bind fun _ => hrest) fun _ => hrest

/-! ## Keyframes -/

theorem keyframeStep (sofar : Bool × Token) :
    Queues d (fun _ => Near) (Parser.keyframeStep block sofar)
      (Points.Turn (fun _ _ => Near) fun _ _ => Near) := by
  unfold Parser.keyframeStep
  refine (part (fun _ => Points.keys _) (Mute.compositional.repeating Mute.compositional.keyStep _)
    (Leads.repeating Leads.keyStep (fun _ => Fresh.near) _) fun _ _ => id).bind fun head => ?_
  cases head.first with
  | none => exact pure fun _ _ h => h.2.near
  | some loc =>
    have hbody : ∀ opened : Bool, Queues d
        (fun n st => st.Near ∧ (opened = true → Beyond n st)) (do
          Functor.discard (block loc { event := some (.keyframeRule head.keys.reverse),
                                       opened := opened, declarations := true })
          return ForInStep.yield (true, head.last)) (Points.Turn (fun _ _ => Near)
            fun _ _ => Near) := fun opened =>
      (plainBlock hblock loc
        { event := some (.keyframeRule head.keys.reverse), opened := opened, declarations := true }
        fun _ h => BlockKind.noConfusion (Option.some.inj h)).discard.bind fun _ =>
          pure fun _ _ => id
    refine ite (fun hopened => (hbody _).of fun _ _ hs h => ⟨h.2.near, fun _ => ?_⟩) fun hother => ?_
    · refine h.1.lt_place hs fun heof => ?_
      rw [heof] at hopened
      cases hopened
    · refine (unget.of fun _ _ _ h => ⟨h.1.grasps, h.2⟩).bind fun _ => (hbody _).of fun _ _ _ h => ⟨h, fun h => absurd h hother⟩

theorem keyframesRule (start : Token) :
    Queues d (fun _ => Near) (Parser.keyframesRule block start) fun _ _ => Near := by
  unfold Parser.keyframesRule
  refine (part (fun _ => Points.mustMatchSmart _) (Mute.compositional.mustMatchSmart _)
    (Leads.mustMatchSmart _) fun _ _ => id).bind fun name => ?_
  refine (mustMatchSmart _ (by decide) fun _ _ h => h.2.near).discard.bind fun _ => ?_
  refine Queues.bind (fire ⟨EventKind.noConfusion, EventKind.noConfusion⟩ (fun _ _ => trivial) rfl)
    fun _ => ?_
  refine (repeating_first (I := fun _ _ => Near) (Q := fun _ _ => Near)
    ((keyframeStep hblock _).of fun _ _ _ h => h.1) (keyframeStep hblock) fun _ _ _ => id).bind
      fun r => ?_
  have hend : ∀ close : Token, Queues d (fun _ => Near) (Parser.fire
      (.stop (BlockKind.keyframes name.name start.vendor) !r.1) close.location) fun _ _ => Near :=
    fun _ => fire ⟨EventKind.noConfusion, EventKind.noConfusion⟩ (fun _ _ => trivial) rfl
  refine ite (fun _ => pure_bind (hend _)) fun _ => ?_
  exact ((mustMatchSmart _ (by decide) fun _ _ => id).weaken fun _ _ _ _ h => h.1).bind hend

/-! ## The other at-rules -/

theorem containerRule (start : Token) :
    Queues d (fun _ => Near) (Parser.containerRule block start) fun _ _ => Near := by
  unfold Parser.containerRule
  extract_lets rest
  have hrest : ∀ name, Queues d (fun _ => Near) (rest name) fun _ _ => Near := fun name =>
    (condition _).bind fun _ => ruleBlock hblock start fun _ => BlockKind.noConfusion
  refine (matchSmart _).bind fun found => ?_
  cases found with
  | none => exact pure_bind (hrest _)
  | some t =>
    refine ite (fun _ => ?_) fun _ => pure_bind ((hrest _).of fun _ _ _ h => h.2.near)
    exact (unget.of fun _ _ _ h => ⟨h.1.grasps, t, h.2⟩).bind fun _ => pure_bind (hrest _)

theorem pageRule (start : Token) :
    Queues d (fun _ => Near) (Parser.pageRule block start) fun _ _ => Near := by
  unfold Parser.pageRule
  refine (matchSmart _).bind fun id => ?_
  extract_lets body page
  have hbody : ∀ pseudo, Queues d (fun _ => Near) (body pseudo) fun _ _ => Near := fun _ =>
    descriptorBlock hblock _ _ _ fun _ => BlockKind.noConfusion
  have hpage : Queues d (fun _ => Near) (page ()) fun _ _ => Near := by
    refine (plainPart (fun _ => Points.matchKinds_anyhow _) (Mute.compositional.matchKinds _)
      (Leads.matchKinds _)).bind fun colon => ite (fun _ => ?_) fun _ => pure_bind (hbody _)
    refine (plainPart (fun _ => (Points.mustMatch _).weaken fun _ _ _ _ _ => trivial)
      (Mute.compositional.mustMatch _) (Leads.mustMatch _).near).bind fun _ => pure_bind (hbody _)
  cases id with
  | none => exact hpage
  | some t =>
    exact ite (fun _ => failAt_bind) fun _ => hpage.of fun _ _ _ h => h.2.near

omit hblock in
theorem unknownRule (start : Token) :
    Queues d (fun _ => Near) (Parser.unknownRule start) fun _ _ => Near := by
  unfold Parser.unknownRule
  refine options_bind fun o hlax => ite (fun hstrict => ?_) fun _ => ?_
  · exact absurd (hlax.symm.trans hstrict) Bool.false_ne_true
  · exact (warn _ _).bind fun _ => plainPart (fun _ => Points.skipBroken false)
      (Mute.compositional.moveStream _) (Leads.skipBroken false)

end Blocks

end Queues

namespace InTurn

variable {d : Nat} {s : State} {start : Token} {block : BlockParser}

/-- **The at-rule `@scope`.** The complaint about its prelude may stray: the whole
rule is passed over from its name on. -/
theorem scopeRule (hblock : InTurnBlock d block) (hs : s.InOrder) (hat : s.stream.At start)
    (hkind : start.kind = .at) (hname : start.name = "scope")
    (hd : Text.byteLength s.stream.source < start.location.offset + d)
    (hn : s.Complained start.location.offset) :
    InTurn start.location.offset (Parser.scopeRule block start) s fun _ _ _ => True := by
  have hcut : start.IsCut s.stream.source :=
    Has.isCut (n := 0) ⟨hat.head, Nat.zero_le _⟩ hs.isSound.stream
  have hprelude := part hs hn (P := Anyhow) trivial (fun _ => Points.scopePrelude)
    Mute.compositional.scopePrelude (Leads.scopePrelude s hs hat.near)
  have hsame := Mute.compositional.scopePrelude.events s
  obtain ⟨hkeeps, herror, hok⟩ := hprelude
  unfold Parser.scopeRule
  refine of_ran (Parser.attempt_apply _ s) hkeeps ?_
  rcases hrun : Parser.scopePrelude s with ⟨e | r, s₁⟩ <;>
    rw [hrun] at hkeeps herror hok hsame <;> dsimp only
  · obtain ⟨loc, hloc, hle, -⟩ := herror e rfl
    have hplace : IsPlace s₁.stream.source start.stop := by
      rw [hkeeps.source_eq]
      exact hcut.stop_isPlace
    obtain ⟨hsound, hsource, hsought⟩ := Stream.isSound_seek hplace
    have h₂ := hkeeps.isSound.withStream hsound hsource
    have hstop : start.stop.offset ≤ (s₁.stream.seek start.stop).place.offset :=
      Nat.le_of_eq (congrArg Location.offset hsought).symm
    have hn₂ : ({ s₁ with stream := s₁.stream.seek start.stop } : State).Complained
        start.location.offset :=
      hn.of_keeps (hkeeps.trans h₂) hsame (Nat.le_trans hcut.location_le_stop hstop)
    refine of_ran rfl h₂ (adjust_bind h₂.isSound ⟨rfl, rfl, rfl, rfl, rfl, rfl⟩ hn₂
      fun h₃ hn₃ => options_bind hn₃ fun hlax => ite (fun hstrict => ?_) fun _ => ?_)
    · exact absurd (hlax.symm.trans hstrict) Bool.false_ne_true
    · have hstrays : e.Strays (s₁.stream.seek start.stop).source start.stop.offset := by
        rw [hsource, hkeeps.source_eq]
        exact ⟨start, s, hcut, hkind, hname, Nat.le_refl _, hs.isSound, rfl, hat, by rw [hrun]⟩
      exact ((recover h₃.isSound hn₃ hloc hle hcut.location_le_stop hstop (Or.inr hstrays)
        false).lower hcut.location_le_stop).weaken fun _ _ _ _ _ _ _ => trivial
  · obtain ⟨m, -, hn₁, hm, hbeyond, hs₁, hfresh⟩ := hok r rfl
    obtain rfl := hm
    rcases r with ⟨first, last⟩
    refine adjust_bind hs₁.isSound ⟨rfl, rfl, rfl, rfl, rfl, rfl⟩ hn₁ fun h₂ hn₂ => ?_
    have hs₂ := hs₁.of_eq h₂.isSound rfl rfl rfl rfl
    have hbody := Queues.plainBlock hblock start.location
      { event := some (.scope first last), opened := true }
      (fun _ h => BlockKind.noConfusion (Option.some.inj h)) _ _ hs₂
      (by rw [h₂.source_eq, hkeeps.source_eq]; exact hd) hn₂ ⟨hfresh.near, fun _ => hbeyond⟩
    refine hbody.attempt_bind (fun stop m s₃ _ h₃ _ hn₃ _ => ?_) fun e loc s₃ _ h₃ hloc _ hn₃ => ?_
    · exact adjust_bind h₃.isSound ⟨rfl, rfl, rfl, rfl, rfl, rfl⟩ hn₃ fun h₄ hn₄ =>
        discard (pure h₄.isSound hn₄ trivial)
    · exact adjust_bind h₃.isSound ⟨rfl, rfl, rfl, rfl, rfl, rfl⟩ hn₃ fun h₄ hn₄ =>
        discard (throw h₄.isSound hloc (Nat.le_refl _) hn₄)

theorem namedRule (hblock : InTurnBlock d block) (hs : s.InOrder) (hat : s.stream.At start)
    (hkind : start.kind = .at) (hd : Text.byteLength s.stream.source < start.location.offset + d)
    (hn : s.Complained start.location.offset) :
    InTurn start.location.offset (Parser.namedRule block start) s fun _ _ _ => True := by
  have hqueues : ∀ {p : Parser Unit} {Q : Unit → Nat → Stream → Prop},
      Queues d (fun _ => Near) p Q → InTurn start.location.offset p s fun _ _ _ => True :=
    fun hp => (hp s _ hs hd hn hat.near).weaken fun _ _ _ _ _ _ _ => trivial
  have hnamed : ∀ (scope : String) {kind : String → BlockKind} (margins : Bool),
      (∀ name selectors, kind name ≠ .rule selectors) → Queues d (fun _ => Near) (do
        Parser.descriptorBlock block start scope (kind (← Parser.ruleName)) margins)
        fun _ _ => Near := fun _ _ _ hkind =>
    (Queues.plainPart (fun _ => Points.ruleName) Mute.compositional.ruleName
      Leads.ruleName.near).bind fun name => Queues.descriptorBlock hblock _ _ _ (hkind name)
  unfold Parser.namedRule
  split
  · exact hqueues (Queues.plainPart (fun _ => Points.charsetRule start)
      (Mute.compositional.charsetRule start) (Leads.charsetRule start))
  · exact hqueues (Queues.containerRule hblock start)
  · exact hqueues (hnamed _ _ fun _ _ => BlockKind.noConfusion)
  · exact hqueues (Queues.documentRule hblock start)
  · exact hqueues (Queues.descriptorBlock hblock _ _ _ fun _ => BlockKind.noConfusion)
  · exact hqueues (hnamed _ _ fun _ _ => BlockKind.noConfusion)
  · exact hqueues (Queues.importRule start)
  · exact hqueues (Queues.keyframesRule hblock start)
  · exact hqueues (Queues.layerRule hblock start)
  · exact hqueues ((Queues.mediaQueries (fun _ _ => id) fun h => (by cases h)).bind fun _ =>
      Queues.ruleBlock hblock _ fun _ => BlockKind.noConfusion)
  · exact hqueues (Queues.plainPart (fun _ => Points.namespaceRule start)
      (Mute.compositional.namespaceRule start) (Leads.namespaceRule start))
  · exact hqueues (Queues.pageRule hblock start)
  · exact hqueues (hnamed _ _ fun _ _ => BlockKind.noConfusion)
  · next hname => exact scopeRule hblock hs hat hkind hname hd hn
  · exact hqueues (Queues.descriptorBlock hblock _ _ _ fun _ => BlockKind.noConfusion)
  · exact hqueues ((Queues.condition _).bind fun _ =>
      Queues.ruleBlock hblock _ fun _ => BlockKind.noConfusion)
  · exact hqueues (Queues.unknownRule start)

/-- **An at-rule**, whose name is at hand. -/
theorem atRule (hblock : InTurnBlock d block) (hs : s.InOrder) (hat : s.stream.At start)
    (hkind : start.kind = .at) (hd : Text.byteLength s.stream.source < start.location.offset + d)
    (hn : s.Complained start.location.offset) (top : Bool) :
    InTurn start.location.offset (Parser.atRule block start top) s fun _ _ _ => True := by
  unfold Parser.atRule
  refine options_bind hn fun _ => ite (fun _ => ?_) fun _ =>
    namedRule hblock hs hat hkind hd hn
  exact (read (P := Anyhow) hs.isSound hn trivial (fun _ => Points.skipBroken false)
    (Mute.compositional.moveStream _)).weaken fun _ _ _ _ _ _ _ => trivial

end InTurn

end Stylesheet
