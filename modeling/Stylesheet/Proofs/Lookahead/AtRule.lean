import Stylesheet.Parse.AtRule
import Stylesheet.Proofs.Lookahead.Condition

/-!
# Looking ahead in at-rules

An at-rule starts with its name at hand, and what it leaves is at most one
token ahead. So does most of what it is made of, and all that has to be said
of a part is from which kind of window to which it leads.
-/

namespace Stylesheet

open Parse (State)
open Parse.State (Keeps)
open Stylesheet.Stream (Between EndsLast Fresh Near)

/-- **A parser that leads from one kind of window to another.** -/
def Leads {α : Type} (P Q : Stream → Prop) (p : Parser α) : Prop :=
  ∀ s : State, s.InOrder → P s.stream → Orderly p s fun _ s' => Q s'.stream

/-- **A reader of blocks that is orderly**: if the block is that of a rule,
its selectors were read in order. -/
def OrderlyBlock (block : BlockParser) : Prop :=
  ∀ (start : Location) (shape : BlockShape) {s : State}, s.InOrder → s.stream.Near →
    (∀ selectors, shape.event = some (.rule selectors) →
      ∀ selector ∈ selectors, selector.IsRead s.options s.stream.source) →
    Orderly (block start shape) s fun _ s' => s'.stream.Fresh

namespace Leads

variable {α β σ : Type} {P Q R : Stream → Prop} {p q : Parser α} {f : α → Parser β}

/-! ## Constructs -/

theorem weaken (h : Leads P Q p) (hQ : ∀ st, Q st → R st) : Leads P R p :=
  fun _ hs hP => (h _ hs hP).weaken fun _ _ _ => hQ _

theorem of (h : Leads P Q p) (hP : ∀ st, R st → P st) : Leads R Q p :=
  fun _ hs hR => h _ hs (hP _ hR)

theorem pure (a : α) : Leads P P (Pure.pure a) := fun _ hs hP => Orderly.pure hs hP

theorem bind (hp : Leads P Q p) (hf : ∀ a, Leads Q R (f a)) : Leads P R (p >>= f) :=
  fun _ hs hP => (hp _ hs hP).bind fun a _ _ hs₁ hQ => hf a _ hs₁ hQ

theorem pure_bind {a : α} (h : Leads P Q (f a)) : Leads P Q (Pure.pure a >>= f) :=
  fun _ hs hP => Orderly.pure_bind (h _ hs hP)

theorem ite {c : Prop} [Decidable c] (hpos : c → Leads P Q p) (hneg : ¬c → Leads P Q q) :
    Leads P Q (if c then p else q) :=
  fun _ hs hP => Orderly.ite (fun hc => hpos hc _ hs hP) fun hc => hneg hc _ hs hP

theorem discard (h : Leads P Q p) : Leads P Q (Functor.discard p) :=
  fun _ hs hP => Orderly.discard (h _ hs hP)

theorem state_bind {f : State → Parser β} (h : ∀ s, Leads P Q (f s)) :
    Leads P Q (Parser.state >>= f) := fun _ hs hP => Orderly.state_bind (h _ _ hs hP)

theorem options_bind {f : Options → Parser β} (h : ∀ o, Leads P Q (f o)) :
    Leads P Q (Parser.options >>= f) := fun _ hs hP => Orderly.options_bind (h _ _ hs hP)

/-- **A step over and over**, where a round leads to where the next one can
start. -/
theorem repeating {step : σ → Parser (ForInStep σ)} (h : ∀ a, Leads P Q (step a))
    (hQ : ∀ st, Q st → P st) (a : σ) : Leads P Q (Parser.repeating a step) := by
  intro s hs hP
  have hstep : ∀ a {s₁ : State}, s₁.InOrder → P s₁.stream → Orderly (step a) s₁
      (Orderly.Turn (fun _ s' => Q s'.stream) fun _ s' => Q s'.stream) := by
    refine fun a {s₁} hs₁ hP₁ => (h a _ hs₁ hP₁).weaken ?_
    rintro (_ | _) s' _ hQ' <;> exact hQ'
  exact Orderly.repeating_first (I := fun _ s' => Q s'.stream) (Q := fun _ s' => Q s'.stream) hs
    (hstep a hs hP) (fun a s₁ _ hs₁ hQ₁ => hstep a hs₁ (hQ _ hQ₁)) fun _ _ => id

/-! ## Tokens and events -/

theorem grab : Leads Near Fresh Parser.grab :=
  fun _ hs hnear => (Orderly.grab hs hnear).weaken fun t _ _ ht => ⟨t, ht.1⟩

theorem failAt {t : Token} {expected : String} :
    Leads Near Q (Parser.failAt expected t : Parser α) :=
  fun _ hs hnear => Orderly.failAt hs hnear.ready

theorem failAt_bind {t : Token} {expected : String} :
    Leads Near Q ((Parser.failAt expected t : Parser α) >>= f) :=
  fun _ hs hnear => Orderly.failAt_bind hs hnear.ready

/-- What a request leaves. -/
theorem near_of_found {st st' : Stream} {accepted : Token → Prop} {r : Option Token}
    (h : Orderly.Found st accepted r st') : st'.Near := by
  cases r with
  | none => exact h.1
  | some t => exact Stream.At.near h.1

theorem matchKinds (kinds : List TokenKind) : Leads Near Near (Parser.matchKinds kinds) :=
  fun _ hs hnear => (Orderly.matchKinds hs hnear kinds).weaken fun _ _ _ => near_of_found

theorem matchSmart (kinds : List TokenKind) : Leads Near Near (Parser.matchSmart kinds) :=
  fun _ hs hnear => (Orderly.matchSmart hs hnear kinds).weaken fun _ _ _ => near_of_found

theorem mustMatch (kinds : List TokenKind) : Leads Near Fresh (Parser.mustMatch kinds) :=
  fun _ hs hnear => (Orderly.mustMatch hs hnear kinds).weaken fun t _ _ ht => ⟨t, ht.1⟩

theorem mustMatchSmart (kinds : List TokenKind) : Leads Near Fresh (Parser.mustMatchSmart kinds) :=
  fun _ hs hnear => (Orderly.mustMatchSmart hs hnear kinds).weaken fun t _ _ ht => ⟨t, ht.1⟩

theorem mustReuse (kinds : List TokenKind) : Leads Fresh Fresh (Parser.mustReuse kinds) :=
  fun _ hs ⟨t, ht⟩ => (Orderly.mustReuse_at hs ht kinds).weaken fun _ _ _ h => ⟨t, h.1 ▸ ht⟩

theorem unget : Leads Fresh Near Parser.unget :=
  fun _ hs ⟨_, ht⟩ => (Orderly.unget hs ht.held).weaken fun _ _ _ hback => hback ▸ ht.near_back

theorem skipBroken (inBlock : Bool) :
    Leads Near Near (Parser.moveStream (·.skipBroken inBlock)) :=
  fun _ hs hnear => Orderly.skipBroken hs hnear.endsLast inBlock

/-- **Reporting an event** about which nothing has to be said. -/
theorem fire {kind : EventKind} {location : Location} (hinner : Event.IsInner ⟨kind, location⟩)
    (hevent : ∀ o source, Event.IsOrderly o source ⟨kind, location⟩) :
    Leads P P (Parser.fire kind location) := fun _ hs hP =>
  (Orderly.fire hs hinner (hevent _ _)).weaken fun _ _ _ hstream => hstream ▸ hP

theorem warn (message : String) (location : Location) : Leads P P (Parser.warn message location) :=
  fun _ hs hP => (Orderly.warn hs).weaken fun _ _ _ hstream => hstream ▸ hP

theorem near (h : Leads P Fresh p) : Leads P Near p := h.weaken fun _ => Fresh.near

variable {block : BlockParser}

/-! ## Blocks of at-rules -/

/-- A block that is none of a rule. -/
theorem plainBlock (hblock : OrderlyBlock block) (start : Location) (shape : BlockShape)
    (hshape : ∀ selectors, shape.event ≠ some (.rule selectors)) :
    Leads Near Fresh (block start shape) :=
  fun _ hs hnear => hblock start shape hs hnear fun selectors h => absurd h (hshape selectors)

theorem descriptorBlock (hblock : OrderlyBlock block) (start : Token) (scope : String)
    {kind : BlockKind} (margins : Bool) (hkind : ∀ selectors, kind ≠ .rule selectors) :
    Leads Near Fresh (Parser.descriptorBlock block start scope kind margins) :=
  discard (plainBlock hblock _ _ fun selectors h => hkind selectors (Option.some.inj h))

theorem ruleBlock (hblock : OrderlyBlock block) (start : Token) {kind : BlockKind}
    (hkind : ∀ selectors, kind ≠ .rule selectors) :
    Leads Near Fresh (Parser.ruleBlock block start kind) :=
  discard (plainBlock hblock _ _ fun selectors h => hkind selectors (Option.some.inj h))

theorem ruleName : Leads Near Fresh Parser.ruleName := (mustMatchSmart _).bind fun _ => pure _

/-! ## Statements -/

theorem charsetRule (start : Token) : Leads Near Fresh (Parser.charsetRule start) := by
  unfold Parser.charsetRule
  refine (mustMatchSmart _).near.bind fun _ => (mustMatchSmart _).discard.bind fun _ => ?_
  exact fire ⟨EventKind.noConfusion, EventKind.noConfusion⟩ fun _ _ => trivial

theorem namespaceRule (start : Token) : Leads Near Fresh (Parser.namespaceRule start) := by
  unfold Parser.namespaceRule
  refine (matchSmart _).bind fun _ => (mustMatchSmart _).near.bind fun _ =>
    (mustMatchSmart _).discard.bind fun _ => ?_
  exact fire ⟨EventKind.noConfusion, EventKind.noConfusion⟩ fun _ _ => trivial

theorem layerNameStep (sofar : String × Option Token) :
    Leads Near Near (Parser.layerNameStep sofar) := by
  obtain ⟨name, _ | t⟩ := sofar
  · exact pure _
  · unfold Parser.layerNameStep
    exact (matchKinds _).bind fun _ => ite (fun _ => pure _) fun _ =>
      (matchKinds _).bind fun _ => pure _

theorem layerName (first : Option Token) : Leads Near Near (Parser.layerName first) := by
  unfold Parser.layerName
  extract_lets rest
  have hrest : ∀ first, Leads Near Near (rest first) := fun first =>
    (repeating layerNameStep (fun _ => id) _).bind fun _ => pure _
  cases first with
  | some t => exact pure_bind (hrest _)
  | none => exact (matchSmart _).bind fun _ => hrest _

theorem importLayer : Leads Near Fresh Parser.importLayer := by
  unfold Parser.importLayer
  refine grab.bind fun t => ite (fun _ => ?_) fun _ => ite (fun _ => ?_) fun _ => pure _
  · refine ((layerName none).of fun _ => Fresh.near).bind fun _ =>
      (mustMatchSmart _).near.discard.bind fun _ => grab.bind fun _ => pure _
  · exact (grab.of fun _ => Fresh.near).bind fun _ => pure _

/-- Media queries, whose first token may have been read already. -/
theorem mediaQueries {reuse : Bool} (h : ∀ st, P st → st.Near)
    (hreuse : reuse = true → ∀ st, P st → st.Fresh) : Leads P Near (Parser.mediaQueries reuse) :=
  fun _ hs hP => Orderly.mediaQueries hs reuse (h _ hP) fun htrue => hreuse htrue _ hP

theorem importRule (start : Token) : Leads Near Fresh (Parser.importRule start) := by
  unfold Parser.importRule
  refine (mustMatchSmart _).near.bind fun uri => importLayer.bind fun found => ?_
  rcases found with ⟨layer, t⟩
  dsimp only
  generalize (t.kind == .function && t.name == "supports") = conditional
  have hend : ∀ queries : List MediaQuery, Leads Near Fresh (do
      Functor.discard (Parser.mustMatchSmart [.semicolon])
      Parser.fire (.import_ (Parser.addressOf uri) layer queries) start.location) := fun _ =>
    (mustMatchSmart _).discard.bind fun _ =>
      fire ⟨EventKind.noConfusion, EventKind.noConfusion⟩ fun _ _ => trivial
  cases conditional with
  | true =>
    have hcondition : Leads Fresh Near
        (Parser.conditionInParens .supports (some (Parser.openParen t))) := fun _ hs hfresh =>
      (Orderly.conditionInParens hs hfresh.near _).weaken fun _ _ _ hbetween => hbetween.1
    exact hcondition.bind fun _ =>
      (mediaQueries (fun _ => id) fun h => (by cases h)).bind hend
  | false => exact (mediaQueries (fun _ => Fresh.near) fun _ _ => id).bind hend

/-! ## Layers and scopes -/

theorem layerStep (hblock : OrderlyBlock block) (start : Token) (sofar : List String × Bool) :
    Leads Near Fresh (Parser.layerStep block start sofar) := by
  unfold Parser.layerStep
  refine grab.bind fun t => ?_
  extract_lets found
  have hfound : ∀ r, Leads Fresh Fresh (found r) := by
    rintro ⟨ids, t⟩
    refine ite (fun _ => ?_) fun _ => ite (fun _ => pure _) fun _ => pure _
    have hbody : Leads Fresh Fresh (do
        Functor.discard (block start.location
          { event := some (.layer ids.reverse.head?), opened := true })
        return ForInStep.done (ids, true)) :=
      ((plainBlock hblock _ _ fun _ h => BlockKind.noConfusion (Option.some.inj h)).discard.of
        fun _ => Fresh.near).bind fun _ => pure _
    exact ite (fun _ => (warn _ _).bind fun _ => hbody) fun _ => hbody
  refine ite (fun _ => ?_) fun _ => pure_bind (hfound (sofar.1, t))
  exact ((layerName _).of fun _ => Fresh.near).bind fun name => grab.bind fun t =>
    pure_bind (hfound (name :: sofar.1, t))

theorem layerRule (hblock : OrderlyBlock block) (start : Token) :
    Leads Near Fresh (Parser.layerRule block start) := by
  unfold Parser.layerRule
  refine (repeating (layerStep hblock start) (fun _ => Fresh.near) _).bind fun r => ?_
  rcases r with ⟨ids, blockSeen⟩
  refine ite (fun _ => pure _) fun _ => (mustReuse _).discard.bind fun _ => ?_
  exact fire ⟨EventKind.noConfusion, EventKind.noConfusion⟩ fun _ _ => trivial

theorem scopeSelectors : Leads Near Fresh Parser.scopeSelectors := by
  intro s hs hnear
  unfold Parser.scopeSelectors
  have hstart : Orderly.GroupStart none s := hnear
  refine (Orderly.selectorGroup none _ _ hs hstart).bind fun r s₁ _ hs₁ ⟨u, hu⟩ => ?_
  exact (Orderly.reuse_front hs₁ hu (by decide)).bind fun _ s₂ _ hs₂ hat =>
    Orderly.pure hs₂ ⟨u, hat⟩

theorem scopePrelude : Leads Near Fresh Parser.scopePrelude := by
  unfold Parser.scopePrelude
  refine grab.bind fun t => ?_
  extract_lets found
  have hfound : ∀ r, Leads Fresh Fresh (found r) := by
    rintro ⟨first, t⟩
    have hlast : ∀ last : Option (List Selector), Leads Fresh Fresh (do
        Functor.discard (Parser.mustReuse [.lBrace])
        return (first, last)) := fun _ => (mustReuse _).discard.bind fun _ => pure _
    refine ite (fun _ => ?_) fun _ => pure_bind (hlast _)
    exact ((mustMatchSmart _).near.discard.of fun _ => Fresh.near).bind fun _ =>
      scopeSelectors.bind fun _ => (grab.of fun _ => Fresh.near).discard.bind fun _ =>
        pure_bind (hlast _)
  refine ite (fun _ => ?_) fun _ => pure_bind (hfound (none, t))
  exact (scopeSelectors.of fun _ => Fresh.near).bind fun first =>
    (grab.of fun _ => Fresh.near).bind fun t => pure_bind (hfound (first, t))

/-! ## Documents -/

theorem documentStep (start : Token) (functions : List String) :
    Leads Near Near (Parser.documentStep start functions) := by
  unfold Parser.documentStep
  extract_lets rest same
  have hrest : ∀ functions, Leads Near Near (rest functions) := fun _ =>
    (matchSmart _).bind fun _ => pure _
  refine (matchSmart _).bind fun found => ?_
  cases found with
  | none =>
    refine options_bind fun _ => ite (fun _ => pure_bind (hrest _)) fun _ => ?_
    exact (warn _ _).bind fun _ => pure_bind (hrest _)
  | some t =>
    refine ite (fun _ => pure_bind (hrest _)) fun _ => ite (fun _ => ?_) fun _ => ?_
    · have hfunction : Leads Near Near (Parser.function t false) := fun _ hs hnear =>
        (Orderly.function hs hnear t false).weaken fun _ _ _ hclosed => hclosed.fresh.near
      refine hfunction.bind fun part => ite (fun _ => pure_bind (hrest _)) fun _ => ?_
      exact (warn _ _).bind fun _ => pure_bind (hrest _)
    · exact (warn _ _).bind fun _ => pure_bind (hrest _)

theorem documentBody (hblock : OrderlyBlock block) (start : Token) :
    Leads Near Fresh (Parser.documentBody block start) := by
  unfold Parser.documentBody
  refine options_bind fun _ => ite (fun _ => ?_) fun _ => plainBlock hblock _ _ fun _ h => ?_
  · exact (skipBroken true).bind fun _ => (mustMatchSmart _).bind fun _ => pure _
  · cases h

theorem documentRule (hblock : OrderlyBlock block) (start : Token) :
    Leads Near Fresh (Parser.documentRule block start) := by
  unfold Parser.documentRule
  refine state_bind fun _ => ?_
  extract_lets rest
  have hrest : Leads Near Fresh (rest ()) := by
    refine (repeating (documentStep start) (fun _ => id) _).bind fun functions => ?_
    refine (mustMatchSmart _).near.discard.bind fun _ => ?_
    refine Leads.bind (Q := Near)
      (fire ⟨EventKind.noConfusion, EventKind.noConfusion⟩ fun _ _ => trivial) fun _ => ?_
    refine (documentBody hblock start).bind fun stop => ?_
    exact fire ⟨EventKind.noConfusion, EventKind.noConfusion⟩ fun _ _ => trivial
  exact ite (fun _ => (warn _ _).bind fun _ => hrest) fun _ => hrest

/-! ## Keyframes -/

theorem keyStep (sofar : Parser.KeysSoFar) : Leads Near Fresh (Parser.keyStep sofar) := by
  unfold Parser.keyStep
  refine grab.bind fun t => ite (fun _ => ?_) fun _ => ite (fun _ => pure _) fun _ => ?_
  · exact (grab.of fun _ => Fresh.near).bind fun _ => pure _
  · exact failAt.of fun _ => Fresh.near

theorem keyframeStep (hblock : OrderlyBlock block) (sofar : Bool × Token) :
    Leads Near Fresh (Parser.keyframeStep block sofar) := by
  unfold Parser.keyframeStep
  refine (repeating keyStep (fun _ => Fresh.near) _).bind fun head => ?_
  cases head.first with
  | none => exact pure _
  | some loc =>
    have hbody : ∀ opened : Bool, Leads Near Fresh (do
        Functor.discard (block loc { event := some (.keyframeRule head.keys.reverse),
                                     opened := opened, declarations := true })
        return ForInStep.yield (true, head.last)) := fun _ =>
      (plainBlock hblock _ _ fun _ h => BlockKind.noConfusion (Option.some.inj h)).discard.bind
        fun _ => pure _
    exact ite (fun _ => (hbody _).of fun _ => Fresh.near) fun _ => unget.bind fun _ => hbody _

theorem keyframesRule (hblock : OrderlyBlock block) (start : Token) :
    Leads Near Fresh (Parser.keyframesRule block start) := by
  unfold Parser.keyframesRule
  refine (mustMatchSmart _).near.bind fun name => (mustMatchSmart _).near.discard.bind fun _ => ?_
  refine Leads.bind (fire ⟨EventKind.noConfusion, EventKind.noConfusion⟩ fun _ _ => trivial)
    fun _ => ?_
  refine (repeating (keyframeStep hblock) (fun _ => Fresh.near) _).bind fun r => ?_
  have hend : ∀ close : Token, Leads Fresh Fresh (Parser.fire
      (.stop (BlockKind.keyframes name.name start.vendor) !r.1) close.location) := fun _ =>
    fire ⟨EventKind.noConfusion, EventKind.noConfusion⟩ fun _ _ => trivial
  exact ite (fun _ => pure_bind (hend _)) fun _ =>
    ((mustMatchSmart _).of fun _ => Fresh.near).bind hend

/-! ## The other at-rules -/

theorem condition (kind : ConditionKind) : Leads Near Near (Parser.condition kind) :=
  fun _ hs hnear => (Orderly.condition hs hnear).weaken fun _ _ _ hbetween => hbetween.1

theorem containerRule (hblock : OrderlyBlock block) (start : Token) :
    Leads Near Fresh (Parser.containerRule block start) := by
  intro s hs hnear
  unfold Parser.containerRule
  extract_lets rest
  have hrest : ∀ name, Leads Near Fresh (rest name) := fun name =>
    (condition _).bind fun _ => ruleBlock hblock start fun _ => BlockKind.noConfusion
  refine (Orderly.matchSmart hs hnear _).bind fun found s₁ _ hs₁ hfound => ?_
  cases found with
  | none => exact Orderly.pure_bind (hrest _ _ hs₁ hfound.1)
  | some t =>
    have hat : s₁.stream.At t := hfound.1
    have hkeyword : Leads Fresh Fresh (do
        Parser.unget
        let name ← Pure.pure none
        rest name) := unget.bind fun _ => pure_bind (hrest _)
    exact Orderly.ite (fun _ => hkeyword _ hs₁ ⟨t, hat⟩) fun _ =>
      Orderly.pure_bind (hrest _ _ hs₁ hat.near)

theorem pageRule (hblock : OrderlyBlock block) (start : Token) :
    Leads Near Fresh (Parser.pageRule block start) := by
  unfold Parser.pageRule
  refine (matchSmart _).bind fun id => ?_
  extract_lets body page
  have hbody : ∀ pseudo, Leads Near Fresh (body pseudo) := fun _ =>
    descriptorBlock hblock _ _ _ fun _ => BlockKind.noConfusion
  have hpage : Leads Near Fresh (page ()) := by
    refine (matchKinds _).bind fun colon => ite (fun _ => ?_) fun _ => pure_bind (hbody _)
    exact (mustMatch _).near.bind fun _ => pure_bind (hbody _)
  cases id with
  | none => exact hpage
  | some t => exact ite (fun _ => failAt_bind) fun _ => hpage

theorem unknownRule (start : Token) : Leads Near Near (Parser.unknownRule start) := by
  intro s hs hnear
  unfold Parser.unknownRule
  refine Orderly.options_bind (Orderly.ite (fun _ => ?_) fun _ => ?_)
  · refine Orderly.throw_bind hs (Diagnostic.not_isExhausted ?_) fun _ => hnear.ready
    dsimp only [Diagnostic.at_]
    rw [head?_append_of_head? (c := 'U') rfl]
    decide
  · exact ((warn _ _).bind fun _ => skipBroken false) s hs hnear

end Leads

namespace Orderly

variable {s : State} {start : Token} {block : BlockParser}

theorem scopeRule (hblock : OrderlyBlock block) (hs : s.InOrder) (hnear : s.stream.Near)
    (hstart : start.IsCut s.stream.source) :
    Orderly (Parser.scopeRule block start) s fun _ s' => s'.stream.Near := by
  unfold Parser.scopeRule
  refine (Leads.scopePrelude s hs hnear).attempt_bind (fun r s₁ _ hs₁ hfresh => ?_)
    fun e s₁ h₁ hs₁ he _ => ?_
  · rcases r with ⟨first, last⟩
    refine (adjust hs₁ ⟨rfl, rfl, rfl, rfl, rfl, rfl⟩).bind fun _ s₂ _ hs₂ hstream => ?_
    have hnear₂ : s₂.stream.Near := hstream ▸ hfresh.near
    have hbody := Leads.plainBlock hblock start.location
      { event := some (.scope first last), opened := true }
      (fun _ h => BlockKind.noConfusion (Option.some.inj h)) s₂ hs₂ hnear₂
    refine hbody.attempt_bind (fun stop s₃ _ hs₃ hfresh₃ => ?_) fun e s₃ _ hs₃ he hready => ?_
    · refine (adjust hs₃ ⟨rfl, rfl, rfl, rfl, rfl, rfl⟩).bind fun _ s₄ _ hs₄ hstream₄ => ?_
      exact discard (pure hs₄ (hstream₄ ▸ hfresh₃.near))
    · refine (adjust hs₃ ⟨rfl, rfl, rfl, rfl, rfl, rfl⟩).bind fun _ s₄ h₄ hs₄ hstream₄ => ?_
      exact discard (throw hs₄ he fun hstrict => hstream₄ ▸ hready (h₄.options_eq ▸ hstrict))
  · have hplace : IsPlace s₁.stream.source start.stop := by
      rw [h₁.source_eq]
      exact hstart.stop_isPlace
    refine (seek hs₁ hplace).bind fun _ s₂ _ hs₂ hsought => ?_
    refine (setPair hs₂ none).bind fun _ s₃ _ hs₃ hstream => ?_
    have hnear₃ : s₃.stream.Near := by
      rw [hstream, hsought]
      exact Nat.zero_le 1
    exact options_bind (ite (fun _ => throw_bind hs₃ he fun _ => hnear₃.ready) fun hstrict =>
      recover hs₃ (Bool.eq_false_iff.mpr hstrict) hnear₃.endsLast he false)

theorem namedRule (hblock : OrderlyBlock block) (hs : s.InOrder) (hnear : s.stream.Near)
    (hstart : start.IsCut s.stream.source) :
    Orderly (Parser.namedRule block start) s fun _ s' => s'.stream.Near := by
  have hleads : ∀ {p : Parser Unit}, Leads Near Near p →
      Orderly p s fun _ s' => s'.stream.Near := fun hp => hp s hs hnear
  have hnamed : ∀ (scope : String) {kind : String → BlockKind} (margins : Bool),
      (∀ name selectors, kind name ≠ .rule selectors) → Leads Near Near (do
        Parser.descriptorBlock block start scope (kind (← Parser.ruleName)) margins) :=
    fun _ _ _ hkind => Leads.ruleName.near.bind fun name =>
      (Leads.descriptorBlock hblock _ _ _ (hkind name)).near
  unfold Parser.namedRule
  split
  · exact hleads (Leads.charsetRule start).near
  · exact hleads (Leads.containerRule hblock start).near
  · exact hleads (hnamed _ _ fun _ _ => BlockKind.noConfusion)
  · exact hleads (Leads.documentRule hblock start).near
  · exact hleads (Leads.descriptorBlock hblock _ _ _ fun _ => BlockKind.noConfusion).near
  · exact hleads (hnamed _ _ fun _ _ => BlockKind.noConfusion)
  · exact hleads (Leads.importRule start).near
  · exact hleads (Leads.keyframesRule hblock start).near
  · exact hleads (Leads.layerRule hblock start).near
  · exact hleads ((Leads.mediaQueries (fun _ => id) fun h => (by cases h)).bind fun _ =>
      (Leads.ruleBlock hblock _ fun _ => BlockKind.noConfusion).near)
  · exact hleads (Leads.namespaceRule start).near
  · exact hleads (Leads.pageRule hblock start).near
  · exact hleads (hnamed _ _ fun _ _ => BlockKind.noConfusion)
  · exact scopeRule hblock hs hnear hstart
  · exact hleads (Leads.descriptorBlock hblock _ _ _ fun _ => BlockKind.noConfusion).near
  · exact hleads ((Leads.condition _).bind fun _ =>
      (Leads.ruleBlock hblock _ fun _ => BlockKind.noConfusion).near)
  · exact hleads (Leads.unknownRule start)

theorem atRule (hblock : OrderlyBlock block) (hs : s.InOrder) (hnear : s.stream.Near)
    (hstart : start.IsCut s.stream.source) (top : Bool) :
    Orderly (Parser.atRule block start top) s fun _ s' => s'.stream.Near := by
  unfold Parser.atRule
  exact options_bind (ite (fun _ => skipBroken hs hnear.endsLast false) fun _ =>
    namedRule hblock hs hnear hstart)

end Orderly

end Stylesheet
