import Stylesheet.Proofs.Completion
import Stylesheet.Proofs.Lookahead.AtRule

/-!
# Looking ahead in rules and blocks

An item of a block is read from its first token, and if it turns out to be
none the next one starts with the token at hand. A broken item, or a broken
rule, is passed over as far as its end, which is why no token may be ahead
that comes after the end of an item.
-/

namespace Stylesheet

open Parse (State)
open Parse.State (Keeps)
open Stylesheet.Stream (EndsLast Fresh Front HeadEnd IsElementName Near Ready Stopped looksOn)
open Stylesheet.Parser

/-- The first of two parsers ran if both did. -/
theorem Parser.of_bind_ok {α β : Type} {p : Parser α} {f : α → Parser β} {s s' : State} {b : β}
    (h : (p >>= f) s = (.ok b, s')) : ∃ a s₁, p s = (.ok a, s₁) ∧ f a s₁ = (.ok b, s') := by
  rcases hp : p s with ⟨e | a, s₁⟩
  · rw [bind_error hp] at h
    cases h
  · rw [bind_ok hp] at h
    exact ⟨a, s₁, rfl, h⟩

/-- **A round of a block** that is the last one only if it has found what ends
the block. -/
def Parser.EndsClosed (p : Parser (ForInStep BlockSoFar)) : Prop :=
  ∀ s sofar s', p s = (.ok (.done sofar), s') → sofar.close.isSome = true

/-- No item of a block is its last round. -/
theorem Parser.blockItemStep_endsClosed (block : BlockParser) (shape : BlockShape)
    (sofar : BlockSoFar) (t : Token) :
    EndsClosed (Parser.blockItemStep block shape sofar t) := by
  intro s sofar' s' h
  unfold Parser.blockItemStep at h
  dsimp only at h
  split_ifs at h
  · obtain ⟨_, _, hfail, -⟩ := of_bind_ok h
    cases hfail
  · obtain ⟨r, s₁, -, h⟩ := of_bind_ok h
    cases r with
    | ok content => cases h
    | error e =>
      obtain ⟨o, s₂, -, h⟩ := of_bind_ok h
      split_ifs at h
      · obtain ⟨_, _, hthrow, -⟩ := of_bind_ok h
        cases hthrow
      · obtain ⟨_, _, -, h⟩ := of_bind_ok h
        cases h

/-- **The last round of a block** has found what ends it. -/
theorem Parser.blockStep_endsClosed (block : BlockParser) (shape : BlockShape) (toEnd : Bool)
    (sofar : BlockSoFar) :
    EndsClosed (Parser.blockStep block shape toEnd sofar) := by
  have hdone : ∀ t : Token,
      EndsClosed (Pure.pure (.done { sofar with close := some t })) := by
    intro t s sofar' s' h
    cases h
    rfl
  have hyield : ∀ sofar, EndsClosed (Pure.pure (.yield sofar)) := fun _ _ _ _ h => by cases h
  have hround : ∀ p : Token → Parser (ForInStep BlockSoFar), (∀ t, EndsClosed (p t)) →
      EndsClosed (Parser.next true false >>= p) := by
    intro p hp s sofar' s' h
    obtain ⟨t, s₁, -, h⟩ := of_bind_ok h
    exact hp t s₁ sofar' s' h
  refine hround _ fun t => ?_
  split
  · split_ifs
    · exact hdone t
    · exact fun _ _ _ h => by cases h
  · exact hyield _
  · exact hyield _
  · split_ifs
    · exact hdone t
    · exact blockItemStep_endsClosed block shape sofar t

namespace Orderly

variable {s : State} {t : Token} {block : BlockParser} {E : Stream → Prop}

/-! ## Style rules -/

theorem remembered (hs : s.InOrder) (loc : Location) :
    Orderly (Parser.remembered loc) s (fun r s' => r = none ∧ s' = s) E := by
  have hrun : Parser.remembered loc s = (.ok none, s) := by
    show (Except.ok _, _) = _
    rw [hs.isSound.store]
  exact of_eq (q := Pure.pure none) hrun (Keeps.refl hs.isSound) (pure hs ⟨rfl, rfl⟩)

theorem openInStore (hs : s.InOrder) (start : Location) :
    Orderly (Parser.openInStore start) s (fun r s' => r = none ∧ s' = s) E := by
  have hrun : Parser.openInStore start s = (.ok none, s) := by
    show (Except.ok _, _) = _
    rw [hs.isSound.store]
  exact of_eq (q := Pure.pure none) hrun (Keeps.refl hs.isSound) (pure hs ⟨rfl, rfl⟩)

theorem checkNesting (hs : s.InOrder) (selectors : List Selector) (loc : Location) :
    Orderly (Parser.checkNesting selectors loc) s (fun _ s' => s'.stream = s.stream) E := by
  unfold Parser.checkNesting
  refine state_bind (ite (fun _ => ?_) fun _ => pure hs rfl)
  refine fire hs ⟨EventKind.noConfusion, EventKind.noConfusion⟩ (Diagnostic.not_isExhausted ?_)
  show "Nested selector must be inside a style rule.".toList.head? ≠ _
  decide

theorem ruleFailed (hs : s.InOrder) {e : Diagnostic} (he : ¬e.IsExhausted)
    (hends : s.options.strict = false → EndsLast s.stream.ahead) (braceSeen : Bool) :
    Orderly (Parser.ruleFailed e braceSeen) s fun _ s' => s'.stream.Ready := by
  unfold Parser.ruleFailed
  refine options_bind (ite (fun hstrict => throw_bind hs he fun hlax => ?_) fun hlax => ?_)
  · exact absurd (hlax.symm.trans hstrict) Bool.false_ne_true
  · have hlax : s.options.strict = false := Bool.eq_false_iff.mpr hlax
    exact (recover hs hlax (hends hlax) he braceSeen).bind fun _ s₁ _ hs₁ hnear =>
      pure hs₁ hnear.ready

/-- **The rest of a rule after its selectors**, which were read in order if
a block follows. -/
theorem ruleBody (hblock : OrderlyBlock block) (hs : s.InOrder) (hend : s.stream.HeadEnd)
    {selectors : List Selector}
    (hread : s.stream.current.kind = .lBrace →
      ∀ selector ∈ selectors, selector.IsRead s.options s.stream.source)
    (t : Token) (storable : Bool) :
    Orderly (Parser.ruleBody block t storable selectors) s fun _ s' => s'.stream.Ready := by
  unfold Parser.ruleBody
  extract_lets start shape filed rest
  have hrest : Orderly (rest none) s fun _ s' => s'.stream.Ready := by
    refine (checkNesting hs selectors t.location).bind fun _ s₁ h₁ hs₁ hstream => ?_
    have hback : s₁.stream.current.kind ≠ .lBrace → EndsLast s₁.stream.back.ahead := by
      rw [hstream]
      exact hend.other
    refine (mustReuse (E := fun st => EndsLast st.ahead) hs₁ [.lBrace] fun hkind =>
      hback fun h => ?_).attempt_bind (fun brace s₂ h₂ hs₂ ⟨hsame, hbrace, hkind⟩ => ?_)
      fun e s₂ _ hs₂ he hends => pure_bind (ruleFailed hs₂ he hends false)
    · rw [h] at hkind
      cases hkind
    -- the brace is at hand, and nothing is ahead
    have hcurrent : s.stream.current.kind = .lBrace := by
      rw [← hstream, ← hbrace]
      simpa using hkind
    have hnear : s₂.stream.Near := by
      unfold Stream.Near
      rw [hsame, hstream, hend.brace hcurrent]
      exact Nat.zero_le 1
    have hselectors : ∀ others, shape.event = some (.rule others) →
        ∀ selector ∈ others, selector.IsRead s₂.options s₂.stream.source := by
      rintro _ ⟨⟩ selector hmem
      rw [h₂.options_eq, h₂.source_eq, h₁.options_eq, h₁.source_eq]
      exact hread hcurrent selector hmem
    refine (hblock start shape hs₂ hnear hselectors).attempt_bind (fun stop s₃ _ hs₃ hfresh => ?_)
      fun e s₃ _ hs₃ he hready => pure_bind (ruleFailed hs₃ he
        (fun hlax => (hready hlax).endsLast) true)
    exact ite (fun _ => pure_bind (pure hs₃ hfresh.ready)) fun _ =>
      pure_bind (pure hs₃ hfresh.ready)
  refine ite (fun _ => ?_) fun _ => pure_bind hrest
  refine (openInStore hs start).bind fun id s₁ _ _ hid => ?_
  obtain ⟨rfl, rfl⟩ := hid
  exact hrest

theorem styleRule (hblock : OrderlyBlock block) (hs : s.InOrder) (h : Opening t s.stream)
    (ht : t.IsCut s.stream.source) (hcustom : t.isCustomIdent = false ∨ Front t s.stream) :
    Orderly (Parser.styleRule block t) s fun _ s' => s'.stream.Ready := by
  unfold Parser.styleRule
  refine state_bind ?_
  extract_lets storable rest
  have hrest : Orderly (rest none) s fun _ s' => s'.stream.Ready := by
    refine (ruleHead hs h ht hcustom).attempt_bind (fun r s₁ h₁ hs₁ ⟨hnone, hsome⟩ => ?_)
      fun e s₁ _ hs₁ he hready => ruleFailed hs₁ he (fun hlax => (hready hlax).endsLast) false
    cases r with
    | none => exact pure hs₁ (hnone rfl)
    | some selectors =>
      obtain ⟨hend, hread⟩ := hsome selectors rfl
      rw [← h₁.options_eq, ← h₁.source_eq] at hread
      exact ruleBody hblock hs₁ hend hread t storable
  refine ite (fun _ => ?_) fun _ => pure_bind hrest
  refine (remembered hs t.location).bind fun r s₁ _ _ hr => ?_
  obtain ⟨rfl, rfl⟩ := hr
  exact hrest

/-! ## Items -/

theorem blockItem (hblock : OrderlyBlock block) (hs : s.InOrder) (h : Front t s.stream)
    (ht : t.IsCut s.stream.source) (shape : BlockShape) :
    Orderly (Parser.blockItem block shape t) s (fun _ s' => s'.stream.Ready)
      fun st => EndsLast st.ahead := by
  unfold Parser.blockItem
  refine state_bind ?_
  extract_lets inStyle found rest
  have hrest : ∀ (declared : Bool) {s₁ : State}, Keeps s s₁ → s₁.InOrder →
      (declared = true → s₁.stream.Near) → (declared = false → Opening t s₁.stream) →
      Orderly (rest declared) s₁ (fun _ s' => s'.stream.Ready) fun st => EndsLast st.ahead := by
    intro declared s₁ h₁ hs₁ hnear hopening
    refine ite (fun htrue => pure hs₁ (hnear htrue).ready) fun hfalse => ?_
    have hopening := hopening (Bool.eq_false_iff.mpr hfalse)
    refine ite (fun hrule => ?_) fun _ => failAt hs₁ hopening.endsLast
    have hcustom : t.isCustomIdent = false := by
      revert hrule
      cases t.isCustomIdent <;> simp
    refine (styleRule hblock hs₁ hopening (h₁.source_eq ▸ ht) (Or.inl hcustom)).lax.bind
      fun _ s₂ _ hs₂ hready => pure hs₂ hready
  have hitem : ∀ {p : Parser Unit}, Orderly p s (fun _ s' => s'.stream.Near) →
      Orderly (p >>= found) s (fun _ s' => s'.stream.Ready) fun st => EndsLast st.ahead :=
    fun hp => hp.lax.bind fun _ s₁ _ hs₁ hnear => pure hs₁ hnear.ready
  refine ite (fun hat => ?_) fun _ => options_bind ?_
  · have hhand : s.stream.At t := h.at_of_kind (by rw [eq_of_beq hat]; rfl)
    refine ite (fun _ => hitem ?_) fun _ => hitem (atRule hblock hs hhand.near ht false)
    exact (Leads.descriptorBlock hblock _ _ _ fun _ => BlockKind.noConfusion).near s hs hhand.near
  · refine ite (fun hdeclaration => ?_) fun _ => pure_bind (hrest false (Keeps.refl hs.isSound) hs
      (fun h => by cases h) fun _ => .front h)
    have hname : IsElementName t := by
      have hkind : (t.kind == .ident) = true ∨ (t.kind == .star) = true := by
        revert hdeclaration
        cases t.kind == .ident <;> cases t.kind == .star <;> simp
      exact hkind.imp eq_of_beq eq_of_beq
    exact (declaration hs h hname ht shape.scope).bind fun declared s₁ h₁ hs₁ ⟨hnear, hopening⟩ =>
      hrest declared h₁ hs₁ hnear hopening

/-! ## The loop -/

/-- **Between two rounds of a block**: the next item can start, and what ends
the block has not been found. -/
def BlockInv (sofar : BlockSoFar) (s : State) : Prop :=
  s.stream.Ready ∧ sofar.close = none

/-- **After a block**: what ends it is at hand, once it has been found. -/
def BlockDone (sofar : BlockSoFar) (s : State) : Prop :=
  sofar.close.isSome = true → s.stream.Fresh

theorem blockItemStep (hblock : OrderlyBlock block) (hs : s.InOrder) (h : Front t s.stream)
    (ht : t.IsCut s.stream.source) (shape : BlockShape) {sofar : BlockSoFar}
    (hclose : sofar.close = none) :
    Orderly (Parser.blockItemStep block shape sofar t) s (Turn BlockInv BlockDone) := by
  unfold Parser.blockItemStep
  extract_lets key rest
  refine ite (fun _ => failAt_bind hs h.ready) fun _ => ?_
  refine (blockItem hblock hs h ht shape).attempt_bind
    (fun content s₁ _ hs₁ hready => pure hs₁ ⟨hready, hclose⟩) fun e s₁ _ hs₁ he hends => ?_
  refine options_bind (ite (fun hstrict => throw_bind hs₁ he fun hlax => ?_) fun hlax => ?_)
  · exact absurd (hlax.symm.trans hstrict) Bool.false_ne_true
  · have hlax : s₁.options.strict = false := Bool.eq_false_iff.mpr hlax
    exact (recover hs₁ hlax (hends hlax) he false).bind fun _ s₂ _ hs₂ hnear =>
      pure hs₂ ⟨hnear.ready, hclose⟩

theorem blockStep (hblock : OrderlyBlock block) (hs : s.InOrder) (shape : BlockShape)
    (toEnd : Bool) {sofar : BlockSoFar} (hI : BlockInv sofar s) :
    Orderly (Parser.blockStep block shape toEnd sofar) s (Turn BlockInv BlockDone) := by
  unfold Parser.blockStep
  obtain ⟨hready, hclose⟩ := hI
  have hgot := hs.isSound.stream.get true false
  refine (get hs true false).bind fun t s₁ h₁ hs₁ hget => ?_
  have hfront := hready true
  have hcut := hgot.isCut
  rw [hget] at hfront hcut
  have ht : t.IsCut s₁.stream.source := h₁.source_eq ▸ hcut
  have hdone : looksOn t.kind = false → ∀ sofar, BlockDone sofar s₁ :=
    fun hother _ _ => ⟨t, hfront.at_of_kind hother⟩
  split
  · next hkind =>
    exact ite (fun _ => pure hs₁ (hdone (by rw [hkind]; rfl) _)) fun _ => failAt hs₁ hfront.ready
  · exact pure hs₁ ⟨hfront.ready, hclose⟩
  · exact pure hs₁ ⟨hfront.ready, hclose⟩
  · refine ite (fun hbrace => pure hs₁ (hdone ?_ _)) fun _ =>
      blockItemStep hblock hs₁ hfront ht shape hclose
    rw [eq_of_beq (Bool.and_eq_true_iff.mp hbrace).1]
    rfl

/-- **The loop over the items of a block** ends with what ends the block at
hand, since it is never cut short. -/
theorem blockLoop (hblock : OrderlyBlock block) (hruns : ∀ d, RunsBlock d block block)
    (hs : s.InOrder) (hready : s.stream.Ready) (shape : BlockShape) (toEnd : Bool) :
    Orderly (Parser.repeating ⟨false, none, none⟩ (Parser.blockStep block shape toEnd)) s
      fun _ s' => s'.stream.Fresh := by
  have hloop : Orderly (Parser.repeating ⟨false, none, none⟩ (Parser.blockStep block shape toEnd))
      s BlockDone :=
    repeating (I := BlockInv) hs ⟨hready, rfl⟩
      (fun _ _ _ hs₁ hI => blockStep hblock hs₁ shape toEnd hI) fun sofar s₁ hI hsome => by
        rw [hI.2] at hsome
        cases hsome
  have hreads := Reads.blockLoop (n := 0) (Q := fun sofar _ => sofar.close.isSome = true)
    (hruns (Text.byteLength s.stream.source)) hs.isSound (by omega) (Nat.zero_le _) shape toEnd
    fun sofar sofar' s₁ s₂ _ hstep _ =>
      blockStep_endsClosed block shape toEnd sofar s₁ sofar' s₂ hstep
  exact ⟨hloop.keeps, hloop.inOrder, hloop.error,
    fun sofar h => hloop.ok sofar h (hreads.ok sofar h)⟩

/-! ## Blocks -/

theorem blockItems (hblock : OrderlyBlock block) (hruns : ∀ d, RunsBlock d block block)
    (hs : s.InOrder) (hready : s.stream.Ready) (shape : BlockShape) (toEnd : Bool) :
    Orderly (Parser.blockItems block shape toEnd) s fun _ s' => s'.stream.Fresh := by
  unfold Parser.blockItems
  extract_lets styles
  refine (adjust hs ⟨rfl, rfl, rfl, rfl, rfl, rfl⟩).bind fun _ s₁ _ hs₁ hstream => ?_
  refine (blockLoop hblock hruns hs₁ (hstream ▸ hready) shape toEnd).attempt_bind
    (fun sofar s₂ _ hs₂ hfresh => ?_) fun e s₂ _ hs₂ he hready₂ => ?_
  · refine (adjust hs₂ ⟨rfl, rfl, rfl, rfl, rfl, rfl⟩).bind fun _ s₃ _ hs₃ hstream₃ => ?_
    exact pure_bind (current_bind (pure hs₃ (hstream₃ ▸ hfresh)))
  · refine (adjust hs₂ ⟨rfl, rfl, rfl, rfl, rfl, rfl⟩).bind fun _ s₃ h₃ hs₃ hstream₃ => ?_
    refine throw_bind hs₃ he fun hlax => ?_
    rw [hstream₃]
    exact hready₂ (h₃.options_eq ▸ hlax)

/-- The start of a block is reported. -/
theorem fireStart (hs : s.InOrder) {kind : BlockKind} {location : Location}
    (hkind : ∀ selectors, kind = .rule selectors →
      ∀ selector ∈ selectors, selector.IsRead s.options s.stream.source) :
    Orderly (Parser.fire (.start kind) location) s (fun _ s' => s'.stream = s.stream) E := by
  refine fire hs ⟨EventKind.noConfusion, EventKind.noConfusion⟩ ?_
  cases kind with
  | rule selectors => exact hkind selectors rfl
  | _ => trivial

theorem blockWith (hblock : OrderlyBlock block) (hruns : ∀ d, RunsBlock d block block) :
    OrderlyBlock (Parser.blockWith block) := by
  intro start shape s hs hnear hselectors
  unfold Parser.blockWith
  extract_lets items started
  have hitems : ∀ {s₁ : State}, s₁.InOrder → s₁.stream.Near →
      Orderly (items ()) s₁ fun _ s' => s'.stream.Fresh := by
    intro s₁ hs₁ hnear₁
    refine (blockItems hblock hruns hs₁ hnear₁.ready shape false).bind
      fun stop s₂ _ hs₂ hfresh => ?_
    extract_lets done
    cases shape.event with
    | none => exact pure hs₂ hfresh
    | some kind =>
      have hevent : Event.IsOrderly s₂.options s₂.stream.source
          ⟨.stop kind stop.empty, stop.close.location⟩ := trivial
      exact (fire hs₂ ⟨EventKind.noConfusion, EventKind.noConfusion⟩ hevent).bind
        fun _ s₃ _ hs₃ hstream => pure hs₃ (hstream ▸ hfresh)
  have hstarted : ∀ {s₁ : State}, Keeps s s₁ → s₁.InOrder → s₁.stream.Near →
      Orderly (started ()) s₁ fun _ s' => s'.stream.Fresh := by
    intro s₁ h₁ hs₁ hnear₁
    unfold started
    cases hevent : shape.event with
    | none => exact hitems hs₁ hnear₁
    | some kind =>
      refine (fireStart hs₁ fun selectors hkind => ?_).bind fun _ s₂ _ hs₂ hstream =>
        hitems hs₂ (hstream ▸ hnear₁)
      rw [h₁.options_eq, h₁.source_eq]
      exact hselectors selectors (hkind ▸ hevent)
  refine ite (fun _ => hstarted (Keeps.refl hs.isSound) hs hnear) fun _ => ?_
  refine (discard (Q := fun _ s' => s'.stream.Near) ((mustMatchSmart hs hnear _).weaken
    fun _ _ _ h => h.1.near)).bind fun _ s₁ h₁ hs₁ hnear₁ => hstarted h₁ hs₁ hnear₁

theorem blockTo (depth : Nat) : OrderlyBlock (Parser.blockTo depth) := by
  induction depth with
  | zero => exact fun _ _ {_} hs hnear _ => throw hs tooDeep_not_isExhausted fun _ => hnear.ready
  | succ depth ih => exact blockWith ih fun d => Runs.blockTo_self d depth

end Orderly

theorem Orderly.block : OrderlyBlock Parser.block := fun start shape {_} hs hnear hselectors =>
  budget_bind (blockTo _ start shape hs hnear hselectors)

/-!
## Parsers never run out of tokens to take back

A token can be taken back only while it is in the window, and the window is
short; it is emptied whenever reading goes on at another place. Every
production takes back no more than it has looked at, and so no parse ever
complains that there was nothing to take back, neither in its result nor in
an event.
-/

namespace Orderly

variable {s : State} {t : Token}

/-! ## Stylesheets -/

/-- The next token, where an item can start. -/
theorem grabFront (hs : s.InOrder) (hready : s.stream.Ready) :
    Orderly Parser.grab s fun t s' => Front t s'.stream ∧ t.IsCut s.stream.source := by
  refine (get hs false false).weaken fun t s' _ hget => ?_
  have hfront := hready false
  have hcut := (hs.isSound.stream.get false false).isCut
  rw [hget] at hfront hcut
  exact ⟨hfront, hcut⟩

theorem topRule (hs : s.InOrder) (h : Front t s.stream) (ht : t.IsCut s.stream.source) :
    Orderly (Parser.topRule t) s fun _ s' => s'.stream.Ready := by
  unfold Parser.topRule
  split
  · next hkind =>
    have hhand : s.stream.At t := h.at_of_kind (by rw [hkind]; rfl)
    exact (atRule block hs hhand.near ht true).weaken fun _ _ _ hnear => hnear.ready
  · exact pure hs h.ready
  · refine (styleRule block hs (.front h) ht (Or.inr h)).bind fun outcome s₁ _ hs₁ hready => ?_
    split
    · refine (grabFront hs₁ hready).bind fun u s₂ _ hs₂ ⟨hu, _⟩ => ?_
      exact ite (fun _ => pure hs₂ hu.ready) fun _ => failAt hs₂ hu.ready
    · exact pure hs₁ hready

theorem sheetStep (hs : s.InOrder) (hready : s.stream.Ready) :
    Orderly (Parser.sheetStep ()) s
      (Turn (fun _ s' => s'.stream.Ready) fun _ s' => s'.stream.Ready) := by
  unfold Parser.sheetStep
  refine (grabFront hs hready).bind fun t s₁ h₁ hs₁ ⟨hfront, hcut⟩ => ?_
  refine ite (fun _ => pure hs₁ hfront.ready) fun _ => ?_
  refine (topRule hs₁ hfront (h₁.source_eq ▸ hcut)).attempt_bind
    (fun _ s₂ _ hs₂ hready₂ => pure hs₂ hready₂) fun e s₂ _ hs₂ he hready₂ => ?_
  refine options_bind (ite (fun _ => throw_bind hs₂ he hready₂) fun hlax => ?_)
  refine (report hs₂ he).bind fun _ s₃ _ hs₃ hstream => pure hs₃ ?_
  show s₃.stream.Ready
  rw [hstream]
  exact hready₂ (Bool.eq_false_iff.mpr hlax)

theorem sheetLoop (hs : s.InOrder) (hready : s.stream.Ready) :
    Orderly (Parser.repeating () Parser.sheetStep) s fun _ s' => s'.stream.Ready :=
  repeating (I := fun _ s' => s'.stream.Ready) hs hready
    (fun _ _ _ hs₁ hready₁ => sheetStep hs₁ hready₁) fun _ _ => id

/-! ## Single constructs -/

theorem expectEnd (hs : s.InOrder) (hstopped : s.stream.Stopped) :
    Orderly Parser.expectEnd s fun _ _ => True := by
  obtain ⟨t, ht⟩ := hstopped
  unfold Parser.expectEnd
  refine current_bind ?_
  extract_lets rest
  have hrest : ∀ (u : Token) {s₁ : State}, s₁.InOrder → s₁.stream.Ready →
      Orderly (rest u) s₁ fun _ _ => True := fun _ {_} hs₁ hready₁ =>
    ite (fun _ => pure hs₁ trivial) fun _ => failAt hs₁ hready₁
  refine ite (fun _ => ?_) fun _ => pure_bind (hrest _ hs ht.ready)
  exact (grabFront hs ht.ready).bind fun u s₁ _ hs₁ ⟨hu, _⟩ => hrest u hs₁ hu.ready

/-- What is left over after a construct. -/
theorem leftOver (hs : s.InOrder) (hready : s.stream.Ready) :
    Orderly (do Functor.discard Parser.grab; Parser.expectEnd) s fun _ _ => True := by
  refine (discard (Q := fun _ s' => s'.stream.Stopped) ((grabFront hs hready).weaken
    fun t _ _ h => ⟨t, h.1⟩)).bind fun _ s₁ _ hs₁ hstopped => expectEnd hs₁ hstopped

theorem singleRule (hs : s.InOrder) (hready : s.stream.Ready) :
    Orderly Parser.singleRule s fun _ _ => True := by
  unfold Parser.singleRule
  refine (grabFront hs hready).bind fun t s₁ h₁ hs₁ ⟨hfront, hcut⟩ => ?_
  have ht : t.IsCut s₁.stream.source := h₁.source_eq ▸ hcut
  extract_lets rest
  have hrest : ∀ (u : PUnit) {s₂ : State}, s₂.InOrder → s₂.stream.Ready →
      Orderly (rest u) s₂ fun _ _ => True := fun _ {_} hs₂ hready₂ => leftOver hs₂ hready₂
  refine ite (fun hat => ?_) fun _ => ?_
  · have hhand : s₁.stream.At t := hfront.at_of_kind (by rw [eq_of_beq hat]; rfl)
    exact (atRule block hs₁ hhand.near ht false).bind fun u s₂ _ hs₂ hnear =>
      hrest u hs₂ hnear.ready
  · refine (styleRule block hs₁ (.front hfront) ht (Or.inr hfront)).bind
      fun outcome s₂ _ hs₂ hready₂ => ?_
    exact ite (fun _ => failAt_bind hs₂ hready₂) fun _ => hrest () hs₂ hready₂

theorem styleAttribute (hs : s.InOrder) (hready : s.stream.Ready) :
    Orderly Parser.styleAttribute s fun _ _ => True :=
  discard ((blockItems block (fun _ => Runs.block) hs hready _ true).weaken
    fun _ _ _ _ => trivial)

theorem singleSelector (hs : s.InOrder) (hnear : s.stream.Near) :
    Orderly Parser.singleSelector s fun _ _ => True := by
  unfold Parser.singleSelector
  refine (grab hs hnear).bind fun t s₁ _ hs₁ ht => ?_
  have hstart : GroupStart (some t) s₁ := .hand ht.1
  refine (selector hs₁ hstart false).bind fun r s₂ _ hs₂ ⟨u, hu⟩ => ?_
  cases r with
  | none => exact failAt hs₂ hu.ready
  | some found => exact (expectEnd hs₂ ⟨u, hu⟩).bind fun _ s₃ _ hs₃ _ => pure hs₃ trivial

theorem singleValue (hs : s.InOrder) (hnear : s.stream.Near) :
    Orderly Parser.singleValue s fun _ _ => True := by
  unfold Parser.singleValue
  refine (expr hs hnear _ _).bind fun r s₁ _ hs₁ hfresh => ?_
  cases r with
  | none => exact failHere hs₁ hfresh.ready
  | some v => exact (expectEnd hs₁ hfresh.stopped).bind fun _ s₂ _ hs₂ _ => pure hs₂ trivial

theorem singleQuery (hs : s.InOrder) (hnear : s.stream.Near) :
    Orderly Parser.singleQuery s fun _ _ => True := by
  unfold Parser.singleQuery
  refine (grab hs hnear).bind fun t s₁ _ hs₁ ht => ?_
  refine (mediaQueries hs₁ true ht.1.near fun _ => ⟨t, ht.1⟩).bind fun r s₂ _ hs₂ hnear₂ => ?_
  split
  · next query =>
    refine (discard (Q := fun _ s' => s'.stream.Stopped) ((grab hs₂ hnear₂).weaken
      fun u _ _ h => ⟨u, .bare h.1⟩)).bind fun _ s₃ _ hs₃ hstopped => ?_
    exact (expectEnd hs₃ hstopped).bind fun _ s₄ _ hs₄ _ => pure hs₄ trivial
  · exact failAt hs₂ hnear₂.ready

end Orderly

/-! ## Whole parses -/

/-- **A parse that never ran out of tokens to take back**: neither its
failure nor any error it reported says so. -/
structure Outcome.IsSupplied {α : Type} (o : Outcome α) : Prop where
  /-- The failure, if there is one, is another one. -/
  result : ∀ e, o.result = .error e → e.message ≠ "Too much lookahead."
  /-- So are the errors that were reported. -/
  events : ∀ event ∈ o.events, ∀ e fatal, event.kind = .error e fatal →
    e.message ≠ "Too much lookahead."

/-- **A parse starts in order.** -/
theorem Parse.State.inOrder_initial (text : String) (options : Options) (validator : Validator) :
    (State.initial text options validator none).InOrder where
  isSound := State.isSound_initial text options validator
  flush := Stream.flush_of_reader _
  events _ he := absurd he List.not_mem_nil
  deferred _ h := by cases h

theorem Parse.State.near_initial (text : String) (options : Options) (validator : Validator) :
    (State.initial text options validator none).stream.Near := Nat.zero_le 1

/-- What an orderly run leaves behind. -/
theorem Outcome.isSupplied_of {α : Type} {p : Parser α} {s : State}
    (herror : ∀ e, (p s).1 = .error e → ¬e.IsExhausted)
    (hevents : ∀ e ∈ (p s).2.events, e.IsOrderly s.options s.stream.source)
    {o : Outcome α} (hresult : o.result = (p s).1) (ho : o.events = (p s).2.events.reverse) :
    o.IsSupplied where
  result e he := herror e (hresult ▸ he)
  events event hevent e fatal hkind := by
    rw [ho, List.mem_reverse] at hevent
    have horderly := hevents event hevent
    unfold Event.IsOrderly at horderly
    rw [hkind] at horderly
    exact horderly

/-- An orderly parser never runs out of tokens to take back. -/
theorem Orderly.isSupplied {α : Type} {p : Parser α} {text : String} {options : Options}
    {validator : Validator} {Q : α → State → Prop}
    (h : Orderly p (State.initial text options validator none) Q) :
    (p.run text options validator none).IsSupplied := by
  refine Outcome.isSupplied_of (fun e he => (h.error e he).1) (fun e he => ?_) rfl rfl
  have horderly := h.inOrder.events e he
  rwa [h.keeps.options_eq, h.keeps.source_eq] at horderly

/-- **A stylesheet** is orderly, too. Its start and end are events that no
rule reports. -/
theorem sheet_isOrderly (text : String) (options : Options) (validator : Validator) :
    (∀ e, (sheet (State.initial text options validator none)).1 = .error e →
      ¬e.IsExhausted) ∧
    ∀ e ∈ (sheet (State.initial text options validator none)).2.events,
      e.IsOrderly options (normalizeNewlines text.toList) := by
  set s := State.initial text options validator none
  have hs : s.InOrder := State.inOrder_initial text options validator
  have hstarted : s.started.InOrder := by
    refine ⟨⟨hs.isSound.stream, hs.isSound.budget, hs.isSound.store, hs.isSound.deferred⟩, hs.flush,
      fun e he => ?_, hs.deferred⟩
    obtain rfl := List.mem_singleton.mp he
    trivial
  have hnear : s.started.stream.Near := State.near_initial text options validator
  have hloop := Orderly.sheetLoop hstarted hnear.ready
  have hfirst := fire_apply (s := s) rfl hs.isSound.store .startStylesheet .start
  have hevents : ∀ e ∈ (Parser.repeating () Parser.sheetStep s.started).2.events,
      e.IsOrderly options (normalizeNewlines text.toList) := by
    intro e he
    have horderly := hloop.inOrder.events e he
    rwa [hloop.keeps.options_eq, hloop.keeps.source_eq] at horderly
  have herror := hloop.error
  rcases hrun : Parser.repeating () Parser.sheetStep s.started with ⟨e | u, s₁⟩
  · have hsheet : sheet s = (.error e, s₁) :=
      (bind_ok hfirst).trans (bind_error hrun)
    rw [hrun] at hevents herror
    rw [hsheet]
    exact ⟨fun e' he' => (herror e' he').1, hevents⟩
  · rw [hrun] at hevents
    have hkeeps := hloop.keeps
    rw [hrun] at hkeeps
    have hlast := fire_apply (s := s₁) (hkeeps.deferred rfl) hkeeps.isSound.store
      .endStylesheet s₁.stream.current.location
    have hsheet : sheet s = (.ok (), { s₁ with
        events := ⟨.endStylesheet, s₁.stream.current.location⟩ :: s₁.events }) :=
      ((bind_ok hfirst).trans (bind_ok hrun)).trans hlast
    rw [hsheet]
    refine ⟨fun _ he => (by cases he), fun e he => ?_⟩
    rcases List.mem_cons.mp he with rfl | he
    · trivial
    · exact hevents e he

theorem sheet_isSupplied (text : String) (options : Options) (validator : Validator) :
    (sheet.run text options validator none).IsSupplied :=
  Outcome.isSupplied_of (sheet_isOrderly text options validator).1
    (sheet_isOrderly text options validator).2 rfl rfl

/-- **No parse runs out of tokens to take back**, of whatever text and from
whatever entry point: neither its result nor any event complains that there
was too much lookahead. -/
theorem parses_isSupplied (text : String) (options : Options) :
    (parseSheet text options).IsSupplied ∧
      (Parser.singleRule.run text options .fresh none).IsSupplied ∧
      (Parser.styleAttribute.run text options .fresh none).IsSupplied ∧
      (Parser.singleSelector.run text options .fresh none).IsSupplied ∧
      (Parser.singleValue.run text options .fresh none).IsSupplied ∧
      (Parser.singleQuery.run text options .fresh none).IsSupplied := by
  have hs := State.inOrder_initial text options .fresh
  have hnear := State.near_initial text options .fresh
  exact ⟨sheet_isSupplied text options .fresh, (Orderly.singleRule hs hnear.ready).isSupplied,
    (Orderly.styleAttribute hs hnear.ready).isSupplied,
    (Orderly.singleSelector hs hnear).isSupplied, (Orderly.singleValue hs hnear).isSupplied,
    (Orderly.singleQuery hs hnear).isSupplied⟩

end Stylesheet
