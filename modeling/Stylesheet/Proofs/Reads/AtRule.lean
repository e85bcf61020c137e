import Stylesheet.Parse.AtRule
import Stylesheet.Proofs.Reads.Declaration

/-!
# Reading at-rules reads on

The preludes of at-rules are read token by token. Every list among them
takes a token for each of its items: layers and documents the comma
before it, keyframes their keys. Only a broken prelude of `@scope` goes
back, to right after the name of the rule.

The readers take the reader of blocks as an argument, and read on if it
does.
-/

namespace Stylesheet

open Parse (State)
open Parse.State (Keeps Stands stands_false stands_true)

/-- **A reader of blocks that reads on** wherever less than a bound is
left. -/
def RunsBlock (d : Nat) (block block' : BlockParser) : Prop :=
  ∀ (start : Location) (shape : BlockShape),
    Runs d false false (block start shape) (block' start shape)

namespace Runs

variable {d : Nat} {a : Bool} {block block' : BlockParser}

theorem descriptorBlock (hblock : RunsBlock d block block') (start : Token) (scope : String)
    (kind : BlockKind) (margins : Bool) :
    Runs d false false (Parser.descriptorBlock block start scope kind margins)
      (Parser.descriptorBlock block' start scope kind margins) :=
  (hblock _ _).discard

theorem ruleBlock (hblock : RunsBlock d block block') (start : Token) (kind : BlockKind) :
    Runs d false false (Parser.ruleBlock block start kind) (Parser.ruleBlock block' start kind) :=
  (hblock _ _).discard

theorem marginRule (hblock : RunsBlock d block block') (start : Token) :
    Runs d false false (Parser.marginRule block start) (Parser.marginRule block' start) :=
  descriptorBlock hblock _ _ _ _

theorem ruleName : Runs d a true Parser.ruleName Parser.ruleName :=
  (mustMatchSmart _).bind fun _ => pure _

/-! ## Statements -/

theorem charsetRule (start : Token) :
    Runs d a true (Parser.charsetRule start) (Parser.charsetRule start) := by
  unfold Parser.charsetRule
  refine (mustMatchSmart _).bind fun charset => (mustMatchSmart _).discard.bind fun _ => ?_
  exact fire ⟨EventKind.noConfusion, EventKind.noConfusion⟩

theorem namespaceRule (start : Token) :
    Runs d a true (Parser.namespaceRule start) (Parser.namespaceRule start) := by
  unfold Parser.namespaceRule
  refine (matchSmart _).bind fun name => (mustMatchSmart _).bind fun uri => ?_
  exact (mustMatchSmart _).discard.bind fun _ =>
    fire ⟨EventKind.noConfusion, EventKind.noConfusion⟩

/-- One more name of a layer takes the dot before it. -/
theorem layerNameStep (sofar : String × Option Token) :
    Steps d false false (Parser.layerNameStep sofar) (Parser.layerNameStep sofar) := by
  unfold Parser.layerNameStep
  rcases sofar with ⟨name, _ | t⟩
  · exact Steps.done _
  · refine Steps.matched_bind (fun _ _ hs => Reads.matchKinds hs _) (by decide) (fun _ => ?_)
      (Steps.done _)
    exact GoesOn.bind (matchKinds _) fun _ => GoesOn.yield _

theorem layerName (first : Option Token) :
    Runs d false false (Parser.layerName first) (Parser.layerName first) := by
  unfold Parser.layerName
  extract_lets rest
  have hrest : ∀ first, Runs d false false (rest first) (rest first) := fun first =>
    (repeating layerNameStep).bind fun _ => pure _
  cases first with
  | some t => exact (hrest _).pure_bind
  | none => exact (matchSmart _).bind hrest

/-- The layer of an import; the token after it is in hand. -/
theorem importLayer : Runs d false true Parser.importLayer Parser.importLayer := by
  unfold Parser.importLayer
  refine grab.bind fun t => ite (fun _ => ?_) fun _ => ite (fun _ => ?_) fun _ => pure _
  · exact (layerName none).of_false.bind fun name => (mustMatchSmart _).discard.bind fun _ =>
      grab.bind fun _ => pure _
  · exact grab.bind fun _ => pure _

theorem importRule (start : Token) :
    Runs d false true (Parser.importRule start) (Parser.importRule start) := by
  unfold Parser.importRule
  refine (mustMatchSmart _).bind fun uri => importLayer.of_false.bind fun found => ?_
  rcases found with ⟨layer, t⟩
  dsimp only
  generalize (t.kind == .function && t.name == "supports") = conditional
  have hend : ∀ queries : List MediaQuery, Runs d false true
      (do
        Functor.discard (Parser.mustMatchSmart [.semicolon])
        Parser.fire (.import_ (Parser.addressOf uri) layer queries) start.location)
      (do
        Functor.discard (Parser.mustMatchSmart [.semicolon])
        Parser.fire (.import_ (Parser.addressOf uri) layer queries) start.location) := fun _ =>
    (mustMatchSmart _).discard.bind fun _ =>
      fire ⟨EventKind.noConfusion, EventKind.noConfusion⟩
  cases conditional with
  | true =>
    exact (conditionInParens _).of_false.bind fun _ => (mediaQueries false).of_false.bind hend
  | false => exact (mediaQueries true).bind hend

/-! ## Layers and scopes -/

theorem scopeSelectors : Runs d false true Parser.scopeSelectors Parser.scopeSelectors := by
  unfold Parser.scopeSelectors
  refine (Reads.selectorGroup.withoutFirst false true).bind fun selectors => ?_
  exact (mustReuse _).discard.bind fun _ => pure _

theorem scopePrelude : Runs d false true Parser.scopePrelude Parser.scopePrelude := by
  unfold Parser.scopePrelude
  refine grab.bind fun t => ?_
  extract_lets rest
  have hrest : ∀ found, Runs d true true (rest found) (rest found) := by
    rintro ⟨first, t⟩
    unfold rest
    dsimp only
    refine ite (fun _ => ?_) fun _ => ?_
    · refine (mustMatchSmart _).discard.bind fun _ => scopeSelectors.of_false.bind fun last => ?_
      exact grab.discard.bind fun _ => pure_bind ((mustReuse _).discard.bind fun _ => pure _)
    · exact pure_bind ((mustReuse _).discard.bind fun _ => pure _)
  refine ite (fun _ => ?_) fun _ => (hrest _).pure_bind
  exact scopeSelectors.of_false.bind fun first => grab.bind fun t => (hrest _).pure_bind

end Runs

namespace Reads

variable {d n : Nat} {s : State} {block block' : BlockParser}

/-- **One more name of a list of layers.** A next round comes after a
comma, and without a block the token after the list is in hand. -/
theorem layerStep (hblock : RunsBlock d block block') (hs : s.IsSound)
    (hd : Text.byteLength s.stream.source < n + d) (hn : n ≤ s.offset) (start : Token)
    (sofar : List String × Bool) :
    Reads n (Parser.layerStep block start sofar) (Parser.layerStep block' start sofar) s
      (Turn (fun _ s' => n ≤ s'.offset) (fun _ s' => s'.left) s.left
        fun r => Stands (!r.2) n) := by
  unfold Parser.layerStep
  refine (grab hs).bind fun t s₁ h₁ hgot => ?_
  extract_lets rest rest'
  have hrest : ∀ (ids : List String) (t : Token) {s₂ : State}, Keeps s s₂ → Stands true n s₂ →
      (t.kind = .comma → s₂.left < s.left) →
      Reads n (rest (ids, t)) (rest' (ids, t)) s₂ (Turn (fun _ s' => n ≤ s'.offset)
        (fun _ s' => s'.left) s.left fun r => Stands (!r.2) n) := by
    intro ids t s₂ h₂ hstands₂ hcomma
    have hd₂ : Text.byteLength s₂.stream.source < n + d := by
      rw [h₂.source_eq]
      exact hd
    refine ite (fun _ => ?_) fun _ => ite (fun hkind => ?_) fun _ => ?_
    · extract_lets body body'
      have hbody : ∀ {s₃ : State}, Keeps s₂ s₃ → n ≤ s₃.offset →
          Reads n (body ()) (body' ()) s₃ (Turn (fun _ s' => n ≤ s'.offset) (fun _ s' => s'.left)
            s.left fun r => Stands (!r.2) n) := fun h₃ hn₃ =>
        ((hblock _ _).discard _ n h₃.isSound (by rw [h₃.source_eq]; exact hd₂)
          (stands_false hn₃)).bind fun _ _ h₄ hstands₄ => pure h₄.isSound hstands₄
      refine ite (fun _ => ?_) fun _ => hbody (Keeps.refl h₂.isSound) hstands₂.1
      refine (warn h₂.isSound).bind fun _ s₃ h₃ hstream => hbody h₃ ?_
      rw [Parse.State.offset_of_stream hstream]
      exact hstands₂.1
    · exact pure h₂.isSound ⟨hstands₂.1, hcomma (beq_iff_eq.mp hkind)⟩
    · exact pure h₂.isSound hstands₂
  refine ite (fun hident => ?_) fun _ => pure_bind (hrest _ _ h₁ (Runs.stands_of_got hn hgot)
    fun hcomma => h₁.left_lt (hgot.place_lt_place (by rw [hcomma]; decide)))
  -- a name was read, so less is left whatever follows it
  have hlt : s₁.left < s.left :=
    h₁.left_lt (hgot.place_lt_place (by rw [beq_iff_eq.mp hident]; decide))
  have hn₁ : n ≤ s₁.offset := Nat.le_trans hn hgot.place_le_place
  refine ((Runs.reads (fun _ => Runs.layerName _) h₁.isSound
    (stands_false (Nat.le_refl _))).lower hn₁).bind fun name s₂ h₂ hstands₂ => ?_
  refine (grab h₂.isSound).bind fun t' s₃ h₃ hgot' => pure_bind ?_
  have hle₂ := h₂.left_le hstands₂.1
  have hle₃ := h₃.left_le hgot'.place_le_place
  exact hrest _ t' (h₁.trans (h₂.trans h₃))
    (Runs.stands_of_got (Nat.le_trans hn₁ hstands₂.1) hgot') fun _ => by omega

theorem layerRule (hblock : RunsBlock d block block') (start : Token) :
    Runs d false false (Parser.layerRule block start) (Parser.layerRule block' start) := by
  intro s n hs hd hstands
  unfold Parser.layerRule
  refine (repeating (fun _ s' => n ≤ s'.offset) (fun _ s' => s'.left) hs hstands.1 (by omega)
    fun sofar s₁ h₁ hn₁ => layerStep hblock h₁.isSound (by rw [h₁.source_eq]; exact hd) hn₁ start
      sofar).bind fun r s₁ h₁ hstands₁ => ?_
  rcases r with ⟨ids, blockSeen⟩
  cases blockSeen with
  | true => exact pure h₁.isSound hstands₁
  | false =>
    exact Runs.reads (fun _ => (Runs.mustReuse _).discard.release.bind fun _ =>
      Runs.fire ⟨EventKind.noConfusion, EventKind.noConfusion⟩) h₁.isSound hstands₁

/-- The at-rule `@scope`. When its prelude is broken, reading goes on
after the name of the rule. -/
theorem scopeRule (hblock : RunsBlock d block block') (hs : s.IsSound)
    (hd : Text.byteLength s.stream.source < n + d) (hn : n ≤ s.offset) {start : Token}
    (hstart : start.IsCut s.stream.source) (hstop : n ≤ start.stop.offset) :
    Reads n (Parser.scopeRule block start) (Parser.scopeRule block' start) s
      fun _ => Stands false n := by
  unfold Parser.scopeRule
  have hprelude : Reads n Parser.scopePrelude Parser.scopePrelude s fun _ => Stands false n :=
    Runs.scopePrelude.release s n hs hd (stands_false hn)
  refine (attempt (Q := fun _ => Stands false n) hprelude fun _ _ _ hn' => stands_false hn').bind
    fun prelude s₁ h₁ hstands₁ => ?_
  cases prelude with
  | error e =>
    have hplace : IsPlace s₁.stream.source start.stop := by
      rw [h₁.source_eq]
      exact hstart.stop_isPlace
    refine (seek h₁.isSound hplace).bind fun _ s₂ h₂ hsought => ?_
    refine Runs.reads (fun _ => (Runs.setPair none).bind fun _ => Runs.options.bind fun _ => ?_)
      h₂.isSound (stands_false (by rw [hsought.1]; exact hstop))
    exact Runs.ite (fun _ => Runs.throw_bind e) fun _ => Runs.recover e false
  | ok selectors =>
    have hdepth : ∀ g : Nat → Nat, Runs d false false
        (Parser.update fun s => { s with inScope := g s.inScope })
        (Parser.update fun s => { s with inScope := g s.inScope }) := fun _ =>
      Runs.adjust (fun _ _ => rfl) fun _ => ⟨rfl, rfl, rfl, rfl, rfl, rfl⟩
    refine (hdepth (· + 1)).bind (fun _ => ?_) s₁ n h₁.isSound (by rw [h₁.source_eq]; exact hd)
      hstands₁
    exact (hblock _ _).attempt.bind fun result => (hdepth (· - 1)).bind fun _ =>
      (Runs.ofExcept result).discard

end Reads

namespace Runs

variable {d : Nat} {block block' : BlockParser}

/-! ## Documents -/

/-- One more function that selects documents takes the comma before
it. -/
theorem documentStep (start : Token) (functions : List String) :
    Steps d false false (Parser.documentStep start functions)
      (Parser.documentStep start functions) := by
  unfold Parser.documentStep
  extract_lets rest same
  have hrest : ∀ functions, Steps d false false (rest functions) (rest functions) := fun _ =>
    Steps.matched_bind (fun _ _ hs => Reads.matchSmart hs _) (by decide)
      (fun _ => GoesOn.yield _) (Steps.done _)
  refine Steps.bind (matchSmart _) fun found => ?_
  cases found with
  | none =>
    refine Steps.bind options fun _ => Steps.ite (fun _ => (hrest _).pure_bind) fun _ => ?_
    exact Steps.bind (warn _ _) fun _ => (hrest _).pure_bind
  | some t =>
    refine Steps.ite (fun _ => (hrest _).pure_bind) fun _ => Steps.ite (fun _ => ?_) fun _ => ?_
    · refine Steps.bind (function t false).release fun part => ?_
      exact Steps.ite (fun _ => (hrest _).pure_bind) fun _ =>
        Steps.bind (warn _ _) fun _ => (hrest _).pure_bind
    · exact Steps.bind (warn _ _) fun _ => (hrest _).pure_bind

theorem documentBody (hblock : RunsBlock d block block') (start : Token) :
    Runs d false false (Parser.documentBody block start) (Parser.documentBody block' start) := by
  unfold Parser.documentBody
  refine options.bind fun _ => ite (fun _ => ?_) fun _ => hblock _ _
  exact (skipBroken true).bind fun _ => (mustMatchSmart _).release.bind fun _ => pure _

theorem documentRule (hblock : RunsBlock d block block') (start : Token) :
    Runs d false false (Parser.documentRule block start) (Parser.documentRule block' start) := by
  intro s n hs hd hstands
  unfold Parser.documentRule
  refine Reads.state fun _ => ?_
  extract_lets rest rest'
  have hrest : Runs d false false (rest ()) (rest' ()) := by
    refine (repeating (documentStep start)).bind fun functions => ?_
    refine (mustMatchSmart _).discard.release.bind fun _ => ?_
    refine (fire ⟨EventKind.noConfusion, EventKind.noConfusion⟩).bind fun _ => ?_
    exact (documentBody hblock start).bind fun _ =>
      fire ⟨EventKind.noConfusion, EventKind.noConfusion⟩
  refine Reads.ite (fun _ => ?_) fun _ => hrest s n hs hd hstands
  exact (warn _ _).bind (fun _ => hrest) s n hs hd hstands

end Runs

/-! ## Keyframes -/

namespace Reads

variable {d n : Nat} {s : State} {block block' : BlockParser}

/-- **The keys of a keyframe.** The token after them is in hand, and when
there are any, both lie after something that was read. -/
theorem keyLoop (hs : s.IsSound) (hn : n ≤ s.offset) (last : Token) :
    Reads n (Parser.repeating ⟨[], none, last⟩ Parser.keyStep)
      (Parser.repeating ⟨[], none, last⟩ Parser.keyStep) s
      fun r s' => Stands true n s' ∧ (r.first ≠ none → Stands true (n + 1) s') := by
  refine repeating (fun c s' => n ≤ s'.offset ∧ (c.first ≠ none → n + 1 ≤ s'.offset))
    (fun _ s' => s'.left) hs ⟨hn, fun h => absurd rfl h⟩ (by omega) fun c s₁ h₁ hI => ?_
  unfold Parser.keyStep
  refine (grab h₁.isSound).bind fun t s₂ h₂ hgot => ?_
  have hstands : Stands true n s₂ := Runs.stands_of_got hI.1 hgot
  refine ite (fun hkey => ?_) fun _ => ite (fun _ => ?_) fun _ => failAt h₂.isSound hstands.1
  · have heof : t.kind ≠ .eof := by
      intro heof
      simp [heof, Token.isKeyword] at hkey
    have hlt : s₁.offset < s₂.offset := hgot.place_lt_place heof
    have hn₁ := hI.1
    refine (grab h₂.isSound).bind fun last s₃ h₃ hgot₃ => ?_
    have hle : s₂.offset ≤ s₃.offset := hgot₃.place_le_place
    have hstands₃ : Stands true (n + 1) s₃ := Runs.stands_of_got (by omega) hgot₃
    have hleft : s₃.left < s₁.left := Nat.lt_of_le_of_lt (h₃.left_le hle) (h₂.left_lt hlt)
    refine pure h₃.isSound ?_
    split_ifs
    · exact ⟨⟨by omega, fun _ => hstands₃.1⟩, hleft⟩
    · exact ⟨hstands₃.mono (Nat.le_succ n), fun _ => hstands₃⟩
  · exact pure h₂.isSound ⟨hstands, fun hfirst => Runs.stands_of_got (hI.2 hfirst) hgot⟩

end Reads

namespace Runs

variable {d : Nat} {a : Bool} {block block' : BlockParser}

/-- **One more rule of the keyframes** takes its keys. -/
theorem keyframeStep (hblock : RunsBlock d block block') (sofar : Bool × Token) :
    Steps d false false (Parser.keyframeStep block sofar) (Parser.keyframeStep block' sofar) := by
  intro s n hs hd hstands
  unfold Parser.keyframeStep
  refine (Reads.keyLoop hs hstands.1 sofar.2).bind fun head s₁ h₁ hkeys => ?_
  cases hfirst : head.first with
  | none => exact Reads.pure h₁.isSound hkeys.1.release
  | some loc =>
    have hstands₁ : Stands true (n + 1) s₁ := hkeys.2 (by rw [hfirst]; simp)
    have hd₁ : Text.byteLength s₁.stream.source < n + d := by
      rw [h₁.source_eq]
      exact hd
    refine Reads.ite (fun _ => ?_) fun _ => ?_
    · exact GoesOn.bind (hblock _ _).discard (fun _ => GoesOn.yield _) s₁ n h₁.isSound hd₁
        hstands₁.1
    · refine (Reads.unget h₁.isSound hkeys.1.1 hstands₁.1 (hstands₁.2 rfl)).bind
        fun _ s₂ h₂ hback => ?_
      exact GoesOn.bind (hblock _ _).discard (fun _ => GoesOn.yield _) s₂ n h₂.isSound
        (by rw [h₂.source_eq]; exact hd₁) hback.1

theorem keyframesRule (hblock : RunsBlock d block block') (start : Token) :
    Runs d false false (Parser.keyframesRule block start) (Parser.keyframesRule block' start) := by
  unfold Parser.keyframesRule
  refine (mustMatchSmart _).bind fun name => (mustMatchSmart _).discard.release.bind fun _ => ?_
  refine (fire ⟨EventKind.noConfusion, EventKind.noConfusion⟩).bind fun _ => ?_
  refine (repeating fun sofar => keyframeStep hblock sofar).bind fun r => ?_
  refine ite (fun _ => pure_bind ?_) fun _ => (mustMatchSmart _).release.bind fun _ => ?_
  · exact fire ⟨EventKind.noConfusion, EventKind.noConfusion⟩
  · exact fire ⟨EventKind.noConfusion, EventKind.noConfusion⟩

/-! ## The other at-rules -/

theorem containerRule (hblock : RunsBlock d block block') (start : Token) :
    Runs d false false (Parser.containerRule block start) (Parser.containerRule block' start) := by
  unfold Parser.containerRule
  extract_lets rest rest'
  have hrest : ∀ name, Runs d false false (rest name) (rest' name) := fun name =>
    (condition _).release.bind fun _ => ruleBlock hblock start _
  refine found_bind (fun _ _ hs => Reads.matchSmart hs _) (fun t _ => ?_) (hrest _).pure_bind
  exact ite (fun _ => unget.bind fun _ => (hrest _).pure_bind) fun _ => (hrest _).of_false.pure_bind

theorem pageRule (hblock : RunsBlock d block block') (start : Token) :
    Runs d false false (Parser.pageRule block start) (Parser.pageRule block' start) := by
  unfold Parser.pageRule
  refine (matchSmart _).bind fun id => ?_
  extract_lets body page body' page'
  have hpage : Runs d false false (page ()) (page' ()) := by
    refine (matchKinds _).bind fun colon => ite (fun _ => ?_) fun _ => ?_
    · exact (mustMatch _).release.bind fun _ => pure_bind (descriptorBlock hblock _ _ _ _)
    · exact pure_bind (descriptorBlock hblock _ _ _ _)
  cases id with
  | none => exact hpage
  | some t => exact ite (fun _ => failAt_bind _ _) fun _ => hpage

theorem unknownRule (start : Token) :
    Runs d false false (Parser.unknownRule start) (Parser.unknownRule start) := by
  unfold Parser.unknownRule
  refine options.bind fun _ => ite (fun _ => throw_bind _) fun _ => ?_
  exact (warn _ _).bind fun _ => skipBroken false

end Runs

namespace Reads

variable {d n : Nat} {s : State} {block block' : BlockParser}

theorem namedRule (hblock : RunsBlock d block block') (hs : s.IsSound)
    (hd : Text.byteLength s.stream.source < n + d) (hn : n ≤ s.offset) {start : Token}
    (hstart : start.IsCut s.stream.source) (hstop : n ≤ start.stop.offset) :
    Reads n (Parser.namedRule block start) (Parser.namedRule block' start) s
      fun _ => Stands false n := by
  have hruns : ∀ {p p' : Parser Unit}, Runs d false false p p' →
      Reads n p p' s fun _ => Stands false n := fun hp => hp s n hs hd (stands_false hn)
  unfold Parser.namedRule
  split
  · exact hruns (Runs.charsetRule start).release
  · exact hruns (Runs.containerRule hblock start)
  · exact hruns (Runs.ruleName.release.bind fun _ => Runs.descriptorBlock hblock _ _ _ _)
  · exact hruns (Runs.documentRule hblock start)
  · exact hruns (Runs.descriptorBlock hblock _ _ _ _)
  · exact hruns (Runs.ruleName.release.bind fun _ => Runs.descriptorBlock hblock _ _ _ _)
  · exact hruns (Runs.importRule start).release
  · exact hruns (Runs.keyframesRule hblock start)
  · exact hruns (layerRule hblock start)
  · exact hruns ((Runs.mediaQueries false).bind fun _ => Runs.ruleBlock hblock _ _)
  · exact hruns (Runs.namespaceRule start).release
  · exact hruns (Runs.pageRule hblock start)
  · exact hruns (Runs.ruleName.release.bind fun _ => Runs.descriptorBlock hblock _ _ _ _)
  · exact scopeRule hblock hs hd hn hstart hstop
  · exact hruns (Runs.descriptorBlock hblock _ _ _ _)
  · exact hruns ((Runs.condition _).release.bind fun _ => Runs.ruleBlock hblock _ _)
  · exact hruns (Runs.unknownRule start)

theorem atRule (hblock : RunsBlock d block block') (hs : s.IsSound)
    (hd : Text.byteLength s.stream.source < n + d) (hn : n ≤ s.offset) {start : Token}
    (hstart : start.IsCut s.stream.source) (hstop : n ≤ start.stop.offset) (top : Bool) :
    Reads n (Parser.atRule block start top) (Parser.atRule block' start top) s
      fun _ => Stands false n := by
  unfold Parser.atRule
  refine options (ite (fun _ => ?_) fun _ => namedRule hblock hs hd hn hstart hstop)
  exact Runs.skipBroken false s n hs hd (stands_false hn)

end Reads

end Stylesheet
