import Stylesheet.Proofs.Completion
import Stylesheet.Proofs.Tells.AtRule

/-!
# What reading rules, blocks and whole texts reports

A block ends with the brace that its loop stops at, and the loop does
stop at one, since it is never cut short. A failure inside a block goes
through it only if it is not caught there; whoever catches it reports an
error, so that every block that was opened on the way is given up at
one.

A failure of a rule that stands in no block is reported as an error, at
which every block that was left open is given up. So the loop over the
rules leaves no block open, and neither does a stylesheet.
-/

namespace Stylesheet

open Parse (State)
open Parse.State (Keeps)

namespace Emits

variable {source : List Char} {held : Bool} {base open_ : List BlockKind} {t : Token}
  {block : BlockParser} {shape : BlockShape}

/-! ## Style rules -/

theorem remembered (loc : Location) :
    Tells source held open_ (Parser.remembered loc) fun r => r = none := by
  refine silent fun s hs _ _ => ?_
  have hrun : Parser.remembered loc s = (.ok none, s) := by
    have hstore := hs.store
    show (Except.ok _, _) = _
    rw [hstore]
  rw [hrun]
  exact ⟨Keeps.refl hs, rfl, rfl, fun _ h => (Except.ok.inj h).symm, fun _ h => by cases h⟩

theorem openInStore (start : Location) :
    Tells source held open_ (Parser.openInStore start) fun r => r = none := by
  refine silent fun s hs _ _ => ?_
  have hrun : Parser.openInStore start s = (.ok none, s) := by
    have hstore := hs.store
    show (Except.ok _, _) = _
    rw [hstore]
  rw [hrun]
  exact ⟨Keeps.refl hs, rfl, rfl, fun _ h => (Except.ok.inj h).symm, fun _ h => by cases h⟩

theorem ruleHead (ht : IsPlaced source t) :
    Tells source held open_ (Parser.ruleHead t) (IsPlaced source) := by
  unfold Parser.ruleHead
  refine (selectorGroup _ _ _ _ _ (isPlaced_some.mpr ht)).bind fun r hr => ?_
  cases r with
  | some selectors => exact pure hr
  | none => exact unget.bind fun _ _ => pure isPlaced_none

theorem checkNesting (selectors : List Selector) {loc : Location} (hloc : IsPlace source loc) :
    Tells source held open_ (Parser.checkNesting selectors loc) fun _ => True := by
  unfold Parser.checkNesting
  refine state.bind fun s _ => ite (fun _ => ?_) fun _ => pure trivial
  refine fireError ?_ hloc []
  rw [isPlaced_diagnostic]
  rintro _ ⟨⟩
  exact hloc

/-- **A broken rule**: the blocks that were left open are given up. -/
theorem ruleFailed {e : Diagnostic} (he : IsPlaced source e) (braceSeen : Bool)
    (lost : List BlockKind) :
    Emits source held open_ (lost ++ open_) open_ (Parser.ruleFailed e braceSeen)
      fun _ => True := by
  unfold Parser.ruleFailed
  refine options.bind fun _ _ => ite (fun _ => ?_) fun _ => ?_
  · exact throw_bind_of_suffix ⟨lost, rfl⟩ he
  · exact (recover he braceSeen lost).bind fun _ _ => pure trivial

theorem ruleBody (hblock : TellsBlock source block) (ht : IsPlaced source t) (storable : Bool)
    {selectors : List Selector} (hselectors : IsPlaced source selectors) :
    Tells source false open_ (Parser.ruleBody block t storable selectors) fun _ => True := by
  have hlocation := (isPlaced_token.mp ht).1
  unfold Parser.ruleBody
  extract_lets start shape filed rest
  have hstart : IsPlace source start := by
    cases selectors with
    | nil => exact hlocation
    | cons first _ => exact (isPlaced_selector.mp (isPlaced_cons.mp hselectors).1).1
  have hrest : Tells source false open_ (rest none) fun _ => True := by
    refine (checkNesting selectors hlocation).bind fun _ _ => ?_
    refine attempt_bind (mustReuse _) (fun _ _ => ?_) fun e lost he =>
      (ruleFailed he false lost).pure_bind
    refine attempt_bind (hblock open_ start _ hstart (isPlaced_some.mpr hselectors))
      (fun stop _ => ?_) fun e lost he => (ruleFailed he true lost).pure_bind
    exact ite (fun _ => (pure trivial).pure_bind) fun _ => (pure trivial).pure_bind
  refine ite (fun _ => ?_) fun _ => hrest.pure_bind
  refine (openInStore start).bind fun id hid => ?_
  subst hid
  exact hrest

theorem styleRule (hblock : TellsBlock source block) (ht : IsPlaced source t) :
    Tells source false open_ (Parser.styleRule block t) fun _ => True := by
  unfold Parser.styleRule
  refine state.bind fun s _ => ?_
  extract_lets storable rest
  have hrest : Tells source false open_ (rest none) fun _ => True := by
    refine attempt_bind (ruleHead ht) (fun head hhead => ?_) fun e lost he =>
      ruleFailed he false lost
    cases head with
    | none => exact pure trivial
    | some selectors => exact ruleBody hblock ht storable (isPlaced_some.mp hhead)
  refine ite (fun _ => ?_) fun _ => hrest.pure_bind
  refine (remembered t.location).bind fun r hr => ?_
  subst hr
  exact hrest

/-! ## Items -/

theorem blockItem (hblock : TellsBlock source block) (ht : t.IsCut source) (shape : BlockShape) :
    Tells source false open_ (Parser.blockItem block shape t) fun _ => True := by
  unfold Parser.blockItem
  refine state.bind fun s _ => ?_
  extract_lets inStyle found rest
  have hrest : ∀ declared, Tells source false open_ (rest declared) fun _ => True := fun _ =>
    ite (fun _ => pure trivial) fun _ => ite
      (fun _ => (styleRule hblock ht.isPlaced).bind fun _ _ => pure trivial)
      fun _ => failAt ht.isPlaced
  refine ite (fun _ => ?_) fun _ => options.bind fun _ _ => ite (fun _ => ?_)
    fun _ => (hrest _).pure_bind
  · exact ite (fun _ => (marginRule hblock ht.isPlaced).bind fun _ _ => pure trivial)
      fun _ => (atRule hblock ht false).bind fun _ _ => pure trivial
  · exact (declaration isPlaced_none ht).bind fun declared _ => hrest declared

/-- The kind of the token that ends a block. -/
def endKind (toEnd : Bool) : TokenKind := if toEnd then .eof else .rBrace

/-- **What ends a block was read**, and is of the right kind. -/
def Closed (source : List Char) (toEnd : Bool) (sofar : Parser.BlockSoFar) : Prop :=
  ∃ t, sofar.close = some t ∧ t.IsCut source ∧ t.kind = endKind toEnd

theorem blockItemStep (hblock : TellsBlock source block) (ht : t.IsCut source)
    (shape : BlockShape) (toEnd : Bool) (sofar : Parser.BlockSoFar) :
    Tells source false open_ (Parser.blockItemStep block shape sofar t)
      (Round (fun _ => True) (Closed source toEnd)) := by
  unfold Parser.blockItemStep
  extract_lets key rest
  refine ite (fun _ => failAt_bind ht.isPlaced) fun _ => ?_
  refine attempt_bind (blockItem hblock ht shape) (fun _ _ => pure trivial) fun e lost he => ?_
  refine options.bind fun _ _ => ite (fun _ => ?_) fun _ => ?_
  · exact throw_bind_of_suffix ⟨lost, rfl⟩ he
  · exact (recover he false lost).bind fun _ _ => pure trivial

theorem blockStep (hblock : TellsBlock source block) (shape : BlockShape) (toEnd : Bool)
    (sofar : Parser.BlockSoFar) :
    Tells source false open_ (Parser.blockStep block shape toEnd sofar)
      (Round (fun _ => True) (Closed source toEnd)) := by
  unfold Parser.blockStep
  refine (next true false).bind fun t ht => ?_
  split
  · next hend =>
    refine ite (fun htoEnd => pure ⟨t, rfl, ht, ?_⟩) fun _ => failAt ht.isPlaced
    rw [hend, endKind, if_pos htoEnd]
  · exact pure trivial
  · exact pure trivial
  · refine ite (fun hbrace => pure ⟨t, rfl, ht, ?_⟩) fun _ =>
      blockItemStep hblock ht shape toEnd sofar
    obtain ⟨hkind, htoEnd⟩ : t.kind = .rBrace ∧ toEnd = false := by simpa using hbrace
    rw [hkind, htoEnd]
    rfl

/-- **The loop over the items of a block** stops at what ends it. -/
theorem blockLoop (hblock : TellsBlock source block) (hruns : ∀ d, RunsBlock d block block)
    (shape : BlockShape) (toEnd : Bool) :
    Tells source false open_
      (Parser.repeating ⟨false, none, none⟩ (Parser.blockStep block shape toEnd))
      (Closed source toEnd) := by
  refine ⟨fun s hs hsource hheld => ?_⟩
  have hloop : Tells source false open_
      (Parser.repeating ⟨false, none, none⟩ (Parser.blockStep block shape toEnd))
      fun _ => True :=
    repeating (fun _ => True) trivial fun sofar _ => (blockStep hblock shape toEnd sofar).weaken
      fun r _ => by cases r <;> trivial
  have hreads := Reads.blockLoop (n := 0) (Q := fun sofar _ => Closed source toEnd sofar)
    (hruns (Text.byteLength s.stream.source)) hs (by omega) (Nat.zero_le _) shape toEnd
    fun sofar sofar' s₁ s₂ h₁ hstep _ => by
      have hheld₁ : s₁.deferred.isSome = false := by
        rw [h₁.deferred (by simpa using hheld)]
        rfl
      have hround : Tells source false open_ (Parser.blockStep block shape toEnd sofar) _ :=
        blockStep hblock shape toEnd sofar
      obtain ⟨_, -, hok, -⟩ := hround.run s₁ h₁.isSound (h₁.source_eq.trans hsource) hheld₁
      exact (hok _ (congrArg Prod.fst hstep)).1
  obtain ⟨new, hadds, hok, herror⟩ := hloop.run s hs hsource hheld
  exact ⟨new, hadds, fun a ha => ⟨hreads.ok a ha, (hok a ha).2⟩, herror⟩

/-! ## Blocks -/

theorem blockItems (hblock : TellsBlock source block) (hruns : ∀ d, RunsBlock d block block)
    (shape : BlockShape) (toEnd : Bool) :
    Tells source false open_ (Parser.blockItems block shape toEnd)
      fun stop => stop.close.IsCut source ∧ stop.close.kind = endKind toEnd := by
  unfold Parser.blockItems
  extract_lets styles
  have hdepth : ∀ g : Nat → Nat → Nat, Tells source false open_
      (Parser.update fun s => { s with depth := g s.depth 1, inStyle := g s.inStyle styles })
      fun _ => True := fun _ => adjust fun _ => ⟨rfl, rfl, rfl, rfl, rfl, rfl⟩
  refine (hdepth (· + ·)).bind fun _ _ => ?_
  refine attempt_adjust (blockLoop hblock hruns shape toEnd) (fun _ => ⟨rfl, rfl, rfl, rfl, rfl, rfl⟩)
    (fun sofar hsofar => ?_) fun _ => rfl
  obtain ⟨close, hclose, hkind⟩ := hsofar
  refine pure_bind (current.bind fun _ _ => pure ?_)
  rw [hclose]
  exact hkind

theorem blockWith (hblock : TellsBlock source block) (hruns : ∀ d, RunsBlock d block block) :
    TellsBlock source (Parser.blockWith block) := by
  intro open_ start shape hstart hkind
  unfold Parser.blockWith
  extract_lets items started
  have hstarted : Tells source false open_ (started ()) (BlockEnd.IsBrace source) := by
    unfold started items
    cases hevent : shape.event with
    | none => exact (blockItems hblock hruns shape false).bind fun stop hstop => pure hstop
    | some kind =>
      rw [hevent] at hkind
      have hkind := isPlaced_some.mp hkind
      refine (fireStart hkind hstart).bind fun _ _ => ?_
      refine ((blockItems hblock hruns shape false).rebase (List.suffix_cons _ _)).bind
        fun stop hstop => ?_
      exact (fireStop hkind _ hstop.1 hstop.2).bind fun _ _ => pure hstop
  exact ite (fun _ => hstarted) fun _ => (mustMatchSmart _).discard.bind fun _ _ => hstarted

theorem blockTo (depth : Nat) : TellsBlock source (Parser.blockTo depth) := by
  induction depth with
  | zero => exact fun _ _ _ _ _ => tooDeep
  | succ depth ih => exact blockWith ih fun d => Runs.blockTo_self d depth

end Emits

theorem Emits.block {source : List Char} : TellsBlock source Parser.block :=
  fun open_ start shape hstart hkind =>
    budget.bind fun depth _ => blockTo depth open_ start shape hstart hkind

/-! ## Whole texts -/

namespace Emits

variable {source : List Char} {open_ : List BlockKind} {t : Token}

theorem topRule (ht : t.IsCut source) :
    Tells source false open_ (Parser.topRule t) fun _ => True := by
  unfold Parser.topRule
  split
  · exact atRule block ht true
  · exact pure trivial
  · refine (styleRule block ht.isPlaced).bind fun outcome _ => ?_
    split
    · exact grab.bind fun u hu => ite (fun _ => pure trivial) fun _ => failAt hu.isPlaced
    · exact pure trivial

theorem sheetStep :
    Tells source false open_ (Parser.sheetStep ()) (Round (fun _ => True) fun _ => True) := by
  unfold Parser.sheetStep
  refine grab.bind fun t ht => ite (fun _ => pure trivial) fun _ => ?_
  refine attempt_bind (topRule ht) (fun _ _ => pure trivial) fun e lost he => ?_
  refine options.bind fun _ _ => ite (fun _ => ?_) fun _ => ?_
  · exact throw_bind_of_suffix ⟨lost, rfl⟩ he
  · exact (report he lost).bind fun _ _ => pure trivial

theorem sheetLoop :
    Tells source false open_ (Parser.repeating () Parser.sheetStep) fun _ => True :=
  repeating (fun _ => True) trivial fun _ _ => sheetStep

/-! ## Single constructs -/

theorem expectEnd : Tells source false open_ Parser.expectEnd fun _ => True := by
  unfold Parser.expectEnd
  refine current.bind fun t ht => ?_
  extract_lets rest
  have hrest : ∀ u, IsPlaced source u → Tells source false open_ (rest u) fun _ => True :=
    fun u hu => ite (fun _ => pure trivial) fun _ => failAt hu
  exact ite (fun _ => grab.bind fun u hu => hrest u hu.isPlaced) fun _ => (hrest t ht).pure_bind

theorem singleRule : Tells source false open_ Parser.singleRule fun _ => True := by
  unfold Parser.singleRule
  refine grab.bind fun t ht => ?_
  extract_lets rest
  have hrest : ∀ u, Tells source false open_ (rest u) fun _ => True := fun _ =>
    grab.discard.bind fun _ _ => expectEnd
  refine ite (fun _ => (atRule block ht false).bind fun u _ => hrest u) fun _ => ?_
  exact (styleRule block ht.isPlaced).bind fun outcome _ =>
    ite (fun _ => failAt_bind ht.isPlaced) fun _ => hrest ()

theorem styleAttribute : Tells source false open_ Parser.styleAttribute fun _ => True := by
  exact (blockItems block (fun _ => Runs.block) _ true).discard

end Emits

end Stylesheet
