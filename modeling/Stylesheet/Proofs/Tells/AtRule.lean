import Stylesheet.Parse.AtRule
import Stylesheet.Proofs.Tells.Declaration

/-!
# What reading at-rules reports

A condition opens no blocks, and reports the declarations and selectors
that it tests, placed where they stand. An at-rule with a body reports its
start and its end, and whatever its body reports comes between the two. If
the body fails, the at-rule is left open, as are the blocks inside it that
the failure went through. A broken prelude of `@scope` is caught before
anything was opened.
-/

namespace Stylesheet

/-! ## Conditions -/

/-- **A reader of tests that reports what is placed in a source.** -/
def TellsTest (source : List Char) (test : Parser.TestParser) : Prop :=
  ∀ (open_ : List BlockKind) (kind : ConditionKind) (first : Option Token),
    IsPlaced source first → Tells source false open_ (test kind first) fun _ => True

namespace Emits

variable {source : List Char} {held : Bool} {open_ : List BlockKind} {t : Token}
  {kind : ConditionKind} {test : Parser.TestParser}

/-- The opening bracket of a function is placed where its name is. -/
theorem openParen_isPlaced (ht : IsPlaced source t) : IsPlaced source (Parser.openParen t) :=
  isPlaced_token.mpr (isPlaced_token.mp ht)

theorem closeTest : Tells source held open_ Parser.closeTest fun _ => True :=
  (mustMatchSmart _).discard

theorem joinedStep (htest : TellsTest source test) {sofar : Option Token × Keywords × Bool}
    (hsofar : IsPlaced source sofar.1) :
    Tells source false open_ (Parser.joinedStep test kind sofar)
      (Round (IsPlaced source ·.1) (IsPlaced source ·.1)) := by
  unfold Parser.joinedStep
  refine (htest _ _ _ hsofar).bind fun _ _ => (matchKeyword _).bind fun found _ => ?_
  cases found with
  | none => exact pure hsofar
  | some word => exact pure isPlaced_none

theorem conditionWith (htest : TellsTest source test) {first : Option Token}
    (hfirst : IsPlaced source first) :
    Tells source false open_ (Parser.conditionWith test kind first) fun _ => True := by
  unfold Parser.conditionWith
  extract_lets rest
  have hrest : ∀ t, IsPlaced source t → Tells source false open_ (rest t) fun _ => True :=
    fun t ht => ite (fun _ => htest _ _ _ isPlaced_none) fun _ =>
      (repeating (IsPlaced source ·.1) (isPlaced_some.mpr ht) fun _ h =>
        joinedStep htest h).discard
  cases first with
  | some t => exact (hrest t (isPlaced_some.mp hfirst)).pure_bind
  | none => exact grab.bind fun t ht => hrest t ht.isPlaced

theorem ownTest (htest : TellsTest source test) (ht : IsPlaced source t) {bracket : Option Token}
    (hbracket : IsPlaced source bracket) :
    Tells source false open_ (Parser.ownTest test kind t bracket) fun _ => True := by
  unfold Parser.ownTest
  split
  · refine ite (fun _ => ?_) fun _ => pure trivial
    refine (selector isPlaced_none false).bind fun found hfound => ?_
    cases found with
    | none => exact failHere
    | some s =>
      have hs := isPlaced_some.mp hfound
      have hfire : Tells source false open_ (Parser.fire (.supportsSelector s) s.location)
          fun _ => True :=
        firePlain ⟨EventKind.noConfusion, EventKind.noConfusion⟩ trivial hs
          (isPlaced_selector.mp hs).1
      exact unget.bind fun _ _ => hfire.bind fun _ _ => pure trivial
  · refine ite (fun _ => ?_) fun _ => pure trivial
    exact unget.bind fun _ _ => (mediaFeature hbracket).discard.bind fun _ _ =>
      unget.bind fun _ _ => pure trivial
  · refine ite (fun _ => ?_) fun _ => pure trivial
    exact (conditionWith htest (isPlaced_some.mpr (openParen_isPlaced ht))).bind fun _ _ =>
      unget.bind fun _ _ => pure trivial
  · exact pure trivial

theorem nameTest (ht : t.IsCut source) :
    Tells source false open_ (Parser.nameTest t) fun _ => True := by
  unfold Parser.nameTest
  refine (matchSmart _).bind fun found hfound => ?_
  cases found with
  | none => exact closeTest
  | some after =>
    refine ite (fun _ => ?_) fun _ => ?_
    · exact (declaration (isPlaced_some.mpr (hfound after rfl).isPlaced) ht).discard
    · exact (expr _ _ _ _).discard.bind fun _ _ => (mustReuse _).discard

theorem bracketTest (htest : TellsTest source test) (ht : IsPlaced source t) :
    Tells source false open_ (Parser.bracketTest test kind t) fun _ => True := by
  unfold Parser.bracketTest
  refine (matchSmart _).bind fun found hfound => ?_
  cases found with
  | none => exact closeTest
  | some t' =>
    have ht' := hfound t' rfl
    refine (ownTest htest ht'.isPlaced (isPlaced_some.mpr ht)).bind fun own _ => ?_
    refine ite (fun _ => closeTest) fun _ => ite (fun _ => ?_) fun _ => ite (fun _ => ?_)
      fun _ => nameTest ht'
    · exact (conditionWith htest (isPlaced_some.mpr ht'.isPlaced)).bind fun _ _ => closeTest
    · exact (htest _ _ _ isPlaced_none).bind fun _ _ => closeTest

theorem testTo (depth : Nat) : TellsTest source (Parser.testTo depth) := by
  induction depth with
  | zero => exact fun _ _ _ _ => tooDeep
  | succ depth ih =>
    intro open_ kind first hfirst
    unfold Parser.testTo
    extract_lets rest
    have hrest : ∀ t, IsPlaced source t → Tells source false open_ (rest t) fun _ => True := by
      intro t ht
      refine (ownTest ih ht isPlaced_none).bind fun own _ => ite (fun _ => closeTest) fun _ => ?_
      exact ite (fun _ => (function ht false).discard) fun _ =>
        ite (fun _ => bracketTest ih ht) fun _ => closeTest
    cases first with
    | some t => exact (hrest t (isPlaced_some.mp hfirst)).pure_bind
    | none => exact (mustMatchSmart _).bind fun t ht => hrest t ht.1.isPlaced

theorem conditionInParens : TellsTest source Parser.conditionInParens :=
  fun open_ kind first hfirst => budget.bind fun depth _ => testTo depth open_ kind first hfirst

theorem condition (kind : ConditionKind) :
    Tells source false open_ (Parser.condition kind) fun _ => True :=
  budget.bind fun depth _ => conditionWith (testTo depth) isPlaced_none

end Emits

/-! ## At-rules -/

/-- **The end of a block is a closing brace of the source.** -/
def BlockEnd.IsBrace (source : List Char) (stop : BlockEnd) : Prop :=
  stop.close.IsCut source ∧ stop.close.kind = .rBrace

/-- **A reader of blocks that closes what it opens** with a brace. -/
def TellsBlock (source : List Char) (block : BlockParser) : Prop :=
  ∀ (open_ : List BlockKind) (start : Location) (shape : BlockShape), IsPlace source start →
    IsPlaced source shape.event →
    Tells source false open_ (block start shape) (BlockEnd.IsBrace source)

namespace Emits

variable {source : List Char} {held : Bool} {base open_ : List BlockKind} {t : Token}
  {block : BlockParser} {kind : BlockKind}

/-! ## Starts and ends -/

/-- **The start of a block** opens it. -/
theorem fireStart (hkind : IsPlaced source kind) {location : Location}
    (hlocation : IsPlace source location) :
    Emits source held base open_ (kind :: open_) (Parser.fire (.start kind) location)
      fun _ => True :=
  fire ⟨EventKind.noConfusion, EventKind.noConfusion⟩
    ⟨isPlaced_event.mpr ⟨hlocation, hkind⟩, fun _ _ h => by cases h⟩ (.start (.done _))

/-- **The end of a block** at a closing brace closes it. -/
theorem fireStop (hkind : IsPlaced source kind) (empty : Bool) (ht : t.IsCut source)
    (hbrace : t.kind = .rBrace) :
    Emits source held base (kind :: open_) open_ (Parser.fire (.stop kind empty) t.location)
      fun _ => True :=
  fire ⟨EventKind.noConfusion, EventKind.noConfusion⟩
    ⟨isPlaced_event.mpr ⟨ht.location_isPlace, hkind⟩, fun _ _ _ => ⟨t, ht, hbrace, rfl⟩⟩
    (.stop (.done _))

/-! ## Bodies -/

theorem descriptorBlock (hblock : TellsBlock source block) (ht : IsPlaced source t)
    (scope : String) (hkind : IsPlaced source kind) (margins : Bool) :
    Tells source false open_ (Parser.descriptorBlock block t scope kind margins) fun _ => True :=
  (hblock _ _ _ (isPlaced_token.mp ht).1 (isPlaced_some.mpr hkind)).discard

theorem ruleBlock (hblock : TellsBlock source block) (ht : IsPlaced source t)
    (hkind : IsPlaced source kind) :
    Tells source false open_ (Parser.ruleBlock block t kind) fun _ => True :=
  (hblock _ _ _ (isPlaced_token.mp ht).1 (isPlaced_some.mpr hkind)).discard

theorem marginRule (hblock : TellsBlock source block) (ht : IsPlaced source t) :
    Tells source false open_ (Parser.marginRule block t) fun _ => True :=
  descriptorBlock hblock ht _ (fun _ h => by cases h) _

theorem ruleName : Tells source held open_ Parser.ruleName fun _ => True :=
  (mustMatchSmart _).bind fun _ _ => pure trivial

/-! ## Statements -/

theorem charsetRule (ht : IsPlaced source t) :
    Tells source held open_ (Parser.charsetRule t) fun _ => True := by
  unfold Parser.charsetRule
  refine (mustMatchSmart _).bind fun charset _ => (mustMatchSmart _).discard.bind fun _ _ => ?_
  exact firePlain ⟨EventKind.noConfusion, EventKind.noConfusion⟩ trivial (fun _ h => by cases h)
    (isPlaced_token.mp ht).1

theorem namespaceRule (ht : IsPlaced source t) :
    Tells source held open_ (Parser.namespaceRule t) fun _ => True := by
  unfold Parser.namespaceRule
  refine (matchSmart _).bind fun name _ => (mustMatchSmart _).bind fun uri _ => ?_
  refine (mustMatchSmart _).discard.bind fun _ _ => ?_
  exact firePlain ⟨EventKind.noConfusion, EventKind.noConfusion⟩ trivial (fun _ h => by cases h)
    (isPlaced_token.mp ht).1

theorem layerNameStep (sofar : String × Option Token) :
    Tells source held open_ (Parser.layerNameStep sofar)
      (Round (fun _ => True) fun _ => True) := by
  unfold Parser.layerNameStep
  rcases sofar with ⟨name, _ | t⟩
  · exact pure trivial
  · refine (matchKinds _).bind fun dot _ => ite (fun _ => pure trivial) fun _ => ?_
    exact (matchKinds _).bind fun _ _ => pure trivial

theorem layerName (first : Option Token) :
    Tells source held open_ (Parser.layerName first) fun _ => True := by
  unfold Parser.layerName
  extract_lets rest
  have hrest : ∀ first, Tells source held open_ (rest first) fun _ => True := fun first =>
    (repeating (fun _ => True) trivial fun sofar _ => layerNameStep sofar).bind fun _ _ =>
      pure trivial
  cases first with
  | some t => exact (hrest _).pure_bind
  | none => exact (matchSmart _).bind fun first _ => hrest first

theorem importLayer :
    Tells source held open_ Parser.importLayer fun r => IsPlaced source r.2 := by
  unfold Parser.importLayer
  refine grab.bind fun t ht => ite (fun _ => ?_) fun _ => ite (fun _ => ?_) fun _ =>
    pure ht.isPlaced
  · exact (layerName none).bind fun name _ => (mustMatchSmart _).discard.bind fun _ _ =>
      grab.bind fun _ ht => pure ht.isPlaced
  · exact grab.bind fun _ ht => pure ht.isPlaced

theorem importRule (ht : IsPlaced source t) :
    Tells source false open_ (Parser.importRule t) fun _ => True := by
  unfold Parser.importRule
  refine (mustMatchSmart _).bind fun uri _ => importLayer.bind fun found hfound => ?_
  rcases found with ⟨layer, t'⟩
  dsimp only
  generalize (t'.kind == .function && t'.name == "supports") = conditional
  have hend : ∀ queries : List MediaQuery, IsPlaced source queries → Tells source false open_
      (do
        Functor.discard (Parser.mustMatchSmart [.semicolon])
        Parser.fire (.import_ (Parser.addressOf uri) layer queries) t.location)
      fun _ => True := fun queries hqueries =>
    (mustMatchSmart _).discard.bind fun _ _ =>
      firePlain ⟨EventKind.noConfusion, EventKind.noConfusion⟩ trivial hqueries
        (isPlaced_token.mp ht).1
  cases conditional with
  | true =>
    exact (conditionInParens _ _ _ (isPlaced_some.mpr (openParen_isPlaced hfound))).bind
      fun _ _ => (mediaQueries false).bind hend
  | false => exact (mediaQueries true).bind hend

/-! ## Layers and scopes -/

theorem layerStep (hblock : TellsBlock source block) (ht : IsPlaced source t)
    (sofar : List String × Bool) :
    Tells source false open_ (Parser.layerStep block t sofar)
      (Round (fun _ => True) fun _ => True) := by
  have hlocation := (isPlaced_token.mp ht).1
  unfold Parser.layerStep
  refine grab.bind fun t' _ => ?_
  extract_lets rest
  have hrest : ∀ found, Tells source false open_ (rest found)
      (Round (fun _ => True) fun _ => True) := by
    rintro ⟨ids, t'⟩
    refine ite (fun _ => ?_) fun _ => ite (fun _ => pure trivial) fun _ => pure trivial
    have hbody : Tells source false open_ (do
        Functor.discard
          (block t.location { event := some (.layer ids.reverse.head?), opened := true })
        return ForInStep.done (ids, true)) (Round (fun _ => True) fun _ => True) :=
      (hblock _ _ _ hlocation (isPlaced_some.mpr fun _ h => by cases h)).discard.bind fun _ _ =>
        pure trivial
    exact ite (fun _ => (warn _ hlocation).bind fun _ _ => hbody) fun _ => hbody
  refine ite (fun _ => ?_) fun _ => (hrest _).pure_bind
  exact (layerName _).bind fun name _ => grab.bind fun _ _ => (hrest _).pure_bind

theorem layerRule (hblock : TellsBlock source block) (ht : IsPlaced source t) :
    Tells source false open_ (Parser.layerRule block t) fun _ => True := by
  unfold Parser.layerRule
  refine (repeating (fun _ => True) trivial fun sofar _ => layerStep hblock ht sofar).bind
    fun r _ => ?_
  rcases r with ⟨ids, blockSeen⟩
  refine ite (fun _ => pure trivial) fun _ => (mustReuse _).discard.bind fun _ _ => ?_
  exact firePlain ⟨EventKind.noConfusion, EventKind.noConfusion⟩ trivial (fun _ h => by cases h)
    (isPlaced_token.mp ht).1

theorem scopeSelectors : Tells source held open_ Parser.scopeSelectors (IsPlaced source) := by
  unfold Parser.scopeSelectors
  refine (selectorGroup _ _ _ _ _ isPlaced_none).bind fun selectors hselectors => ?_
  exact (mustReuse _).discard.bind fun _ _ => pure hselectors

theorem scopePrelude :
    Tells source held open_ Parser.scopePrelude
      fun r => IsPlaced source r.1 ∧ IsPlaced source r.2 := by
  unfold Parser.scopePrelude
  refine grab.bind fun t _ => ?_
  extract_lets rest
  have hrest : ∀ found : Option (List Selector) × Token, IsPlaced source found.1 →
      Tells source held open_ (rest found)
        fun r => IsPlaced source r.1 ∧ IsPlaced source r.2 := by
    rintro ⟨first, t⟩ hfirst
    unfold rest
    dsimp only
    refine ite (fun _ => ?_) fun _ => ?_
    · refine (mustMatchSmart _).discard.bind fun _ _ => scopeSelectors.bind fun last hlast => ?_
      exact grab.discard.bind fun _ _ =>
        pure_bind ((mustReuse _).discard.bind fun _ _ => pure ⟨hfirst, hlast⟩)
    · exact pure_bind ((mustReuse _).discard.bind fun _ _ => pure ⟨hfirst, isPlaced_none⟩)
  refine ite (fun _ => ?_) fun _ => (hrest (_, _) isPlaced_none).pure_bind
  exact scopeSelectors.bind fun first hfirst => grab.bind fun t _ =>
    (hrest (first, t) hfirst).pure_bind

/-- **A failure that is caught only to set a counter back** goes on. -/
theorem attempt_adjust {α β : Type} {p : Parser α} {Q : α → Prop} {Q' : β → Prop}
    {g : Parse.State → Parse.State} {f : Except Diagnostic α → Parser β}
    (h : Tells source held open_ p Q)
    (hsame : ∀ s, (g s).stream = s.stream ∧ (g s).options = s.options ∧ (g s).budget = s.budget ∧
      (g s).store = s.store ∧ (g s).deferred = s.deferred ∧ (g s).events = s.events)
    (hok : ∀ a, Q a → Tells source held open_ (f (.ok a)) Q')
    (herror : ∀ e, f (.error e) = MonadExcept.throw e) :
    Tells source held open_ (do
      let result ← Parser.attempt p
      Parser.update g
      f result) Q' := by
  refine attempt_bind h (fun a ha => (adjust hsame).bind fun _ _ => hok a ha) fun e lost he =>
    (adjust hsame).bind fun _ _ => ?_
  rw [herror]
  exact throw_of_suffix ⟨lost, rfl⟩ he

theorem scopeRule (hblock : TellsBlock source block) (ht : IsPlaced source t) :
    Tells source false open_ (Parser.scopeRule block t) fun _ => True := by
  obtain ⟨hlocation, hstop⟩ := isPlaced_token.mp ht
  unfold Parser.scopeRule
  refine attempt_bind scopePrelude (fun r hr => ?_) fun e lost he => ?_
  · obtain ⟨first, last⟩ := r
    have hkind : IsPlaced source (some (BlockKind.scope first last)) := by
      refine isPlaced_some.mpr fun loc hloc => ?_
      exact (List.mem_append.mp hloc).elim (hr.1 loc) (hr.2 loc)
    have hentered : Tells source false open_
        (Parser.update fun s => { s with inScope := s.inScope + 1 }) fun _ => True :=
      adjust fun _ => ⟨rfl, rfl, rfl, rfl, rfl, rfl⟩
    refine hentered.bind fun _ _ => ?_
    exact attempt_adjust (hblock _ _ _ hlocation hkind)
      (fun _ => ⟨rfl, rfl, rfl, rfl, rfl, rfl⟩) (fun _ _ => pure trivial) fun _ => rfl
  · refine (seek hstop).bind fun _ _ => (setPair none).bind fun _ _ => options.bind fun _ _ => ?_
    exact ite (fun _ => throw_bind_of_suffix ⟨lost, rfl⟩ he) fun _ => recover he false lost

/-! ## Documents -/

theorem documentStep (ht : IsPlaced source t) (functions : List String) :
    Tells source held open_ (Parser.documentStep t functions)
      (Round (fun _ => True) fun _ => True) := by
  have hlocation := (isPlaced_token.mp ht).1
  unfold Parser.documentStep
  extract_lets rest same
  have hrest : ∀ functions, Tells source held open_ (rest functions)
      (Round (fun _ => True) fun _ => True) := fun functions =>
    (matchSmart _).bind fun comma _ => pure (by split_ifs <;> trivial)
  refine (matchSmart _).bind fun found hfound => ?_
  cases found with
  | none =>
    refine options.bind fun _ _ => ite (fun _ => (hrest _).pure_bind) fun _ => ?_
    exact (warn _ hlocation).bind fun _ _ => (hrest _).pure_bind
  | some t' =>
    have ht' := (hfound t' rfl).isPlaced
    refine ite (fun _ => (hrest _).pure_bind) fun _ => ite (fun _ => ?_) fun _ => ?_
    · refine (function ht' false).bind fun part hpart => ?_
      have hpart := (isPlaced_token.mp (isPlaced_part.mp hpart).2.1).1
      exact ite (fun _ => (hrest _).pure_bind) fun _ =>
        (warn _ hpart).bind fun _ _ => (hrest _).pure_bind
    · exact (warn _ (isPlaced_token.mp ht').1).bind fun _ _ => (hrest _).pure_bind

theorem documentBody (hblock : TellsBlock source block) (ht : IsPlaced source t) :
    Tells source false open_ (Parser.documentBody block t) (BlockEnd.IsBrace source) := by
  unfold Parser.documentBody
  refine options.bind fun _ _ => ite (fun _ => ?_) fun _ =>
    hblock _ _ _ (isPlaced_token.mp ht).1 isPlaced_none
  refine (skipBroken true).bind fun _ _ => (mustMatchSmart _).bind fun close hclose => pure ?_
  exact ⟨hclose.1, by simpa using hclose.2⟩

theorem documentRule (hblock : TellsBlock source block) (ht : IsPlaced source t) :
    Tells source false open_ (Parser.documentRule block t) fun _ => True := by
  have hlocation := (isPlaced_token.mp ht).1
  unfold Parser.documentRule
  refine state.bind fun s _ => ?_
  extract_lets rest
  have hrest : Tells source false open_ (rest ()) fun _ => True := by
    refine (repeating (fun _ => True) trivial fun functions _ => documentStep ht functions).bind
      fun functions _ => (mustMatchSmart _).discard.bind fun _ _ => ?_
    extract_lets kind
    have hkind : IsPlaced source kind := fun _ h => by cases h
    refine (fireStart hkind hlocation).bind fun _ _ => ?_
    refine ((documentBody hblock ht).rebase (List.suffix_cons _ _)).bind fun stop hstop => ?_
    exact fireStop hkind _ hstop.1 hstop.2
  exact ite (fun _ => (warn _ hlocation).bind fun _ _ => hrest) fun _ => hrest

/-! ## Keyframes -/

/-- The keys of a keyframe as far as they are read are placed in a
source. -/
structure KeysPlaced (source : List Char) (sofar : Parser.KeysSoFar) : Prop where
  /-- The place of the first key is. -/
  first : IsPlaced source sofar.first
  /-- The token read last is cut from it. -/
  last : sofar.last.IsCut source

theorem keyStep {sofar : Parser.KeysSoFar} (hsofar : KeysPlaced source sofar) :
    Tells source held open_ (Parser.keyStep sofar)
      (Round (KeysPlaced source) (KeysPlaced source)) := by
  unfold Parser.keyStep
  refine grab.bind fun t ht => ite (fun _ => ?_) fun _ =>
    ite (fun _ => pure ⟨hsofar.first, ht⟩) fun _ => failAt ht.isPlaced
  refine grab.bind fun last hlast => ?_
  have hfirst : IsPlace source (sofar.first.getD t.location) := by
    have hplaced := hsofar.first
    cases hfirst : sofar.first with
    | none => exact ht.location_isPlace
    | some loc =>
      rw [hfirst, isPlaced_some, isPlaced_location] at hplaced
      exact hplaced
  have hkeys : KeysPlaced source ⟨t.text :: sofar.keys, some (sofar.first.getD t.location), last⟩ :=
    ⟨isPlaced_some.mpr (isPlaced_location.mpr hfirst), hlast⟩
  refine pure ?_
  split_ifs <;> exact hkeys

theorem keyframeStep (hblock : TellsBlock source block) {sofar : Bool × Token}
    (hsofar : sofar.2.IsCut source) :
    Tells source false open_ (Parser.keyframeStep block sofar)
      (Round (Token.IsCut source ·.2) (Token.IsCut source ·.2)) := by
  unfold Parser.keyframeStep
  have hstart : KeysPlaced source ⟨[], none, sofar.2⟩ := ⟨isPlaced_none, hsofar⟩
  refine (repeating (KeysPlaced source) hstart fun _ h => keyStep h).bind fun head hhead => ?_
  cases hfirst : head.first with
  | none => exact pure hhead.last
  | some loc =>
    have hloc : IsPlace source loc := by
      have hplaced := hhead.first
      rw [hfirst, isPlaced_some, isPlaced_location] at hplaced
      exact hplaced
    have hbody : ∀ opened, Tells source false open_ (do
        Functor.discard (block loc { event := some (.keyframeRule head.keys.reverse),
                                     opened := opened, declarations := true })
        return ForInStep.yield (true, head.last))
        (Round (Token.IsCut source ·.2) (Token.IsCut source ·.2)) := fun opened =>
      (hblock _ _ _ hloc (isPlaced_some.mpr fun _ h => by cases h)).discard.bind fun _ _ =>
        pure hhead.last
    exact ite (fun _ => hbody _) fun _ => unget.bind fun _ _ => hbody _

theorem keyframesRule (hblock : TellsBlock source block) (ht : t.IsCut source) :
    Tells source false open_ (Parser.keyframesRule block t) fun _ => True := by
  unfold Parser.keyframesRule
  refine (mustMatchSmart _).bind fun name _ => (mustMatchSmart _).discard.bind fun _ _ => ?_
  extract_lets kind
  have hkind : IsPlaced source kind := fun _ h => by cases h
  refine (fireStart hkind ht.location_isPlace).bind fun _ _ => ?_
  refine ((repeating (Token.IsCut source ·.2) ht fun _ h => keyframeStep hblock h).rebase
    (List.suffix_cons _ _)).bind fun r hr => ?_
  refine ite (fun hbrace => pure_bind ?_) fun _ =>
    ((mustMatchSmart _).rebase (List.suffix_cons _ _)).bind fun close hclose => ?_
  · exact fireStop hkind _ hr (beq_iff_eq.mp hbrace)
  · exact fireStop hkind _ hclose.1 (by simpa using hclose.2)

/-! ## The other at-rules -/

theorem containerRule (hblock : TellsBlock source block) (ht : IsPlaced source t) :
    Tells source false open_ (Parser.containerRule block t) fun _ => True := by
  unfold Parser.containerRule
  extract_lets rest
  have hrest : ∀ name, Tells source false open_ (rest name) fun _ => True := fun name =>
    (condition _).bind fun _ _ => ruleBlock hblock ht fun _ h => by cases h
  refine (matchSmart _).bind fun found _ => ?_
  cases found with
  | none => exact (hrest _).pure_bind
  | some t' =>
    exact ite (fun _ => unget.bind fun _ _ => (hrest _).pure_bind) fun _ => (hrest _).pure_bind

theorem pageRule (hblock : TellsBlock source block) (ht : IsPlaced source t) :
    Tells source false open_ (Parser.pageRule block t) fun _ => True := by
  unfold Parser.pageRule
  refine (matchSmart _).bind fun id hid => ?_
  extract_lets body page
  have hbody : ∀ pseudo, Tells source false open_ (body pseudo) fun _ => True := fun pseudo =>
    descriptorBlock hblock ht _ (fun _ h => by cases h) _
  have hpage : Tells source false open_ (page ()) fun _ => True := by
    refine (matchKinds _).bind fun colon _ => ite (fun _ => ?_) fun _ => (hbody _).pure_bind
    exact (mustMatch _).bind fun _ _ => (hbody _).pure_bind
  cases id with
  | none => exact hpage
  | some t' => exact ite (fun _ => failAt_bind (hid t' rfl).isPlaced) fun _ => hpage

theorem unknownRule (ht : IsPlaced source t) :
    Tells source held open_ (Parser.unknownRule t) fun _ => True := by
  have hlocation := (isPlaced_token.mp ht).1
  unfold Parser.unknownRule
  refine options.bind fun _ _ => ite (fun _ => throw_bind ?_) fun _ => ?_
  · rw [isPlaced_diagnostic]
    rintro loc ⟨⟩
    exact hlocation
  · exact (warn _ hlocation).bind fun _ _ => skipBroken false

theorem namedRule (hblock : TellsBlock source block) (ht : t.IsCut source) :
    Tells source false open_ (Parser.namedRule block t) fun _ => True := by
  have hplaced := ht.isPlaced
  unfold Parser.namedRule
  split
  · exact charsetRule hplaced
  · exact containerRule hblock hplaced
  · exact ruleName.bind fun _ _ => descriptorBlock hblock hplaced _ (fun _ h => by cases h) _
  · exact documentRule hblock hplaced
  · exact descriptorBlock hblock hplaced _ (fun _ h => by cases h) _
  · exact ruleName.bind fun _ _ => descriptorBlock hblock hplaced _ (fun _ h => by cases h) _
  · exact importRule hplaced
  · exact keyframesRule hblock ht
  · exact layerRule hblock hplaced
  · exact (mediaQueries false).bind fun _ hqueries => ruleBlock hblock hplaced hqueries
  · exact namespaceRule hplaced
  · exact pageRule hblock hplaced
  · exact ruleName.bind fun _ _ => descriptorBlock hblock hplaced _ (fun _ h => by cases h) _
  · exact scopeRule hblock hplaced
  · exact descriptorBlock hblock hplaced _ (fun _ h => by cases h) _
  · exact (condition _).bind fun _ _ => ruleBlock hblock hplaced fun _ h => by cases h
  · exact unknownRule hplaced

theorem atRule (hblock : TellsBlock source block) (ht : t.IsCut source) (top : Bool) :
    Tells source false open_ (Parser.atRule block t top) fun _ => True := by
  unfold Parser.atRule
  exact options.bind fun _ _ => ite (fun _ => skipBroken false) fun _ => namedRule hblock ht

end Emits

end Stylesheet
