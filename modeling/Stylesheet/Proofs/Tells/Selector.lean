import Stylesheet.Parse.Selector
import Stylesheet.Proofs.Tells.Value

/-!
# What reading selectors reports

A selector is placed in the source with its compounds, combinators and
modifiers, and with the values and selectors in the arguments of its
pseudo-classes. Reading one reports nothing but warnings about such
values.
-/

namespace Stylesheet

open Stylesheet.Parser (AttributeHead CompoundSoFar GroupParser GroupSoFar SelectorSoFar combinatorOf)

/-- **A reader of lists of selectors that are placed in a source.** -/
def TellsGroup (source : List Char) (group : GroupParser) : Prop :=
  ∀ (held : Bool) (open_ : List BlockKind) (first : Option Token) (relative lax : Bool),
    IsPlaced source first →
    Tells source held open_ (group first relative lax) (IsPlaced source)

/-- A compound as far as it is read is placed in a source. -/
structure Parser.CompoundSoFar.Placed (source : List Char) (c : CompoundSoFar) : Prop where
  /-- The modifiers are. -/
  modifiers : IsPlaced source c.modifiers
  /-- The place after it is. -/
  stop : IsPlace source c.stop
  /-- The token that was read too far is. -/
  pending : IsPlaced source c.pending

/-- An element name as far as it is read is placed in a source. -/
structure Parser.ElementName.Placed (source : List Char) (element : ElementName) : Prop where
  /-- The place after it is. -/
  stop : IsPlace source element.stop
  /-- The token that was read too far is. -/
  pending : IsPlaced source element.pending

/-- A selector as far as it is read is placed in a source. -/
structure Parser.SelectorSoFar.Placed (source : List Char) (sofar : SelectorSoFar) : Prop where
  /-- The pieces are. -/
  items : IsPlaced source sofar.items
  /-- The place after it is. -/
  stop : IsPlace source sofar.stop
  /-- The combinator that was read already is. -/
  pending : IsPlaced source sofar.pending

/-- A list of selectors as far as it is read is placed in a source. -/
structure Parser.GroupSoFar.Placed (source : List Char) (sofar : GroupSoFar) : Prop where
  /-- The selectors are. -/
  selectors : IsPlaced source sofar.selectors
  /-- The first token is. -/
  first : IsPlaced source sofar.first

namespace Emits

variable {source : List Char} {held : Bool} {open_ : List BlockKind} {t : Token}
  {group : GroupParser}

/-! ## Modifiers -/

theorem attributeHead (t : Token) :
    Tells source held open_ (Parser.attributeHead t) fun head => IsPlaced source head.close := by
  unfold Parser.attributeHead
  split
  · exact pure isPlaced_none
  · exact (mustMatch _).discard.bind fun _ _ => pure isPlaced_none
  · refine (next false true).bind fun after hafter => ?_
    split
    · exact pure isPlaced_none
    · exact pure isPlaced_none
    · exact pure isPlaced_none
    · exact pure isPlaced_none
    · exact pure (isPlaced_some.mpr hafter.isPlaced)
    · exact failAt hafter.isPlaced

theorem attributeOp {head : AttributeHead} (hhead : IsPlaced source head.close) :
    Tells source held open_ (Parser.attributeOp head) fun head => IsPlaced source head.close := by
  unfold Parser.attributeOp
  refine ite (fun _ => ?_) fun _ => pure hhead
  exact (mustMatchSmart _).bind fun t ht =>
    ite (fun _ => pure (isPlaced_some.mpr ht.1.isPlaced)) fun _ => pure hhead

theorem attributeValue :
    Tells source held open_ Parser.attributeValue fun r => IsPlaced source r.2.2 := by
  unfold Parser.attributeValue
  refine (mustMatchSmart _).bind fun value _ => grab.bind fun t ht => ?_
  exact ite (fun _ => pure (isPlaced_some.mpr ht.isPlaced)) fun _ =>
    ite (fun _ => pure isPlaced_none) fun _ => failAt ht.isPlaced

theorem attributeTest (ht : IsPlaced source t) :
    Tells source held open_ (Parser.attributeTest t) (IsPlaced source) := by
  unfold Parser.attributeTest
  refine (mustMatchSmart _).bind fun first _ => (setPair _).bind fun _ _ => ?_
  refine (attributeHead first).bind fun head hhead => ?_
  have hmade : ∀ {kind text}, Selector.placesInKind kind = [] →
      IsPlaced source (⟨kind, text, t.location⟩ : Modifier Selector) := fun hkind =>
    (isPlaced_modifier hkind).mpr (isPlaced_token.mp ht).1
  extract_lets afterName
  have hafterName : ∀ name, Tells source held open_ (afterName name) (IsPlaced source) := by
    intro name
    refine (attributeOp hhead).bind fun head hhead => ?_
    extract_lets afterValue
    have hafterValue : ∀ found, Tells source held open_ (afterValue found) (IsPlaced source) := by
      rintro ⟨value, flag, close⟩
      cases close with
      | some t =>
        exact pure_bind ((setPair _).bind fun _ _ => (slice _ _).bind fun _ _ => pure (hmade rfl))
      | none =>
        exact (mustMatchSmart _).bind fun _ _ => (setPair _).bind fun _ _ =>
          (slice _ _).bind fun _ _ => pure (hmade rfl)
    exact ite (fun _ => attributeValue.bind fun _ _ => (hafterValue _).pure_bind) fun _ =>
      (hafterValue _).pure_bind
  cases head.name with
  | some name => exact pure_bind (hafterName name)
  | none => exact (mustMatch _).bind fun _ _ => (hafterName _).pure_bind

theorem selectorArgs (hgroup : TellsGroup source group) (name : String) :
    Tells source held open_ (Parser.selectorArgs group name) (IsPlaced source) := by
  unfold Parser.selectorArgs
  refine (hgroup _ _ _ _ _ isPlaced_none).bind fun list hlist => ?_
  cases list with
  | none => exact failHere
  | some list => exact (mustReuse _).discard.bind fun _ _ => pure (isPlaced_some.mp hlist)

theorem countArgs (hgroup : TellsGroup source group) (name : String) :
    Tells source held open_ (Parser.countArgs group name) (IsPlaced source) := by
  unfold Parser.countArgs
  refine readNth.bind fun count _ => (next false true).bind fun first hfirst => ?_
  extract_lets rest
  have hrest : ∀ t, Tells source held open_ (rest t) (IsPlaced source) := by
    intro t
    cases count with
    | some count =>
      exact ite (fun _ => (selectorArgs hgroup name).bind fun _ hargs =>
        pure (isPlaced_args_nth.mpr hargs)) fun _ =>
        ite (fun _ => pure (isPlaced_args_nth.mpr isPlaced_nil)) fun _ => failAt hfirst.isPlaced
    | none =>
      exact ite (fun _ => pure (isPlaced_args_value.mpr isPlaced_none)) fun _ =>
        failAt hfirst.isPlaced
  exact ite (fun _ => grab.bind fun t _ => hrest t) fun _ => (hrest _).pure_bind

theorem pseudoArgs (hgroup : TellsGroup source group) (name : String) :
    Tells source held open_ (Parser.pseudoArgs group name) (IsPlaced source) := by
  unfold Parser.pseudoArgs
  refine ite (fun _ => countArgs hgroup name) fun _ => ite (fun _ => ?_) fun _ => ?_
  · exact (selectorArgs hgroup name).bind fun _ hargs => pure (isPlaced_args_selectors.mpr hargs)
  · refine (expr _ _ _ _).bind fun value hvalue => current.bind fun close hclose => ?_
    exact ite (fun _ => pure (isPlaced_args_value.mpr hvalue)) fun _ => failAt_bind hclose

theorem pseudo (hgroup : TellsGroup source group) (ht : IsPlaced source t) :
    Tells source held open_ (Parser.pseudo group t) (IsPlaced source) := by
  unfold Parser.pseudo
  refine (matchKinds _).bind fun colons _ => (mustMatch _).bind fun name _ => ?_
  extract_lets rest
  have hrest : ∀ found : String × Option (PseudoArgs Selector), IsPlaced source found.2 →
      Tells source held open_ (rest found) (IsPlaced source) := by
    rintro ⟨name, args⟩ hargs
    exact current.bind fun _ _ => (slice _ _).bind fun _ _ =>
      pure (isPlaced_pseudo.mpr ⟨(isPlaced_token.mp ht).1, hargs⟩)
  refine ite (fun _ => (hrest (_, none) isPlaced_none).pure_bind) fun _ => ?_
  refine (setPair _).bind fun _ _ => (pseudoArgs hgroup _).bind fun args hargs => ?_
  exact (setPair _).bind fun _ _ => (hrest (_, some args) (isPlaced_some.mpr hargs)).pure_bind

theorem modifier? (hgroup : TellsGroup source group) (ht : IsPlaced source t) :
    Tells source held open_ (Parser.modifier? group t)
      fun r => ∀ m stop, r = some (m, stop) → IsPlaced source m ∧ IsPlace source stop := by
  obtain ⟨hlocation, hstop⟩ := isPlaced_token.mp ht
  have hmade : ∀ {kind text stop}, Selector.placesInKind kind = [] → IsPlace source stop →
      ∀ m stop', some ((⟨kind, text, t.location⟩ : Modifier Selector), stop) = some (m, stop') →
        IsPlaced source m ∧ IsPlace source stop' := by
    rintro kind text stop hkind hstop m stop' ⟨⟩
    exact ⟨(isPlaced_modifier hkind).mpr hlocation, hstop⟩
  unfold Parser.modifier?
  split
  · exact pure (hmade rfl hstop)
  · exact pure (hmade rfl hstop)
  · exact (mustMatch _).bind fun name _ => current.bind fun last hlast =>
      pure (hmade rfl (isPlaced_token.mp hlast).2)
  · refine (attributeTest ht).bind fun m hm => current.bind fun last hlast => pure ?_
    rintro _ _ ⟨⟩
    exact ⟨hm, (isPlaced_token.mp hlast).2⟩
  · refine (pseudo hgroup ht).bind fun m hm => current.bind fun last hlast => pure ?_
    rintro _ _ ⟨⟩
    exact ⟨hm, (isPlaced_token.mp hlast).2⟩
  · exact pure fun _ _ h => by cases h

/-! ## Compounds -/

theorem ampStep {sofar : CompoundSoFar × Token}
    (hsofar : sofar.1.Placed source ∧ IsPlaced source sofar.2) :
    Tells source held open_ (Parser.ampStep sofar)
      (Round (fun r => r.1.Placed source ∧ IsPlaced source r.2)
        fun r => r.1.Placed source ∧ IsPlaced source r.2) := by
  obtain ⟨c, t⟩ := sofar
  obtain ⟨hc, ht⟩ := hsofar
  obtain ⟨hlocation, hstop⟩ := isPlaced_token.mp ht
  unfold Parser.ampStep
  refine ite (fun _ => (next false true).bind fun t' ht' => pure ⟨?_, ht'.isPlaced⟩) fun _ =>
    pure ⟨hc, ht⟩
  exact ⟨isPlaced_cons.mpr ⟨(isPlaced_modifier rfl).mpr hlocation, hc.modifiers⟩, hstop,
    hc.pending⟩

theorem modifierStep (hgroup : TellsGroup source group) {c : CompoundSoFar}
    (hc : c.Placed source) :
    Tells source held open_ (Parser.modifierStep group c)
      (Round (CompoundSoFar.Placed source) (CompoundSoFar.Placed source)) := by
  unfold Parser.modifierStep
  extract_lets rest
  have hrest : ∀ t, IsPlaced source t → Tells source held open_ (rest t)
      (Round (CompoundSoFar.Placed source) (CompoundSoFar.Placed source)) := by
    intro t ht
    refine (modifier? hgroup ht).bind fun r hr => ?_
    rcases r with _ | ⟨m, stop⟩
    · exact pure ⟨hc.modifiers, hc.stop, isPlaced_none⟩
    · obtain ⟨hm, hstop⟩ := hr m stop rfl
      exact pure ⟨isPlaced_cons.mpr ⟨hm, hc.modifiers⟩, hstop, isPlaced_none⟩
  cases hpending : c.pending with
  | some t => exact pure_bind (hrest t (isPlaced_some.mp (hpending ▸ hc.pending)))
  | none => exact (next false true).bind fun t ht => hrest t ht.isPlaced

theorem nameInNamespace (ns : String) (t : Token) :
    Tells source held open_ (Parser.nameInNamespace ns t)
      fun r => ∀ element, r = some element → element.Placed source := by
  unfold Parser.nameInNamespace
  refine (matchKinds _).bind fun found hfound => ?_
  cases found with
  | some name =>
    refine pure ?_
    rintro _ ⟨⟩
    exact ⟨(hfound name rfl).stop_isPlace, isPlaced_none⟩
  | none =>
    exact ite (fun _ => pure fun _ h => by cases h) fun _ =>
      unget.bind fun _ _ => pure fun _ h => by cases h

theorem elementName (ht : IsPlaced source t) {stop : Location} (hstop : IsPlace source stop) :
    Tells source held open_ (Parser.elementName t stop)
      fun r => ∀ element, r = some element → element.Placed source := by
  unfold Parser.elementName
  refine ite (fun _ => nameInNamespace _ _) fun _ => ite (fun _ => ?_) fun _ => pure ?_
  · refine (next false true).bind fun after hafter => ite (fun _ => nameInNamespace _ _) fun _ =>
      pure ?_
    rintro _ ⟨⟩
    exact ⟨(isPlaced_token.mp ht).2, isPlaced_some.mpr hafter.isPlaced⟩
  · rintro _ ⟨⟩
    exact ⟨hstop, isPlaced_some.mpr ht⟩

/-- What the reading of a compound leaves. -/
def CompoundPlaced (source : List Char) (r : Option (Compound Selector × Location)) : Prop :=
  ∀ c stop, r = some (c, stop) → IsPlaced source c ∧ IsPlace source stop

theorem compound (hgroup : TellsGroup source group) {start : Option Token}
    (hstart : IsPlaced source start) :
    Tells source held open_ (Parser.compound group start) (CompoundPlaced source) := by
  unfold Parser.compound
  extract_lets read
  have hread : ∀ t, IsPlaced source t →
      Tells source held open_ (read t) (CompoundPlaced source) := by
    intro t ht
    obtain ⟨hlocation, hstop⟩ := isPlaced_token.mp ht
    refine ite (fun _ => pure fun _ _ h => by cases h) fun _ => ?_
    refine (repeating (fun r => r.1.Placed source ∧ IsPlaced source r.2)
      ⟨⟨isPlaced_nil, hstop, isPlaced_none⟩, ht⟩ fun _ h => ampStep h).bind fun r hr => ?_
    obtain ⟨sofar, t'⟩ := r
    refine (elementName hr.2 hr.1.stop).bind fun element helement => ?_
    cases element with
    | none => exact pure fun _ _ h => by cases h
    | some element =>
      have hplaced := helement element rfl
      have hbegun : CompoundSoFar.Placed source
          ⟨sofar.modifiers, element.stop, element.pending⟩ :=
        ⟨hr.1.modifiers, hplaced.stop, hplaced.pending⟩
      refine (repeating (CompoundSoFar.Placed source) hbegun fun _ h =>
        modifierStep hgroup h).bind fun sofar hsofar => (slice _ _).bind fun _ _ => pure ?_
      rintro _ _ ⟨⟩
      exact ⟨isPlaced_compound.mpr ⟨hlocation, isPlaced_reverse.mpr hsofar.modifiers⟩,
        hsofar.stop⟩
  cases start with
  | some t => exact pure_bind (hread t (isPlaced_some.mp hstart))
  | none => exact grab.bind fun t ht => hread t ht.isPlaced

/-! ## Selectors -/

theorem push_placed {sofar : SelectorSoFar} (hsofar : sofar.Placed source) {comb : Combinator}
    (hcomb : IsPlace source comb.location) {c : Compound Selector} {stop : Location}
    (hc : IsPlaced source c ∧ IsPlace source stop) : (sofar.push comb c stop).Placed source :=
  ⟨isPlaced_cons.mpr ⟨isPlaced_compoundItem.mpr hc.1,
    isPlaced_cons.mpr ⟨isPlaced_combinatorItem.mpr hcomb, hsofar.items⟩⟩, hc.2, isPlaced_none⟩

theorem afterCombinator (hgroup : TellsGroup source group) {sofar : SelectorSoFar}
    (hsofar : sofar.Placed source) (ht : IsPlaced source t) :
    Tells source held open_ (do
      match ← Parser.compound group none with
      | some (c, stop) => return .yield (sofar.push (combinatorOf t) c stop)
      | none => Parser.failHere "")
      (Round (SelectorSoFar.Placed source) (SelectorSoFar.Placed source)) := by
  refine (compound hgroup isPlaced_none).bind fun r hr => ?_
  rcases r with _ | ⟨c, stop⟩
  · exact failHere
  · exact pure (push_placed hsofar (isPlaced_token.mp ht).1 (hr c stop rfl))

theorem afterBlank (hgroup : TellsGroup source group) {sofar : SelectorSoFar}
    (hsofar : sofar.Placed source) {blank : Token} (hblank : IsPlaced source blank) :
    Tells source held open_ (Parser.afterBlank group blank sofar)
      (Round (SelectorSoFar.Placed source) (SelectorSoFar.Placed source)) := by
  unfold Parser.afterBlank
  refine grab.bind fun t ht => ite (fun _ => pure hsofar) fun _ =>
    ite (fun _ => afterCombinator hgroup hsofar ht.isPlaced) fun _ => ?_
  refine (compound hgroup (isPlaced_some.mpr ht.isPlaced)).bind fun r hr => ?_
  rcases r with _ | ⟨c, stop⟩
  · exact pure hsofar
  · exact pure (push_placed hsofar (isPlaced_token.mp hblank).1 (hr c stop rfl))

theorem selectorStep (hgroup : TellsGroup source group) {sofar : SelectorSoFar}
    (hsofar : sofar.Placed source) :
    Tells source held open_ (Parser.selectorStep group sofar)
      (Round (SelectorSoFar.Placed source) (SelectorSoFar.Placed source)) := by
  unfold Parser.selectorStep
  extract_lets cleared blank rest
  have hcleared : cleared.Placed source := ⟨hsofar.items, hsofar.stop, isPlaced_none⟩
  have hblank : ∀ t, IsPlaced source t → Tells source held open_ (blank t)
      (Round (SelectorSoFar.Placed source) (SelectorSoFar.Placed source)) :=
    fun t ht => ite (fun _ => afterBlank hgroup hcleared ht) fun _ => pure hcleared
  have hrest : ∀ t, IsPlaced source t → Tells source held open_ (rest t)
      (Round (SelectorSoFar.Placed source) (SelectorSoFar.Placed source)) := by
    intro t ht
    refine ite (fun _ => afterCombinator hgroup hcleared ht) fun _ => ?_
    exact ite (fun _ => (next false true).bind fun t ht => hblank t ht.isPlaced) fun _ =>
      pure_bind (hblank t ht)
  cases hpending : sofar.pending with
  | some t => exact pure_bind (hrest t (isPlaced_some.mp (hpending ▸ hsofar.pending)))
  | none => exact current.bind fun t ht => hrest t ht

theorem selectorWith (hgroup : TellsGroup source group) {first : Option Token}
    (hfirst : IsPlaced source first) (relative : Bool) :
    Tells source held open_ (Parser.selectorWith group first relative) (IsPlaced source) := by
  unfold Parser.selectorWith
  extract_lets read
  have hread : ∀ t, IsPlaced source t →
      Tells source held open_ (read t) (IsPlaced source) := by
    intro t ht
    obtain ⟨hlocation, hstop⟩ := isPlaced_token.mp ht
    unfold read
    extract_lets rest
    have hrest : ∀ head, (∀ sofar, head = some sofar → sofar.Placed source) →
        Tells source held open_ (rest head) (IsPlaced source) := by
      intro head hhead
      cases head with
      | none => exact pure isPlaced_none
      | some head =>
        refine (repeating (SelectorSoFar.Placed source) (hhead head rfl) fun _ h =>
          selectorStep hgroup h).bind fun sofar hsofar => (slice _ _).bind fun _ _ => pure ?_
        exact isPlaced_some.mpr (isPlaced_selector.mpr
          ⟨hlocation, hsofar.stop, isPlaced_reverse.mpr hsofar.items⟩)
    refine ite (fun _ => (hrest _ ?_).pure_bind) fun _ => ?_
    · rintro _ ⟨⟩
      exact ⟨isPlaced_nil, hstop, isPlaced_some.mpr ht⟩
    · refine (compound hgroup (isPlaced_some.mpr ht)).bind fun r hr => ?_
      rcases r with _ | ⟨c, stop⟩
      · exact (hrest _ fun _ h => by cases h).pure_bind
      · obtain ⟨hc, hstop⟩ := hr c stop rfl
        refine (hrest _ ?_).pure_bind
        rintro _ ⟨⟩
        exact ⟨isPlaced_cons.mpr ⟨isPlaced_compoundItem.mpr hc, isPlaced_nil⟩, hstop,
          isPlaced_none⟩
  cases first with
  | some t =>
    exact ite (fun _ => grab.bind fun t ht => hread t ht.isPlaced) fun _ =>
      pure_bind (hread t (isPlaced_some.mp hfirst))
  | none => exact grab.bind fun t ht => hread t ht.isPlaced

theorem groupStep (hgroup : TellsGroup source group) (relative lax : Bool) {sofar : GroupSoFar}
    (hsofar : sofar.Placed source) :
    Tells source held open_ (Parser.groupStep group relative lax sofar)
      (Round (GroupSoFar.Placed source) (GroupSoFar.Placed source)) := by
  unfold Parser.groupStep
  refine (selectorWith hgroup hsofar.first relative).bind fun selector hselector => ?_
  refine ite (fun _ => pure ⟨hsofar.selectors, isPlaced_none⟩) fun _ => ?_
  have hselectors : IsPlaced source (selector.toList ++ sofar.selectors) :=
    isPlaced_append.mpr ⟨isPlaced_toList.mpr hselector, hsofar.selectors⟩
  extract_lets selectors rest
  have hrest : ∀ t, Tells source held open_ (rest t)
      (Round (GroupSoFar.Placed source) (GroupSoFar.Placed source)) := fun t =>
    ite (fun _ => pure ⟨hselectors, isPlaced_none⟩) fun _ => pure ⟨hselectors, isPlaced_none⟩
  exact current.bind fun t _ => ite (fun _ => grab.bind fun t _ => hrest t) fun _ =>
    pure_bind (hrest t)

theorem groupTo (depth : Nat) : TellsGroup source (Parser.groupTo depth) := by
  induction depth with
  | zero => exact fun _ _ _ _ _ _ => tooDeep
  | succ depth ih =>
    intro held open_ first relative lax hfirst
    unfold Parser.groupTo
    refine (repeating (GroupSoFar.Placed source) ⟨isPlaced_nil, hfirst⟩ fun _ h =>
      groupStep ih relative lax h).bind fun sofar hsofar => ?_
    refine ite (fun _ => ?_) fun _ => pure ?_
    · exact (failHere (Q := fun _ => False)).bind fun _ h => h.elim
    · split_ifs
      · exact isPlaced_none
      · exact isPlaced_some.mpr (isPlaced_reverse.mpr hsofar.selectors)

theorem selectorGroup : TellsGroup source Parser.selectorGroup :=
  fun held open_ first relative lax hfirst =>
    budget.bind fun depth _ => groupTo depth held open_ first relative lax hfirst

theorem selector {first : Option Token} (hfirst : IsPlaced source first) (relative : Bool) :
    Tells source held open_ (Parser.selector first relative) (IsPlaced source) :=
  budget.bind fun depth _ => selectorWith (groupTo depth) hfirst relative

end Emits

end Stylesheet
