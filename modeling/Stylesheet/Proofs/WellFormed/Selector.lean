import Stylesheet.Proofs.WellFormed.Compound

/-!
# Selectors are read well formed

Between two rounds of a selector the pieces are composed and laid out, and
the token in hand follows the last of them. It may be a combinator, a blank
that is none, or anything after the selector; and it may be a token at which
a compound was looked for in vain, from which the stream was taken back. A
selector that starts with a combinator has no pieces at first and gets two
in its first round, or is none (`SelectorBegun`).

Lists of selectors nest, and are well formed by induction on how deep they
may still be.
-/

namespace Stylesheet

open Parse (State)
open Parse.State (Keeps)
open SelectorItem (Alternate Compose LaidOut)

namespace Ensures

variable {source : List Char} {n : Nat} {s : State} {t : Token} {group : Parser.GroupParser}
  {relative : Bool} {sofar : Parser.SelectorSoFar}

/-! ## Selectors as far as they are read -/

/-- **The pieces of a selector as far as they are read**, which end at a
place or before it: one more combinator and compound can follow. -/
structure SelectorBegun (source : List Char) (relative : Bool) (start stop : Location)
    (items : List (SelectorItem Selector)) : Prop where
  /-- A combinator and a compound make a selector of it. -/
  compose : ∀ comb c, Compose relative (items.reverse ++ [.combinator comb, .compound c])
  /-- The pieces are laid out. -/
  laidOut : LaidOut source start stop items.reverse
  /-- They do not end before they start. -/
  start_le : start.offset ≤ stop.offset
  /-- The compounds are what they should be. -/
  isFit : ∀ c, .compound c ∈ items →
    c.IsInhabited ∧ ∀ m ∈ c.modifiers, m.IsFit source start.offset stop.offset

/-- **A selector that may end here**, with the token after it in hand. -/
structure SelectorInv (source : List Char) (relative : Bool) (start : Location)
    (sofar : Parser.SelectorSoFar) (s : State) : Prop where
  /-- More pieces can follow. -/
  begun : SelectorBegun source relative start sofar.stop sofar.items
  /-- None has to. -/
  compose : Compose relative sofar.items.reverse
  /-- No combinator waits for its compound. -/
  pending : sofar.pending = none
  /-- The selector ends at a place. -/
  isPlace : IsPlace source sofar.stop
  /-- The token in hand follows it. -/
  poised : Poised sofar.stop.offset sofar.stop.offset s

/-- The same in another state. -/
theorem SelectorInv.at_state {start : Location} {s' : State}
    (h : SelectorInv source relative start sofar s)
    (hpoised : Poised sofar.stop.offset sofar.stop.offset s') :
    SelectorInv source relative start sofar s' :=
  ⟨h.begun, h.compose, h.pending, h.isPlace, hpoised⟩

theorem SelectorBegun.push {start stop stopComb stopCompound : Location} {c : Compound Selector}
    (h : SelectorBegun source relative start stop sofar.items) (comb : Combinator)
    (hcomb : Spans source comb.text comb.location stopComb)
    (hstart : stop.offset ≤ comb.location.offset) (hc : CompoundRead source t c stopCompound s)
    (hnext : stopComb.offset ≤ t.location.offset) :
    SelectorInv source relative start (sofar.push comb c stopCompound) s := by
  have hitems : (sofar.push comb c stopCompound).items.reverse =
      sofar.items.reverse ++ [.combinator comb] ++ [.compound c] := by
    simp [Parser.SelectorSoFar.push]
  have hle : start.offset ≤ stopComb.offset :=
    Nat.le_trans h.start_le (Nat.le_trans hstart hcomb.start_le_stop)
  have hnext' : stopComb.offset ≤ c.location.offset :=
    Nat.le_trans hnext (Nat.le_of_eq (congrArg Location.offset hc.location_eq.symm))
  have hstop : stopComb.offset ≤ stopCompound.offset :=
    Nat.le_trans hnext' hc.spans.start_le_stop
  have hlast : stop.offset ≤ stopCompound.offset :=
    Nat.le_trans hstart (Nat.le_trans hcomb.start_le_stop hstop)
  have hfit : ∀ d, SelectorItem.compound d ∈ (sofar.push comb c stopCompound).items →
      d.IsInhabited ∧ ∀ m ∈ d.modifiers, m.IsFit source start.offset stopCompound.offset := by
    intro d hd
    rcases List.mem_cons.mp hd with hd | hd
    · cases hd
      exact ⟨hc.inhabited, fun m hm =>
        (hc.isFit m hm).mono (Nat.le_trans hle hnext) (Nat.le_refl _)⟩
    · rcases List.mem_cons.mp hd with hd | hd
      · cases hd
      · exact ⟨(h.isFit d hd).1, fun m hm =>
          ((h.isFit d hd).2 m hm).mono (Nat.le_refl _) hlast⟩
  have hlaid : LaidOut source start stopCompound (sofar.push comb c stopCompound).items.reverse := by
    rw [hitems]
    exact (h.laidOut.append h.start_le (.combinator comb) hcomb hstart).append hle (.compound c)
      hc.spans hnext'
  have hcompose : Compose relative (sofar.push comb c stopCompound).items.reverse := by
    rw [hitems, List.append_assoc]
    exact h.compose comb c
  exact ⟨⟨fun comb' c' => hcompose.append comb' c', hlaid, Nat.le_trans hle hstop, hfit⟩, hcompose,
    rfl, hc.spans.stop_isPlace, hc.poised⟩

theorem SelectorInv.first {c : Compound Selector} {stop : Location}
    (hc : CompoundRead source t c stop s) :
    SelectorInv source relative t.location ⟨[.compound c], stop, none⟩ s := by
  have hcompose : Compose relative [(.compound c : SelectorItem Selector)] := .plain (.last c)
  have hlaid : LaidOut source t.location stop [(.compound c : SelectorItem Selector)] := by
    have hnone : LaidOut source t.location t.location ([] : List (SelectorItem Selector)) := .nil
    refine hnone.append (Nat.le_refl _) (.compound c) hc.spans ?_
    exact Nat.le_of_eq (congrArg Location.offset hc.location_eq.symm)
  refine ⟨⟨fun comb c' => hcompose.append comb c', hlaid, ?_, fun d hd => ?_⟩, hcompose, rfl,
    hc.spans.stop_isPlace, hc.poised⟩
  · exact hc.location_eq ▸ hc.spans.start_le_stop
  · cases List.mem_singleton.mp hd
    exact ⟨hc.inhabited, hc.isFit⟩

/-- **A selector that is read** is well formed. -/
theorem SelectorInv.isWellFormed {start : Location}
    (h : SelectorInv source relative start sofar s) (hstart : IsPlace source start) :
    Selector.IsWellFormed source relative
      ⟨sofar.items.reverse, String.ofList (Text.slice source start.offset sofar.stop.offset), start,
        sofar.stop⟩ := by
  have hmem : ∀ c ∈ Selector.compounds ⟨sofar.items.reverse,
      String.ofList (Text.slice source start.offset sofar.stop.offset), start, sofar.stop⟩,
      SelectorItem.compound c ∈ sofar.items := by
    intro c hc
    obtain ⟨item, hitem, hsome⟩ := List.mem_filterMap.mp hc
    cases item with
    | compound d =>
      cases hsome
      exact List.mem_reverse.mp hitem
    | combinator comb => cases hsome
  exact .intro h.compose h.begun.laidOut (.of_slice hstart h.isPlace h.begun.start_le)
    (fun c hc => (h.begun.isFit c (hmem c hc)).1) fun c hc => (h.begun.isFit c (hmem c hc)).2

/-! ## Reading them -/

section Selectors

variable (hgroup : EnsuresGroup source group) {start : Location}

include hgroup

/-- **A combinator and the compound after it.** -/
theorem afterCombinator (hs : s.IsSound) (hsource : s.stream.source = source) {stop : Location}
    (h : SelectorBegun source relative start stop sofar.items) (ht : t.IsCut source)
    (hstart : stop.offset ≤ t.location.offset) (hread : t.stop.offset ≤ s.offset) :
    Ensures (do
      match ← Parser.compound group none with
      | some (c, stop) => return ForInStep.yield (sofar.push (Parser.combinatorOf t) c stop)
      | none => Parser.failHere "") s (Round (SelectorInv source relative start)) := by
  refine (compound_none hgroup hs hsource hread).bind fun r s₁ h₁ ⟨u, hu, hr⟩ => ?_
  rcases r with _ | ⟨c, stop'⟩
  · exact failHere _
  · exact pure h₁.isSound (h.push (Parser.combinatorOf t) ht.spans hstart hr hu)

theorem afterBlank (hs : s.IsSound) (hsource : s.stream.source = source)
    (h : SelectorBegun source relative start sofar.stop sofar.items)
    (hcompose : Compose relative sofar.items.reverse) (hpending : sofar.pending = none)
    (hplace : IsPlace source sofar.stop) {blank : Token} (hblank : blank.IsCut source)
    (hstart : sofar.stop.offset ≤ blank.location.offset) (hread : blank.stop.offset ≤ s.offset) :
    Ensures (Parser.afterBlank group blank sofar) s (Round (SelectorInv source relative start)) := by
  unfold Parser.afterBlank
  refine (Reads.grab (n := 0) hs).ensures.bind fun u s₁ h₁ hgot => ?_
  have hcut : u.IsCut source := hsource ▸ hgot.isCut
  have hsource₁ := h₁.source_eq.trans hsource
  have hreached : sofar.stop.offset ≤ s.offset :=
    Nat.le_trans hstart (Nat.le_trans hblank.location_le_stop hread)
  have hpoised : Poised sofar.stop.offset sofar.stop.offset s₁ :=
    Poised.of_got hgot (Nat.le_refl _) hreached
  refine ite (fun _ => pure h₁.isSound ⟨h, hcompose, hpending, hplace, hpoised⟩) fun _ =>
    ite (fun _ => afterCombinator hgroup h₁.isSound hsource₁ h hcut
      (Nat.le_trans hreached hgot.place_le) hgot.stop_le) fun _ => ?_
  refine (compound_some hgroup h₁.isSound hsource₁ hcut hgot.stop_le hpoised).bind
    fun r s₂ h₂ hr => ?_
  rcases r with _ | ⟨c, stop⟩
  · exact pure h₂.isSound ⟨h, hcompose, hpending, hplace, hr⟩
  · exact pure h₂.isSound (h.push ⟨.descendant, blank.text, blank.location⟩ hblank.spans hstart hr
      (Nat.le_trans hread hgot.place_le))

/-- **One more combinator and compound**, where a selector may end. -/
theorem selectorStep (hs : s.IsSound) (hsource : s.stream.source = source)
    (h : SelectorInv source relative start sofar s) :
    Ensures (Parser.selectorStep group sofar) s (Round (SelectorInv source relative start)) := by
  have hsame : { sofar with pending := none } = sofar := by
    rw [← h.pending]
  -- the token in hand was read behind the selector, unless there is none
  have hread : s.stream.current.kind ≠ .eof → s.stream.current.IsCut source ∧
      sofar.stop.offset ≤ s.stream.current.location.offset ∧
        s.stream.current.stop.offset ≤ s.offset := by
    intro hkind
    obtain ⟨u, hu, hle⟩ := Parse.State.HasRead.of_kind h.poised.2 hkind
    have hmem : u ∈ s.stream.behind := List.mem_of_mem_head? hu
    have hcurrent : s.stream.current = u := by
      unfold Stream.current
      rw [hu]
      rfl
    rw [hcurrent]
    exact ⟨hsource ▸ hs.stream.isCut u (by simp [Stream.window, hmem]), hle,
      hs.stream.stop_le_place hmem⟩
  unfold Parser.selectorStep
  rw [h.pending]
  refine current_bind ?_
  rw [hsame]
  generalize hcurrent : s.stream.current = u at hread
  refine ite (fun hcombinator => ?_) fun _ => ite (fun hplaceholder => ?_) fun _ =>
    pure_bind (ite (fun hblank => ?_) fun _ => pure hs h)
  · obtain ⟨hcut, hle, hstop⟩ := hread fun heof => by
      rw [heof] at hcombinator
      exact absurd hcombinator (by decide)
    exact afterCombinator hgroup hs hsource h.begun hcut hle hstop
  · obtain ⟨hcut, hle, hstop⟩ := hread fun heof => by
      rw [heof] at hplaceholder
      exact absurd hplaceholder (by decide)
    refine (Reads.next (n := 0) hs false true).ensures.bind fun v s₁ h₁ hgot => ?_
    have hle₁ : sofar.stop.offset ≤ v.location.offset := Nat.le_trans h.poised.1 hgot.place_le
    refine ite (fun _ => ?_) fun _ =>
      pure h₁.isSound (h.at_state (Poised.of_got hgot (Nat.le_refl _) h.poised.1))
    exact afterBlank hgroup h₁.isSound (h₁.source_eq.trans hsource) h.begun h.compose h.pending
      h.isPlace (hsource ▸ hgot.isCut) hle₁ hgot.stop_le
  · obtain ⟨hcut, hle, hstop⟩ := hread fun heof => by
      rw [heof] at hblank
      exact absurd hblank (by decide)
    exact afterBlank hgroup hs hsource h.begun h.compose h.pending h.isPlace hcut hle hstop

/-- **The first round of a selector that starts with a combinator.** -/
theorem selectorStep_relative (hs : s.IsSound) (hsource : s.stream.source = source)
    (ht : t.IsCut source) (hread : t.stop.offset ≤ s.offset)
    (hkind : combinatorKinds.contains t.kind = true) :
    Ensures (Parser.selectorStep group ⟨[], t.stop, some t⟩) s
      (Round (SelectorInv source true t.location)) := by
  have hbegun : SelectorBegun source true t.location t.location
      (⟨[], t.stop, none⟩ : Parser.SelectorSoFar).items :=
    ⟨fun comb c => .relative comb (.last c), .nil, Nat.le_refl _,
      fun _ h => absurd h List.not_mem_nil⟩
  unfold Parser.selectorStep
  refine pure_bind ?_
  dsimp only
  rw [if_pos hkind]
  exact afterCombinator hgroup hs hsource hbegun ht (Nat.le_refl _) hread

/-- **What the reading of a selector leaves**: a well-formed one starts at an
offset or after it, and the token in hand follows it. -/
def SelectorRead (source : List Char) (relative : Bool) (n : Nat) (r : Option Selector)
    (s : State) : Prop :=
  Poised n n s ∧ ∀ selector, r = some selector → selector.IsWellFormed source relative ∧
    n ≤ selector.location.offset ∧ n ≤ selector.stop.offset ∧
      Poised selector.stop.offset selector.stop.offset s

theorem selectorWith (hs : s.IsSound) (hsource : s.stream.source = source) {first : Option Token}
    (hfirst : StartsList source n first s) (relative : Bool) :
    Ensures (Parser.selectorWith group first relative) s (SelectorRead source relative n) := by
  unfold Parser.selectorWith
  extract_lets rest
  have hrest : ∀ (t : Token) {s₁ : State}, s₁.IsSound → s₁.stream.source = source →
      t.IsCut source → n ≤ t.location.offset → t.stop.offset ≤ s₁.offset → Poised n n s₁ →
      Ensures (rest t) s₁ (SelectorRead source relative n) := by
    intro t s₁ hs₁ hsource₁ ht hn hread hpoised
    unfold rest
    extract_lets made
    have hmade : ∀ (head : Parser.SelectorSoFar) {s₂ : State}, s₂.IsSound →
        s₂.stream.source = source →
        Ensures (Parser.selectorStep group head) s₂
          (Round (SelectorInv source relative t.location)) →
        Ensures (made (some head)) s₂ (SelectorRead source relative n) := by
      intro head s₂ hs₂ hsource₂ hstep
      refine (repeating_first (SelectorInv source relative t.location) hs₂ hstep
        fun sofar s₃ h₃ h => selectorStep hgroup h₃.isSound (h₃.source_eq.trans hsource₂) h).bind
        fun sofar s₃ h₃ h => slice_bind (pure h₃.isSound ⟨?_, ?_⟩)
      · have hle := Nat.le_trans hn h.begun.start_le
        exact h.poised.mono hle hle
      · rintro _ ⟨⟩
        have hformed := h.isWellFormed ht.location_isPlace
        refine ⟨?_, hn, Nat.le_trans hn h.begun.start_le, h.poised⟩
        rwa [← h₃.source_eq.trans hsource₂] at hformed ⊢
    refine ite (fun hcombinator => ?_) fun _ => ?_
    · obtain ⟨rfl, hkind⟩ := Bool.and_eq_true_iff.mp hcombinator
      exact pure_bind (hmade _ hs₁ hsource₁
        (selectorStep_relative hgroup hs₁ hsource₁ ht hread hkind))
    · refine (compound_some hgroup hs₁ hsource₁ ht hread hpoised).bind fun r s₂ h₂ hr => ?_
      have hsource₂ := h₂.source_eq.trans hsource₁
      rcases r with _ | ⟨c, stop⟩
      · exact pure_bind (pure h₂.isSound ⟨hr, fun _ h => by cases h⟩)
      · exact pure_bind (hmade _ h₂.isSound hsource₂
          (selectorStep hgroup h₂.isSound hsource₂ (.first hr)))
  have hgrab : Ensures (Parser.grab >>= rest) s (SelectorRead source relative n) :=
    (Reads.grab (n := 0) hs).ensures.bind fun t s₁ h₁ hgot =>
      hrest t h₁.isSound (h₁.source_eq.trans hsource) (hsource ▸ hgot.isCut)
        (Nat.le_trans hfirst.1 hgot.place_le) hgot.stop_le
        (Poised.of_got hgot (Nat.le_refl _) hfirst.1)
  cases first with
  | none => exact hgrab
  | some t =>
    obtain ⟨hcut, hn, hread, hheld⟩ := hfirst.2 t rfl
    exact ite (fun _ => hgrab) fun _ =>
      pure_bind (hrest t hs hsource hcut hn hread ⟨hfirst.1, hheld⟩)

/-! ## Lists of selectors -/

/-- **A list of selectors as far as it is read**, the latest first, after its
first selector. -/
def GroupInv (source : List Char) (relative : Bool) (n : Nat) (sofar : Parser.GroupSoFar)
    (s : State) : Prop :=
  sofar.first = none ∧ (sofar.selectors.Pairwise fun x y => y.stop.offset ≤ x.location.offset) ∧
    ∃ m, n ≤ m ∧ Poised m m s ∧ ∀ x ∈ sofar.selectors, x.Lies source relative n m

theorem groupStep (hs : s.IsSound) (hsource : s.stream.source = source) (lax : Bool) {m : Nat}
    (hnm : n ≤ m) {sofar : Parser.GroupSoFar} (hfirst : StartsList source m sofar.first s)
    (hordered : sofar.selectors.Pairwise fun x y => y.stop.offset ≤ x.location.offset)
    (hall : ∀ x ∈ sofar.selectors, x.Lies source relative n m) :
    Ensures (Parser.groupStep group relative lax sofar) s (Round (GroupInv source relative n)) := by
  unfold Parser.groupStep
  refine (selectorWith hgroup hs hsource hfirst relative).bind fun r s₁ h₁ ⟨hpoised, hr⟩ => ?_
  refine ite (fun _ => pure h₁.isSound ⟨rfl, hordered, m, hnm, hpoised, hall⟩) fun _ =>
    current_bind ?_
  -- the list now ends where the new selector does
  obtain ⟨hordered', m', hnm', hpoised', hmore⟩ :
      ((r.toList ++ sofar.selectors).Pairwise fun x y => y.stop.offset ≤ x.location.offset) ∧
        ∃ m', n ≤ m' ∧ Poised m' m' s₁ ∧
          ∀ x ∈ r.toList ++ sofar.selectors, x.Lies source relative n m' := by
    cases r with
    | none => exact ⟨hordered, m, hnm, hpoised, hall⟩
    | some y =>
      obtain ⟨hformed, hstart, hstop, hend⟩ := hr y rfl
      refine ⟨List.pairwise_cons.mpr ⟨fun x hx => Nat.le_trans (hall x hx).le_stop hstart, hordered⟩,
        y.stop.offset, Nat.le_trans hnm hstop, hend, fun x hx => ?_⟩
      rcases List.mem_cons.mp hx with rfl | hx
      · exact ⟨hformed, Nat.le_trans hnm hstart, Nat.le_refl _⟩
      · exact (hall x hx).mono (Nat.le_refl n) hstop
  extract_lets rest
  have hrest : ∀ (t : Token) {s₂ : State}, s₂.IsSound → Poised m' m' s₂ →
      Ensures (rest t) s₂ (Round (GroupInv source relative n)) := fun t {_} hs₂ hpoised₂ =>
    ite (fun _ => pure hs₂ ⟨rfl, hordered', m', hnm', hpoised₂, hmore⟩)
      fun _ => pure hs₂ ⟨rfl, hordered', m', hnm', hpoised₂, hmore⟩
  refine ite (fun _ => ?_) fun _ => pure_bind (hrest _ h₁.isSound hpoised')
  exact (Reads.grab (n := 0) h₁.isSound).ensures.bind fun t s₂ h₂ hgot =>
    hrest t h₂.isSound (Poised.of_got hgot (Nat.le_refl _) hpoised'.1)

end Selectors

theorem groupTo (depth : Nat) : EnsuresGroup source (Parser.groupTo depth) := by
  induction depth with
  | zero => exact fun _ _ _ _ _ _ _ _ => throw _
  | succ depth ih =>
    intro first relative lax s n hs hsource hfirst
    unfold Parser.groupTo
    refine (repeating_first (GroupInv source relative n) hs
      (groupStep ih hs hsource lax (Nat.le_refl n) hfirst .nil fun _ h => absurd h List.not_mem_nil)
      fun sofar s₁ h₁ hinv => ?_).bind fun sofar s₁ h₁ hinv => ?_
    · obtain ⟨hnone, hordered, m, hnm, hpoised, hall⟩ := hinv
      refine groupStep ih h₁.isSound (h₁.source_eq.trans hsource) lax hnm
        ⟨hpoised.1, fun _ h => ?_⟩ hordered hall
      rw [hnone] at h
      cases h
    · obtain ⟨-, hordered, m, hnm, hpoised, hall⟩ := hinv
      refine ite (fun _ => (failHere (Q := fun _ _ => False) _).bind fun _ _ _ h => h.elim)
        fun _ => pure h₁.isSound ⟨hpoised.mono hnm hnm, fun list hlist => ?_⟩
      split_ifs at hlist with hempty
      obtain rfl := Option.some.inj hlist
      refine ⟨fun hnil => hempty ?_, List.pairwise_reverse.mpr hordered, m, hnm, hpoised,
        fun x hx => hall x (List.mem_reverse.mp hx)⟩
      rw [List.reverse_eq_nil_iff.mp hnil]
      rfl

theorem selectorGroup : EnsuresGroup source Parser.selectorGroup :=
  fun first relative lax s n hs hsource hfirst =>
    budget_bind (groupTo s.budget first relative lax s n hs hsource hfirst)

theorem selector (hs : s.IsSound) (hsource : s.stream.source = source) {first : Option Token}
    (hfirst : StartsList source n first s) (relative : Bool) :
    Ensures (Parser.selector first relative) s (SelectorRead source relative n) :=
  budget_bind (selectorWith (groupTo s.budget) hs hsource hfirst relative)

end Ensures

end Stylesheet
