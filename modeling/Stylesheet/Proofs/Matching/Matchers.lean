import Stylesheet.Proofs.Matching.AnyOrder

/-!
# The steps of matchers

Every matcher takes nothing when it fails, and comes to the same result
whatever notes the cursor carries. Only the parts inside a combinator
may fail after they have taken something, and the combinator sets the
cursor back then.
-/

namespace Stylesheet.Grammar

namespace Matching

variable {s s' : Surroundings} {test test' : ValuePart → Cursor → Bool × Cursor}
  {step step' next next' : Step}
  {S : ValuePart → ValuePart → Prop} {R : Cursor → Cursor → Prop}

/-- **A test that does nothing but take notes.** -/
def Quiet (test : ValuePart → Cursor → Bool × Cursor) : Prop :=
  ∀ part it, (test part it).2.Alike it ∧ ∀ it', (test part it).1 = (test part it').1

/-! ## Tests -/

theorem quiet_of_test (f : ValuePart → Bool) : Quiet fun part it => (f part, it) :=
  fun _ it => ⟨.refl it, fun _ => rfl⟩

theorem argumentsFit_quiet (s : Surroundings) (body : Matcher) : Quiet (argumentsFit s body) := by
  intro part it
  unfold argumentsFit
  cases part.expr with
  | none => exact ⟨⟨rfl, rfl, rfl⟩, fun _ => rfl⟩
  | some args =>
    dsimp only
    split_ifs
    · exact ⟨.refl it, fun _ => rfl⟩
    · exact ⟨⟨rfl, rfl, rfl⟩, fun _ => rfl⟩
    · exact ⟨⟨rfl, rfl, rfl⟩, fun _ => rfl⟩
    · exact ⟨⟨rfl, rfl, rfl⟩, fun _ => rfl⟩

theorem functionMatches_quiet (name : String) (body : Option Matcher) :
    Quiet (functionMatches s name body) := by
  intro part it
  unfold functionMatches
  split_ifs
  · cases body with
    | none => exact ⟨.refl it, fun _ => rfl⟩
    | some body => exact argumentsFit_quiet s body part it
  · exact ⟨.refl it, fun _ => rfl⟩

theorem groupMatches_quiet (group : FunctionGroup) : Quiet (groupMatches s group) := by
  intro part it
  unfold groupMatches
  split_ifs
  · cases (group.argumentGrammar? part.token.name).or
      (group.argumentGrammar? (fullName part)) with
    | none => exact ⟨.refl it, fun _ => rfl⟩
    | some grammar =>
      dsimp only
      cases s.resolve grammar with
      | none => exact ⟨⟨rfl, rfl, rfl⟩, fun _ => rfl⟩
      | some body =>
        obtain ⟨halike, hsame⟩ := argumentsFit_quiet s body part
          { it with consulted := grammar :: it.consulted }
        exact ⟨halike.trans ⟨rfl, rfl, rfl⟩, fun it' => hsame _⟩
  · exact ⟨.refl it, fun _ => rfl⟩

theorem bracketMatches_quiet (inner : Matcher) : Quiet (bracketMatches s inner) := by
  intro part it
  unfold bracketMatches
  split_ifs
  · exact ⟨⟨rfl, rfl, rfl⟩, fun _ => rfl⟩
  · exact ⟨.refl it, fun _ => rfl⟩

/-! ## Steps -/

theorem single_restores (h : Quiet test) : (single test).Restores := by
  intro it after hrun
  unfold single at hrun
  cases hcurrent : it.current? with
  | none =>
    rw [hcurrent] at hrun
    cases hrun
    rfl
  | some part =>
    rw [hcurrent] at hrun
    dsimp only at hrun
    split_ifs at hrun
    · cases hrun
    · cases hrun
    · cases hrun
      exact (h part it).1.pos_eq

theorem Quiet.respects (h : Quiet test) : TestRespects Eq Cursor.Alike test := by
  rintro p _ it it' rfl halike
  exact ⟨(h p it).2 it', ((h p it).1.trans halike).trans (h p it').1.symm⟩

theorem single_agrees (hR : Cursor.Likeness S R) (h : TestsAgree S R test test') :
    (single test).Agrees R (single test') := by
  intro it it' halike
  unfold single
  rcases hR.current halike with ⟨hnone, hnone'⟩ | ⟨p, p', hp, hp', hparts⟩
  · rw [hnone, hnone']
    exact ⟨rfl, halike⟩
  · obtain ⟨hsame, hafter⟩ := h p p' it it' hparts halike
    have hfits : ((test p it).1 || (test p it).2.tryAttr && p.isAttr) =
        ((test' p' it').1 || (test' p' it').2.tryAttr && p'.isAttr) := by
      rw [hR.tryAttr_eq hafter, hR.isAttr_eq hparts, hsame]
    rw [hp, hp']
    dsimp only
    rw [hR.isVar_eq hparts, hfits, hR.pos_eq halike, hR.pos_eq hafter]
    split_ifs
    · exact ⟨rfl, hR.withPos halike _⟩
    · exact ⟨rfl, hR.withPos hafter _⟩
    · exact ⟨rfl, hafter⟩

/-- **A step that takes one part**: it passes the test, or it passes for
any other. -/
theorem single_taken {it after : Cursor} {n : Nat} (h : Quiet test)
    (hrun : single test it = (some n, after)) : ∃ part, it.Takes after [part] ∧
      (part.isVar = true ∨ it.tryAttr = true ∧ part.isAttr = true ∨
        (test part it).1 = true) := by
  unfold single at hrun
  cases hcurrent : it.current? with
  | none =>
    rw [hcurrent] at hrun
    cases hrun
  | some part =>
    rw [hcurrent] at hrun
    dsimp only at hrun
    refine ⟨part, ?_⟩
    split_ifs at hrun with hvar hfits
    · cases hrun
      exact ⟨.one hcurrent rfl, .inl hvar⟩
    · cases hrun
      obtain ⟨hafter, -⟩ := h part it
      rw [hafter.tryAttr_eq] at hfits
      have hfits : (test part it).1 = true ∨ it.tryAttr = true ∧ part.isAttr = true := by
        simpa using hfits
      exact ⟨.one hcurrent (congrArg (· + 1) hafter.pos_eq), .inr hfits.symm⟩
    · cases hrun

theorem needsPart_restores (step : Step) : (needsPart step).Restores := by
  intro it after hrun
  unfold needsPart at hrun
  cases hcurrent : it.current? with
  | none =>
    rw [hcurrent] at hrun
    cases hrun
    rfl
  | some part =>
    rw [hcurrent] at hrun
    exact Step.restoring_restores step it after hrun

theorem needsPart_agrees (hR : Cursor.Likeness S R) (h : step.Agrees R step') :
    (needsPart step).Agrees R (needsPart step') := by
  intro it it' halike
  unfold needsPart
  rcases hR.current halike with ⟨hnone, hnone'⟩ | ⟨p, p', hp, hp', -⟩
  · rw [hnone, hnone']
    exact ⟨rfl, halike⟩
  · rw [hp, hp']
    exact h.restoring hR it it' halike

theorem needsPart_sound {L : Language} (h : step.Sound L) : (needsPart step).Sound L := by
  intro it n after hrun
  unfold needsPart at hrun
  cases hcurrent : it.current? with
  | none =>
    rw [hcurrent] at hrun
    cases hrun
  | some part =>
    rw [hcurrent] at hrun
    exact h.restoring it n after hrun

theorem repetition_restores (m : Multiplier) (step next : Step) :
    (repetition m step next).Restores := by
  intro it after hrun
  unfold repetition at hrun
  cases hcurrent : it.current? with
  | none =>
    rw [hcurrent] at hrun
    dsimp only at hrun
    split_ifs at hrun
    · cases hrun
    · cases hrun
      rfl
  | some part =>
    rw [hcurrent] at hrun
    exact Step.restoring_restores _ it after hrun

theorem repetition_agrees (hR : Cursor.Likeness S R) (m : Multiplier) (h : step.Agrees R step')
    (hnext : next.Agrees R next') :
    (repetition m step next).Agrees R (repetition m step' next') := by
  intro it it' halike
  unfold repetition
  rcases hR.current halike with ⟨hnone, hnone'⟩ | ⟨p, p', hp, hp', -⟩
  · rw [hnone, hnone']
    dsimp only
    split_ifs
    · exact ⟨rfl, halike⟩
    · exact ⟨rfl, halike⟩
  · rw [hp, hp']
    refine Step.Agrees.restoring hR (fun it it' halike => ?_) it it' halike
    rw [← (hR.parts halike).length_eq]
    have hloop := h.repeating hR m.max hnext (it.parts.length + 1) 0 it it' halike
    rcases hrun : Step.repeating m.max step next (it.parts.length + 1) 0 it with ⟨_ | n, after⟩ <;>
      rcases hrun' : Step.repeating m.max step' next' (it.parts.length + 1) 0 it'
        with ⟨_ | n', after'⟩ <;> rw [hrun, hrun'] at hloop
    · exact hloop
    · cases hloop.1
    · cases hloop.1
    · obtain ⟨hcount, hafter⟩ := hloop
      cases hcount
      exact ⟨rfl, hafter⟩

/-- **A repetition** takes as many pieces as its multiplier allows. -/
theorem repetition_sound (m : Multiplier) {L L' : Language} (hstep : step.Sound L)
    (hnext : next.Sound L') (hadvances : step.Advances) (hadvances' : next.Advances)
    (hrestores : step.Restores) (hrestores' : next.Restores) :
    (repetition m step next).Sound fun attr ps => ∃ count, m.min ≤ count ∧
      (∀ max, m.max = some max → count ≤ max) ∧ Step.Times L' count L attr ps := by
  intro it n after hrun
  unfold repetition at hrun
  cases hcurrent : it.current? with
  | none =>
    rw [hcurrent] at hrun
    dsimp only at hrun
    split_ifs at hrun with hmin
    · cases hrun
      exact ⟨[], .nil rfl, 0, Nat.le_of_eq hmin, fun _ _ => Nat.zero_le _, rfl⟩
    · cases hrun
  | some part =>
    rw [hcurrent] at hrun
    refine Step.Sound.restoring (L := fun attr ps => ∃ count, m.min ≤ count ∧
      (∀ max, m.max = some max → count ≤ max) ∧ Step.Times L' count L attr ps)
      (fun it n after hrun => ?_) it n after hrun
    rcases hloop : Step.repeating m.max step next (it.parts.length + 1) 0 it
      with ⟨_ | count, after'⟩ <;> rw [hloop] at hrun
    · cases hrun
    · dsimp only at hrun
      split_ifs at hrun with hmin
      · cases hrun
        obtain ⟨k, ps, hcount, hmax, htakes, htimes⟩ := Step.repeating_sound hstep hnext hadvances
          hadvances' hrestores hrestores' (fun _ _ => Nat.zero_le _) hloop
        rw [Nat.zero_add] at hcount
        subst hcount
        exact ⟨ps, htakes, _, hmin, hmax, htimes⟩
      · cases hrun

/-! ## Matchers -/

/-- **A matcher that fails takes nothing.** -/
theorem stepOf_restores (s : Surroundings) (m : Matcher) : (stepOf s m).Restores := by
  cases m with
  | words _ _ => exact single_restores (quiet_of_test _)
  | basic _ => exact single_restores (quiet_of_test _)
  | function name body => exact single_restores (functionMatches_quiet name body)
  | group functions => exact single_restores (groupMatches_quiet functions)
  | oneOf _ => exact needsPart_restores _
  | sequence _ => exact needsPart_restores _
  | anyOrder _ _ => exact needsPart_restores _
  | repeated _ m _ => exact repetition_restores m _ _
  | «alias» _ inner => exact stepOf_restores s inner
  | bracketed inner => exact single_restores (bracketMatches_quiet inner)

/-- The steps of several matchers, one by one. -/
theorem stepsOf_eq (s : Surroundings) (ms : List Matcher) : stepsOf s ms = ms.map (stepOf s) := by
  induction ms with
  | nil => rfl
  | cons m ms ih => rw [stepsOf, ih, List.map_cons]

theorem stepOf_oneOf (s : Surroundings) (ms : List Matcher) :
    stepOf s (.oneOf ms) = needsPart (Step.firstOf (ms.map (stepOf s))) := by
  rw [stepOf, stepsOf_eq]

theorem stepOf_sequence (s : Surroundings) (ms : List Matcher) :
    stepOf s (.sequence ms) = needsPart (Step.inOrder (ms.map (stepOf s))) := by
  rw [stepOf, stepsOf_eq]

/-- The members of a group, one by one. -/
theorem getElem?_membersOf (s : Surroundings) (required : Option (List Bool)) (ms : List Matcher)
    (start i : Nat) : (membersOf s required start ms)[i]? =
      ms[i]?.map fun m => ⟨stepOf s m, Matcher.isRequired required (start + i)⟩ := by
  induction ms generalizing start i with
  | nil => rfl
  | cons m ms ih =>
    cases i with
    | zero => rfl
    | succ i =>
      rw [membersOf, List.getElem?_cons_succ, ih, List.getElem?_cons_succ, Nat.add_right_comm]
      rfl

theorem length_membersOf (s : Surroundings) (required : Option (List Bool)) (ms : List Matcher)
    (start : Nat) : (membersOf s required start ms).length = ms.length := by
  induction ms generalizing start with
  | nil => rfl
  | cons m ms ih => rw [membersOf, List.length_cons, ih, List.length_cons]

/-- **Surroundings in which every test of a part** comes to the same result
where parts and cursors are alike. -/
structure SurroundingsAgree (S : ValuePart → ValuePart → Prop) (R : Cursor → Cursor → Prop)
    (s s' : Surroundings) : Prop where
  /-- Sets of words. -/
  words (ws : List String) : TestRespects S R fun part it => (wordMatches ws part, it)
  /-- Basic types. -/
  basic (type : BasicType) : TestRespects S R fun part it => (type.holds part, it)
  /-- Functions. -/
  function (name : String) (body : Option Matcher) :
    TestsAgree S R (functionMatches s name body) (functionMatches s' name body)
  /-- Groups of functions. -/
  group (functions : FunctionGroup) :
    TestsAgree S R (groupMatches s functions) (groupMatches s' functions)
  /-- Blocks in square brackets. -/
  bracketed (inner : Matcher) : TestsAgree S R (bracketMatches s inner) (bracketMatches s' inner)

mutual
/-- **A matcher comes to the same result** from cursors that are alike, in
surroundings that agree. -/
theorem stepOf_agrees (hR : Cursor.Likeness S R) (hs : SurroundingsAgree S R s s') :
    ∀ m : Matcher, (stepOf s m).Agrees R (stepOf s' m)
  | .words ws _ => single_agrees hR (hs.words ws)
  | .basic type => single_agrees hR (hs.basic type)
  | .function name body => single_agrees hR (hs.function name body)
  | .group functions => single_agrees hR (hs.group functions)
  | .oneOf members => needsPart_agrees hR (.firstOf (stepsOf_agree hR hs members))
  | .sequence members => needsPart_agrees hR (.inOrder (stepsOf_agree hR hs members))
  | .anyOrder members required => needsPart_agrees hR
      (AnyOrder.step_agrees hR (membersOf_agree hR hs required 0 members) required)
  | .repeated inner m separator => repetition_agrees hR m (stepOf_agrees hR hs inner)
      (nextOf_agrees hR hs (stepOf_agrees hR hs inner) separator)
  | .alias _ inner => stepOf_agrees hR hs inner
  | .bracketed inner => single_agrees hR (hs.bracketed inner)

theorem nextOf_agrees (hR : Cursor.Likeness S R) (hs : SurroundingsAgree S R s s')
    {step step' : Step} (h : step.Agrees R step') :
    ∀ separator : Option Matcher, (nextOf s step separator).Agrees R (nextOf s' step' separator)
  | none => h
  | some separator => stepOf_agrees hR hs separator

theorem stepsOf_agree (hR : Cursor.Likeness S R) (hs : SurroundingsAgree S R s s') :
    ∀ ms : List Matcher, List.Forall₂ (Step.Agrees R) (stepsOf s ms) (stepsOf s' ms)
  | [] => .nil
  | m :: ms => .cons (stepOf_agrees hR hs m) (stepsOf_agree hR hs ms)

theorem membersOf_agree (hR : Cursor.Likeness S R) (hs : SurroundingsAgree S R s s')
    (required : Option (List Bool)) (i : Nat) : ∀ ms : List Matcher,
      List.Forall₂ (AnyOrder.MembersAgree R) (membersOf s required i ms) (membersOf s' required i ms)
  | [] => .nil
  | m :: ms => .cons ⟨stepOf_agrees hR hs m, rfl⟩ (membersOf_agree hR hs required (i + 1) ms)
end

/-- **A matcher comes to the same result** from cursors that are alike. -/
theorem stepOf_respects (hR : Cursor.Likeness S R) (hs : SurroundingsAgree S R s s) (m : Matcher) :
    (stepOf s m).Respects R := stepOf_agrees hR hs m

/-- The members of a group do so. -/
theorem membersOf_respect (hR : Cursor.Likeness S R) (hs : SurroundingsAgree S R s s)
    (required : Option (List Bool)) (i : Nat) (ms : List Matcher) :
    ∀ member ∈ membersOf s required i ms, member.step.Respects R := by
  intro member hmember
  obtain ⟨k, hk⟩ := List.mem_iff_getElem?.mp hmember
  rw [getElem?_membersOf] at hk
  obtain ⟨m, -, rfl⟩ := Option.map_eq_some_iff.mp hk
  exact stepOf_respects hR hs m

/-- **No test looks at notes.** -/
theorem surroundings_quiet (s : Surroundings) : SurroundingsAgree Eq Cursor.Alike s s where
  words _ := (quiet_of_test _).respects
  basic _ := (quiet_of_test _).respects
  function name body := (functionMatches_quiet name body).respects
  group functions := (groupMatches_quiet functions).respects
  bracketed inner := (bracketMatches_quiet inner).respects

end Matching

end Stylesheet.Grammar

/-!
## Levels of brackets

Matching enters functions and blocks, to a depth that is known from the parts.
How far the surroundings go beyond it makes no difference
(`Matching.stepOf_deep`).

Two matchers can be followed side by side through all levels of some parts.
What is carried along is a region of cursors (`Cursor.Region`): all those that
a match may get to, or all those whose parts are not nested too deeply. Inside
brackets the two need only fit alike (`Surroundings.FitAlike`).
-/

namespace Stylesheet

/-! ## Nesting -/

namespace ValuePart

theorem nesting_le_nestingAll {p : ValuePart} {ps : List ValuePart} (h : p ∈ ps) :
    nesting p ≤ nestingAll ps := by
  induction ps with
  | nil => cases h
  | cons q ps ih =>
    rw [nestingAll]
    rcases List.mem_cons.mp h with rfl | h
    · exact Nat.le_max_left _ _
    · exact Nat.le_trans (ih h) (Nat.le_max_right _ _)

theorem nestingAll_inner (p : ValuePart) : nestingAll p.inner + 1 = nesting p := by
  obtain ⟨_, _, _, _ | ⟨_, _, _, _, _⟩, _, _, _, _, _⟩ := p
  · rfl
  · rfl

/-- **What is inside a part** is nested less deeply than the parts. -/
theorem nestingAll_inner_lt {p : ValuePart} {ps : List ValuePart} (h : p ∈ ps) :
    nestingAll p.inner < nestingAll ps := by
  have hle := nesting_le_nestingAll h
  rwa [← nestingAll_inner] at hle

end ValuePart

namespace Grammar

/-! ## Regions -/

/-- **A region of cursors**, and the parts that its cursors may stand at. -/
structure Cursor.Region (W : Cursor → Prop) (V : ValuePart → Prop) : Prop where
  /-- A cursor does not leave it by moving along, or by taking notes. -/
  moved {it it' : Cursor} : W it → it'.parts = it.parts → it'.tryAttr = it.tryAttr → W it'
  /-- The parts of its cursors. -/
  part {it : Cursor} {p : ValuePart} : W it → p ∈ it.parts → V p

/-- **Cursors of a region that differ in their notes only.** -/
def Cursor.AlikeIn (W : Cursor → Prop) (it it' : Cursor) : Prop := it.Alike it' ∧ W it

/-- One and the same part, of those that a region has. -/
def ValuePart.SameIn (V : ValuePart → Prop) (p p' : ValuePart) : Prop := p = p' ∧ V p

namespace Cursor

variable {W : Cursor → Prop} {V : ValuePart → Prop} {it it' after after' : Cursor}

theorem Region.likeness (h : Region W V) : Likeness (ValuePart.SameIn V) (AlikeIn W) where
  parts {it it'} hit := by
    rw [← hit.1.parts_eq]
    exact List.forall₂_same.mpr fun p hp => ⟨rfl, h.part hit.2 hp⟩
  pos_eq hit := hit.1.pos_eq
  tryAttr_eq hit := hit.1.tryAttr_eq
  withPos hit pos := ⟨hit.1.withPos pos, h.moved hit.2 rfl rfl⟩
  isVar_eq hp := by rw [hp.1]
  isAttr_eq hp := by rw [hp.1]

/-- Both cursors may take notes. -/
theorem Region.noted (h : Region W V) (hit : AlikeIn W it it') (hafter : after.Alike it)
    (hafter' : after'.Alike it') : AlikeIn W after after' :=
  ⟨(hafter.trans hit.1).trans hafter'.symm,
    h.moved hit.2 hafter.parts_eq hafter.tryAttr_eq⟩

end Cursor

namespace Matching

/-- **Two matchers that fit alike** inside some parts, each in surroundings of
its own. -/
def FitAlike (V : ValuePart → Prop) (s s' : Surroundings) (m m' : Matcher) : Prop :=
  ∀ p, V p → (s.enter m p.inner).fits = (s'.enter m' p.inner).fits

section Tests

variable {W : Cursor → Prop} {V : ValuePart → Prop} {s s' : Surroundings} {m m' : Matcher}
  {test : ValuePart → Cursor → Bool × Cursor}

/-- A test that only takes notes comes to one result. -/
theorem Quiet.agrees (hW : Cursor.Region W V) (h : Quiet test) :
    TestsAgree (ValuePart.SameIn V) (Cursor.AlikeIn W) test test := by
  rintro p _ it it' ⟨rfl, -⟩ hit
  exact ⟨(h p it).2 it', hW.noted hit (h p it).1 (h p it').1⟩

theorem argumentsFit_agrees (hW : Cursor.Region W V) (h : FitAlike V s s' m m') :
    TestsAgree (ValuePart.SameIn V) (Cursor.AlikeIn W) (argumentsFit s m) (argumentsFit s' m') := by
  rintro p _ it it' ⟨rfl, hp⟩ hit
  refine ⟨?_, hW.noted hit (argumentsFit_quiet s m p it).1 (argumentsFit_quiet s' m' p it').1⟩
  unfold argumentsFit
  cases hexpr : p.expr with
  | none =>
    have hfits : (s.enter m []).fits = (s'.enter m' []).fits := by
      simpa [ValuePart.inner, hexpr] using h p hp
    exact hfits
  | some args =>
    have hfits : (s.enter m args.parts).fits = (s'.enter m' args.parts).fits := by
      simpa [ValuePart.inner, hexpr] using h p hp
    dsimp only
    rw [hfits]
    split_ifs
    · rfl
    · rfl
    · rfl
    · rfl

theorem functionMatches_agrees (hW : Cursor.Region W V) (h : FitAlike V s s' m m') (name : String) :
    TestsAgree (ValuePart.SameIn V) (Cursor.AlikeIn W) (functionMatches s name (some m))
      (functionMatches s' name (some m')) := by
  rintro p _ it it' ⟨rfl, hp⟩ hit
  unfold functionMatches
  split_ifs
  · exact argumentsFit_agrees hW h p p it it' ⟨rfl, hp⟩ hit
  · exact ⟨rfl, hit⟩

theorem bracketMatches_agrees (hW : Cursor.Region W V) (h : FitAlike V s s' m m') :
    TestsAgree (ValuePart.SameIn V) (Cursor.AlikeIn W) (bracketMatches s m)
      (bracketMatches s' m') := by
  rintro p _ it it' ⟨rfl, hp⟩ hit
  refine ⟨?_, hW.noted hit (bracketMatches_quiet m p it).1 (bracketMatches_quiet m' p it').1⟩
  unfold bracketMatches
  split_ifs
  · exact h p hp
  · rfl

theorem groupMatches_agrees (hW : Cursor.Region W V) (hresolve : s.resolve = s'.resolve)
    (h : ∀ m, FitAlike V s s' m m) (group : FunctionGroup) :
    TestsAgree (ValuePart.SameIn V) (Cursor.AlikeIn W) (groupMatches s group)
      (groupMatches s' group) := by
  rintro p _ it it' ⟨rfl, hp⟩ hit
  unfold groupMatches
  rw [← hresolve]
  split_ifs
  · cases (group.argumentGrammar? p.token.name).or (group.argumentGrammar? (fullName p)) with
    | none => exact ⟨rfl, hit⟩
    | some grammar =>
      have hnoted : Cursor.AlikeIn W { it with consulted := grammar :: it.consulted }
          { it' with consulted := grammar :: it'.consulted } :=
        hW.noted hit ⟨rfl, rfl, rfl⟩ ⟨rfl, rfl, rfl⟩
      dsimp only
      cases s.resolve grammar with
      | none => exact ⟨rfl, hnoted⟩
      | some body => exact argumentsFit_agrees hW (h body) p p _ _ ⟨rfl, hp⟩ hnoted
  · exact ⟨rfl, hit⟩

/-- **Surroundings in which everything fits alike** inside the parts of a
region. -/
theorem surroundings_agree (hW : Cursor.Region W V) (hresolve : s.resolve = s'.resolve)
    (h : ∀ m, FitAlike V s s' m m) :
    SurroundingsAgree (ValuePart.SameIn V) (Cursor.AlikeIn W) s s' where
  words _ := (quiet_of_test _).agrees hW
  basic _ := (quiet_of_test _).agrees hW
  function name body := by
    cases body with
    | none => exact (functionMatches_quiet (s := s) name none).agrees hW
    | some body => exact functionMatches_agrees hW (h body) name
  group := groupMatches_agrees hW hresolve h
  bracketed inner := bracketMatches_agrees hW (h inner)

end Tests

/-! ## Depths -/

/-- **The match of everything inside brackets**, to a depth. -/
def within (resolve : String → Option Matcher) : Nat → Matcher → List ValuePart → Inside
  | 0 => fun _ _ => ⟨false, []⟩
  | depth + 1 => inside resolve depth

/-- Surroundings that go in to a depth. -/
def surroundingsTo (resolve : String → Option Matcher) (depth : Nat) : Surroundings :=
  ⟨resolve, within resolve depth⟩

variable {resolve : String → Option Matcher}

theorem inside_eq (resolve : String → Option Matcher) (depth : Nat) (m : Matcher)
    (ps : List ValuePart) : inside resolve depth m ps =
      ⟨(stepOf (surroundingsTo resolve depth) m (.start ps)).1.isSome &&
          (stepOf (surroundingsTo resolve depth) m (.start ps)).2.atEnd,
        (stepOf (surroundingsTo resolve depth) m (.start ps)).2.consulted⟩ := by
  cases depth <;> rfl

/-- **Matchers that agree at the start of some parts** fit alike. -/
theorem fits_eq_of_agrees {W : Cursor → Prop} {depth depth' : Nat} {m m' : Matcher} {ps : List ValuePart} (hps : W (.start ps))
    (h : (stepOf (surroundingsTo resolve depth) m).Agrees (Cursor.AlikeIn W)
      (stepOf (surroundingsTo resolve depth') m')) :
    (inside resolve depth m ps).fits = (inside resolve depth' m' ps).fits := by
  obtain ⟨hresult, hafter⟩ := h (.start ps) (.start ps) ⟨.refl _, hps⟩
  have hend : ∀ {it it' : Cursor}, it.Alike it' → it.atEnd = it'.atEnd := by
    intro it it' halike
    unfold Cursor.atEnd
    rw [halike.parts_eq, halike.pos_eq]
  rw [inside_eq, inside_eq]
  dsimp only
  rw [hresult, hend hafter.1]

/-- Cursors in parts that are nested to a depth. -/
theorem region_nested (depth : Nat) : Cursor.Region (fun it => ValuePart.nestingAll it.parts ≤ depth)
    fun p => ValuePart.nestingAll p.inner < depth where
  moved h hparts _ := by rwa [hparts]
  part h hp := Nat.lt_of_lt_of_le (ValuePart.nestingAll_inner_lt hp) h

/-- Surroundings that go in deeply enough fit alike. -/
theorem within_fits {depth d d' : Nat} (hd : depth ≤ d) (hd' : depth ≤ d') (m : Matcher) :
    FitAlike (fun p => ValuePart.nestingAll p.inner < depth) (surroundingsTo resolve d)
      (surroundingsTo resolve d') m m := by
  induction depth generalizing d d' m with
  | zero => exact fun p hp => absurd hp (Nat.not_lt_zero _)
  | succ depth ih =>
    cases d with
    | zero => exact absurd hd (Nat.not_succ_le_zero _)
    | succ d =>
      cases d' with
      | zero => exact absurd hd' (Nat.not_succ_le_zero _)
      | succ d' =>
        intro p hp
        have hW := region_nested depth
        have hs : SurroundingsAgree _ _ (surroundingsTo resolve d) (surroundingsTo resolve d') :=
          surroundings_agree hW rfl (ih (Nat.le_of_succ_le_succ hd) (Nat.le_of_succ_le_succ hd'))
        exact fits_eq_of_agrees (Nat.lt_succ_iff.mp hp) (stepOf_agrees hW.likeness hs m)

/-- **How far the surroundings go beyond the parts** makes no difference. -/
theorem stepOf_deep {d d' : Nat} (m : Matcher) {it : Cursor}
    (hd : ValuePart.nestingAll it.parts ≤ d) (hd' : ValuePart.nestingAll it.parts ≤ d') :
    (stepOf (surroundingsTo resolve d) m it).1 = (stepOf (surroundingsTo resolve d') m it).1 ∧
      (stepOf (surroundingsTo resolve d) m it).2.Alike
        (stepOf (surroundingsTo resolve d') m it).2 := by
  have hW := region_nested (ValuePart.nestingAll it.parts)
  have hs : SurroundingsAgree _ _ (surroundingsTo resolve d) (surroundingsTo resolve d') :=
    surroundings_agree hW rfl (within_fits hd hd')
  obtain ⟨hresult, hafter⟩ := stepOf_agrees hW.likeness hs m it it ⟨.refl it, Nat.le_refl _⟩
  exact ⟨hresult, hafter.1⟩

/-- **A run of a matcher** in surroundings that go in deeply enough. -/
theorem run_eq_stepOf (catalog : Catalog) {depth : Nat} (m : Matcher) {it : Cursor}
    (hdepth : ValuePart.nestingAll it.parts ≤ depth) :
    let s := surroundingsTo (fun grammar => (catalog.compile grammar).1.toOption) depth
    (m.run catalog it).1 = (stepOf s m it).1 ∧ (m.run catalog it).2.Alike (stepOf s m it).2 :=
  stepOf_deep m (d := ValuePart.nestingAll it.parts - 1 + 1) (by omega) hdepth

end Matching

end Grammar

end Stylesheet
