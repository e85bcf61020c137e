import Stylesheet.Proofs.Ending.Matching

/-!
# Matching takes all or nothing

A matcher that fails leaves the cursor where it stood, and one that matches has
taken some of the parts from there on. Whatever was noticed by earlier attempts,
the next one comes to the same result at the same place
(`Matcher.run_transactional`).

A match can also be one of no times. Only a repetition says so, and it has taken
nothing then (`Matching.stepOf_zero`): it was at the end of the parts, or its
first member failed there and was set back. All other matchers match once, also
those that may take nothing.
-/

namespace Stylesheet.Grammar

/-- **A step that matches at least once** when it matches. -/
def Step.Once (step : Step) : Prop :=
  ∀ it : Cursor, (step it).1 ≠ some 0

namespace Step

variable {step : Step}

theorem Once.restoring (h : step.Once) : step.restoring.Once := by
  intro it
  have hstep := h it
  unfold Step.restoring
  rcases hrun : step it with ⟨_ | n, after⟩ <;> rw [hrun] at hstep
  · exact fun h => by cases h
  · exact hstep

theorem firstOf_once (steps : List Step) : (firstOf steps).Once := by
  induction steps with
  | nil => exact fun it h => by cases h
  | cons step steps ih =>
    intro it
    unfold firstOf
    rcases step it with ⟨_ | n, after⟩
    · exact ih after
    · exact fun h => by cases h

theorem inOrder_once (steps : List Step) : (inOrder steps).Once := by
  induction steps with
  | nil => exact fun it h => by cases h
  | cons step steps ih =>
    intro it
    unfold inOrder
    rcases step it with ⟨_ | n, after⟩
    · exact fun h => by cases h
    · exact ih after

end Step

namespace Matching

theorem single_once (test : ValuePart → Cursor → Bool × Cursor) : (single test).Once := by
  intro it
  unfold single
  cases it.current? with
  | none => exact fun h => by cases h
  | some part =>
    dsimp only
    split_ifs
    · exact fun h => by cases h
    · exact fun h => by cases h
    · exact fun h => by cases h

theorem anyOrder_once (members : List Member) (required : Option (List Bool)) :
    (AnyOrder.step members required).Once := by
  intro it
  rw [AnyOrder.step_eq]
  dsimp only
  split_ifs
  · exact fun h => by cases h
  · exact fun h => by cases h

theorem needsPart_once {step : Step} (h : step.Once) : (needsPart step).Once := by
  intro it
  unfold needsPart
  cases it.current? with
  | none => exact fun h => by cases h
  | some part => exact h.restoring it

/-- **A repetition of no times** has taken nothing. -/
theorem repetition_zero (m : Multiplier) {step next : Step} (hstep : step.Sound anything)
    (hnext : next.Sound anything) (hadvances : step.Advances) (hadvances' : next.Advances)
    (hrestores : step.Restores) (hrestores' : next.Restores) {it after : Cursor}
    (hrun : repetition m step next it = (some 0, after)) : after.pos = it.pos := by
  unfold repetition at hrun
  cases hcurrent : it.current? with
  | none =>
    rw [hcurrent] at hrun
    dsimp only at hrun
    split_ifs at hrun
    · cases hrun
      rfl
    · cases hrun
  | some part =>
    rw [hcurrent] at hrun
    unfold Step.restoring at hrun
    dsimp only at hrun
    rcases hloop : Step.repeating m.max step next (it.parts.length + 1) 0 it with
      ⟨_ | count, between⟩ <;> rw [hloop] at hrun
    · cases hrun
    · dsimp only at hrun
      split_ifs at hrun
      · cases hrun
        obtain ⟨k, ps, hcount, -, htakes, htimes⟩ := Step.repeating_sound hstep hnext hadvances
          hadvances' hrestores hrestores' (fun _ _ => Nat.zero_le _) hloop
        obtain rfl : k = 0 := by omega
        obtain rfl : ps = [] := htimes
        exact htakes.pos_eq
      · cases hrun

/-- **A matcher that matches no times** has taken nothing. -/
theorem stepOf_zero (s : Surroundings) {it after : Cursor} : ∀ m : Matcher,
    stepOf s m it = (some 0, after) → after.pos = it.pos
  | .words _ _, h => absurd (congrArg Prod.fst h) (single_once _ it)
  | .basic _, h => absurd (congrArg Prod.fst h) (single_once _ it)
  | .function _ _, h => absurd (congrArg Prod.fst h) (single_once _ it)
  | .group _, h => absurd (congrArg Prod.fst h) (single_once _ it)
  | .bracketed _, h => absurd (congrArg Prod.fst h) (single_once _ it)
  | .oneOf _, h =>
    absurd (congrArg Prod.fst h) (needsPart_once (Step.firstOf_once _) it)
  | .sequence _, h =>
    absurd (congrArg Prod.fst h) (needsPart_once (Step.inOrder_once _) it)
  | .anyOrder _ _, h =>
    absurd (congrArg Prod.fst h) (needsPart_once (anyOrder_once _ _) it)
  | .repeated inner m none, h => repetition_zero m (stepOf_takes s inner) (stepOf_takes s inner)
      (stepOf_advances s inner) (stepOf_advances s inner) (stepOf_restores s inner)
      (stepOf_restores s inner) h
  | .repeated inner m (some next), h => repetition_zero m (stepOf_takes s inner)
      (stepOf_takes s next) (stepOf_advances s inner) (stepOf_advances s next)
      (stepOf_restores s inner) (stepOf_restores s next) h
  | .alias _ inner, h => stepOf_zero s inner h

end Matching

open Matching

/-- **Matching takes all or nothing.** From any place of any parts, a matcher
that fails leaves the cursor at its place. If it matches, the cursor has gone on,
but not beyond the parts, and it stands where it stood if the matcher matched no
times. The parts and what may stand for one stay as they are, and a function that
did not fit before changes neither the result nor the place. -/
theorem Matcher.run_transactional (m : Matcher) (catalog : Catalog) (it : Cursor)
    (hpos : it.pos ≤ it.parts.length) :
    ((m.run catalog it).1 = none → (m.run catalog it).2.pos = it.pos) ∧
      (∀ n, (m.run catalog it).1 = some n →
        it.pos ≤ (m.run catalog it).2.pos ∧ (m.run catalog it).2.pos ≤ it.parts.length ∧
          (n = 0 → (m.run catalog it).2.pos = it.pos)) ∧
      (m.run catalog it).2.parts = it.parts ∧ (m.run catalog it).2.tryAttr = it.tryAttr ∧
      ∀ bad : Option BadFunction,
        (m.run catalog { it with bad := bad }).1 = (m.run catalog it).1 ∧
          (m.run catalog { it with bad := bad }).2.pos = (m.run catalog it).2.pos := by
  set s := surroundings catalog it.parts
  have hfollows := m.run_follows catalog it
  refine ⟨fun hnone => ?_, fun n hsome => ?_, hfollows.parts_eq, hfollows.tryAttr_eq,
    fun bad => ?_⟩
  · exact stepOf_restores s m it _ (Prod.ext hnone rfl)
  · have hrun : stepOf s m it = (some n, (m.run catalog it).2) := Prod.ext hsome rfl
    obtain ⟨hle, hend⟩ := stepOf_pos hrun hpos
    refine ⟨hle, hend, ?_⟩
    rintro rfl
    exact stepOf_zero s m hrun
  · have halike : Cursor.Alike { it with bad := bad } it := ⟨rfl, rfl, rfl⟩
    obtain ⟨hresult, hafter⟩ :=
      stepOf_respects Cursor.Alike.likeness (surroundings_quiet s) m _ it halike
    exact ⟨hresult, hafter.pos_eq⟩

/-- A sequence whose first members have taken two parts when the last one
fails. -/
theorem Matcher.run_transactional_sequence :
    let m : Matcher := .sequence
      [.repeated (.words ["a"] "a") (.ofMarker .star) none, .words ["b"] "b"]
    let it : Cursor := { Cursor.start [wordPart "x", wordPart "a", wordPart "a", wordPart "c"] with
      pos := 1 }
    it.pos ≤ it.parts.length ∧ (m.run .empty it).1 = none ∧ (m.run .empty it).2.pos = 1 := by
  intro m it
  have hpos : it.pos ≤ it.parts.length := by decide
  have hnone : (m.run .empty it).1 = none := by with_unfolding_all rfl
  exact ⟨hpos, hnone, (m.run_transactional .empty it hpos).1 hnone⟩

end Stylesheet.Grammar
