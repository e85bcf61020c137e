import Mathlib.Data.List.Forall2
import Mathlib.Data.List.Nodup
import Stylesheet.Proofs.Matching.Cursor

/-!
# What steps of matching take

A step that matches takes some parts from where the cursor stands
(`Cursor.Takes`), and it is sound for a language if what it takes always
belongs to it. A step that fails should leave the cursor where it was;
most do, and those that do not are made to by whoever calls them.

What a step comes to depends on little. A likeness of cursors
(`Cursor.Likeness`) lets them have other parts as long as these are alike,
and a step that respects it comes to the same result from cursors that are
alike (`Step.Respects`). Steps also take notes, of functions that do not fit
and of grammars that were asked for, and nothing depends on these: cursors
that differ in them only are alike (`Cursor.Alike`).
-/

namespace Stylesheet.Grammar

/-- **A set of lists of parts**, with references to attributes let
through or not. -/
abbrev Language := Bool → List ValuePart → Prop

/-- **What lies between two places** of a cursor. -/
structure Cursor.Takes (it after : Cursor) (ps : List ValuePart) : Prop where
  /-- The second place is as much further on. -/
  pos_eq : after.pos = it.pos + ps.length
  /-- These are the parts in between. -/
  drop_eq : it.parts.drop it.pos = ps ++ it.parts.drop after.pos

namespace Cursor.Takes

variable {it after later : Cursor} {ps qs : List ValuePart}

/-- Nothing is taken. -/
theorem nil (h : after.pos = it.pos) : it.Takes after [] := ⟨h, by rw [h]; rfl⟩

/-- One part is taken. -/
theorem one {p : ValuePart} (hp : it.current? = some p) (hpos : after.pos = it.pos + 1) :
    it.Takes after [p] := by
  refine ⟨hpos, ?_⟩
  obtain ⟨hlt, rfl⟩ := List.getElem?_eq_some_iff.mp hp
  rw [hpos]
  exact List.drop_eq_getElem_cons hlt

theorem trans (h : it.Takes after ps) (hparts : after.parts = it.parts)
    (h' : after.Takes later qs) : it.Takes later (ps ++ qs) := by
  refine ⟨?_, ?_⟩
  · rw [h'.pos_eq, h.pos_eq, List.length_append, Nat.add_assoc]
  · have hrest := h'.drop_eq
    rw [hparts] at hrest
    rw [h.drop_eq, hrest, List.append_assoc]

/-- The cursor before may have taken other notes. -/
theorem of_start_eq {start : Cursor} (h : it.Takes after ps) (hpos : start.pos = it.pos)
    (hparts : start.parts = it.parts) : start.Takes after ps := by
  refine ⟨by rw [h.pos_eq, hpos], ?_⟩
  rw [hparts, hpos]
  exact h.drop_eq

/-- **The parts taken** are those between the two places. -/
theorem eq_slice (h : it.Takes after ps) : ps = (it.parts.take after.pos).drop it.pos := by
  rw [List.drop_take, h.drop_eq, h.pos_eq, Nat.add_sub_cancel_left, List.take_left]

end Cursor.Takes

/-- **A step that takes what belongs to a language.** -/
def Step.Sound (L : Language) (step : Step) : Prop :=
  ∀ (it : Cursor) (n : Nat) (after : Cursor), step it = (some n, after) →
    ∃ ps, it.Takes after ps ∧ L it.tryAttr ps

/-- **A step that takes nothing when it fails.** -/
def Step.Restores (step : Step) : Prop :=
  ∀ it after : Cursor, step it = (none, after) → after.pos = it.pos

/-- **Cursors that differ in their notes only.** -/
structure Cursor.Alike (it it' : Cursor) : Prop where
  /-- The parts are the same. -/
  parts_eq : it.parts = it'.parts
  /-- The place is the same. -/
  pos_eq : it.pos = it'.pos
  /-- What may stand for a part is the same. -/
  tryAttr_eq : it.tryAttr = it'.tryAttr

namespace Cursor.Alike

variable {it it' : Cursor}

theorem refl (it : Cursor) : it.Alike it := ⟨rfl, rfl, rfl⟩

theorem symm (h : it.Alike it') : it'.Alike it :=
  ⟨h.parts_eq.symm, h.pos_eq.symm, h.tryAttr_eq.symm⟩

theorem trans {it'' : Cursor} (h : it.Alike it') (h' : it'.Alike it'') : it.Alike it'' :=
  ⟨h.parts_eq.trans h'.parts_eq, h.pos_eq.trans h'.pos_eq, h.tryAttr_eq.trans h'.tryAttr_eq⟩

theorem current?_eq (h : it.Alike it') : it.current? = it'.current? := by
  unfold Cursor.current?
  rw [h.parts_eq, h.pos_eq]

theorem withPos (h : it.Alike it') (pos : Nat) :
    Cursor.Alike { it with pos := pos } { it' with pos := pos } :=
  ⟨h.parts_eq, rfl, h.tryAttr_eq⟩

end Cursor.Alike

/-- A cursor that was led back to its place differs in its notes only. -/
theorem Cursor.Follows.alike {it after : Cursor} (h : it.Follows after) (hpos : after.pos = it.pos) :
    after.Alike it := ⟨h.parts_eq, hpos, h.tryAttr_eq⟩

/-- **A likeness of cursors**: they stand at the same place, and their parts
are alike. -/
structure Cursor.Likeness (S : ValuePart → ValuePart → Prop) (R : Cursor → Cursor → Prop) :
    Prop where
  /-- The parts are alike. -/
  parts {it it' : Cursor} : R it it' → List.Forall₂ S it.parts it'.parts
  /-- The place is the same. -/
  pos_eq {it it' : Cursor} : R it it' → it.pos = it'.pos
  /-- What may stand for a part is the same. -/
  tryAttr_eq {it it' : Cursor} : R it it' → it.tryAttr = it'.tryAttr
  /-- Any other place will do. -/
  withPos {it it' : Cursor} : R it it' → ∀ pos, R { it with pos := pos } { it' with pos := pos }
  /-- Variables are like variables. -/
  isVar_eq {p p' : ValuePart} : S p p' → p.isVar = p'.isVar
  /-- References to attributes are like such references. -/
  isAttr_eq {p p' : ValuePart} : S p p' → p.isAttr = p'.isAttr

/-- **A step that comes to the same result** from cursors that are alike. -/
def Step.Respects (R : Cursor → Cursor → Prop) (step : Step) : Prop :=
  ∀ it it' : Cursor, R it it' → (step it).1 = (step it').1 ∧ R (step it).2 (step it').2

/-- **Two steps that come to the same result** from cursors that are alike. -/
def Step.Agrees (R : Cursor → Cursor → Prop) (step step' : Step) : Prop :=
  ∀ it it' : Cursor, R it it' → (step it).1 = (step' it').1 ∧ R (step it).2 (step' it').2

/-- A test of a part that does so. -/
def TestRespects (S : ValuePart → ValuePart → Prop) (R : Cursor → Cursor → Prop)
    (test : ValuePart → Cursor → Bool × Cursor) : Prop :=
  ∀ (p p' : ValuePart) (it it' : Cursor), S p p' → R it it' →
    (test p it).1 = (test p' it').1 ∧ R (test p it).2 (test p' it').2

/-- Two tests of a part that do so. -/
def TestsAgree (S : ValuePart → ValuePart → Prop) (R : Cursor → Cursor → Prop)
    (test test' : ValuePart → Cursor → Bool × Cursor) : Prop :=
  ∀ (p p' : ValuePart) (it it' : Cursor), S p p' → R it it' →
    (test p it).1 = (test' p' it').1 ∧ R (test p it).2 (test' p' it').2

namespace Cursor

variable {S : ValuePart → ValuePart → Prop} {R : Cursor → Cursor → Prop} {it it' : Cursor}

/-- **The next parts** of cursors that are alike. -/
theorem Likeness.current (h : Likeness S R) (hit : R it it') :
    it.current? = none ∧ it'.current? = none ∨
      ∃ p p', it.current? = some p ∧ it'.current? = some p' ∧ S p p' := by
  have hparts := h.parts hit
  unfold current?
  rw [← h.pos_eq hit]
  by_cases hlt : it.pos < it.parts.length
  · have hlt' : it.pos < it'.parts.length := hparts.length_eq ▸ hlt
    exact .inr ⟨_, _, List.getElem?_eq_getElem hlt, List.getElem?_eq_getElem hlt',
      List.forall₂_iff_get.mp hparts |>.2 _ hlt hlt'⟩
  · have hle := Nat.le_of_not_lt hlt
    exact .inl ⟨List.getElem?_eq_none hle, List.getElem?_eq_none (hparts.length_eq ▸ hle)⟩

/-- Cursors that differ in their notes are alike. -/
theorem Alike.likeness : Likeness Eq Cursor.Alike where
  parts h := by
    rw [h.parts_eq]
    exact List.forall₂_refl _
  pos_eq h := h.pos_eq
  tryAttr_eq h := h.tryAttr_eq
  withPos h pos := h.withPos pos
  isVar_eq := by
    rintro _ _ rfl
    rfl
  isAttr_eq := by
    rintro _ _ rfl
    rfl

end Cursor

/-- **A step that does not look at notes.** -/
abbrev Step.Blind (step : Step) : Prop := step.Respects Cursor.Alike

namespace Step

variable {step step' next next' : Step} {steps steps' : List Step} {L L' : Language}
  {S : ValuePart → ValuePart → Prop} {R : Cursor → Cursor → Prop}

/-! ## Steps that fail -/

theorem restoring_restores (step : Step) : step.restoring.Restores := by
  intro it after hrun
  unfold Step.restoring at hrun
  split at hrun
  · cases hrun
    rfl
  · next hne => exact absurd hrun (hne after)

theorem Sound.restoring (h : step.Sound L) : step.restoring.Sound L := by
  intro it n after hrun
  unfold Step.restoring at hrun
  split at hrun
  · cases hrun
  · exact h it n after hrun

theorem Sound.mono (h : step.Sound L) (hle : ∀ attr ps, L attr ps → L' attr ps) :
    step.Sound L' := by
  intro it n after hrun
  obtain ⟨ps, htakes, hps⟩ := h it n after hrun
  exact ⟨ps, htakes, hle _ _ hps⟩

theorem Agrees.restoring (hR : Cursor.Likeness S R) (h : step.Agrees R step') :
    step.restoring.Agrees R step'.restoring := by
  intro it it' halike
  have hstep := h it it' halike
  unfold Step.restoring
  rcases hrun : step it with ⟨_ | n, after⟩ <;> rcases hrun' : step' it' with ⟨_ | n', after'⟩ <;>
    rw [hrun, hrun'] at hstep
  · refine ⟨rfl, ?_⟩
    rw [hR.pos_eq halike]
    exact hR.withPos hstep.2 _
  · cases hstep.1
  · cases hstep.1
  · exact hstep

/-! ## One of some steps -/

/-- **The first of some steps that matches** takes what all of them would
take. -/
theorem Sound.firstOf (hsound : ∀ step ∈ steps, step.Sound L)
    (hadvances : ∀ step ∈ steps, step.Advances) (hrestores : ∀ step ∈ steps, step.Restores) :
    (Step.firstOf steps).Sound L := by
  induction steps with
  | nil =>
    intro it n after hrun
    cases hrun
  | cons step steps ih =>
    intro it n after hrun
    unfold Step.firstOf at hrun
    rcases hfirst : step it with ⟨_ | k, between⟩ <;> rw [hfirst] at hrun
    · -- what is left to try starts from the same place
      have hfollows : it.Follows between := by
        have := hadvances step List.mem_cons_self it
        rwa [hfirst] at this
      have hpos := hrestores step List.mem_cons_self it between hfirst
      obtain ⟨ps, htakes, hps⟩ := ih
        (fun s hs => hsound s (List.mem_cons_of_mem _ hs))
        (fun s hs => hadvances s (List.mem_cons_of_mem _ hs))
        (fun s hs => hrestores s (List.mem_cons_of_mem _ hs)) between n after hrun
      rw [hfollows.tryAttr_eq] at hps
      exact ⟨ps, htakes.of_start_eq hpos.symm hfollows.parts_eq.symm, hps⟩
    · cases hrun
      exact hsound step List.mem_cons_self it k after hfirst

theorem Agrees.firstOf (h : List.Forall₂ (Agrees R) steps steps') :
    (Step.firstOf steps).Agrees R (Step.firstOf steps') := by
  induction h with
  | nil => exact fun _ _ halike => ⟨rfl, halike⟩
  | @cons step step' steps steps' hfirst _ ih =>
    intro it it' halike
    have hstep := hfirst it it' halike
    unfold Step.firstOf
    rcases hrun : step it with ⟨_ | n, after⟩ <;> rcases hrun' : step' it' with ⟨_ | n', after'⟩ <;>
      rw [hrun, hrun'] at hstep
    · exact ih after after' hstep.2
    · cases hstep.1
    · cases hstep.1
    · exact ⟨rfl, hstep.2⟩

/-! ## Steps in a row -/

/-- **Concatenations**: one piece for each language, in order. -/
def InOrder : List Language → Language
  | [], _, ps => ps = []
  | L :: Ls, attr, ps => ∃ qs rs, ps = qs ++ rs ∧ L attr qs ∧ InOrder Ls attr rs

/-- **Some steps, one after another**, take a concatenation. -/
theorem Sound.inOrder {Ls : List Language} (hsound : List.Forall₂ Sound Ls steps)
    (hadvances : ∀ step ∈ steps, step.Advances) : (Step.inOrder steps).Sound (InOrder Ls) := by
  induction hsound with
  | nil =>
    intro it n after hrun
    cases hrun
    exact ⟨[], .nil rfl, rfl⟩
  | @cons L step Ls steps hstep hsteps ih =>
    intro it n after hrun
    unfold Step.inOrder at hrun
    rcases hfirst : step it with ⟨_ | k, between⟩ <;> rw [hfirst] at hrun
    · cases hrun
    · have hfollows : it.Follows between := by
        have := hadvances step List.mem_cons_self it
        rwa [hfirst] at this
      obtain ⟨qs, hqs, hL⟩ := hstep it k between hfirst
      obtain ⟨rs, hrs, hrest⟩ := ih (fun s hs => hadvances s (List.mem_cons_of_mem _ hs))
        between n after hrun
      rw [hfollows.tryAttr_eq] at hrest
      exact ⟨qs ++ rs, hqs.trans hfollows.parts_eq hrs, qs, rs, rfl, hL, hrest⟩

theorem Agrees.inOrder (h : List.Forall₂ (Agrees R) steps steps') :
    (Step.inOrder steps).Agrees R (Step.inOrder steps') := by
  induction h with
  | nil => exact fun _ _ halike => ⟨rfl, halike⟩
  | @cons step step' steps steps' hfirst _ ih =>
    intro it it' halike
    have hstep := hfirst it it' halike
    unfold Step.inOrder
    rcases hrun : step it with ⟨_ | n, after⟩ <;> rcases hrun' : step' it' with ⟨_ | n', after'⟩ <;>
      rw [hrun, hrun'] at hstep
    · exact ⟨rfl, hstep.2⟩
    · cases hstep.1
    · cases hstep.1
    · exact ih after after' hstep.2

/-! ## Repetition -/

/-- **Iterations**: one language once, and another one from then on. -/
def Times (next : Language) : Nat → Language → Language
  | 0, _, _, ps => ps = []
  | n + 1, L, attr, ps => ∃ qs rs, ps = qs ++ rs ∧ L attr qs ∧ Times next n next attr rs

/-- **A step as often as it matches** takes an iteration, of as many
pieces as it counts. -/
theorem repeating_sound {max : Option Nat} (hstep : step.Sound L) (hnext : next.Sound L')
    (hadvances : step.Advances) (hadvances' : next.Advances) (hrestores : step.Restores)
    (hrestores' : next.Restores) {fuel count n : Nat} {it after : Cursor}
    (hcount : ∀ m, max = some m → count ≤ m)
    (hrun : Step.repeating max step next fuel count it = (some n, after)) :
    ∃ k ps, n = count + k ∧ (∀ m, max = some m → n ≤ m) ∧ it.Takes after ps ∧
      Times L' k L it.tryAttr ps := by
  induction fuel generalizing step L count it with
  | zero =>
    cases hrun
    exact ⟨0, [], rfl, hcount, .nil rfl, rfl⟩
  | succ fuel ih =>
    unfold Step.repeating at hrun
    split at hrun
    · cases hrun
      exact ⟨0, [], rfl, hcount, .nil rfl, rfl⟩
    · next hmax =>
      have hcount' : ∀ m, max = some m → count + 1 ≤ m := by
        rintro m rfl
        exact Nat.lt_of_not_le fun hle => hmax (by simpa using hle)
      rcases hfirst : step it with ⟨_ | k, between⟩ <;> rw [hfirst] at hrun
      · cases hrun
        exact ⟨0, [], rfl, hcount, .nil (hrestores it after hfirst), rfl⟩
      · obtain ⟨ps, hps, hL⟩ := hstep it k between hfirst
        have hfollows : it.Follows between := by
          have := hadvances it
          rwa [hfirst] at this
        dsimp only at hrun
        split at hrun
        · cases hrun
          exact ⟨1, ps ++ [], rfl, hcount', by rwa [List.append_nil], ps, [], rfl, hL, rfl⟩
        · obtain ⟨j, qs, rfl, hmax', hqs, htimes⟩ := ih hnext hadvances' hrestores' hcount' hrun
          rw [hfollows.tryAttr_eq] at htimes
          exact ⟨j + 1, ps ++ qs, by omega, hmax', hps.trans hfollows.parts_eq hqs,
            ps, qs, rfl, hL, htimes⟩

theorem Agrees.repeating (hR : Cursor.Likeness S R) (max : Option Nat) (h : step.Agrees R step')
    (hnext : next.Agrees R next') (fuel count : Nat) :
    (Step.repeating max step next fuel count).Agrees R
      (Step.repeating max step' next' fuel count) := by
  induction fuel generalizing step step' count with
  | zero => exact fun _ _ halike => ⟨rfl, halike⟩
  | succ fuel ih =>
    intro it it' halike
    have hstep := h it it' halike
    unfold Step.repeating
    split_ifs
    · exact ⟨rfl, halike⟩
    · rcases hrun : step it with ⟨_ | n, after⟩ <;>
        rcases hrun' : step' it' with ⟨_ | n', after'⟩ <;> rw [hrun, hrun'] at hstep
      · exact ⟨rfl, hstep.2⟩
      · cases hstep.1
      · cases hstep.1
      · dsimp only
        rw [hR.pos_eq hstep.2, hR.pos_eq halike]
        split_ifs
        · exact ⟨rfl, hstep.2⟩
        · exact ih hnext _ after after' hstep.2

end Step

end Stylesheet.Grammar
