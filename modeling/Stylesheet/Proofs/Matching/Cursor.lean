import Mathlib.Tactic.SplitIfs
import Stylesheet.Grammar.Match

/-!
# What matching does to a cursor

Matching moves a cursor along the parts of a value and takes notes. What
is known of the notes and does not depend on the place (`Cursor.Lasting`)
holds between the start and the end of a match if the tests of single parts
keep it.

Matching never changes the parts themselves or what may stand for a part,
and a function it complains about is one of the parts. `Cursor.Follows` says
so of two cursors, and every step leads to a cursor that follows the one
it started from.
-/

namespace Stylesheet.Grammar

/-- **What lasts along a match**, wherever the cursors stand. -/
structure Cursor.Lasting (R : Cursor → Cursor → Prop) : Prop where
  /-- It holds at the start. -/
  refl : ∀ it, R it it
  /-- It lasts from one step to the next. -/
  trans : ∀ it after later, R it after → R after later → R it later
  /-- The place does not matter. -/
  withPos : ∀ it after pos, R it after → R it { after with pos := pos }

/-- **A step that keeps to a relation**, whatever it starts from. -/
def Step.Keeps (R : Cursor → Cursor → Prop) (step : Step) : Prop := ∀ it : Cursor, R it (step it).2

/-- A test of a part that keeps to a relation. -/
def TestKeeps (R : Cursor → Cursor → Prop) (test : ValuePart → Cursor → Bool × Cursor) : Prop :=
  ∀ (part : ValuePart) (it : Cursor), part ∈ it.parts → R it (test part it).2

section Lasting

variable {R : Cursor → Cursor → Prop} (hR : Cursor.Lasting R)

include hR

namespace Step.Keeps

variable {step next : Step} {steps : List Step}

theorem restoring (h : step.Keeps R) : step.restoring.Keeps R := by
  intro it
  have hstep := h it
  unfold Step.restoring
  rcases hrun : step it with ⟨_ | n, after⟩ <;> rw [hrun] at hstep
  · exact hR.withPos _ _ it.pos hstep
  · exact hstep

theorem firstOf (h : ∀ step ∈ steps, step.Keeps R) : (Step.firstOf steps).Keeps R := by
  induction steps with
  | nil => exact fun it => hR.refl it
  | cons step steps ih =>
    intro it
    have hstep := h step List.mem_cons_self it
    unfold Step.firstOf
    rcases hrun : step it with ⟨_ | n, after⟩ <;> rw [hrun] at hstep
    · exact hR.trans _ _ _ hstep (ih (fun s hs => h s (List.mem_cons_of_mem _ hs)) after)
    · exact hstep

theorem inOrder (h : ∀ step ∈ steps, step.Keeps R) : (Step.inOrder steps).Keeps R := by
  induction steps with
  | nil => exact fun it => hR.refl it
  | cons step steps ih =>
    intro it
    have hstep := h step List.mem_cons_self it
    unfold Step.inOrder
    rcases hrun : step it with ⟨_ | n, after⟩ <;> rw [hrun] at hstep
    · exact hstep
    · exact hR.trans _ _ _ hstep (ih (fun s hs => h s (List.mem_cons_of_mem _ hs)) after)

theorem repeating (max : Option Nat) (h : step.Keeps R) (hnext : next.Keeps R)
    (fuel count : Nat) : (Step.repeating max step next fuel count).Keeps R := by
  induction fuel generalizing step count with
  | zero => exact fun it => hR.refl it
  | succ fuel ih =>
    intro it
    have hstep := h it
    unfold Step.repeating
    split_ifs
    · exact hR.refl it
    · rcases hrun : step it with ⟨_ | n, after⟩ <;> rw [hrun] at hstep
      · exact hstep
      · dsimp only
        split_ifs
        · exact hstep
        · exact hR.trans _ _ _ hstep (ih hnext _ after)

end Step.Keeps

/-! ## Members in any order -/

namespace AnyOrder

variable {members : List Member} {retry : Bool}

theorem tryFrom_keeps {count : Nat} {deeper : Nat → Search → Cursor → Bool × Search × Cursor}
    (hdeeper : ∀ count search (it : Cursor), R it (deeper count search it).2.2)
    (rest : List (Nat × Member)) (hrest : ∀ entry ∈ rest, entry.2.step.Keeps R) (search : Search)
    (it : Cursor) : R it (tryFrom members retry count deeper rest search it).2.2 := by
  induction rest generalizing search it with
  | nil =>
    unfold tryFrom
    split_ifs <;> exact hR.refl it
  | cons entry rest ih =>
    obtain ⟨i, member⟩ := entry
    have htail := ih fun entry he => hrest entry (List.mem_cons_of_mem _ he)
    have hstep := hrest (i, member) List.mem_cons_self it
    unfold tryFrom
    split
    · exact htail search it
    · dsimp only at hstep
      split
      · next after hrun =>
        rw [hrun] at hstep
        extract_lets used
        have hdeep := hR.trans _ _ _ hstep (hdeeper (count + if member.counts then 1 else 0) used after)
        split
        · next hrun' =>
          rw [hrun'] at hdeep
          exact hdeep
        · next hrun' =>
          rw [hrun'] at hdeep
          exact hR.trans _ _ _ (hR.withPos _ _ it.pos hdeep) (htail _ _)
      · next after _ hrun =>
        rw [hrun] at hstep
        exact hR.trans _ _ _ (hR.withPos _ _ it.pos hstep) (htail _ _)

theorem run_keeps (hmembers : ∀ m ∈ members, m.step.Keeps R) (depth count : Nat)
    (search : Search) (it : Cursor) : R it (run members retry depth count search it).2.2 := by
  induction depth generalizing count search it with
  | zero => exact hR.refl it
  | succ depth ih =>
    exact tryFrom_keeps hR ih _ (fun entry he => hmembers _ (List.of_mem_zip he).2) search it

/-- **Members in any order.** -/
theorem step_keeps (hmembers : ∀ m ∈ members, m.step.Keeps R) (required : Option (List Bool)) :
    (step members required).Keeps R := by
  intro it
  have hfirst : R it (run members false (members.length + 1) 0
      ⟨members.map fun _ => false, 0⟩ it).2.2 := run_keeps hR hmembers _ _ _ _
  unfold step
  dsimp only
  split_ifs
  · exact hfirst
  · exact hR.trans _ _ _ hfirst (run_keeps hR hmembers _ _ _ _)

end AnyOrder

/-! ## Parts and repetitions -/

namespace Matching

theorem single_keeps {test : ValuePart → Cursor → Bool × Cursor} (h : TestKeeps R test) :
    (single test).Keeps R := by
  intro it
  unfold single
  cases hcurrent : it.current? with
  | none => exact hR.refl it
  | some part =>
    have htest := h part it (List.mem_of_getElem? hcurrent)
    dsimp only
    split_ifs
    · exact hR.withPos _ _ _ (hR.refl it)
    · exact hR.withPos _ _ _ htest
    · exact htest

theorem needsPart_keeps {step : Step} (h : step.Keeps R) : (needsPart step).Keeps R := by
  intro it
  unfold needsPart
  cases it.current? with
  | none => exact hR.refl it
  | some part => exact h.restoring hR it

theorem repetition_keeps (m : Multiplier) {step next : Step} (h : step.Keeps R)
    (hnext : next.Keeps R) : (repetition m step next).Keeps R := by
  intro it
  unfold repetition
  cases it.current? with
  | none =>
    dsimp only
    split_ifs <;> exact hR.refl it
  | some part =>
    refine Step.Keeps.restoring hR (fun it => ?_) it
    have hrun := Step.Keeps.repeating hR m.max h hnext (it.parts.length + 1) 0 it
    rcases hresult : Step.repeating m.max step next (it.parts.length + 1) 0 it with ⟨_ | n, after⟩ <;>
      rw [hresult] at hrun
    · exact hrun
    · exact hrun

end Matching

end Lasting

/-! ## Cursors that follow -/

/-- **A cursor that another one can lead to.** -/
structure Cursor.Follows (it after : Cursor) : Prop where
  /-- The parts are the same. -/
  parts_eq : after.parts = it.parts
  /-- What may stand for a part is the same. -/
  tryAttr_eq : after.tryAttr = it.tryAttr
  /-- A complaint is an old one or about the arguments of some part. -/
  bad : ∀ b, after.bad = some b → it.bad = some b ∨
    ∃ part ∈ it.parts, Matching.isCall part = true ∧ part.expr = some b.args

namespace Cursor.Follows

variable {it after later : Cursor}

theorem refl (it : Cursor) : it.Follows it := ⟨rfl, rfl, fun _ h => .inl h⟩

theorem trans (h : it.Follows after) (h' : after.Follows later) : it.Follows later where
  parts_eq := h'.parts_eq.trans h.parts_eq
  tryAttr_eq := h'.tryAttr_eq.trans h.tryAttr_eq
  bad b hb := by
    rcases h'.bad b hb with hb | ⟨part, hmem, hbad⟩
    · exact h.bad b hb
    · exact .inr ⟨part, h.parts_eq ▸ hmem, hbad⟩

/-- Where a cursor stands, and what it has asked for, does not matter. -/
theorem of_eq (hparts : after.parts = it.parts) (hattr : after.tryAttr = it.tryAttr)
    (hbad : after.bad = it.bad) : it.Follows after :=
  ⟨hparts, hattr, fun _ h => .inl (hbad ▸ h)⟩

theorem withPos (h : it.Follows after) (pos : Nat) : it.Follows { after with pos := pos } :=
  h.trans (of_eq rfl rfl rfl)

theorem lasting : Cursor.Lasting Cursor.Follows where
  refl := refl
  trans _ _ _ := trans
  withPos _ _ pos h := h.withPos pos

end Cursor.Follows

/-- **A step that leads to cursors that follow.** -/
def Step.Advances (step : Step) : Prop := step.Keeps Cursor.Follows

/-! ## Matchers -/

namespace Matching

variable {s : Surroundings} {part : ValuePart} {it : Cursor}

theorem argumentsFit_follows (body : Matcher) (hpart : part ∈ it.parts)
    (hcall : isCall part = true) : it.Follows (argumentsFit s body part it).2 := by
  unfold argumentsFit
  cases hexpr : part.expr with
  | none => exact .of_eq rfl rfl rfl
  | some args =>
    dsimp only
    split_ifs
    · exact .refl it
    · exact .of_eq rfl rfl rfl
    · exact .of_eq rfl rfl rfl
    · refine ⟨rfl, rfl, ?_⟩
      rintro b ⟨⟩
      exact .inr ⟨part, hpart, hcall, hexpr⟩

theorem functionMatches_advances (name : String) (body : Option Matcher) :
    TestKeeps Cursor.Follows (functionMatches s name body) := by
  intro part it hpart
  unfold functionMatches
  split_ifs with hname
  · cases body with
    | none => exact .refl it
    | some body => exact argumentsFit_follows body hpart (Bool.and_eq_true_iff.mp hname).1
  · exact .refl it

theorem groupMatches_advances (group : FunctionGroup) : TestKeeps Cursor.Follows (groupMatches s group) := by
  intro part it hpart
  unfold groupMatches
  split_ifs with hcall
  · split
    · exact .refl it
    · next grammar _ =>
      have hasked : it.Follows { it with consulted := grammar :: it.consulted } :=
        .of_eq rfl rfl rfl
      dsimp only
      split
      · exact hasked
      · exact hasked.trans (argumentsFit_follows _ hpart hcall)
  · exact .refl it

theorem bracketMatches_advances (inner : Matcher) : TestKeeps Cursor.Follows (bracketMatches s inner) := by
  intro part it _
  unfold bracketMatches
  split_ifs
  · exact .of_eq rfl rfl rfl
  · exact .refl it

mutual
theorem stepOf_advances (s : Surroundings) : ∀ m : Matcher, (stepOf s m).Advances
  | .words _ _ => single_keeps Cursor.Follows.lasting fun _ it _ => .refl it
  | .basic _ => single_keeps Cursor.Follows.lasting fun _ it _ => .refl it
  | .function name body => single_keeps Cursor.Follows.lasting (functionMatches_advances name body)
  | .group functions => single_keeps Cursor.Follows.lasting (groupMatches_advances functions)
  | .oneOf members => needsPart_keeps Cursor.Follows.lasting (.firstOf Cursor.Follows.lasting (stepsOf_advances s members))
  | .sequence members => needsPart_keeps Cursor.Follows.lasting (.inOrder Cursor.Follows.lasting (stepsOf_advances s members))
  | .anyOrder members required =>
    needsPart_keeps Cursor.Follows.lasting (AnyOrder.step_keeps Cursor.Follows.lasting (membersOf_advances s required 0 members) required)
  | .repeated inner m separator =>
    repetition_keeps Cursor.Follows.lasting m (stepOf_advances s inner)
      (nextOf_advances s (stepOf_advances s inner) separator)
  | .alias _ inner => stepOf_advances s inner
  | .bracketed inner => single_keeps Cursor.Follows.lasting (bracketMatches_advances inner)

theorem nextOf_advances (s : Surroundings) {step : Step} (h : step.Advances) :
    ∀ separator : Option Matcher, (nextOf s step separator).Advances
  | none => h
  | some separator => stepOf_advances s separator

theorem stepsOf_advances (s : Surroundings) :
    ∀ (ms : List Matcher), ∀ step ∈ stepsOf s ms, step.Advances
  | [], _, h => by cases h
  | m :: ms, step, h => by
    rcases List.mem_cons.mp h with rfl | h
    · exact stepOf_advances s m
    · exact stepsOf_advances s ms step h

theorem membersOf_advances (s : Surroundings) (required : Option (List Bool)) (i : Nat) :
    ∀ (ms : List Matcher), ∀ member ∈ membersOf s required i ms, member.step.Advances
  | [], _, h => by cases h
  | m :: ms, member, h => by
    rcases List.mem_cons.mp h with rfl | h
    · exact stepOf_advances s m
    · exact membersOf_advances s required (i + 1) ms member h
end

end Matching

/-- **Running a matcher** leads to a cursor that follows. -/
theorem Matcher.run_follows (m : Matcher) (catalog : Catalog) (it : Cursor) :
    it.Follows (m.run catalog it).2 :=
  Matching.stepOf_advances _ m it

end Stylesheet.Grammar
