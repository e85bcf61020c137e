import Stylesheet.Proofs.Ending.Making

/-!
# Matching ends

A match without bounds ends with what the bounded one comes to
(`Unbounded.run_follow`), for every matcher and from every place. The outer
induction is on how deeply the parts are nested, as the grammar of a grouped
function may be larger than the matcher it is met in. At one level it is on the
matcher, and two of its kinds need an argument of their own: a repetition gets
on in the parts whenever it goes on, and a search for members has one member
less to put to use whenever it goes deeper.
-/

namespace Stylesheet.Grammar

/-! ## Getting on -/

/-- Any parts at all. -/
def anything : Language := fun _ _ => True

namespace Matching

variable {s : Surroundings}

theorem single_takes {test : ValuePart → Cursor → Bool × Cursor} (h : Quiet test) :
    (single test).Sound anything := by
  intro it n after hrun
  obtain ⟨part, htakes, -⟩ := single_taken h hrun
  exact ⟨[part], htakes, trivial⟩

theorem stepsOf_restore (s : Surroundings) (ms : List Matcher) :
    ∀ step ∈ stepsOf s ms, step.Restores := by
  intro step hstep
  rw [stepsOf_eq] at hstep
  obtain ⟨m, -, rfl⟩ := List.mem_map.mp hstep
  exact stepOf_restores s m

mutual
/-- **What a matcher takes** are parts that follow one another. -/
theorem stepOf_takes (s : Surroundings) : ∀ m : Matcher, (stepOf s m).Sound anything
  | .words _ _ => single_takes (quiet_of_test _)
  | .basic _ => single_takes (quiet_of_test _)
  | .function name body => single_takes (functionMatches_quiet name body)
  | .group functions => single_takes (groupMatches_quiet functions)
  | .oneOf members => needsPart_sound
      (.firstOf (stepsOf_take s members) (stepsOf_advances s members) (stepsOf_restore s members))
  | .sequence members => by
    refine needsPart_sound (Step.Sound.mono (L := Step.InOrder
      ((stepsOf s members).map fun _ => anything)) (.inOrder ?_ (stepsOf_advances s members))
        fun _ _ _ => trivial)
    exact List.forall₂_map_left_iff.mpr (List.forall₂_same.mpr (stepsOf_take s members))
  | .anyOrder members required => by
    have hmembers : ∀ (i : Nat) member, (membersOf s required 0 members)[i]? = some member →
        member.step.Sound anything ∧ member.step.Advances := fun i member hmember =>
      ⟨membersOf_take s required 0 members member (List.mem_of_getElem? hmember),
        membersOf_advances s required 0 members member (List.mem_of_getElem? hmember)⟩
    exact needsPart_sound ((AnyOrder.step_sound hmembers
      (membersOf_respect Cursor.Alike.likeness (surroundings_quiet s) required 0 members)
        required).mono fun _ _ _ => trivial)
  | .repeated inner m none => (repetition_sound m (stepOf_takes s inner) (stepOf_takes s inner)
      (stepOf_advances s inner) (stepOf_advances s inner) (stepOf_restores s inner)
        (stepOf_restores s inner)).mono fun _ _ _ => trivial
  | .repeated inner m (some next) => (repetition_sound m (stepOf_takes s inner)
      (stepOf_takes s next) (stepOf_advances s inner) (stepOf_advances s next)
        (stepOf_restores s inner) (stepOf_restores s next)).mono fun _ _ _ => trivial
  | .alias _ inner => stepOf_takes s inner
  | .bracketed inner => single_takes (bracketMatches_quiet inner)

theorem stepsOf_take (s : Surroundings) :
    ∀ (ms : List Matcher), ∀ step ∈ stepsOf s ms, step.Sound anything
  | [], _, h => by cases h
  | m :: ms, step, h => by
    rcases List.mem_cons.mp h with rfl | h
    · exact stepOf_takes s m
    · exact stepsOf_take s ms step h

theorem membersOf_take (s : Surroundings) (required : Option (List Bool)) (i : Nat) :
    ∀ (ms : List Matcher), ∀ member ∈ membersOf s required i ms, member.step.Sound anything
  | [], _, h => by cases h
  | m :: ms, member, h => by
    rcases List.mem_cons.mp h with rfl | h
    · exact stepOf_takes s m
    · exact membersOf_take s required (i + 1) ms member h
end

/-- **A match goes on in the parts**, and not beyond their end. -/
theorem stepOf_pos {m : Matcher} {it after : Cursor} {n : Nat}
    (hrun : stepOf s m it = (some n, after)) (hpos : it.pos ≤ it.parts.length) :
    it.pos ≤ after.pos ∧ after.pos ≤ it.parts.length := by
  obtain ⟨ps, htakes, -⟩ := stepOf_takes s m it n after hrun
  have hlength := congrArg List.length htakes.drop_eq
  have hafter := htakes.pos_eq
  rw [List.length_append, List.length_drop, List.length_drop] at hlength
  omega

end Matching

namespace Unbounded

open Matching

/-! ## One level -/

/-- **A matcher that is followed as its step goes**, in some parts. -/
def FollowsStep (catalog : Catalog) (s : Surroundings) (parts : List ValuePart) (m : Matcher) :
    Prop :=
  ∀ it : Cursor, it.parts = parts → Ends (fun depth => follow catalog depth m it) (stepOf s m it)

section Level

variable {catalog : Catalog} {s : Surroundings} {parts : List ValuePart} {it : Cursor}

theorem stepOf_parts (s : Surroundings) (m : Matcher) (hparts : it.parts = parts) :
    (stepOf s m it).2.parts = parts :=
  (stepOf_advances s m it).parts_eq.trans hparts

/-- **A step that looks at a part first.** -/
theorem needsPart_ends {x : Nat → Option (Option Nat × Cursor)} {step : Step}
    (h : Ends x (step it)) :
    Ends (fun depth => if it.current?.isNone then pure (none, it)
      else do
        let (result, after) ← x depth
        pure (result, if result.isNone then { after with pos := it.pos } else after))
      (needsPart step it) := by
  unfold needsPart
  cases it.current? with
  | none => exact .known _
  | some part =>
    refine h.bind ?_
    unfold Step.restoring
    rcases step it with ⟨_ | n, after⟩
    · exact .known _
    · exact .known _

section Members

variable {ms : List Matcher} (hms : ∀ m ∈ ms, FollowsStep catalog s parts m)

include hms

theorem firstOf_ends (hparts : it.parts = parts) :
    Ends (fun depth => firstOf catalog depth ms it) (Step.firstOf (stepsOf s ms) it) := by
  induction ms generalizing it with
  | nil =>
    refine .call ?_
    simp only [firstOf]
    exact .known _
  | cons m ms ih =>
    have hafter := stepOf_parts s m hparts
    refine .call ?_
    simp only [firstOf]
    refine (hms m List.mem_cons_self it hparts).bind ?_
    rw [stepsOf, Step.firstOf]
    rcases hrun : stepOf s m it with ⟨_ | n, after⟩ <;> rw [hrun] at hafter
    · exact ih (fun m hm => hms m (List.mem_cons_of_mem _ hm)) hafter
    · exact .known _

theorem inOrder_ends (hparts : it.parts = parts) :
    Ends (fun depth => inOrder catalog depth ms it) (Step.inOrder (stepsOf s ms) it) := by
  induction ms generalizing it with
  | nil =>
    refine .call ?_
    simp only [inOrder]
    exact .known _
  | cons m ms ih =>
    have hafter := stepOf_parts s m hparts
    refine .call ?_
    simp only [inOrder]
    refine (hms m List.mem_cons_self it hparts).bind ?_
    rw [stepsOf, Step.inOrder]
    rcases hrun : stepOf s m it with ⟨_ | n, after⟩ <;> rw [hrun] at hafter
    · exact .known _
    · exact ih (fun m hm => hms m (List.mem_cons_of_mem _ hm)) hafter

end Members

/-! ## Repetitions -/

/-- **A repetition**: every time it goes on, it has got on in the parts. -/
theorem repeating_ends (max : Option Nat) (fuel count : Nat) {m next : Matcher}
    (hm : FollowsStep catalog s parts m) (hnext : FollowsStep catalog s parts next)
    (hparts : it.parts = parts) (hpos : it.pos ≤ parts.length)
    (hfuel : parts.length < it.pos + fuel) :
    ∃ n after, Step.repeating max (stepOf s m) (stepOf s next) fuel count it = (some n, after) ∧
      Ends (fun depth => repeating catalog depth max m next count it) (n, after) := by
  induction fuel generalizing m count it with
  | zero => omega
  | succ fuel ih =>
    have hafter := stepOf_parts s m hparts
    have hfollow := hm it hparts
    rw [Step.repeating]
    split_ifs with hmax
    · refine ⟨count, it, rfl, .call ?_⟩
      simp only [repeating, if_pos hmax]
      exact .known _
    · rcases hrun : stepOf s m it with ⟨_ | n, after⟩ <;> rw [hrun] at hafter hfollow
      · refine ⟨count, after, rfl, .call ?_⟩
        simp only [repeating, if_neg hmax]
        exact hfollow.bind (.known _)
      · have hplace := stepOf_pos hrun (hparts ▸ hpos)
        rw [hparts] at hplace
        dsimp only
        split_ifs with hsame
        · refine ⟨count + 1, after, rfl, .call ?_⟩
          simp only [repeating, if_neg hmax]
          refine hfollow.bind ?_
          simp only [if_pos hsame]
          exact .known _
        · have hfuel' : parts.length < after.pos + fuel := by omega
          obtain ⟨k, later, hstep, hlater⟩ := ih (count + 1) hnext hafter hplace.2 hfuel'
          refine ⟨k, later, hstep, .call ?_⟩
          simp only [repeating, if_neg hmax]
          refine hfollow.bind ?_
          simp only [if_neg hsame]
          exact hlater

theorem repetition_ends {times : Multiplier} {m next : Matcher}
    (hm : FollowsStep catalog s parts m) (hnext : FollowsStep catalog s parts next)
    (hparts : it.parts = parts) :
    Ends (fun depth =>
      if it.current?.isNone then pure (if times.min = 0 then some 0 else none, it)
      else do
        let (count, after) ← repeating catalog depth times.max m next 0 it
        if times.min ≤ count then pure (some count, after)
        else pure (none, { after with pos := it.pos }))
      (repetition times (stepOf s m) (stepOf s next) it) := by
  unfold repetition
  cases hcurrent : it.current? with
  | none =>
    show Ends (fun _ => some (if times.min = 0 then some 0 else none, it)) _
    dsimp only
    split_ifs
    · exact .known _
    · exact .known _
  | some part =>
    obtain ⟨hlt, -⟩ := List.getElem?_eq_some_iff.mp hcurrent
    obtain ⟨n, after, hstep, hrun⟩ := repeating_ends times.max (it.parts.length + 1) 0 hm hnext
      hparts (hparts ▸ Nat.le_of_lt hlt) (by rw [hparts]; omega)
    refine hrun.bind ?_
    unfold Step.restoring
    dsimp only
    rw [hstep]
    dsimp only
    split_ifs
    · exact .known _
    · exact .known _

/-! ## Members in any order -/

section AnyOrder

variable {ms : List Matcher} {required : Option (List Bool)} {retry : Bool}

/-- A numbered matcher as a numbered member of a group. -/
def toMember (s : Surroundings) (required : Option (List Bool)) :
    Nat × Matcher → Nat × Member
  | (i, m) => (i, ⟨stepOf s m, Matcher.isRequired required i⟩)

theorem zip_membersOf (ms : List Matcher) (start size : Nat) :
    (List.range' start size).zip (membersOf s required start ms) =
      ((List.range' start size).zip ms).map (toMember s required) := by
  induction ms generalizing start size with
  | nil => rw [membersOf, List.zip_nil_right, List.zip_nil_right, List.map_nil]
  | cons m ms ih =>
    cases size with
    | zero => rfl
    | succ size =>
      rw [membersOf, List.range'_succ, List.zip_cons_cons, List.zip_cons_cons, List.map_cons, ih]
      rfl

/-- The matchers of a group, numbered. -/
abbrev numbered (ms : List Matcher) : List (Nat × Matcher) := (List.range ms.length).zip ms

theorem length_numbered (ms : List Matcher) : (numbered ms).length = ms.length := by
  rw [List.length_zip, List.length_range, Nat.min_self]

theorem numbered_membersOf (ms : List Matcher) :
    (List.range (membersOf s required 0 ms).length).zip (membersOf s required 0 ms) =
      (numbered ms).map (toMember s required) := by
  rw [length_membersOf, List.range_eq_range', zip_membersOf, ← List.range_eq_range']

/-- **Putting a member to use** leaves one less that is not in use. -/
theorem count_set_true {seen : List Bool} {i : Nat} (hi : i < seen.length)
    (hfree : seen[i]?.getD false = false) :
    (seen.set i true).count false + 1 = seen.count false := by
  rw [List.getElem?_eq_getElem hi, Option.getD_some] at hfree
  have hmem : false ∈ seen := hfree ▸ List.getElem_mem hi
  have hpos := List.count_pos_iff.mpr hmem
  rw [List.count_set hi, hfree, if_pos (by rfl), if_neg (by decide)]
  omega

variable (hms : ∀ m ∈ ms, FollowsStep catalog s parts m)

include hms

/-- **The search at one level**, where `deeper` is the search from the next
one on. -/
theorem tryFrom_ends {deeper : Nat → AnyOrder.Search → Cursor → Bool × AnyOrder.Search × Cursor}
    {levels count : Nat} (hdeeper : ∀ count search (it : Cursor), it.parts = parts →
      search.seen.length = ms.length → search.seen.count false < levels →
      Ends (fun depth =>
          tryFrom catalog depth (numbered ms) required retry count (numbered ms) search it)
        (deeper count search it))
    (hback : AnyOrder.GivesBack retry deeper)
    (hadvances : ∀ count search (it : Cursor), it.Follows (deeper count search it).2.2)
    {left : List (Nat × Matcher)} (hleft : ∀ entry ∈ left, entry ∈ numbered ms)
    {search : AnyOrder.Search} (hparts : it.parts = parts)
    (hlength : search.seen.length = ms.length) (hfree : search.seen.count false ≤ levels) :
    Ends (fun depth => tryFrom catalog depth (numbered ms) required retry count left search it)
      (AnyOrder.tryFrom (membersOf s required 0 ms) retry count deeper
        (left.map (toMember s required)) search it) := by
  induction left generalizing search it with
  | nil =>
    refine .call ?_
    simp only [tryFrom]
    rw [List.map_nil, AnyOrder.tryFrom, length_numbered, length_membersOf]
    split_ifs
    · exact .known _
    · exact .known _
  | cons entry left ih =>
    obtain ⟨i, m⟩ := entry
    have hentry := List.of_mem_zip (hleft (i, m) List.mem_cons_self)
    have hi : i < search.seen.length := hlength ▸ List.mem_range.mp hentry.1
    have hothers := fun entry he => hleft entry (List.mem_cons_of_mem _ he)
    have hafter := stepOf_parts s m hparts
    refine .call ?_
    simp only [tryFrom]
    rw [List.map_cons, toMember, AnyOrder.tryFrom]
    by_cases hused : search.seen[i]?.getD false = true
    · simp only [if_pos hused]
      exact ih hothers hparts hlength hfree
    · simp only [if_neg hused]
      refine (hms m hentry.2 it hparts).bind ?_
      rcases hrun : stepOf s m it with ⟨_ | _ | n, after⟩ <;> rw [hrun] at hafter
      · exact ih hothers hafter hlength hfree
      · exact ih hothers hafter hlength hfree
      · have hunused : search.seen[i]?.getD false = false := by simpa using hused
        have hcount := count_set_true hi hunused
        refine (hdeeper _ _ _ hafter (by rw [List.length_set, hlength])
          (by dsimp only; omega)).bind ?_
        have hfollows := hadvances (count + if Matcher.isRequired required i then 1 else 0)
          { search with seen := search.seen.set i true } after
        dsimp only
        rcases hdeep : deeper (count + if Matcher.isRequired required i then 1 else 0)
          { search with seen := search.seen.set i true } after with ⟨_ | _, search', after'⟩ <;>
          rw [hdeep] at hfollows
        · obtain ⟨hseen, -⟩ := hback _ _ _ _ _ hdeep
          have hsame : search'.seen.set i false = search.seen := by
            rw [hseen]
            exact AnyOrder.set_false_of_free hunused
          refine ih hothers (hfollows.parts_eq.trans hafter) ?_ ?_
          · rw [hsame, hlength]
          · rw [hsame]
            exact hfree
        · exact .known _

/-- **The search from the start of the members on.** -/
theorem run_ends (required : Option (List Bool)) (retry : Bool) (levels count : Nat)
    (search : AnyOrder.Search) (hparts : it.parts = parts)
    (hlength : search.seen.length = ms.length) (hfree : search.seen.count false < levels) :
    Ends (fun depth =>
        tryFrom catalog depth (numbered ms) required retry count (numbered ms) search it)
      (AnyOrder.run (membersOf s required 0 ms) retry levels count search it) := by
  have hadvances := membersOf_advances s required 0 ms
  induction levels generalizing count search it with
  | zero => exact absurd hfree (Nat.not_lt_zero _)
  | succ levels ih =>
    rw [AnyOrder.run, numbered_membersOf]
    exact tryFrom_ends hms (fun count search it => ih count search)
      (AnyOrder.run_givesBack hadvances levels)
      (AnyOrder.run_keeps Cursor.Follows.lasting hadvances levels)
      (fun _ => id) hparts hlength (Nat.lt_succ_iff.mp hfree)

theorem anyOrder_ends (hparts : it.parts = parts) :
    Ends (fun depth => anyOrder catalog depth ms required it)
      (AnyOrder.step (membersOf s required 0 ms) required it) := by
  have hadvances := membersOf_advances s required 0 ms
  have hstart : AnyOrder.Search.start (membersOf s required 0 ms) =
      ⟨ms.map fun _ => false, 0⟩ := by
    unfold AnyOrder.Search.start
    rw [List.map_const', List.map_const', length_membersOf]
  have hlength : (ms.map fun _ => false).length = ms.length := List.length_map _
  have hfree : (ms.map fun _ => false).count false < ms.length + 1 := by
    rw [List.map_const', List.count_replicate_self]
    exact Nat.lt_succ_self _
  have hafter : it.Follows (AnyOrder.run (membersOf s required 0 ms) false (ms.length + 1) 0
      ⟨ms.map fun _ => false, 0⟩ it).2.2 :=
    AnyOrder.run_keeps Cursor.Follows.lasting hadvances _ _ _ _
  rw [AnyOrder.step_eq]
  unfold AnyOrder.searched
  rw [hstart, length_membersOf]
  refine .call ?_
  simp only [anyOrder]
  refine (run_ends hms required false (ms.length + 1) 0 ⟨ms.map fun _ => false, 0⟩ hparts hlength
    hfree).bind ?_
  rcases hrun : AnyOrder.run (membersOf s required 0 ms) false (ms.length + 1) 0
    ⟨ms.map fun _ => false, 0⟩ it with ⟨_ | _, search, after⟩ <;> rw [hrun] at hafter
  · obtain ⟨hseen, -⟩ := AnyOrder.run_givesBack hadvances _ _ _ _ _ _ hrun
    exact (run_ends hms required true (ms.length + 1) 0 search (hafter.parts_eq.trans hparts)
      (hseen ▸ hlength) (hseen ▸ hfree)).bind (.known _)
  · exact .known _

end AnyOrder

/-! ## Single parts -/

/-- **Surroundings that are followed**: grammars are made from the catalog, and
what is inside the parts is matched alike. -/
structure FollowsInside (catalog : Catalog) (s : Surroundings) (parts : List ValuePart) :
    Prop where
  /-- The catalog comes about. -/
  reached : catalog.Reached
  /-- The grammars of grouped functions. -/
  resolve : s.resolve = fun grammar => (catalog.compile grammar).1.toOption
  /-- The match of everything inside a part. -/
  inside : ∀ part ∈ parts, ∀ m,
    Ends (fun depth => inside catalog depth m part.inner) (s.enter m part.inner)

theorem single_ends {m : Matcher} {test : ValuePart → Cursor → Bool × Cursor}
    (h : ∀ part ∈ parts, ∀ it, Ends (fun depth => matchPart catalog depth m part it) (test part it))
    (hparts : it.parts = parts) :
    Ends (fun depth => single catalog depth m it) (Matching.single test it) := by
  refine .call ?_
  simp only [single]
  unfold Matching.single
  cases hcurrent : it.current? with
  | none => exact .known _
  | some part =>
    dsimp only
    by_cases hvar : part.isVar = true
    · simp only [if_pos hvar]
      exact .known _
    · simp only [if_neg hvar]
      refine (h part (hparts ▸ List.mem_of_getElem? hcurrent) it).bind ?_
      split_ifs
      · exact .known _
      · exact .known _

namespace FollowsInside

variable {part : ValuePart} (h : FollowsInside catalog s parts) (hpart : part ∈ parts)

include h hpart

theorem argumentsFit_ends (body : Matcher) (it : Cursor) :
    Ends (fun depth => argumentsFit catalog depth body part it)
      (Matching.argumentsFit s body part it) := by
  have hfound := h.inside part hpart body
  refine .call ?_
  simp only [argumentsFit]
  unfold Matching.argumentsFit
  unfold ValuePart.inner at hfound
  cases hexpr : part.expr with
  | none =>
    rw [hexpr, Option.map_none, Option.getD_none] at hfound
    exact hfound.bind (.known _)
  | some args =>
    rw [hexpr, Option.map_some, Option.getD_some] at hfound
    dsimp only
    by_cases hvar : args.isVar = true
    · simp only [if_pos hvar]
      exact .known _
    · simp only [if_neg hvar]
      refine hfound.bind ?_
      split_ifs
      · exact .known _
      · exact .known _
      · exact .known _

theorem functionMatches_ends (name : String) (body : Option Matcher) (it : Cursor) :
    Ends (fun depth => matchPart catalog depth (.function name body) part it)
      (Matching.functionMatches s name body part it) := by
  refine .call ?_
  simp only [matchPart]
  unfold Matching.functionMatches
  split_ifs
  · cases body with
    | none => exact .known _
    | some body => exact h.argumentsFit_ends hpart body it
  · exact .known _

theorem bracketMatches_ends (inner : Matcher) (it : Cursor) :
    Ends (fun depth => matchPart catalog depth (.bracketed inner) part it)
      (Matching.bracketMatches s inner part it) := by
  refine .call ?_
  simp only [matchPart]
  unfold Matching.bracketMatches
  split_ifs
  · exact (h.inside part hpart inner).bind (.known _)
  · exact .known _

theorem groupMatches_ends (group : FunctionGroup) (it : Cursor) :
    Ends (fun depth => matchPart catalog depth (.group group) part it)
      (Matching.groupMatches s group part it) := by
  refine .call ?_
  simp only [matchPart]
  unfold Matching.groupMatches
  split_ifs
  · cases (group.argumentGrammar? part.token.name).or
      (group.argumentGrammar? (fullName part)) with
    | none => exact .known _
    | some grammar =>
      dsimp only
      rw [h.resolve]
      refine (run_compile h.reached grammar).bind ?_
      dsimp only
      cases (catalog.compile grammar).1.toOption with
      | none => exact .known _
      | some body => exact h.argumentsFit_ends hpart body _
  · exact .known _

end FollowsInside

mutual
/-- **A matcher at one level.** -/
theorem follow_step (h : FollowsInside catalog s parts) :
    ∀ m : Matcher, FollowsStep catalog s parts m
  | .words words _, it, hparts => by
    refine .call ?_
    simp only [follow, stepOf]
    refine single_ends (fun part _ it => .call ?_) hparts
    simp only [matchPart]
    exact .known _
  | .basic type, it, hparts => by
    refine .call ?_
    simp only [follow, stepOf]
    refine single_ends (fun part _ it => .call ?_) hparts
    simp only [matchPart]
    exact .known _
  | .function name body, it, hparts => by
    refine .call ?_
    simp only [follow, stepOf]
    exact single_ends (fun part hpart => h.functionMatches_ends hpart name body) hparts
  | .group group, it, hparts => by
    refine .call ?_
    simp only [follow, stepOf]
    exact single_ends (fun part hpart => h.groupMatches_ends hpart group) hparts
  | .bracketed inner, it, hparts => by
    refine .call ?_
    simp only [follow, stepOf]
    exact single_ends (fun part hpart => h.bracketMatches_ends hpart inner) hparts
  | .oneOf members, it, hparts => by
    refine .call ?_
    simp only [follow, stepOf]
    exact needsPart_ends (firstOf_ends (follow_steps h members) hparts)
  | .sequence members, it, hparts => by
    refine .call ?_
    simp only [follow, stepOf]
    exact needsPart_ends (inOrder_ends (follow_steps h members) hparts)
  | .anyOrder members required, it, hparts => by
    refine .call ?_
    simp only [follow, stepOf]
    exact needsPart_ends (anyOrder_ends (follow_steps h members) hparts)
  | .repeated inner times none, it, hparts => by
    refine .call ?_
    simp only [follow, stepOf]
    exact repetition_ends (follow_step h inner) (follow_step h inner) hparts
  | .repeated inner times (some next), it, hparts => by
    refine .call ?_
    simp only [follow, stepOf]
    exact repetition_ends (follow_step h inner) (follow_step h next) hparts
  | .alias _ inner, it, hparts => by
    refine .call ?_
    simp only [follow, stepOf]
    exact follow_step h inner it hparts

theorem follow_steps (h : FollowsInside catalog s parts) :
    ∀ ms : List Matcher, ∀ m ∈ ms, FollowsStep catalog s parts m
  | [] => List.forall_mem_nil _
  | m :: ms => List.forall_mem_cons.mpr ⟨follow_step h m, follow_steps h ms⟩
end

end Level

/-! ## All levels -/

section Levels

variable {catalog : Catalog} (hcatalog : catalog.Reached)

include hcatalog

/-- **A match in parts that are nested to some extent.** -/
theorem follow_surroundingsTo {resolve : String → Option Matcher}
    (hresolve : resolve = fun grammar => (catalog.compile grammar).1.toOption) {nesting : Nat}
    {parts : List ValuePart} (hnesting : ValuePart.nestingAll parts ≤ nesting) (m : Matcher) :
    FollowsStep catalog (surroundingsTo resolve nesting) parts m := by
  induction nesting generalizing parts m with
  | zero =>
    refine follow_step ⟨hcatalog, hresolve, fun part hpart => ?_⟩ m
    exact absurd (ValuePart.nestingAll_inner_lt hpart) (by omega)
  | succ nesting ih =>
    refine follow_step ⟨hcatalog, hresolve, fun part hpart m => ?_⟩ m
    have hlt := ValuePart.nestingAll_inner_lt hpart
    have hle : ValuePart.nestingAll part.inner ≤ nesting := by omega
    have henter : (surroundingsTo resolve (nesting + 1)).enter m part.inner =
        Matching.inside resolve nesting m part.inner := rfl
    refine .call ?_
    simp only [inside]
    rw [henter, inside_eq]
    exact (ih hle m (.start part.inner) rfl).bind (.known _)

/-- **Matching ends** with what the bounded match comes to. -/
theorem run_follow (m : Matcher) (it : Cursor) :
    Ends (fun depth => follow catalog depth m it) (m.run catalog it) := by
  have hle : ValuePart.nestingAll it.parts ≤ ValuePart.nestingAll it.parts - 1 + 1 := by omega
  exact follow_surroundingsTo hcatalog rfl hle m it rfl

end Levels

/-- **Making and matching end.** References between grammars never lead on
forever. In every catalog that comes about, the matcher of any grammar and of
any single term is made in finitely many steps, and so is any match, of any
matcher and from any place in any parts. What they come to is what the bounded
definitions say. -/
theorem making_and_matching_end :
    (WellFounded fun grammar text => RefersTo text grammar) ∧
      ∀ catalog : Catalog, catalog.Reached →
        (∀ text, Ends (fun depth => (compile depth text).run.run catalog) (catalog.compile text)) ∧
        (∀ text, Ends (fun depth => (term depth text).run.run catalog) (catalog.term text)) ∧
        ∀ (m : Matcher) (it : Cursor),
          Ends (fun depth => follow catalog depth m it) (m.run catalog it) :=
  ⟨refersTo_wellFounded, fun _ hcatalog =>
    ⟨run_compile hcatalog, run_term hcatalog, run_follow hcatalog⟩⟩

set_option maxRecDepth 10000 in
/-- A repetition without bounds of something that may be left out: at a word
that does not fit, it matches nothing once, and ends. -/
theorem making_and_matching_end_repeated :
    let inner : Matcher := .repeated (.words ["a"] "a") (.ofMarker .optional) none
    let m : Matcher := .repeated inner (.ofMarker .star) none
    let after : Catalog := ⟨[("[a?]*", m), ("a", .words ["a"] "a")]⟩
    Ends (fun depth => (compile depth "[a?]*").run.run .empty) (.ok m, after) ∧
      Ends (fun depth => follow after depth m (.start [wordPart "b"]))
        (some 1, .start [wordPart "b"]) := by
  intro inner m after
  have hmade : Catalog.empty.compile "[a?]*" = (.ok m, after) := by with_unfolding_all rfl
  have hreached : after.Reached := by
    have h := Catalog.Reached.empty.compile "[a?]*"
    rwa [hmade] at h
  have hrun : m.run after (.start [wordPart "b"]) = (some 1, .start [wordPart "b"]) := by
    with_unfolding_all rfl
  constructor
  · have h := (making_and_matching_end.2 .empty .empty).1 "[a?]*"
    rwa [hmade] at h
  · have h := (making_and_matching_end.2 after hreached).2.2 m (.start [wordPart "b"])
    rwa [hrun] at h

end Unbounded

end Stylesheet.Grammar
