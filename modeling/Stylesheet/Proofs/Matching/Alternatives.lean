import Stylesheet.Proofs.Matching.Gathered

/-!
# The order of alternatives

Compiled alternatives are tried with all keywords first, as one set. The parts
that are taken are those that the alternatives take one by one with the keywords
in front, and also those that they take in the order they were written in, unless
one of them is in the way of a keyword behind it (`Matcher.run_arranged`). What
is in the way takes more than one part, or none, where the keyword takes one: so
does `a b` before `a` (`Matcher.run_keyword_first`), while nothing is that takes
single parts only (`Matcher.GivesWay.of_single`).

On one level the argument is about the first alternative that matches. If the
set of the keywords matches, then so does one of them, and whatever comes before
it takes one part like it (`Matching.firstOf_keyword`). If it does not, then
none of them does, and they can be left out (`Matching.firstOf_filter`). Inside
brackets the same is known for matchers that are one level less deep
(`Gathered.agrees_to`).
-/

namespace Stylesheet.Grammar

namespace Matching

/-! ## Keywords -/

section Keywords

variable {s : Surroundings} {ws ws' : List String} {it it' : Cursor} {p : ValuePart}

/-- A set of words has those that its words have. -/
theorem wordMatches_eq_any (ws : List String) (p : ValuePart) :
    wordMatches ws p = ws.any fun w => wordMatches [w] p := by
  induction ws with
  | nil =>
    unfold wordMatches
    split_ifs
    · rfl
    · dsimp only
      cases Text.fromByte? p.token.lower p.token.vendorPos <;> simp
  | cons w ws ih => rw [List.any_cons, ← ih, ← wordMatches_append, List.singleton_append]

/-- A set is known by its words. -/
theorem wordMatches_congr (h : ∀ w, w ∈ ws ↔ w ∈ ws') (p : ValuePart) :
    wordMatches ws p = wordMatches ws' p := by
  rw [wordMatches_eq_any, wordMatches_eq_any ws', Bool.eq_iff_iff, List.any_eq_true, List.any_eq_true]
  exact exists_congr fun w => and_congr_left fun _ => h w

/-- **The step of a set of words.** -/
def wordStep (ws : List String) : Step := single fun part it => (wordMatches ws part, it)

theorem wordStep_congr (h : ∀ w, w ∈ ws ↔ w ∈ ws') : wordStep ws = wordStep ws' := by
  unfold wordStep
  simp only [wordMatches_congr h]

/-- Whether a set of words has a part, or it passes for any other. -/
def admits (ws : List String) (it : Cursor) (p : ValuePart) : Bool :=
  p.isVar || wordMatches ws p || it.tryAttr && p.isAttr

/-- **A set of words** takes one part, or leaves everything as it is. -/
theorem wordStep_eq (ws : List String) (it : Cursor) : wordStep ws it =
    if it.current?.any (admits ws it) then (some 1, { it with pos := it.pos + 1 })
    else (none, it) := by
  unfold wordStep single
  cases it.current? with
  | none => rfl
  | some p =>
    simp only [Option.any_some, admits]
    split_ifs <;> simp_all

/-- Two sets are tried one after the other. -/
theorem wordStep_append (ws ws' : List String) (it : Cursor) : wordStep (ws ++ ws') it =
    if (wordStep ws it).1.isSome then wordStep ws it else wordStep ws' it := by
  rw [wordStep_eq, wordStep_eq, wordStep_eq]
  cases it.current? with
  | none => rfl
  | some p =>
    have hadmits : admits (ws ++ ws') it p = (admits ws it p || admits ws' it p) := by
      unfold admits
      rw [wordMatches_append]
      cases p.isVar <;> cases wordMatches ws p <;> cases wordMatches ws' p <;> simp
    simp only [Option.any_some, hadmits]
    split_ifs <;> simp_all

theorem needsPart_wordStep (ws : List String) : needsPart (wordStep ws) = wordStep ws := by
  funext it
  unfold needsPart Step.restoring
  rw [wordStep_eq]
  cases it.current? with
  | none => rfl
  | some p =>
    dsimp only
    split_ifs <;> rfl

mutual
/-- **A matcher that has keywords only** takes what their set takes. -/
theorem stepOf_isKeywords (s : Surroundings) :
    ∀ m : Matcher, m.isKeywords = true → stepOf s m = wordStep m.keywords
  | .words _ _, _ => rfl
  | .oneOf members, h => by
    rw [Matcher.isKeywords, Bool.and_eq_true] at h
    have hne : members ≠ [] := by simpa using h.1
    rw [stepOf, Matcher.keywords, firstOf_areKeywords s members h.2 hne, needsPart_wordStep]
  | .basic _, h | .function _ _, h | .group _, h | .sequence _, h | .anyOrder _ _, h
  | .repeated _ _ _, h | .alias _ _, h | .bracketed _, h => by cases h

theorem firstOf_areKeywords (s : Surroundings) : ∀ ms : List Matcher,
    Matcher.areKeywords ms = true → ms ≠ [] →
      Step.firstOf (stepsOf s ms) = wordStep (Matcher.keywordsOfAll ms)
  | [], _, hne => absurd rfl hne
  | m :: ms, h, _ => by
    rw [Matcher.areKeywords, Bool.and_eq_true] at h
    have hfirst := stepOf_isKeywords s m h.1
    funext it
    rw [stepsOf, Matcher.keywordsOfAll, Step.firstOf, hfirst]
    by_cases hne : ms = []
    · subst hne
      rw [Matcher.keywordsOfAll, List.append_nil, wordStep_eq]
      split_ifs <;> rfl
    · rw [wordStep_append, ← firstOf_areKeywords s ms h.2 hne, wordStep_eq]
      split_ifs <;> simp_all
end

end Keywords

/-! ## One alternation -/

section Alternation

variable {s : Surroundings} {ms : List Matcher} {it it' : Cursor} {ws : List String}

/-- What a set admits, a set with more words does. -/
theorem admits_mono {ws' : List String} {p : ValuePart} (hws : ∀ w ∈ ws', w ∈ ws)
    (halike : it'.Alike it) (h : admits ws' it' p = true) : admits ws it p = true := by
  have hwords : wordMatches ws' p = true → wordMatches ws p = true := by
    rw [wordMatches_eq_any ws', wordMatches_eq_any ws, List.any_eq_true, List.any_eq_true]
    rintro ⟨w, hw, hmatch⟩
    exact ⟨w, hws w hw, hmatch⟩
  unfold admits at h ⊢
  rw [halike.tryAttr_eq] at h
  simp only [Bool.or_eq_true] at h ⊢
  exact h.imp_left fun h => h.imp_right hwords

/-- A keyword that a set has does not match where the set does not. -/
theorem stepOf_keyword_none {m : Matcher} (hm : m.isKeywords = true) (hws : ∀ w ∈ m.keywords, w ∈ ws)
    (h : it.current?.any (admits ws it) = false) (halike : it'.Alike it) :
    stepOf s m it' = (none, it') := by
  rw [stepOf_isKeywords s m hm, wordStep_eq, halike.current?_eq]
  cases hp : it.current? with
  | none => rfl
  | some p =>
    rw [hp, Option.any_some] at h
    rw [Option.any_some, if_neg fun hadmits => ?_]
    rw [admits_mono hws halike hadmits] at h
    cases h

/-- **Where a set of words matches**, one of the keywords that make it up
does. -/
theorem exists_keyword (hws : ∀ w, w ∈ ws → ∃ m ∈ ms, m.isKeywords = true ∧ w ∈ m.keywords)
    (hany : ms.any Matcher.isKeywords = true) (h : it.current?.any (admits ws it) = true) :
    ∃ m ∈ ms, m.isKeywords = true ∧ (stepOf s m it).1.isSome = true := by
  have hmatch : ∀ m : Matcher, m.isKeywords = true → ∀ p, it.current? = some p →
      admits m.keywords it p = true → (stepOf s m it).1.isSome = true := by
    intro m hm p hp hadmits
    rw [stepOf_isKeywords s m hm, wordStep_eq, hp, Option.any_some, if_pos hadmits]
    rfl
  cases hp : it.current? with
  | none =>
    rw [hp] at h
    cases h
  | some p =>
    rw [hp, Option.any_some] at h
    by_cases hwords : wordMatches ws p = true
    · rw [wordMatches_eq_any, List.any_eq_true] at hwords
      obtain ⟨w, hw, hwp⟩ := hwords
      obtain ⟨m, hm, hkey, hwm⟩ := hws w hw
      refine ⟨m, hm, hkey, hmatch m hkey p hp ?_⟩
      have hwords : wordMatches m.keywords p = true := by
        rw [wordMatches_eq_any, List.any_eq_true]
        exact ⟨w, hwm, hwp⟩
      simp [admits, hwords]
    · -- the part passes for any other
      obtain ⟨m, hm, hkey⟩ := List.any_eq_true.mp hany
      refine ⟨m, hm, hkey, hmatch m hkey p hp ?_⟩
      have hwords : wordMatches ws p = false := by simpa using hwords
      simp only [admits, hwords, Bool.or_eq_true, Bool.false_eq_true, or_false] at h ⊢
      exact h.imp_left .inl

/-- **A cursor at which a matcher failed** differs in its notes only. -/
theorem alike_of_none (s : Surroundings) (m : Matcher) {after : Cursor}
    (hrun : stepOf s m it = (none, after)) : after.Alike it := by
  have hfollows := stepOf_advances s m it
  rw [hrun] at hfollows
  exact hfollows.alike (stepOf_restores s m it after hrun)

/-- **Alternatives that leave everything as it is** can be left out. -/
theorem firstOf_filter {keep : Matcher → Bool} (h : ∀ m ∈ ms, keep m = false →
      ∀ it' : Cursor, it'.Alike it → stepOf s m it' = (none, it')) :
    Step.firstOf (stepsOf s ms) it = Step.firstOf (stepsOf s (ms.filter keep)) it := by
  have hall : ∀ it' : Cursor, it'.Alike it →
      Step.firstOf (stepsOf s ms) it' = Step.firstOf (stepsOf s (ms.filter keep)) it' := by
    induction ms with
    | nil => exact fun _ _ => rfl
    | cons m ms ih =>
      intro it' halike
      have hothers := ih fun m' hm' => h m' (List.mem_cons_of_mem _ hm')
      rw [List.filter_cons]
      cases hkeep : keep m with
      | false =>
        rw [stepsOf, Step.firstOf, h m List.mem_cons_self hkeep it' halike]
        exact hothers it' halike
      | true =>
        rw [if_pos rfl, stepsOf, stepsOf, Step.firstOf, Step.firstOf]
        rcases hrun : stepOf s m it' with ⟨_ | n, after⟩
        · exact hothers after ((alike_of_none s m hrun).trans halike)
        · rfl
  exact hall it (.refl it)

/-- **An alternative that lets a later keyword pass**: if both match, it takes
one part as the keyword does. -/
def Passes (s : Surroundings) (it : Cursor) (earlier later : Matcher) : Prop :=
  later.isKeywords = true → ∀ it' : Cursor, it'.Alike it → (stepOf s later it').1.isSome = true →
    (stepOf s earlier it').1.isSome = true → (stepOf s earlier it').2.pos = it.pos + 1

/-- **Where a keyword matches that all alternatives let pass**, one part is
taken. -/
theorem firstOf_keyword (hpass : ms.Pairwise (Passes s it))
    (h : ∃ m ∈ ms, m.isKeywords = true ∧ (stepOf s m it).1.isSome = true) :
    (Step.firstOf (stepsOf s ms) it).1 = some 1 ∧
      (Step.firstOf (stepsOf s ms) it).2.Alike { it with pos := it.pos + 1 } := by
  have hall : ∀ it' : Cursor, it'.Alike it → (Step.firstOf (stepsOf s ms) it').1 = some 1 ∧
      (Step.firstOf (stepsOf s ms) it').2.Alike { it with pos := it.pos + 1 } := by
    induction ms with
    | nil =>
      obtain ⟨_, hmem, -⟩ := h
      cases hmem
    | cons m ms ih =>
      intro it' halike
      obtain ⟨k, hk, hkey, hmatch⟩ := h
      have hresult : ∀ m, (stepOf s m it').1 = (stepOf s m it).1 := fun m =>
        (stepOf_respects Cursor.Alike.likeness (surroundings_quiet s) m it' it halike).1
      rw [stepsOf, Step.firstOf]
      rcases hrun : stepOf s m it' with ⟨_ | n, after⟩
      · refine ih hpass.of_cons ⟨k, ?_, hkey, hmatch⟩ after
          ((alike_of_none s m hrun).trans halike)
        rcases List.mem_cons.mp hk with rfl | hk
        · rw [← hresult, hrun] at hmatch
          cases hmatch
        · exact hk
      · have hfollows := stepOf_advances s m it'
        rw [hrun] at hfollows
        have hpos : after.pos = it.pos + 1 := by
          rcases List.mem_cons.mp hk with rfl | hk
          · rw [stepOf_isKeywords s _ hkey, wordStep_eq] at hrun
            split_ifs at hrun
            · cases hrun
              exact congrArg (· + 1) halike.pos_eq
            · cases hrun
          · have hpos := List.rel_of_pairwise_cons hpass hk hkey it' halike
            rw [hresult, hrun] at hpos
            exact hpos hmatch rfl
        exact ⟨rfl, hfollows.parts_eq.trans halike.parts_eq, hpos,
          hfollows.tryAttr_eq.trans halike.tryAttr_eq⟩
  exact hall it (.refl it)

/-- **A set of words before the other alternatives** comes to what the
alternatives come to, if all let the keywords pass. -/
theorem firstOf_merged {W : Cursor → Prop} {V : ValuePart → Prop} (hW : Cursor.Region W V)
    {others : List Matcher} (hothers : List.Forall₂ (Step.Agrees (Cursor.AlikeIn W))
      (stepsOf s others) (stepsOf s (ms.filter (!·.isKeywords))))
    (hws : ∀ w, w ∈ ws ↔ ∃ m ∈ ms, m.isKeywords = true ∧ w ∈ m.keywords)
    (hany : ms.any Matcher.isKeywords = true) (hpass : ∀ it, W it → ms.Pairwise (Passes s it)) :
    (Step.firstOf (wordStep ws :: stepsOf s others)).Agrees (Cursor.AlikeIn W)
      (Step.firstOf (stepsOf s ms)) := by
  intro it it' hit
  obtain ⟨halike, hin⟩ := hit
  have hin' : W it' := hW.moved hin halike.symm.parts_eq halike.symm.tryAttr_eq
  have hsame : it.current?.any (admits ws it) = it'.current?.any (admits ws it') := by
    unfold admits
    rw [halike.current?_eq, halike.tryAttr_eq]
  rw [Step.firstOf, wordStep_eq]
  by_cases hadmits : it.current?.any (admits ws it) = true
  · rw [if_pos hadmits]
    obtain ⟨hresult, hafter⟩ := firstOf_keyword (hpass it' hin')
      (exists_keyword (s := s) (fun w => (hws w).mp) hany (hsame ▸ hadmits))
    have hmoved : Cursor.Alike { it with pos := it.pos + 1 } { it' with pos := it'.pos + 1 } :=
      ⟨halike.parts_eq, congrArg (· + 1) halike.pos_eq, halike.tryAttr_eq⟩
    exact ⟨hresult.symm, hmoved.trans hafter.symm, hW.moved hin rfl rfl⟩
  · have hnone : it'.current?.any (admits ws it') = false := by
      rw [← hsame]
      exact Bool.eq_false_iff.mpr hadmits
    rw [if_neg hadmits]
    have hfilter : Step.firstOf (stepsOf s ms) it' =
        Step.firstOf (stepsOf s (ms.filter (!·.isKeywords))) it' := by
      refine firstOf_filter fun m hm hkey it'' halike' => ?_
      have hkey : m.isKeywords = true := by simpa using hkey
      exact stepOf_keyword_none hkey (fun w hw => (hws w).mpr ⟨m, hm, hkey, hw⟩) hnone halike'
    rw [hfilter]
    exact Step.Agrees.firstOf hothers it it' ⟨halike, hin⟩

end Alternation

end Matching

open Matching

/-! ## All alternations of a level -/

section Level

variable {W : Cursor → Prop} {V : ValuePart → Prop} {s : Surroundings} {m m' : Matcher}
  {ms ms' : List Matcher} {Q : List Matcher → Prop}

/-- The steps of matchers that agree one by one. -/
theorem forall₂_stepsOf {R : Cursor → Cursor → Prop}
    (h : List.Forall₂ (fun m m' => (stepOf s m).Agrees R (stepOf s m')) ms ms') :
    List.Forall₂ (Step.Agrees R) (stepsOf s ms) (stepsOf s ms') := by
  induction h with
  | nil => exact .nil
  | cons hm _ ih => exact .cons hm ih

/-- Such matchers as members of a group in any order. -/
theorem forall₂_membersOf {R : Cursor → Cursor → Prop} {required : Option (List Bool)}
    (h : List.Forall₂ (fun m m' => (stepOf s m).Agrees R (stepOf s m')) ms ms') (i : Nat) :
    List.Forall₂ (AnyOrder.MembersAgree R) (membersOf s required i ms)
      (membersOf s required i ms') := by
  induction h generalizing i with
  | nil => exact .nil
  | cons hm _ ih => exact .cons ⟨hm, rfl⟩ (ih (i + 1))

/-- **Gathered keywords make no difference** on a level of brackets, if they
make none further in, and if the alternatives of every alternation let the
keywords pass. -/
theorem Gathered.agrees (hW : Cursor.Region W V)
    (hpass : ∀ members, Q members → ∀ it, W it → members.Pairwise (Passes s it))
    (hfit : ∀ m m', Gathered m m' → (∀ members ∈ m'.alternations, Q members) → FitAlike V s s m m')
    (h : Gathered m m') (hm' : ∀ members ∈ m'.alternations, Q members) :
    (stepOf s m).Agrees (Cursor.AlikeIn W) (stepOf s m') := by
  induction h with
  | @words m ws key hkey hws =>
    rw [stepOf_isKeywords s m hkey, ← wordStep_congr hws]
    exact single_agrees hW.likeness ((quiet_of_test _).agrees hW)
  | basic => exact single_agrees hW.likeness ((quiet_of_test _).agrees hW)
  | group => exact single_agrees hW.likeness ((groupMatches_quiet _).agrees hW)
  | anyCall => exact single_agrees hW.likeness ((functionMatches_quiet _ _).agrees hW)
  | function h =>
    exact single_agrees hW.likeness (functionMatches_agrees hW (hfit _ _ h hm') _)
  | oneOf hlength _ _ ih =>
    have hmembers := fun i m m' hm hmem' => ih i m m' hm hmem' fun members hmembers =>
      hm' members (List.mem_cons_of_mem _
        (Matcher.alternations_subset_of_mem (List.mem_of_getElem? hmem') hmembers))
    exact needsPart_agrees hW.likeness 
      (.firstOf (forall₂_stepsOf (forall₂_iff_getElem?.mpr ⟨hlength, hmembers⟩)))
  | @merged ws key ms ms' hws hany _ hlength _ ih =>
    have hmembers := fun i m m' hm hmem' => ih i m m' hm hmem' fun members hmembers =>
      hm' members (List.mem_cons_of_mem _ (Matcher.alternations_subset_of_mem
        (List.mem_of_mem_filter (List.mem_of_getElem? hmem')) hmembers))
    have hothers := forall₂_stepsOf (forall₂_iff_getElem?.mpr ⟨hlength, hmembers⟩)
    exact needsPart_agrees hW.likeness
      (firstOf_merged hW hothers hws hany (hpass ms' (hm' ms' List.mem_cons_self)))
  | sequence hlength _ ih =>
    have hmembers := fun i m m' hm hmem' => ih i m m' hm hmem' fun members hmembers =>
      hm' members (Matcher.alternations_subset_of_mem (List.mem_of_getElem? hmem') hmembers)
    exact needsPart_agrees hW.likeness 
      (.inOrder (forall₂_stepsOf (forall₂_iff_getElem?.mpr ⟨hlength, hmembers⟩)))
  | anyOrder hlength _ ih =>
    have hmembers := fun i m m' hm hmem' => ih i m m' hm hmem' fun members hmembers =>
      hm' members (Matcher.alternations_subset_of_mem (List.mem_of_getElem? hmem') hmembers)
    exact needsPart_agrees hW.likeness
      (AnyOrder.step_agrees hW.likeness
        (forall₂_membersOf (forall₂_iff_getElem?.mpr ⟨hlength, hmembers⟩) 0) _)
  | repeated _ ih =>
    have hinner := ih fun members hmembers => hm' members (List.mem_append_left _ hmembers)
    exact repetition_agrees hW.likeness _ hinner hinner
  | separated _ _ ih ih' =>
    exact repetition_agrees hW.likeness _
      (ih fun members hmembers => hm' members (List.mem_append_left _ hmembers))
      (ih' fun members hmembers => hm' members (List.mem_append_right _ hmembers))
  | «alias» _ ih => exact ih hm'
  | bracketed h =>
    exact single_agrees hW.likeness (bracketMatches_agrees hW (hfit _ _ h hm'))

end Level

/-! ## All levels -/

/-- **The places that a match may get to**: any place in the parts, and any
place inside a part of those. -/
inductive Cursor.Holds (it : Cursor) : Cursor → Prop where
  /-- A place in the parts. -/
  | here {place : Cursor} : place.parts = it.parts → place.tryAttr = it.tryAttr → it.Holds place
  /-- A place inside a part. -/
  | inside {outer place : Cursor} {p : ValuePart} : it.Holds outer → p ∈ outer.parts →
      place.parts = p.inner → place.tryAttr = false → it.Holds place

/-- **An alternative that gives way to a later one**, if that one has keywords
only: wherever both match, it takes one part as the keyword does. -/
def Matcher.GivesWay (catalog : Catalog) (it : Cursor) (earlier later : Matcher) : Prop :=
  later.isKeywords = true → ∀ place, it.Holds place →
    (later.run catalog place).1.isSome = true → (earlier.run catalog place).1.isSome = true →
    (earlier.run catalog place).2.pos = place.pos + 1

section Levels

variable {catalog : Catalog} {it place : Cursor} {m m' : Matcher} {members : List Matcher}

/-- The places of a match that are nested to a depth. -/
theorem region_holds (it : Cursor) (depth : Nat) :
    Cursor.Region (fun place => it.Holds place ∧ ValuePart.nestingAll place.parts ≤ depth)
      fun p => it.Holds (.start p.inner) ∧ ValuePart.nestingAll p.inner < depth where
  moved h hparts hattr := by
    obtain ⟨hholds, hdepth⟩ := h
    refine ⟨?_, hparts ▸ hdepth⟩
    cases hholds with
    | here hparts' hattr' => exact .here (hparts.trans hparts') (hattr.trans hattr')
    | inside houter hp hparts' hattr' =>
      exact .inside houter hp (hparts.trans hparts') (hattr.trans hattr')
  part h hp := ⟨.inside h.1 hp rfl rfl,
    Nat.lt_of_lt_of_le (ValuePart.nestingAll_inner_lt hp) h.2⟩

/-- What gives way lets pass, in surroundings that go in deeply enough. -/
theorem pairwise_passes {depth : Nat} (h : members.Pairwise (Matcher.GivesWay catalog it))
    (hplace : it.Holds place) (hdepth : ValuePart.nestingAll place.parts ≤ depth) :
    members.Pairwise (Passes
      (surroundingsTo (fun grammar => (catalog.compile grammar).1.toOption) depth) place) := by
  refine h.imp fun {earlier later} hway hkey place' halike hlater hearlier => ?_
  have hin := (region_holds it depth).moved ⟨hplace, hdepth⟩ halike.parts_eq halike.tryAttr_eq
  have hrun := fun m => run_eq_stepOf catalog m hin.2
  rw [← (hrun later).1] at hlater
  rw [← (hrun earlier).1] at hearlier
  rw [← (hrun earlier).2.pos_eq, ← halike.pos_eq]
  exact hway hkey place' hin.1 hlater hearlier

/-- **Gathered keywords make no difference**, however deep the brackets
are. -/
theorem Gathered.agrees_to (depth : Nat) (h : Gathered m m')
    (hway : ∀ members ∈ m'.alternations, members.Pairwise (Matcher.GivesWay catalog it)) :
    let s := surroundingsTo (fun grammar => (catalog.compile grammar).1.toOption) depth
    (stepOf s m).Agrees (Cursor.AlikeIn fun place =>
      it.Holds place ∧ ValuePart.nestingAll place.parts ≤ depth) (stepOf s m') := by
  induction depth generalizing m m' with
  | zero =>
    exact Gathered.agrees (region_holds it 0) (fun _ hway place hplace =>
      pairwise_passes hway hplace.1 hplace.2)
      (fun _ _ _ _ p hp => absurd hp.2 (Nat.not_lt_zero _)) h hway
  | succ depth ih =>
    exact Gathered.agrees (region_holds it (depth + 1)) (fun _ hway place hplace =>
      pairwise_passes hway hplace.1 hplace.2)
      (fun _ _ h hway p hp => fits_eq_of_agrees ⟨hp.1, Nat.lt_succ_iff.mp hp.2⟩ (ih h hway)) h hway

/-- **A run with gathered keywords** comes to the same result at the same
place. -/
theorem Gathered.run_eq (h : Gathered m m')
    (hway : ∀ members ∈ m'.alternations, members.Pairwise (Matcher.GivesWay catalog it)) :
    (m.run catalog it).1 = (m'.run catalog it).1 ∧
      (m.run catalog it).2.pos = (m'.run catalog it).2.pos := by
  have hdepth := Nat.le_refl (ValuePart.nestingAll it.parts)
  obtain ⟨hresult, hafter⟩ := Gathered.agrees_to (ValuePart.nestingAll it.parts) h hway it it
    ⟨.refl it, .here rfl rfl, hdepth⟩
  have hrun := run_eq_stepOf catalog m hdepth
  have hrun' := run_eq_stepOf catalog m' hdepth
  exact ⟨hrun.1.trans (hresult.trans hrun'.1.symm),
    hrun.2.pos_eq.trans (hafter.1.pos_eq.trans hrun'.2.pos_eq.symm)⟩

end Levels

/-! ## Keywords first -/

section KeywordsFirst

variable {catalog : Catalog} {it : Cursor} {m : Matcher}

/-- What is true of the alternations of members is true of those under a
combinator that adds no other. -/
theorem alternations_combine {P : List Matcher → Prop} {wrap : List Matcher → Matcher}
    {ms : List Matcher} (hwrap : ∀ members ∈ (wrap ms).alternations, P members)
    (h : ∀ members ∈ Matcher.alternationsOfAll ms, P members) :
    ∀ members ∈ (combine wrap ms).alternations, P members := by
  rcases combine_cases wrap ms with hms | ⟨m, rfl, hm⟩
  · rwa [hms]
  · rw [hm]
    exact fun members hmembers => h members (List.mem_append_left _ hmembers)

variable {arrange : List Matcher → List Matcher} {followed : String → Option Matcher}

/-- An alternation whose alternatives have been arranged. -/
def IsArranged (arrange : List Matcher → List Matcher) (members : List Matcher) : Prop :=
  ∃ ms, members = arrange ms

theorem isArranged_leaf {key : String}
    (hfollowed : ∀ text m, followed text = some m → ∀ members ∈ m.alternations,
      IsArranged arrange members) (h : Leaf.matcherOf followed key = some m) :
    ∀ members ∈ m.alternations, IsArranged arrange members := by
  unfold Leaf.matcherOf at h
  split at h
  · cases h
  · cases h
    exact nofun
  · cases h
    exact nofun
  · cases h
    exact nofun
  · next text _ =>
    obtain ⟨inner, hinner, rfl⟩ := Option.map_eq_some_iff.mp h
    split_ifs
    · exact hfollowed text inner hinner
    · exact hfollowed text inner hinner

mutual
/-- **The alternations of a matcher** whose alternatives stay apart. -/
theorem isArranged_matcherOf (harrange : Arranges arrange)
    (hfollowed : ∀ text m, followed text = some m → ∀ members ∈ m.alternations,
      IsArranged arrange members) :
    ∀ (term : Term) (m : Matcher), term.matcherOf arrange followed = some m →
      ∀ members ∈ m.alternations, IsArranged arrange members
  | .words _, _, h | .reference _, _, h => isArranged_leaf hfollowed h
  | .function name body, m, h => by
    obtain ⟨body', hbody, rfl⟩ := Option.map_eq_some_iff.mp h
    exact isArranged_matcherOfBody harrange hfollowed body body' hbody
  | .oneOf terms, m, h => by
    obtain ⟨ms, hms, rfl⟩ := Option.map_eq_some_iff.mp h
    have hall : ∀ members ∈ Matcher.alternationsOfAll (arrange ms), IsArranged arrange members := by
      intro members hmembers
      obtain ⟨m, hm, hmem⟩ := Matcher.mem_alternationsOfAll.mp hmembers
      exact isArranged_matchersOf harrange hfollowed terms ms hms members
        (Matcher.mem_alternationsOfAll.mpr ⟨m, harrange.mem_iff.mp hm, hmem⟩)
    refine alternations_combine (fun members hmembers => ?_) hall
    rcases List.mem_cons.mp hmembers with rfl | hmembers
    · exact ⟨ms, rfl⟩
    · exact hall members hmembers
  | .someOf terms, m, h | .allOf terms, m, h | .sequence terms, m, h => by
    obtain ⟨ms, hms, rfl⟩ := Option.map_eq_some_iff.mp h
    have hall := isArranged_matchersOf harrange hfollowed terms ms hms
    exact alternations_combine hall hall
  | .repeated term times, m, h => by
    obtain ⟨inner, hinner, rfl⟩ := Option.map_eq_some_iff.mp h
    have hall := isArranged_matcherOf harrange hfollowed term inner hinner
    intro members hmembers
    rcases List.mem_append.mp hmembers with hmembers | hmembers
    · exact hall members hmembers
    · refine hall members ?_
      split_ifs at hmembers
      · simpa [Matcher.bodyAlternations, Matcher.alternations, Matcher.alternationsOfAll]
          using hmembers
      · cases hmembers
  | .bracketed term, m, h => by
    obtain ⟨inner, hinner, rfl⟩ := Option.map_eq_some_iff.mp h
    exact isArranged_matcherOf harrange hfollowed term inner hinner

theorem isArranged_matcherOfBody (harrange : Arranges arrange)
    (hfollowed : ∀ text m, followed text = some m → ∀ members ∈ m.alternations,
      IsArranged arrange members) :
    ∀ (body : Option Term) (m : Option Matcher), Term.matcherOfBody arrange followed body = some m →
      ∀ members ∈ Matcher.bodyAlternations m, IsArranged arrange members
  | none, m, h => by
    cases h
    exact nofun
  | some term, m, h => by
    obtain ⟨inner, hinner, rfl⟩ := Option.map_eq_some_iff.mp h
    exact isArranged_matcherOf harrange hfollowed term inner hinner

theorem isArranged_matchersOf (harrange : Arranges arrange)
    (hfollowed : ∀ text m, followed text = some m → ∀ members ∈ m.alternations,
      IsArranged arrange members) :
    ∀ (terms : List Term) (ms : List Matcher), Term.matchersOf arrange followed terms = some ms →
      ∀ members ∈ Matcher.alternationsOfAll ms, IsArranged arrange members
  | [], ms, h => by
    cases h
    exact nofun
  | term :: terms, ms, h => by
    obtain ⟨m, hm, h⟩ := Option.bind_eq_some_iff.mp h
    obtain ⟨rest, hrest, rfl⟩ := Option.map_eq_some_iff.mp h
    intro members hmembers
    rcases List.mem_append.mp hmembers with hmembers | hmembers
    · exact isArranged_matcherOf harrange hfollowed term m hm members hmembers
    · exact isArranged_matchersOf harrange hfollowed terms rest hrest members hmembers
end

theorem isArranged_arrangedTo (harrange : Arranges arrange) (depth : Nat) (text : String)
    (h : Matcher.arrangedTo arrange depth text = some m) :
    ∀ members ∈ m.alternations, IsArranged arrange members := by
  induction depth generalizing text m with
  | zero => cases h
  | succ depth ih =>
    obtain ⟨term, -, hterm⟩ := Option.bind_eq_some_iff.mp h
    exact isArranged_matcherOf harrange (fun text _ => ih text) term m hterm

/-- **A matcher that takes a single part** gives way to every keyword. -/
theorem Matcher.GivesWay.of_single {earlier later : Matcher} (h : earlier.isCombinator = false) :
    earlier.GivesWay catalog it later := by
  intro _ place _ _ hmatch
  unfold Matcher.run at hmatch ⊢
  have hone : ∀ {test : ValuePart → Cursor → Bool × Cursor}, Quiet test →
      (single test place).1.isSome = true → (single test place).2.pos = place.pos + 1 := by
    intro test hquiet hsome
    rcases hrun : single test place with ⟨_ | n, after⟩
    · rw [hrun] at hsome
      cases hsome
    · obtain ⟨p, htakes, -⟩ := single_taken hquiet hrun
      exact htakes.pos_eq
  cases earlier with
  | words => exact hone (quiet_of_test _) hmatch
  | basic => exact hone (quiet_of_test _) hmatch
  | function => exact hone (functionMatches_quiet _ _) hmatch
  | group => exact hone (groupMatches_quiet _) hmatch
  | bracketed => exact hone (bracketMatches_quiet _) hmatch
  | _ => cases h

/-- **A keyword** gives way to every other one. -/
theorem Matcher.GivesWay.of_isKeywords {earlier later : Matcher} (h : earlier.isKeywords = true) :
    earlier.GivesWay catalog it later := by
  intro _ place _ _ hmatch
  unfold Matcher.run at hmatch ⊢
  rw [stepOf_isKeywords _ _ h, wordStep_eq] at hmatch ⊢
  split_ifs at hmatch ⊢
  · rfl
  · cases hmatch

/-- **With the keywords first**, nothing is in the way of a keyword but other
keywords. -/
theorem pairwise_keywordsFirst (ms : List Matcher) :
    (keywordsFirst ms).Pairwise (Matcher.GivesWay catalog it) := by
  refine List.pairwise_append.mpr ⟨?_, ?_, ?_⟩
  · refine List.pairwise_of_forall_mem_list fun earlier hearlier later _ => ?_
    exact .of_isKeywords (List.mem_filter.mp hearlier).2
  · refine List.pairwise_of_forall_mem_list fun earlier _ later hlater hkey => ?_
    simp [hkey] at hlater
  · intro earlier hearlier later _
    exact .of_isKeywords (List.mem_filter.mp hearlier).2

end KeywordsFirst

/-! ## What is compiled -/

section Compiled

variable {text : String} {m : Matcher} {before : Catalog}

/-- What a catalog makes of a grammar has the keywords gathered of the matcher
whose alternatives stay apart. -/
theorem Catalog.Becomes.gathered {arrange : List Matcher → List Matcher}
    (harrange : Arranges arrange) (hbefore : Catalog.empty.Becomes before)
    (hm : (before.compile text).1 = .ok m) :
    ∃ m', Matcher.arranged arrange text = some m' ∧ Gathered m m' := by
  have hplain : before.IsPlain := Catalog.IsPlain.becomes Catalog.isRight_empty hbefore
  have hmade := (hplain.compile_any hm).1
  have hdepth := length_referenceGrammars
  unfold Matcher.arranged
  generalize referenceDepth = depth at hdepth ⊢
  obtain ⟨term, hterm, hleaves⟩ := hmade.followable hdepth
  obtain ⟨term', hterm', hmade⟩ := hmade
  cases hterm.symm.trans hterm'
  obtain ⟨m', hm', hgathered⟩ := hmade.gathered harrange hleaves
  refine ⟨m', ?_, hgathered⟩
  rw [Matcher.arrangedTo, hterm]
  exact hm'

/-- **A compiled grammar matches as its alternatives do** with the keywords
tried first, and as they do in the order that they are written in where they
give way to the keywords behind them: it comes to the same result, at the same
place. -/
theorem Matcher.run_arranged (hbefore : Catalog.empty.Becomes before)
    (hm : (before.compile text).1 = .ok m) :
    (∃ m', Matcher.arranged keywordsFirst text = some m' ∧ ∀ catalog it,
      (m.run catalog it).1 = (m'.run catalog it).1 ∧
        (m.run catalog it).2.pos = (m'.run catalog it).2.pos) ∧
    ∃ m', Matcher.arranged id text = some m' ∧ ∀ catalog it,
      (∀ members ∈ m'.alternations, members.Pairwise (Matcher.GivesWay catalog it)) →
      (m.run catalog it).1 = (m'.run catalog it).1 ∧
        (m.run catalog it).2.pos = (m'.run catalog it).2.pos := by
  obtain ⟨first, hfirst, hgathered⟩ := Catalog.Becomes.gathered arranges_keywordsFirst hbefore hm
  obtain ⟨written, hwritten, hgathered'⟩ := Catalog.Becomes.gathered arranges_id hbefore hm
  refine ⟨⟨first, hfirst, fun catalog it => hgathered.run_eq fun members hmembers => ?_⟩,
    written, hwritten, fun catalog it hway => hgathered'.run_eq hway⟩
  obtain ⟨ms, rfl⟩ :=
    isArranged_arrangedTo arranges_keywordsFirst _ text hfirst members hmembers
  exact pairwise_keywordsFirst ms

set_option maxRecDepth 10000 in
/-- A number is in no keyword's way. -/
theorem Matcher.run_arranged_number : ∃ m m', (Catalog.empty.compile "<int> | auto").1 = .ok m ∧
    Matcher.arranged id "<int> | auto" = some m' ∧
      ∀ catalog it, (m.run catalog it).1 = (m'.run catalog it).1 := by
  have hm : (Catalog.empty.compile "<int> | auto").1 =
      .ok (.oneOf [.words ["auto"] "auto", .basic .int]) := by with_unfolding_all rfl
  have hm' : Matcher.arranged id "<int> | auto" =
      some (.oneOf [.basic .int, .words ["auto"] "auto"]) := by with_unfolding_all rfl
  obtain ⟨-, m', harranged, hrun⟩ := Matcher.run_arranged .refl hm
  cases hm'.symm.trans harranged
  refine ⟨_, _, hm, hm', fun catalog it => (hrun catalog it fun members hmembers => ?_).1⟩
  obtain rfl : members = [.basic .int, .words ["auto"] "auto"] := by
    simpa [Matcher.alternations, Matcher.alternationsOfAll] using hmembers
  simpa using Matcher.GivesWay.of_single rfl

set_option maxRecDepth 10000 in
/-- A keyword that is tried first may take less than an alternative that is
written before it. -/
theorem Matcher.run_keyword_first : ∃ m m', (Catalog.empty.compile "a b | a").1 = .ok m ∧
    Matcher.arranged id "a b | a" = some m' ∧
      (m.run Catalog.empty (.start [wordPart "a", wordPart "b"])).2.pos = 1 ∧
      (m'.run Catalog.empty (.start [wordPart "a", wordPart "b"])).2.pos = 2 :=
  ⟨.oneOf [.words ["a"] "a", .sequence [.words ["a"] "a", .words ["b"] "b"]],
    .oneOf [.sequence [.words ["a"] "a", .words ["b"] "b"], .words ["a"] "a"],
    by with_unfolding_all rfl, by with_unfolding_all rfl, by with_unfolding_all rfl,
    by with_unfolding_all rfl⟩

end Compiled

end Stylesheet.Grammar
