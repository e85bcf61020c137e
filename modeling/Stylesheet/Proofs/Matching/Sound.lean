import Stylesheet.Proofs.Matching.Made

/-!
# Made matchers are sound

A matcher made from a term takes only what belongs to the term, if the
same is known one level of brackets further in (`Made.sound`). So it
holds for every depth of brackets (`Made.inside_accepts`).
-/

namespace Stylesheet.Grammar

open Matching

variable {part : ValuePart} {it : Cursor} {inner : Term}

/-- **Surroundings that can be relied on**: a grammar of the tables leads
to a matcher that was made from it, and what fits inside brackets belongs
to the term. -/
structure Surroundings.Faithful (s : Surroundings) : Prop where
  /-- The matchers of grammars are made from them. -/
  resolve : ∀ grammar body, grammar ∈ tableGrammars → s.resolve grammar = some body →
    ∃ term, Term.ofString grammar = .ok term ∧ Made term body
  /-- What fits inside brackets belongs to the term. -/
  enter : ∀ term m ps, Made term m → (s.enter m ps).fits = true → Accepts false term ps

variable {s : Surroundings} {attr : Bool} {term : Term} {terms : List Term} {m : Matcher}
  {ms : List Matcher} {ps : List ValuePart}

/-! ## Leaves -/

theorem Term.isSingle_of_leaf {leaf : Leaf} (h : term.leaf? = some leaf) (hleaf : leaf.IsSingle) :
    term.IsSingle := by
  cases term with
  | words text => exact ⟨leaf, h, hleaf⟩
  | reference name => exact ⟨leaf, h, hleaf⟩
  | _ => cases h

/-- **A matcher of a single part** takes what its test lets through, and
parts that pass for any other. -/
theorem single_sound {test : ValuePart → Cursor → Bool × Cursor} (hquiet : Quiet test)
    (hsingle : term.IsSingle)
    (htest : ∀ part it attr, (test part it).1 = true → Accepts attr term [part]) :
    (single test).Sound fun attr => Accepts attr term := by
  intro it n after hrun
  obtain ⟨part, htakes, hvar | hattr | hfits⟩ := single_taken hquiet hrun
  · exact ⟨[part], htakes, .wild hsingle (.inl hvar)⟩
  · exact ⟨[part], htakes, .wild hsingle (.inr hattr)⟩
  · exact ⟨[part], htakes, htest part it it.tryAttr hfits⟩

theorem argumentsFit_accepts (hs : s.Faithful) (h : Made term m)
    (hfits : (argumentsFit s m part it).1 = true) : AcceptsArguments term part := by
  unfold argumentsFit at hfits
  cases hexpr : part.expr with
  | none =>
    rw [hexpr] at hfits
    refine .inside ?_
    rw [ValuePart.inner, hexpr]
    exact hs.enter term m [] h hfits
  | some args =>
    rw [hexpr] at hfits
    dsimp only at hfits
    split_ifs at hfits with hvar hinside
    · exact .unknown hexpr hvar
    · refine .inside ?_
      rw [ValuePart.inner, hexpr]
      exact hs.enter term m args.parts h hinside

/-- The argument grammars of a group that a leaf refers to are in the
tables. -/
theorem Leaf.argumentGrammar_mem {group : FunctionGroup} {name grammar : String}
    (h : term.leaf? = some (.group group)) (hname : group.argumentGrammar? name = some grammar) :
    grammar ∈ tableGrammars := by
  have hgroup : group ∈ Property.Table.functionGroups := by
    obtain ⟨key, -, hkey⟩ := Option.bind_eq_some_iff.mp h
    obtain ⟨-, h⟩ | ⟨name, functions, hfind, h⟩ | ⟨_, h⟩ | ⟨_, -, h⟩ := Leaf.ofKey?_cases hkey
    all_goals cases h
    exact List.mem_of_find?_eq_some hfind
  obtain ⟨entry, hfind, rfl⟩ := Option.map_eq_some_iff.mp hname
  refine List.mem_append_right _ (List.mem_flatMap.mpr ⟨group, hgroup, ?_⟩)
  exact List.mem_map_of_mem (List.mem_of_find?_eq_some hfind)

theorem groupMatches_accepts (hs : s.Faithful) {group : FunctionGroup}
    (h : term.leaf? = some (.group group)) (hfits : (groupMatches s group part it).1 = true) :
    Accepts attr term [part] := by
  unfold groupMatches at hfits
  split_ifs at hfits with hcall
  cases hname : (group.argumentGrammar? part.token.name).or
      (group.argumentGrammar? (fullName part)) with
  | none =>
    rw [hname] at hfits
    cases hfits
  | some grammar =>
    rw [hname] at hfits
    dsimp only at hfits
    have hmem : grammar ∈ tableGrammars := by
      rcases Option.or_eq_some_iff.mp hname with hname | ⟨-, hname⟩
      · exact Leaf.argumentGrammar_mem h hname
      · exact Leaf.argumentGrammar_mem h hname
    cases hbody : s.resolve grammar with
    | none =>
      rw [hbody] at hfits
      cases hfits
    | some body =>
      rw [hbody] at hfits
      obtain ⟨inner, hinner, hmade⟩ := hs.resolve grammar body hmem hbody
      exact .group h hcall hname hinner (argumentsFit_accepts hs hmade hfits)

theorem functionMatches_accepts (hs : s.Faithful) {name : String} {body : Option Term}
    {body' : Option Matcher} (hmade : ∀ b, body = some b → ∃ m, body' = some m ∧ Made b m)
    (hfits : (functionMatches s name body' part it).1 = true) :
    Accepts attr (.function name body) [part] := by
  unfold functionMatches at hfits
  split_ifs at hfits with hcall
  rw [Bool.and_eq_true] at hcall
  refine .function hcall.1 hcall.2 fun b hb => ?_
  obtain ⟨m, rfl, hm⟩ := hmade b hb
  exact argumentsFit_accepts hs hm hfits

theorem bracketMatches_accepts (hs : s.Faithful) (h : Made term m)
    (hfits : (bracketMatches s m part it).1 = true) : Accepts attr (.bracketed term) [part] := by
  unfold bracketMatches at hfits
  split_ifs at hfits with hkind
  exact .bracketed hkind (hs.enter term m part.inner h hfits)

/-! ## Combinators -/

section Members

variable (hlength : terms.length = ms.length)

include hlength in
/-- What is true of members under a combinator, but of no combinator, is
true of a single member. -/
theorem single_of_combine (p : Matcher → Prop) {wrap : List Matcher → Matcher}
    (h : p (combine wrap ms)) (hwrap : ¬p (wrap ms)) :
    ∃ term m, terms = [term] ∧ ms = [m] ∧ p m := by
  rcases combine_cases wrap ms with hms | ⟨m, rfl, hm⟩
  · rw [hms] at h
    exact absurd h hwrap
  · obtain ⟨term, rfl⟩ := List.length_eq_one_iff.mp hlength
    exact ⟨term, m, rfl, rfl, hm ▸ h⟩

include hlength in
theorem stepsOf_sound (hmembers : ∀ (i : Nat) term m, terms[i]? = some term → ms[i]? = some m →
      (stepOf s m).Sound fun attr => Accepts attr term) :
    List.Forall₂ Step.Sound (terms.map fun term attr => Accepts attr term) (stepsOf s ms) := by
  rw [stepsOf_eq, List.forall₂_map_left_iff, List.forall₂_map_right_iff]
  refine List.forall₂_iff_get.mpr ⟨hlength, fun i hi hi' => ?_⟩
  exact hmembers i _ _ (List.getElem?_eq_getElem hi) (List.getElem?_eq_getElem hi')

end Members

theorem oneOf_sound {L : Language} (h : ∀ m ∈ ms, (stepOf s m).Sound L) :
    (stepOf s (combine .oneOf ms)).Sound L := by
  rcases combine_cases .oneOf ms with hms | ⟨m, rfl, hm⟩
  · rw [hms, stepOf_oneOf]
    refine needsPart_sound (Step.Sound.firstOf ?_ ?_ ?_)
    · simpa using h
    · simpa using fun m _ => stepOf_advances s m
    · simpa using fun m _ => stepOf_restores s m
  · rw [hm]
    exact h m List.mem_cons_self

theorem AcceptsInOrder.of_inOrder
    (h : Step.InOrder (terms.map fun term attr => Accepts attr term) attr ps) :
    AcceptsInOrder attr terms ps := by
  induction terms generalizing ps with
  | nil =>
    cases h
    exact .nil
  | cons term terms ih =>
    obtain ⟨qs, rs, rfl, hqs, hrs⟩ := h
    exact .cons hqs (ih hrs)

/-- Pieces of distinct members are given by the members. -/
theorem AnyOrder.Chosen.pieces {Ls : Nat → Language} {order : List Nat}
    (h : AnyOrder.Chosen Ls attr order ps) (hnodup : order.Nodup) :
    ∃ pieces : Nat → List ValuePart, ps = order.flatMap pieces ∧
      ∀ i ∈ order, Ls i attr (pieces i) := by
  induction h with
  | nil => exact ⟨fun _ => [], rfl, by simp⟩
  | @cons i order ps qs hps hrest ih =>
    obtain ⟨hi, hnodup⟩ := List.nodup_cons.mp hnodup
    obtain ⟨pieces, rfl, hpieces⟩ := ih hnodup
    have hothers : ∀ j ∈ order, Function.update pieces i ps j = pieces j := by
      intro j hj
      refine Function.update_of_ne ?_ _ _
      rintro rfl
      exact hi hj
    refine ⟨Function.update pieces i ps, ?_, ?_⟩
    · rw [List.flatMap_cons, Function.update_self, List.flatMap_congr hothers]
    · intro j hj
      rcases List.mem_cons.mp hj with rfl | hj
      · rwa [Function.update_self]
      · rw [hothers j hj]
        exact hpieces j hj

/-- The languages of some terms, by their places. -/
def languageAt (terms : List Term) (i : Nat) : Language :=
  fun attr ps => ∃ term, terms[i]? = some term ∧ Accepts attr term ps

/-- **Members in any order**, made from terms, take pieces of distinct
terms. -/
theorem anyOrder_sound (hlength : terms.length = ms.length)
    (hmembers : ∀ (i : Nat) term m, terms[i]? = some term → ms[i]? = some m →
      (stepOf s m).Sound fun attr => Accepts attr term) (required : Option (List Bool)) :
    (stepOf s (.anyOrder ms required)).Sound
      (AnyOrder.Taken (languageAt terms) terms.length required) := by
  rw [stepOf, hlength, ← length_membersOf s required ms 0]
  refine needsPart_sound (AnyOrder.step_sound ?_
    (membersOf_respect Cursor.Alike.likeness (surroundings_quiet s) required 0 ms) required)
  intro i member hmember
  rw [getElem?_membersOf] at hmember
  obtain ⟨m, hm, rfl⟩ := Option.map_eq_some_iff.mp hmember
  refine ⟨?_, stepOf_advances s m⟩
  obtain ⟨hi, -⟩ := List.getElem?_eq_some_iff.mp hm
  have hterm := List.getElem?_eq_getElem (hlength ▸ hi)
  exact (hmembers i _ m hterm hm).mono fun attr ps h => ⟨_, hterm, h⟩

/-- Pieces of some members, at least one. -/
theorem Accepts.someOf_of_taken (h : AnyOrder.Taken (languageAt terms) terms.length none attr ps) :
    Accepts attr (.someOf terms) ps := by
  obtain ⟨order, hnodup, hbound, hchosen, hne, -⟩ := h
  obtain ⟨pieces, rfl, hpieces⟩ := hchosen.pieces hnodup
  refine .someOf hnodup (hne rfl) hbound fun i term hi hterm => ?_
  obtain ⟨term', hterm', haccepts⟩ := hpieces i hi
  cases hterm.symm.trans hterm'
  exact haccepts

/-- Pieces of all required members: those that are left out take
nothing. -/
theorem Accepts.allOf_of_taken {marks : List Bool}
    (hoptional : ∀ (i : Nat) term, terms[i]? = some term → marks[i]? ≠ some true →
      Accepts attr term [])
    (h : AnyOrder.Taken (languageAt terms) terms.length (some marks) attr ps) :
    Accepts attr (.allOf terms) ps := by
  obtain ⟨order, hnodup, hbound, hchosen, -, hrequired⟩ := h
  obtain ⟨pieces, rfl, hpieces⟩ := hchosen.pieces hnodup
  -- the members that were not taken come last, with an empty piece each
  let others := (List.range terms.length).filter (· ∉ order)
  let pieces' := fun i => if i ∈ order then pieces i else []
  have htaken : order.flatMap pieces' = order.flatMap pieces :=
    List.flatMap_congr fun i hi => if_pos hi
  have hothers : others.flatMap pieces' = [] := by
    refine List.flatMap_eq_nil_iff.mpr fun i hi => if_neg ?_
    simpa using (List.mem_filter.mp hi).2
  have hall : Accepts attr (.allOf terms) ((order ++ others).flatMap pieces') := by
    refine .allOf ?_ ?_ ?_ ?_
    · refine List.nodup_append.mpr ⟨hnodup, List.Nodup.filter _ List.nodup_range, ?_⟩
      rintro i hi j hj rfl
      exact absurd hi (by simpa using (List.mem_filter.mp hj).2)
    · intro i hi
      rcases List.mem_append.mp hi with hi | hi
      · exact hbound i hi
      · exact List.mem_range.mp (List.mem_filter.mp hi).1
    · intro i term hterm _
      obtain ⟨hi, -⟩ := List.getElem?_eq_some_iff.mp hterm
      by_cases hmem : i ∈ order
      · exact List.mem_append_left _ hmem
      · exact List.mem_append_right _ (List.mem_filter.mpr ⟨List.mem_range.mpr hi, by simpa⟩)
    · intro i term _ hterm
      by_cases hmem : i ∈ order
      · obtain ⟨term', hterm', haccepts⟩ := hpieces i hmem
        cases hterm.symm.trans hterm'
        simpa only [pieces', if_pos hmem] using haccepts
      · obtain ⟨hi, -⟩ := List.getElem?_eq_some_iff.mp hterm
        simpa only [pieces', if_neg hmem] using
          hoptional i term hterm fun hmark => hmem (hrequired marks i rfl hi hmark)
  rwa [List.flatMap_append, htaken, hothers, List.append_nil] at hall

/-! ## Repetition -/

/-- What comes from the second time on: the term, after a comma where it
asks for one. -/
def nextLanguage (inner : Term) (comma : Bool) : Language :=
  fun attr ps => ∃ separator qs, ps = separator ++ qs ∧
    (comma = true → Accepts attr (.words ",") separator) ∧ (comma = false → separator = []) ∧
    Accepts attr inner qs

theorem AcceptsTimes.append {comma : Bool} {count n : Nat} {qs : List ValuePart}
    (h : AcceptsTimes attr inner comma (count + 1) ps)
    (hmore : Step.Times (nextLanguage inner comma) n (nextLanguage inner comma) attr qs) :
    AcceptsTimes attr inner comma (count + 1 + n) (ps ++ qs) := by
  induction n generalizing count ps qs with
  | zero =>
    cases hmore
    rwa [List.append_nil]
  | succ n ih =>
    obtain ⟨next, rest, rfl, ⟨separator, piece, rfl, hcomma, hnone, hpiece⟩, hrest⟩ := hmore
    have hmore := ih (.more h hcomma hnone hpiece) hrest
    rw [List.append_assoc] at hmore
    rwa [show count + 1 + (n + 1) = count + 1 + 1 + n by omega]

theorem AcceptsTimes.of_times {comma : Bool} {count : Nat}
    (h : Step.Times (nextLanguage inner comma) count (fun attr => Accepts attr inner) attr ps) :
    AcceptsTimes attr inner comma count ps := by
  cases count with
  | zero =>
    cases h
    exact .zero
  | succ count =>
    obtain ⟨qs, rs, rfl, hqs, hrs⟩ := h
    have hfirst : AcceptsTimes attr inner comma (0 + 1) qs := .one hqs
    have hall := hfirst.append hrs
    rwa [Nat.zero_add, Nat.add_comm] at hall

/-- **A repeated matcher** takes a repeated term. -/
theorem repeated_sound {times : Multiplier} {separator : Option Matcher}
    (hinner : (stepOf s m).Sound fun attr => Accepts attr inner)
    (hnext : (nextOf s (stepOf s m) separator).Sound (nextLanguage inner times.comma)) :
    (stepOf s (.repeated m times separator)).Sound
      fun attr => Accepts attr (.repeated inner times) := by
  have hadvances := stepOf_advances s m
  have hrestores : (nextOf s (stepOf s m) separator).Restores := by
    cases separator with
    | none => exact stepOf_restores s m
    | some next => exact stepOf_restores s next
  rw [stepOf]
  refine (repetition_sound times hinner hnext hadvances (nextOf_advances s hadvances separator)
    (stepOf_restores s m) hrestores).mono ?_
  rintro attr ps ⟨count, hmin, hmax, htimes⟩
  exact .repeated (.of_times htimes) hmin hmax

/-- A comma and the matcher, one after the other. -/
theorem commaNext_sound {comma : Matcher}
    (hcomma : (stepOf s comma).Sound fun attr => Accepts attr (.words ","))
    (hinner : (stepOf s m).Sound fun attr => Accepts attr inner) :
    (stepOf s (.sequence [comma, m])).Sound (nextLanguage inner true) := by
  rw [stepOf_sequence]
  have hrow : List.Forall₂ Step.Sound
      [fun attr => Accepts attr (.words ","), fun attr => Accepts attr inner]
      ([comma, m].map (stepOf s)) := .cons hcomma (.cons hinner .nil)
  refine (needsPart_sound (Step.Sound.inOrder hrow ?_)).mono ?_
  · simpa using ⟨stepOf_advances s comma, stepOf_advances s m⟩
  · rintro attr ps ⟨separator, rest, rfl, hseparator, qs, rest', rfl, hqs, rfl⟩
    rw [List.append_nil]
    exact ⟨separator, qs, rfl, fun _ => hseparator, fun h => (by cases h), hqs⟩

/-! ## All matchers -/

/-- The words of a made set are those of its text. -/
theorem Made.words_eq (h : Made term m) {ws : List String} {key : String}
    (hm : m = .words ws key) : ws = wordsOf key := by
  induction h with
  | words _ =>
    cases hm
    rfl
  | grammar _ _ _ _ ih =>
    split_ifs at hm
    exact ih hm
  | oneOf hlength _ _ ih | someOf hlength _ ih | allOf hlength _ ih | sequence hlength _ ih =>
    obtain ⟨term, m, rfl, rfl, hm⟩ := single_of_combine hlength (· = .words ws key) hm nofun
    exact ih 0 term m rfl rfl hm
  | oneOfWords _ _ _ _ =>
    rcases combine_cases .oneOf _ with hms | ⟨m, hms, hm'⟩
    · cases hms.symm.trans hm
    · obtain ⟨rfl, -⟩ := List.cons.inj hms
      cases hm'.symm.trans hm
      rfl
  | _ => cases hm

/-- **An optional matcher** was made from a term that takes nothing. -/
theorem Made.accepts_nil (h : Made term m) (hoptional : m.isOptional = true) :
    Accepts attr term [] := by
  induction h with
  | grammar _ hleaf htext _ ih =>
    split_ifs at hoptional
    · cases hoptional
    · exact .grammar hleaf htext (ih hoptional)
  | oneOf hlength _ _ ih =>
    obtain ⟨term, m, rfl, rfl, hm⟩ := single_of_combine hlength (·.isOptional = true)
      hoptional nofun
    exact (ih 0 term m rfl rfl hm).oneOf_single
  | oneOfWords _ _ _ _ =>
    rcases combine_cases .oneOf _ with hms | ⟨m, hms, hm⟩
    · rw [hms] at hoptional
      cases hoptional
    · obtain ⟨rfl, -⟩ := List.cons.inj hms
      rw [hm] at hoptional
      cases hoptional
  | someOf hlength _ ih =>
    obtain ⟨term, m, rfl, rfl, hm⟩ := single_of_combine hlength (·.isOptional = true)
      hoptional nofun
    exact (ih 0 term m rfl rfl hm).someOf_single
  | allOf hlength _ ih =>
    obtain ⟨term, m, rfl, rfl, hm⟩ := single_of_combine hlength (·.isOptional = true)
      hoptional nofun
    exact (ih 0 term m rfl rfl hm).allOf_single
  | sequence hlength _ ih =>
    obtain ⟨term, m, rfl, rfl, hm⟩ := single_of_combine hlength (·.isOptional = true)
      hoptional nofun
    exact (ih 0 term m rfl rfl hm).sequence_single
  | repeated _ _ hmin _ | commaRepeated _ _ _ hmin _ _ =>
    have hmarker := hmin (by simpa [Matcher.isOptional] using hoptional)
    exact .repeated .zero (Nat.le_of_eq hmarker) fun _ _ => Nat.zero_le _
  | _ => cases hoptional

/-- A part that a sound set of words takes belongs to its language. -/
theorem accepts_of_words_sound {L : Language} {ws : List String} {key : String} {p : ValuePart}
    (h : (stepOf s (.words ws key)).Sound L)
    (hp : IsWild attr p ∨ wordMatches ws p = true) : L attr [p] := by
  let it : Cursor := ⟨[p], 0, attr, none, []⟩
  have hrun : stepOf s (.words ws key) it = (some 1, { it with pos := 1 }) := by
    rw [stepOf]
    unfold single
    dsimp only [it, Cursor.current?]
    rw [List.getElem?_cons_zero]
    dsimp only
    split_ifs with hvar hfits
    · rfl
    · rfl
    · rcases hp with (hvar' | hattr) | hmatch
      · exact absurd hvar' hvar
      · exact absurd (by simp [hattr.1, hattr.2]) hfits
      · exact absurd (by simp [hmatch]) hfits
  obtain ⟨ps, htakes, hps⟩ := h it 1 _ hrun
  rwa [htakes.eq_slice] at hps

/-- **The words among alternatives**, as one set, take what belongs to one
of them. -/
theorem joined_sound (hlength : terms.length = ms.length)
    (hmade : ∀ (i : Nat) term m, terms[i]? = some term → ms[i]? = some m → Made term m)
    (hmembers : ∀ (i : Nat) term m, terms[i]? = some term → ms[i]? = some m →
      (stepOf s m).Sound fun attr => Accepts attr term)
    (hany : ms.any Matcher.isWords = true) :
    (stepOf s (.words (wordsOf (joinedText ms)) (joinedText ms))).Sound
      fun attr => Accepts attr (.oneOf terms) := by
  -- a part that one of the sets takes belongs to the term the set was made from
  have hset : ∀ {ws key attr p}, .words ws key ∈ ms → IsWild attr p ∨ wordMatches (wordsOf key) p →
      Accepts attr (.oneOf terms) [p] := by
    intro ws key attr p hmem hp
    obtain ⟨i, term, hterm, hi⟩ := exists_term_of_mem hlength hmem
    obtain rfl := (hmade i _ _ hterm hi).words_eq rfl
    exact .oneOf (List.mem_of_getElem? hterm) (accepts_of_words_sound (hmembers i _ _ hterm hi) hp)
  obtain ⟨ws, key, hmem⟩ : ∃ ws key, .words ws key ∈ ms := by
    obtain ⟨m, hm, hwords⟩ := List.any_eq_true.mp hany
    cases m with
    | words ws key => exact ⟨ws, key, hm⟩
    | _ => cases hwords
  intro it n after hrun
  rw [stepOf] at hrun
  obtain ⟨p, htakes, hvar | hattr | hmatch⟩ := single_taken (quiet_of_test _) hrun
  · exact ⟨[p], htakes, hset hmem (.inl (.inl hvar))⟩
  · exact ⟨[p], htakes, hset hmem (.inl (.inr hattr))⟩
  · have hne : ms.filterMap wordsText? ≠ [] :=
      List.ne_nil_of_mem (List.mem_filterMap.mpr ⟨_, hmem, rfl⟩)
    obtain ⟨key', hkey', hmatch⟩ := wordMatches_intercalate hne hmatch
    obtain ⟨m, hm, htext⟩ := List.mem_filterMap.mp hkey'
    cases m with
    | words ws' text =>
      cases htext
      exact ⟨[p], htakes, hset hm (.inr hmatch)⟩
    | _ => cases htext

/-- **A made matcher is sound**: it takes only what belongs to the term it
was made from. -/
theorem Made.sound (hs : s.Faithful) (h : Made term m) :
    (stepOf s m).Sound fun attr => Accepts attr term := by
  induction h with
  | words hleaf =>
    rw [stepOf]
    exact single_sound (quiet_of_test _) (Term.isSingle_of_leaf hleaf trivial)
      fun _ _ _ hfits => .words hleaf hfits
  | basic hleaf =>
    rw [stepOf]
    exact single_sound (quiet_of_test _) (Term.isSingle_of_leaf hleaf trivial)
      fun _ _ _ hfits => .basic hleaf hfits
  | group hleaf =>
    rw [stepOf]
    exact single_sound (groupMatches_quiet _) (Term.isSingle_of_leaf hleaf trivial)
      fun _ _ _ hfits => groupMatches_accepts hs hleaf hfits
  | grammar _ hleaf htext _ ih =>
    split_ifs
    · rw [stepOf]
      exact ih.mono fun _ _ haccepts => .grammar hleaf htext haccepts
    · exact ih.mono fun _ _ haccepts => .grammar hleaf htext haccepts
  | anyCall =>
    rw [stepOf]
    refine single_sound (functionMatches_quiet _ _) trivial
      fun _ _ _ hfits => functionMatches_accepts hs ?_ hfits
    rintro b ⟨⟩
  | function hbody _ =>
    rw [stepOf]
    refine single_sound (functionMatches_quiet _ _) trivial
      fun _ _ _ hfits => functionMatches_accepts hs ?_ hfits
    rintro b ⟨⟩
    exact ⟨_, rfl, hbody⟩
  | oneOf hlength _ _ ih =>
    refine oneOf_sound fun m hm => ?_
    obtain ⟨i, term, hterm, hi⟩ := exists_term_of_mem hlength hm
    exact (ih i _ m hterm hi).mono fun _ _ haccepts => .oneOf (List.mem_of_getElem? hterm) haccepts
  | oneOfWords hlength hmade hany ih =>
    refine oneOf_sound fun m hm => ?_
    rcases List.mem_cons.mp hm with rfl | hm
    · exact joined_sound hlength hmade ih hany
    · obtain ⟨i, term, hterm, hi⟩ := exists_term_of_mem hlength (List.mem_filter.mp hm).1
      exact (ih i _ m hterm hi).mono
        fun _ _ haccepts => .oneOf (List.mem_of_getElem? hterm) haccepts
  | @someOf terms ms hlength _ ih =>
    rcases combine_cases (fun ms => .anyOrder ms none) ms with hms | ⟨m, rfl, hm⟩
    · rw [hms]
      exact (anyOrder_sound hlength ih none).mono fun _ _ htaken => .someOf_of_taken htaken
    · obtain ⟨term, rfl⟩ := List.length_eq_one_iff.mp hlength
      rw [hm]
      exact (ih 0 term m rfl rfl).mono fun _ _ haccepts => haccepts.someOf_single
  | @allOf terms ms hlength hmade ih =>
    rcases combine_cases (fun ms => .anyOrder ms (some (ms.map fun m => !m.isOptional))) ms
      with hms | ⟨m, rfl, hm⟩
    · rw [hms]
      refine (anyOrder_sound hlength ih _).mono fun _ _ htaken => .allOf_of_taken ?_ htaken
      intro i term hterm hmark
      obtain ⟨hlt, -⟩ := List.getElem?_eq_some_iff.mp hterm
      have hm := List.getElem?_eq_getElem (hlength ▸ hlt : i < ms.length)
      refine (hmade i term _ hterm hm).accepts_nil ?_
      simpa [List.getElem?_map, hm] using hmark
    · obtain ⟨term, rfl⟩ := List.length_eq_one_iff.mp hlength
      rw [hm]
      exact (ih 0 term m rfl rfl).mono fun _ _ haccepts => haccepts.allOf_single
  | @sequence terms ms hlength _ ih =>
    rcases combine_cases .sequence ms with hms | ⟨m, rfl, hm⟩
    · rw [hms, stepOf]
      exact (needsPart_sound (Step.Sound.inOrder (stepsOf_sound hlength ih)
        (stepsOf_advances s ms))).mono fun _ _ hrow => .sequence (.of_inOrder hrow)
    · obtain ⟨term, rfl⟩ := List.length_eq_one_iff.mp hlength
      rw [hm]
      exact (ih 0 term m rfl rfl).mono fun _ _ haccepts => haccepts.sequence_single
  | repeated _ hcomma _ ih =>
    refine repeated_sound ih (ih.mono fun _ ps haccepts => ⟨[], ps, rfl, ?_, fun _ => rfl, haccepts⟩)
    exact fun h => absurd (hcomma.symm.trans h) (by decide)
  | commaRepeated _ _ hcomma _ ih ihcomma =>
    refine repeated_sound ih ?_
    rw [hcomma]
    exact commaNext_sound ihcomma ih
  | bracketed hinner _ =>
    rw [stepOf]
    exact single_sound (bracketMatches_quiet _) trivial
      fun _ _ _ hfits => bracketMatches_accepts hs hinner hfits

/-! ## Levels of brackets -/

/-- What a match from the start to the end has taken is everything. -/
theorem accepts_of_atEnd (hs : s.Faithful) (h : Made term m)
    (hfits : ((stepOf s m (.start ps)).1.isSome && (stepOf s m (.start ps)).2.atEnd) = true) :
    Accepts false term ps := by
  rcases hrun : stepOf s m (.start ps) with ⟨_ | n, after⟩ <;> rw [hrun] at hfits
  · cases hfits
  · obtain ⟨qs, htakes, haccepts⟩ := h.sound hs (.start ps) n after hrun
    have hfollows := stepOf_advances s m (.start ps)
    rw [hrun] at hfollows
    have hend : ps.length ≤ after.pos := by
      have hend : after.parts.length ≤ after.pos := by simpa [Cursor.atEnd] using hfits
      rwa [hfollows.parts_eq] at hend
    have hall : qs = ps := htakes.eq_slice.trans (List.take_of_length_le hend)
    rwa [hall] at haccepts

/-- **What fits inside brackets** belongs to the term, at every depth. -/
theorem Made.inside_accepts {resolve : String → Option Matcher}
    (hresolve : ∀ grammar body, grammar ∈ tableGrammars → resolve grammar = some body →
      ∃ term, Term.ofString grammar = .ok term ∧ Made term body) (depth : Nat) :
    ∀ term m ps, Made term m → (inside resolve depth m ps).fits = true → Accepts false term ps := by
  induction depth with
  | zero => exact fun _ _ _ h hfits => accepts_of_atEnd ⟨hresolve, fun _ _ _ _ h => by cases h⟩ h hfits
  | succ depth ih => exact fun _ _ _ h hfits => accepts_of_atEnd ⟨hresolve, ih⟩ h hfits

end Stylesheet.Grammar
