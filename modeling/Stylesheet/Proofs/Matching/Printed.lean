import Stylesheet.Proofs.Matching.Histories
import Stylesheet.Proofs.Matching.Reprinting

/-!
# Printed grammars

A legible matcher is read back from what it is written as: by induction over
how it was made, each of its members is read back in the surroundings that it
stands in (`Made.isRestored`). Compiling the printed form of a grammar then
gives the matcher that the grammar has (`Catalog.Becomes.compile_display`).
Where a matcher is not legible, its printed form may be no grammar at all
(`Catalog.compile_display_twice`).
-/

namespace Stylesheet.Grammar

open Text

/-! ## Legible matchers are read back -/

section Members

variable {terms : List Term} {ms : List Matcher}

theorem restored_of_mem (hlength : terms.length = ms.length)
    (ih : ∀ (i : Nat) term m, terms[i]? = some term → ms[i]? = some m → term.Proper → m.Legible →
      m.IsRestored) (hterms : ∀ term ∈ terms, term.Proper) {m : Matcher} (hm : m ∈ ms)
    (hlegible : m.Legible) : m.IsRestored := by
  obtain ⟨i, term, hterm, hi⟩ := exists_term_of_mem hlength hm
  exact ih i term m hterm hi (hterms term (List.mem_of_getElem? hterm)) hlegible

end Members

/-- **A legible matcher is read back** from what it is written as. -/
theorem Made.isRestored {term : Term} {m : Matcher} (h : Made term m) (hterm : term.Proper)
    (hm : m.Legible) : m.IsRestored := by
  induction h with
  | words hleaf =>
    obtain ⟨key, hkey, hwords⟩ := Option.bind_eq_some_iff.mp hleaf
    obtain ⟨rfl, -⟩ := Leaf.ofKey?_words hwords
    cases hm with
    | words hlegible => exact Matcher.isRestored_words hlegible (key?_small hkey)
  | basic hleaf => exact Matcher.isRestored_basic hleaf
  | group => cases hm
  | @grammar term inner key text m hkey hleaf htext hmade ih =>
    split_ifs at hm ⊢ with hnamed
    · have hurl : key = "<url>" := by simpa [namedReference] using hnamed
      have hsmall := key?_small hkey
      have halias : Made term (if key == namedReference then .alias key m else m) :=
        .grammar hkey hleaf htext hmade
      rw [if_pos hnamed] at halias
      refine Matcher.isRestored_reference (halias.of_key_eq hkey ?_) ?_ hsmall fun s => rfl
      · exact congrArg some (lower_eq_self hsmall)
      · rw [hurl]
        exact isReference_sound rfl (by decide +kernel)
    · exact ih (Term.ofString_proper htext) hm
  | anyCall =>
    cases hterm with
    | function hname => exact Matcher.isRestored_call hname
  | function _ ih =>
    cases hterm with
    | function hname hbody =>
      cases hm with
      | function hlegible => exact Matcher.isRestored_function hname (ih (hbody _ rfl) hlegible)
  | oneOf hlength hmade hwords ih =>
    cases hterm with
    | oneOf htwo hterms =>
      have htwo' := hlength ▸ htwo
      rw [combine_two htwo'] at hm ⊢
      cases hm with
      | oneOf hlegible hfits =>
        exact Matcher.isRestored_oneOf htwo' hwords
          (fun m hm => restored_of_mem hlength ih hterms hm (hlegible m hm)) hfits
  | @oneOfWords terms ms hlength hmade hany ih =>
    cases hterm with
    | oneOf htwo hterms =>
      have hsmall : ∀ c ∈ (joinedText ms).toList, IsSmall c := by
        refine (isSetText_joinedText isKey_sets hany fun ws text hmem => ?_).1.small
        obtain ⟨i, term, hterm, hi⟩ := exists_term_of_mem hlength hmem
        exact (hmade i term _ hterm hi).isSetText isKey_sets
          (hterms term (List.mem_of_getElem? hterm)).regular rfl
      cases hothers : ms.filter (!·.isWords) with
      | nil =>
        rw [hothers] at hm
        cases hm with
        | words hlegible => exact Matcher.isRestored_words hlegible hsmall
      | cons first others =>
        have htwo' : 2 ≤ (Matcher.words (wordsOf (joinedText ms)) (joinedText ms) ::
            first :: others).length := Nat.le_add_left 2 _
        have hmem : ∀ m ∈ first :: others, m ∈ ms ∧ m.isWords = false := fun m hm => by
          rw [← hothers, List.mem_filter] at hm
          exact ⟨hm.1, by simpa using hm.2⟩
        rw [hothers, combine_two htwo'] at hm
        rw [combine_two htwo']
        cases hm with
        | oneOf hlegible hfits =>
          cases hlegible _ List.mem_cons_self with
          | words hkey =>
            exact Matcher.isRestored_oneOfWords hkey hsmall (List.cons_ne_nil _ _)
              (fun m hm => (hmem m hm).2)
              (fun m hm => restored_of_mem hlength ih hterms (hmem m hm).1
                (hlegible m (List.mem_cons_of_mem _ hm)))
              fun m hm => hfits m (List.mem_cons_of_mem _ hm)
  | someOf hlength hmade ih =>
    cases hterm with
    | someOf htwo hterms =>
      have htwo' := hlength ▸ htwo
      rw [combine_two htwo'] at hm ⊢
      cases hm with
      | someOf hlegible hfits =>
        exact Matcher.isRestored_someOf htwo'
          (fun m hm => restored_of_mem hlength ih hterms hm (hlegible m hm)) hfits
  | allOf hlength hmade ih =>
    cases hterm with
    | allOf htwo hterms =>
      have htwo' := hlength ▸ htwo
      rw [combine_two htwo'] at hm ⊢
      cases hm with
      | allOf hlegible hfits =>
        exact Matcher.isRestored_allOf htwo'
          (fun m hm => restored_of_mem hlength ih hterms hm (hlegible m hm)) hfits
  | @sequence terms ms hlength hmade ih =>
    cases hterm with
    | sequence htwo hblock hterms =>
      have htwo' := hlength ▸ htwo
      rw [combine_two htwo'] at hm ⊢
      cases hm with
      | sequence hlegible hfits =>
        refine Matcher.isRestored_sequence htwo' (fun m hms => ?_)
          (fun m hm => restored_of_mem hlength ih hterms hm (hlegible m hm)) hfits
        subst hms
        match terms, hlength with
        | [first, term, last], _ =>
          have hfirst : first = .words "\"[\"" :=
            Made.eq_words (hmade 0 _ _ rfl rfl) (hterms first (by simp)) (by decide) (by decide)
          have hlast : last = .words "\"]\"" :=
            Made.eq_words (hmade 2 _ _ rfl rfl) (hterms last (by simp)) (by decide) (by decide)
          exact hblock term (by rw [hfirst, hlast])
  | repeated _ hcomma hoptional ih =>
    cases hterm with
    | repeated hinner htimes =>
      cases hm with
      | repeated hlegible hfits hlossless =>
        exact Matcher.isRestored_repeated (ih hinner hlegible) hfits htimes hlossless
          fun term hmade => .repeated hmade hcomma hoptional
  | commaRepeated _ hcommaMade hcomma hoptional ih =>
    cases hterm with
    | repeated hinner htimes =>
      cases hm with
      | repeated hlegible hfits hlossless =>
        exact Matcher.isRestored_repeated (ih hinner hlegible) hfits htimes hlossless
          fun term hmade => .commaRepeated hmade hcommaMade hcomma hoptional
  | bracketed _ ih =>
    cases hterm with
    | bracketed hinner =>
      cases hm with
      | bracketed hlegible hfits =>
        exact Matcher.isRestored_bracketed (ih hinner hlegible) hfits

/-! ## Compiling again -/

/-- A text that stands for a matcher by itself is a grammar of it. -/
theorem Parser.ReadsAt.madeFrom {key : String} {m : Matcher}
    (h : Parser.ReadsAt 0 key.toList m) : MadeFrom key m := by
  obtain ⟨term, hmade, hread⟩ := h key.toList.length (Nat.le_refl _) [] .nil
  rw [List.append_nil] at hread
  exact ⟨term, ofString_of_oneOf hread, hmade⟩

/-- **A legible matcher of a grammar** is made from its printed form as well. -/
theorem MadeFrom.display {g : String} {m : Matcher} (h : MadeFrom g m) (hm : m.Legible) :
    MadeFrom m.display m := by
  obtain ⟨term, hterm, hmade⟩ := h
  exact (hmade.isRestored (Term.ofString_proper hterm) hm).alone.1.madeFrom

section Compiling

variable {before after : Catalog} {g : String} {m : Matcher}

/-- **A printed grammar means what was compiled**: if the matcher of a grammar
is legible, its printed form is compiled to the very same matcher. This is so in
any catalog in which grammars of the tables were compiled before, and for a
printed form with common blanks in any catalog in which such grammars were
compiled, the printed one among them. -/
theorem Catalog.Becomes.compile_display (hbefore : Catalog.empty.Becomes before)
    (hm : (before.compile g).1 = .ok m) (hlegible : m.Legible)
    (hafter : Catalog.empty.Becomes after ∨ after.Evolves ∧ Grammar.IsTidy m.display.toList) :
    (after.compile m.display).1 = .ok m := by
  have hplain : before.IsPlain := Catalog.IsPlain.becomes Catalog.isRight_empty hbefore
  have hmade := (hplain.compile_any hm).1.display hlegible
  rcases hafter with hafter | ⟨hafter, htidy⟩
  · exact (Catalog.IsPlain.becomes Catalog.isRight_empty hafter).compile_iff.mpr hmade
  · exact ((hafter.isTidy.compile htidy).2 m).mpr hmade

/-- Words are legible. -/
theorem isLegibleText_words {key : String} {ws : List (List Char)} (hne : ws ≠ [])
    (h : ∀ w ∈ ws, w ≠ [] ∧ ∀ c ∈ w, Parser.isWordChar c = true) (hkey : key.toList = joinBars ws) :
    IsLegibleText key :=
  ⟨ws, hne, (areParts_words h).part, fun w hw _ hquote hopens =>
    notMem_words hquote (h w hw).2 (List.mem_of_mem_head? hopens.1), hkey⟩

set_option maxRecDepth 10000 in
/-- A repeated sequence is written in brackets, and after the words that it is
an alternative to. -/
theorem Catalog.compile_display_sequence :
    ((Catalog.empty.compile "[ x y ]{2} | w").2.compile "w | [ x y ]{2}").1 =
      (Catalog.empty.compile "[ x y ]{2} | w").1 := by
  have hm : (Catalog.empty.compile "[ x y ]{2} | w").1 = .ok (.oneOf [.words ["w"] "w",
      .repeated (.sequence [.words ["x"] "x", .words ["y"] "y"]) ⟨2, some 2, none, false⟩ none]) := by
    with_unfolding_all rfl
  have hword : ∀ c, Parser.isWordChar c = true →
      (Matcher.words [String.singleton c] (String.singleton c)).Legible := fun c hc => by
    have hkey : (String.singleton c).toList = joinBars [[c]] := String.toList_singleton c
    exact .words (isLegibleText_words (List.cons_ne_nil _ _) (by simpa using hc) hkey)
  have hrow : (Matcher.sequence [.words ["x"] "x", .words ["y"] "y"]).Legible := by
    refine .sequence ?_ ?_ <;> simp only [List.forall_mem_cons]
    · exact ⟨hword 'x' rfl, hword 'y' rfl, nofun⟩
    · exact ⟨⟨by decide, nofun⟩, ⟨by decide, nofun⟩, nofun⟩
  have hlegible : (Matcher.oneOf [.words ["w"] "w", .repeated (.sequence [.words ["x"] "x",
      .words ["y"] "y"]) ⟨2, some 2, none, false⟩ none]).Legible := by
    refine .oneOf ?_ ?_ <;> simp only [List.forall_mem_cons]
    · exact ⟨hword 'w' rfl, .repeated hrow ⟨by decide, nofun⟩ nofun, nofun⟩
    · exact ⟨⟨by decide, nofun⟩, ⟨by decide, nofun⟩, nofun⟩
  rw [hm]
  exact Catalog.Becomes.compile_display .refl hm hlegible (.inr ⟨.compile .empty
    (isTidy_of_spaces (by decide)), isTidy_of_spaces (by decide)⟩)

set_option maxRecDepth 10000 in
/-- **A repetition that is repeated is not legible**: both multipliers are
written in a row, which is no grammar. -/
theorem Catalog.compile_display_twice :
    (Catalog.empty.compile "[ a? ]{2}").1.toOption.map Matcher.display = some "a?{2}" ∧
      (Catalog.empty.compile "a?{2}").1.toOption.isNone = true ∧
      ((Catalog.empty.compile "[ a? ]{2}").2.compile "a?{2}").1.toOption.isNone = true := by
  refine ⟨?_, ?_, ?_⟩ <;> with_unfolding_all rfl

end Compiling

end Stylesheet.Grammar
