import Mathlib.Data.List.Perm.Subperm
import Stylesheet.Proofs.Matching.Catalog
import Stylesheet.Proofs.Matching.Tidy

/-!
# What was compiled before does not matter

A catalog in which only tidy grammars have been compiled answers as the
empty catalog does (`Catalog.Evolves.compile_eq`). What it remembers was made
from the text that it is remembered for, whichever way that text is met
(`Catalog.IsRight`); only one matcher is made from a text (`Made.unique`);
and a matcher is made whenever one can be, as the references of the tables
end after a number of steps that the depth of a compilation allows for
(`Followable.of_mem`).

Grammars are also compiled on the way of a match, for the arguments of grouped
functions. These are grammars of the tables, and so they are tidy
(`Made.asksFor`).
-/

/-!
## What is asked for during a match

The arguments of grouped functions are matched against grammars that are
compiled when they are met. Whatever a matcher was made from, these are
grammars of the tables (`Made.asks`): a group that a term stands for is one
of the tables, and so are the grammars that are followed to get inside its
functions. The notes of the matches further in come up to the surface one
level of brackets after another.
-/

namespace Stylesheet.Grammar

open Matching

/-- **Nothing but grammars of the tables** has been asked for since. -/
def Cursor.Asks (it after : Cursor) : Prop :=
  ∀ grammar ∈ after.consulted, grammar ∈ it.consulted ∨ grammar ∈ tableGrammars

theorem Cursor.Asks.lasting : Cursor.Lasting Cursor.Asks where
  refl _ _ h := .inl h
  trans _ _ _ h h' grammar hgrammar := (h' grammar hgrammar).elim (h grammar) .inr
  withPos _ _ _ h := h

/-- More grammars of the tables are asked for. -/
theorem Cursor.Asks.append {it : Cursor} (found : List String)
    (h : ∀ grammar ∈ found, grammar ∈ tableGrammars) :
    it.Asks { it with consulted := found ++ it.consulted } := by
  intro grammar hgrammar
  rcases List.mem_append.mp hgrammar with hfound | hbefore
  · exact .inr (h grammar hfound)
  · exact .inl hbefore

/-- **Surroundings that keep to the tables**: what is made for a function
is made from its grammar, and the matches further in ask for grammars of the
tables only. -/
structure Surroundings.Asks (s : Surroundings) : Prop where
  /-- The matchers of grammars are made from them. -/
  resolve : ∀ grammar body, grammar ∈ tableGrammars → s.resolve grammar = some body →
    MadeFrom grammar body
  /-- What is asked for inside brackets is in the tables. -/
  enter : ∀ term m ps, Made term m → ∀ grammar ∈ (s.enter m ps).consulted, grammar ∈ tableGrammars

section Tests

variable {s : Surroundings} {term : Term} {m : Matcher} {it : Cursor}

theorem argumentsFit_asks (hs : s.Asks) (h : Made term m) (part : ValuePart) (it : Cursor) :
    it.Asks (argumentsFit s m part it).2 := by
  have hnothing : it.Asks it := Cursor.Asks.lasting.refl it
  unfold argumentsFit
  cases part.expr with
  | none => exact .append _ (hs.enter term m [] h)
  | some args =>
    have hinside : it.Asks
        { it with consulted := (s.enter m args.parts).consulted ++ it.consulted } :=
      .append _ (hs.enter term m args.parts h)
    dsimp only
    split_ifs
    · exact hnothing
    · exact hinside
    · exact hinside
    · exact hinside

theorem functionMatches_asks (hs : s.Asks) (name : String) {body : Option Matcher}
    (h : ∀ m, body = some m → ∃ term, Made term m) :
    TestKeeps Cursor.Asks (functionMatches s name body) := by
  intro part it _
  unfold functionMatches
  split_ifs
  · cases body with
    | none => exact Cursor.Asks.lasting.refl it
    | some body =>
      obtain ⟨term, hmade⟩ := h body rfl
      exact argumentsFit_asks hs hmade part it
  · exact Cursor.Asks.lasting.refl it

theorem groupMatches_asks (hs : s.Asks) {group : FunctionGroup}
    (h : term.leaf? = some (.group group)) : TestKeeps Cursor.Asks (groupMatches s group) := by
  intro part it _
  unfold groupMatches
  split_ifs
  · split
    · exact Cursor.Asks.lasting.refl it
    next grammar hname =>
    have hmem : grammar ∈ tableGrammars := by
      rcases Option.or_eq_some_iff.mp hname with hname | ⟨-, hname⟩
      · exact Leaf.argumentGrammar_mem h hname
      · exact Leaf.argumentGrammar_mem h hname
    have hasked : it.Asks { it with consulted := grammar :: it.consulted } :=
      .append [grammar] fun other hother => List.mem_singleton.mp hother ▸ hmem
    dsimp only
    split
    · exact hasked
    · next body hbody =>
      obtain ⟨inner, -, hmade⟩ := hs.resolve grammar body hmem hbody
      exact Cursor.Asks.lasting.trans _ _ _ hasked (argumentsFit_asks hs hmade part _)
  · exact Cursor.Asks.lasting.refl it

theorem bracketMatches_asks (hs : s.Asks) (h : Made term m) :
    TestKeeps Cursor.Asks (bracketMatches s m) := by
  intro part it _
  unfold bracketMatches
  split_ifs
  · exact .append _ (hs.enter term m part.inner h)
  · exact Cursor.Asks.lasting.refl it

end Tests

section Made

variable {s : Surroundings} {term : Term} {m : Matcher} {ms : List Matcher}

/-- A combinator, or its only member. -/
theorem combine_keeps {R : Cursor → Cursor → Prop} {wrap : List Matcher → Matcher}
    (hwrap : (stepOf s (wrap ms)).Keeps R) (h : ∀ m ∈ ms, (stepOf s m).Keeps R) :
    (stepOf s (combine wrap ms)).Keeps R := by
  rcases combine_cases wrap ms with hms | ⟨m, rfl, hm⟩
  · rw [hms]
    exact hwrap
  · rw [hm]
    exact h m List.mem_cons_self

theorem combine_oneOf_keeps {R : Cursor → Cursor → Prop} (hR : Cursor.Lasting R)
    (h : ∀ m ∈ ms, (stepOf s m).Keeps R) : (stepOf s (combine .oneOf ms)).Keeps R := by
  refine combine_keeps ?_ h
  rw [stepOf_oneOf]
  exact needsPart_keeps hR (.firstOf hR (by simpa using h))

theorem combine_sequence_keeps {R : Cursor → Cursor → Prop} (hR : Cursor.Lasting R)
    (h : ∀ m ∈ ms, (stepOf s m).Keeps R) : (stepOf s (combine .sequence ms)).Keeps R := by
  refine combine_keeps ?_ h
  rw [stepOf_sequence]
  exact needsPart_keeps hR (.inOrder hR (by simpa using h))

theorem combine_anyOrder_keeps {R : Cursor → Cursor → Prop} (hR : Cursor.Lasting R)
    (h : ∀ m ∈ ms, (stepOf s m).Keeps R) (required : List Matcher → Option (List Bool)) :
    (stepOf s (combine (fun ms => .anyOrder ms (required ms)) ms)).Keeps R := by
  refine combine_keeps ?_ h
  rw [stepOf]
  refine needsPart_keeps hR (AnyOrder.step_keeps hR (fun member hmember => ?_) _)
  obtain ⟨i, hi⟩ := List.mem_iff_getElem?.mp hmember
  rw [getElem?_membersOf] at hi
  obtain ⟨m, hm, rfl⟩ := Option.map_eq_some_iff.mp hi
  exact h m (List.mem_of_getElem? hm)

/-- **A made matcher** asks for grammars of the tables only. -/
theorem Made.asks (hs : s.Asks) (h : Made term m) : (stepOf s m).Keeps Cursor.Asks := by
  have hR := Cursor.Asks.lasting
  have hmembers : ∀ {terms : List Term} {ms : List Matcher}, terms.length = ms.length →
      (∀ (i : Nat) term m, terms[i]? = some term → ms[i]? = some m →
        (stepOf s m).Keeps Cursor.Asks) → ∀ m ∈ ms, (stepOf s m).Keeps Cursor.Asks := by
    intro terms ms hlength hall m hm
    obtain ⟨i, term, hterm, hi⟩ := exists_term_of_mem hlength hm
    exact hall i term m hterm hi
  induction h with
  | words _ =>
    rw [stepOf]
    exact single_keeps hR fun _ it _ => hR.refl it
  | basic _ =>
    rw [stepOf]
    exact single_keeps hR fun _ it _ => hR.refl it
  | group hleaf =>
    rw [stepOf]
    exact single_keeps hR (groupMatches_asks hs hleaf)
  | grammar _ _ _ _ ih =>
    split_ifs
    · rw [stepOf]
      exact ih
    · exact ih
  | anyCall =>
    rw [stepOf]
    refine single_keeps hR (functionMatches_asks hs _ ?_)
    rintro _ ⟨⟩
  | function hbody _ =>
    rw [stepOf]
    refine single_keeps hR (functionMatches_asks hs _ ?_)
    rintro _ ⟨⟩
    exact ⟨_, hbody⟩
  | oneOf hlength _ _ ih => exact combine_oneOf_keeps hR (hmembers hlength ih)
  | oneOfWords hlength _ _ ih =>
    refine combine_oneOf_keeps hR fun m hm => ?_
    rcases List.mem_cons.mp hm with rfl | hm
    · rw [stepOf]
      exact single_keeps hR fun _ it _ => hR.refl it
    · exact hmembers hlength ih m (List.mem_filter.mp hm).1
  | someOf hlength _ ih => exact combine_anyOrder_keeps hR (hmembers hlength ih) fun _ => none
  | allOf hlength _ ih =>
    exact combine_anyOrder_keeps hR (hmembers hlength ih)
      fun ms => some (ms.map fun m => !m.isOptional)
  | sequence hlength _ ih => exact combine_sequence_keeps hR (hmembers hlength ih)
  | repeated _ _ _ ih =>
    rw [stepOf, nextOf]
    exact repetition_keeps hR _ ih ih
  | commaRepeated _ _ _ _ ih ihcomma =>
    rw [stepOf, nextOf, stepOf_sequence]
    refine repetition_keeps hR _ ih (needsPart_keeps hR (.inOrder hR ?_))
    simpa using ⟨ihcomma, ih⟩
  | bracketed hinner _ =>
    rw [stepOf]
    exact single_keeps hR (bracketMatches_asks hs hinner)

/-- **What is asked for inside brackets**, at every depth. -/
theorem Made.inside_asks {resolve : String → Option Matcher}
    (hresolve : ∀ grammar body, grammar ∈ tableGrammars → resolve grammar = some body →
      MadeFrom grammar body) (depth : Nat) :
    ∀ term m ps, Made term m →
      ∀ grammar ∈ (inside resolve depth m ps).consulted, grammar ∈ tableGrammars := by
  have hstart : ∀ {s : Surroundings} {m : Matcher} {ps : List ValuePart},
      (stepOf s m).Keeps Cursor.Asks →
        ∀ grammar ∈ (stepOf s m (.start ps)).2.consulted, grammar ∈ tableGrammars :=
    fun hkeeps grammar hgrammar => (hkeeps _ grammar hgrammar).resolve_left List.not_mem_nil
  induction depth with
  | zero => exact fun _ _ _ h => hstart (h.asks ⟨hresolve, fun _ _ _ _ _ h => by cases h⟩)
  | succ depth ih => exact fun _ _ _ h => hstart (h.asks ⟨hresolve, ih⟩)

end Made

end Stylesheet.Grammar

namespace Stylesheet.Grammar

open Text

/-! ## One matcher is made from a term -/

section Unique

variable {term : Term} {terms : List Term} {m m' : Matcher} {ms ms' : List Matcher} {leaf : Leaf}

/-- **What is made from a leaf.** -/
theorem Made.leaf_cases (h : Made term m) (hleaf : term.leaf? = some leaf) :
    (∃ key, leaf = .words key ∧ m = .words (wordsOf key) key) ∨
      (∃ type, leaf = .basic type ∧ m = .basic type) ∨
      (∃ functions, leaf = .group functions ∧ m = .group functions) ∨
      ∃ key text inner made, term.key? = some key ∧ leaf = .grammar text ∧
        Term.ofString text = .ok inner ∧ Made inner made ∧
        m = if key == namedReference then .alias key made else made := by
  cases h with
  | words h =>
    cases h.symm.trans hleaf
    exact .inl ⟨_, rfl, rfl⟩
  | basic h =>
    cases h.symm.trans hleaf
    exact .inr (.inl ⟨_, rfl, rfl⟩)
  | group h =>
    cases h.symm.trans hleaf
    exact .inr (.inr (.inl ⟨_, rfl, rfl⟩))
  | grammar hkey h htext hmade =>
    cases h.symm.trans hleaf
    exact .inr (.inr (.inr ⟨_, _, _, _, hkey, rfl, htext, hmade, rfl⟩))
  | _ => cases hleaf

/-- Matchers that are made one by one from the same terms. -/
theorem eq_of_made (hlength : terms.length = ms.length) (hlength' : terms.length = ms'.length)
    (hmade : ∀ (i : Nat) term m, terms[i]? = some term → ms'[i]? = some m → Made term m)
    (ih : ∀ (i : Nat) term m, terms[i]? = some term → ms[i]? = some m →
      ∀ {m'}, Made term m' → m = m') : ms = ms' := by
  refine List.ext_getElem (hlength.symm.trans hlength') fun i hi hi' => ?_
  have hterm := List.getElem?_eq_getElem (hlength ▸ hi : i < terms.length)
  exact ih i _ _ hterm (List.getElem?_eq_getElem hi)
    (hmade i _ _ hterm (List.getElem?_eq_getElem hi'))

/-- **Only one matcher is made from a term.** -/
theorem Made.unique (h : Made term m) (h' : Made term m') : m = m' := by
  induction h generalizing m' with
  | words hleaf =>
    obtain ⟨_, ⟨⟩, rfl⟩ | ⟨_, ⟨⟩, -⟩ | ⟨_, ⟨⟩, -⟩ | ⟨_, _, _, _, -, ⟨⟩, -⟩ := h'.leaf_cases hleaf
    rfl
  | basic hleaf =>
    obtain ⟨_, ⟨⟩, -⟩ | ⟨_, ⟨⟩, rfl⟩ | ⟨_, ⟨⟩, -⟩ | ⟨_, _, _, _, -, ⟨⟩, -⟩ := h'.leaf_cases hleaf
    rfl
  | group hleaf =>
    obtain ⟨_, ⟨⟩, -⟩ | ⟨_, ⟨⟩, -⟩ | ⟨_, ⟨⟩, rfl⟩ | ⟨_, _, _, _, -, ⟨⟩, -⟩ := h'.leaf_cases hleaf
    rfl
  | grammar hkey hleaf htext _ ih =>
    obtain ⟨_, ⟨⟩, -⟩ | ⟨_, ⟨⟩, -⟩ | ⟨_, ⟨⟩, -⟩ | ⟨key, _, inner, made, hkey', ⟨⟩, htext', hmade, rfl⟩ :=
      h'.leaf_cases hleaf
    cases hkey.symm.trans hkey'
    cases htext.symm.trans htext'
    rw [ih hmade]
  | anyCall =>
    cases h' with
    | anyCall => rfl
    | words h | basic h | group h | grammar _ h => cases h
  | function _ ih =>
    cases h' with
    | function hmade => rw [ih hmade]
    | words h | basic h | group h | grammar _ h => cases h
  | oneOf hlength hmade hnone ih =>
    cases h' with
    | oneOf hlength' hmade' => rw [eq_of_made hlength hlength' hmade' ih]
    | oneOfWords hlength' hmade' hany =>
      obtain rfl := eq_of_made hlength hlength' hmade' ih
      exact absurd (hany.symm.trans hnone) (by decide)
    | words h | basic h | group h | grammar _ h => cases h
  | oneOfWords hlength hmade hany ih =>
    cases h' with
    | oneOf hlength' hmade' hnone =>
      obtain rfl := eq_of_made hlength hlength' hmade' ih
      exact absurd (hany.symm.trans hnone) (by decide)
    | oneOfWords hlength' hmade' => rw [eq_of_made hlength hlength' hmade' ih]
    | words h | basic h | group h | grammar _ h => cases h
  | someOf hlength hmade ih =>
    cases h' with
    | someOf hlength' hmade' => rw [eq_of_made hlength hlength' hmade' ih]
    | words h | basic h | group h | grammar _ h => cases h
  | allOf hlength hmade ih =>
    cases h' with
    | allOf hlength' hmade' => rw [eq_of_made hlength hlength' hmade' ih]
    | words h | basic h | group h | grammar _ h => cases h
  | sequence hlength hmade ih =>
    cases h' with
    | sequence hlength' hmade' => rw [eq_of_made hlength hlength' hmade' ih]
    | words h | basic h | group h | grammar _ h => cases h
  | repeated _ hcomma _ ih =>
    cases h' with
    | repeated hmade => rw [ih hmade]
    | commaRepeated _ _ hcomma' => exact absurd (hcomma'.symm.trans hcomma) (by decide)
    | words h | basic h | group h | grammar _ h => cases h
  | commaRepeated _ _ hcomma _ ih ih' =>
    cases h' with
    | repeated _ hcomma' => exact absurd (hcomma.symm.trans hcomma') (by decide)
    | commaRepeated hmade hmade' => rw [ih hmade, ih' hmade']
    | words h | basic h | group h | grammar _ h => cases h
  | bracketed _ ih =>
    cases h' with
    | bracketed hmade => rw [ih hmade]
    | words h | basic h | group h | grammar _ h => cases h

theorem MadeFrom.unique {text : String} (h : MadeFrom text m) (h' : MadeFrom text m') : m = m' := by
  obtain ⟨term, hterm, hmade⟩ := h
  obtain ⟨term', hterm', hmade'⟩ := h'
  cases hterm.symm.trans hterm'
  exact hmade.unique hmade'

end Unique

/-! ## References end -/

section Following

variable {n k : Nat} {text key : String} {term : Term} {terms : List Term} {m : Matcher}

theorem Followable.succ (h : Followable n text) : Followable (n + 1) text := by
  induction n generalizing text with
  | zero => exact absurd h id
  | succ n ih =>
    obtain ⟨term, hterm, hall⟩ := h
    refine ⟨term, hterm, fun key hkey => ?_⟩
    obtain ⟨leaf, hleaf, hgrammars⟩ := hall key hkey
    exact ⟨leaf, hleaf, fun grammar hgrammar => ih (hgrammars grammar hgrammar)⟩

theorem Followable.mono (h : Followable n text) (hle : n ≤ k) : Followable k text := by
  induction hle with
  | refl => exact h
  | step _ ih => exact ih.succ

theorem Resolves.mono (h : Resolves n key) (hle : n ≤ k) : Resolves k key := by
  obtain ⟨leaf, hleaf, hgrammars⟩ := h
  exact ⟨leaf, hleaf, fun grammar hgrammar => (hgrammars grammar hgrammar).mono hle⟩

theorem Term.leaves_of_leaf {leaf : Leaf} (h : term.leaf? = some leaf) :
    ∃ key, term.leaves = [key] ∧ Leaf.ofKey? (lower key) = some leaf := by
  cases term with
  | words text => exact ⟨text, rfl, h⟩
  | reference name => exact ⟨name, rfl, h⟩
  | _ => cases h

/-- What can be followed in several terms, each to some depth. -/
theorem resolves_all {ms : List Matcher} (hlength : terms.length = ms.length)
    (h : ∀ (i : Nat) term m, terms[i]? = some term → ms[i]? = some m →
      ∃ n, ∀ key ∈ term.leaves, Resolves n key) :
    ∃ n, ∀ key ∈ leavesOfAll terms, Resolves n key := by
  induction terms generalizing ms with
  | nil => exact ⟨0, nofun⟩
  | cons term terms ih =>
    obtain ⟨m, ms, rfl⟩ : ∃ m ms', ms = m :: ms' := by
      cases ms with
      | nil => cases hlength
      | cons m ms => exact ⟨m, ms, rfl⟩
    obtain ⟨n, hn⟩ := h 0 term m rfl rfl
    obtain ⟨k, hk⟩ := ih (Nat.succ.inj hlength) fun i term m => h (i + 1) term m
    refine ⟨max n k, fun key hkey => ?_⟩
    rcases List.mem_append.mp hkey with hkey | hkey
    · exact (hn key hkey).mono (Nat.le_max_left _ _)
    · exact (hk key hkey).mono (Nat.le_max_right _ _)

/-- **A term that a matcher is made from** has references that end. -/
theorem Made.resolves (h : Made term m) : ∃ n, ∀ key ∈ term.leaves, Resolves n key := by
  induction h with
  | words hleaf | basic hleaf | group hleaf =>
    obtain ⟨key, hkeys, hkey⟩ := Term.leaves_of_leaf hleaf
    refine ⟨0, fun key' hkey' => ?_⟩
    rw [hkeys] at hkey'
    rw [← List.mem_singleton.mp hkey'] at hkey
    exact ⟨_, hkey, by rintro _ ⟨⟩⟩
  | @grammar term inner key text m _ hleaf htext _ ih =>
    obtain ⟨n, hn⟩ := ih
    obtain ⟨key, hkeys, hkey⟩ := Term.leaves_of_leaf hleaf
    refine ⟨n + 1, fun key' hkey' => ?_⟩
    rw [hkeys] at hkey'
    rw [← List.mem_singleton.mp hkey'] at hkey
    refine ⟨_, hkey, ?_⟩
    rintro _ ⟨⟩
    exact ⟨inner, htext, hn⟩
  | anyCall => exact ⟨0, nofun⟩
  | function _ ih => exact ih
  | oneOf hlength _ _ ih => exact resolves_all hlength ih
  | oneOfWords hlength _ _ ih => exact resolves_all hlength ih
  | someOf hlength _ ih => exact resolves_all hlength ih
  | allOf hlength _ ih => exact resolves_all hlength ih
  | sequence hlength _ ih => exact resolves_all hlength ih
  | repeated _ _ _ ih => exact ih
  | commaRepeated _ _ _ _ ih => exact ih
  | bracketed _ ih => exact ih

/-- Whether going one step further makes no difference to any reference. -/
def IsDeepEnough (n : Nat) : Prop :=
  ∀ grammar ∈ referenceGrammars, Followable (n + 1) grammar → Followable n grammar

/-- A grammar can be followed as deep as its references can. -/
theorem Followable.step (h : ∀ grammar ∈ referenceGrammars, Followable n grammar →
    Followable k grammar) (htext : Followable (n + 1) text) : Followable (k + 1) text := by
  obtain ⟨term, hterm, hall⟩ := htext
  refine ⟨term, hterm, fun key hkey => ?_⟩
  obtain ⟨leaf, hleaf, hgrammars⟩ := hall key hkey
  refine ⟨leaf, hleaf, fun grammar hgrammar => ?_⟩
  subst hgrammar
  exact h grammar (Leaf.mem_referenceGrammars hleaf) (hgrammars grammar rfl)

/-- **Where one step further makes no difference, none does.** -/
theorem IsDeepEnough.followable (h : IsDeepEnough k) {grammar : String}
    (hmem : grammar ∈ referenceGrammars) (hn : Followable n grammar) : Followable k grammar := by
  induction n generalizing grammar with
  | zero => exact absurd hn id
  | succ n ih => exact h grammar hmem (hn.step fun g hg => ih hg)

/-- **What only comes to be true** of the members of a list comes to rest
after as many steps as the list is long: at each step before one more member
has it come true. -/
theorem exists_rest {α : Type} [Nonempty α] {P : Nat → α → Prop} (hmono : ∀ n a, P n a → P (n + 1) a)
    (l : List α) : ∃ n ≤ l.length, ∀ a ∈ l, P (n + 1) a → P n a := by
  by_contra hnone
  have hlater : ∀ n ≤ l.length, ∃ a ∈ l, P (n + 1) a ∧ ¬P n a := by
    intro n hn
    by_contra hall
    refine hnone ⟨n, hn, fun a hmem ha => ?_⟩
    by_contra hnot
    exact hall ⟨a, hmem, ha, hnot⟩
  have hle : ∀ {i j : Nat} {a : α}, i ≤ j → P i a → P j a := by
    intro i j a hij ha
    induction hij with
    | refl => exact ha
    | step _ ih => exact hmono _ _ ih
  choose! latest hmem hnow hnot using hlater
  have hinj : ∀ i ≤ l.length, ∀ j ≤ l.length, latest i = latest j → ¬i < j := by
    intro i hi j hj hsame hlt
    exact hnot j hj (hsame ▸ hle hlt (hnow i hi))
  have hnodup : ((List.range (l.length + 1)).map latest).Nodup := by
    refine List.Nodup.map_on (fun i hi j hj hsame => ?_) List.nodup_range
    have hi := Nat.lt_succ_iff.mp (List.mem_range.mp hi)
    have hj := Nat.lt_succ_iff.mp (List.mem_range.mp hj)
    exact Nat.le_antisymm (Nat.le_of_not_lt (hinj j hj i hi hsame.symm))
      (Nat.le_of_not_lt (hinj i hi j hj hsame))
  have hsubset : (List.range (l.length + 1)).map latest ⊆ l := by
    intro a ha
    obtain ⟨i, hi, rfl⟩ := List.mem_map.mp ha
    exact hmem i (Nat.lt_succ_iff.mp (List.mem_range.mp hi))
  have hlength := (List.subperm_of_subset hnodup hsubset).length_le
  rw [List.length_map, List.length_range] at hlength
  exact Nat.not_succ_le_self _ hlength

theorem length_referenceGrammars : referenceGrammars.length ≤ referenceDepth := by
  unfold referenceGrammars referenceDepth
  rw [List.length_append, List.length_append, List.length_map]
  have hadd : ∀ {a b b' c c' : Nat}, b ≤ b' → c ≤ c' → a + b + c ≤ a + b' + c' + 1 := by omega
  exact hadd (List.length_filterMap_le _ _) (List.length_filterMap_le _ _)

/-- **A depth is enough** for whatever a matcher is made from if there are no
more references than that. -/
theorem MadeFrom.followable (h : MadeFrom text m) (hdepth : referenceGrammars.length ≤ n) :
    Followable (n + 1) text := by
  obtain ⟨term, hterm, hmade⟩ := h
  obtain ⟨far, hfar⟩ := hmade.resolves
  obtain ⟨k, hk, hdeep⟩ :=
    exists_rest (P := Followable) (fun _ _ => Followable.succ) referenceGrammars
  have htext : Followable (far + 1) text := ⟨term, hterm, hfar⟩
  exact htext.step fun grammar hmem hfollow =>
    (IsDeepEnough.followable hdeep hmem hfollow).mono (hk.trans hdepth)

end Following

/-! ## Right catalogs answer alike -/

/-- **A catalog in which what is remembered is right**, of tidy grammars and
of the texts in them. -/
def Catalog.IsTidy (catalog : Catalog) : Prop :=
  catalog.IsRight (fun _ => True) (fun text => Grammar.IsTidy text.toList) IsSteadyKey

section Answers

variable {catalog : Catalog} {text : String} {m : Matcher}

theorem Catalog.isTidy_empty : Catalog.empty.IsTidy := Catalog.isRight_empty

/-- The matcher of a tidy grammar, whose references are followed to a depth. -/
theorem compileTo_makes_tidy (htext : Grammar.IsTidy text.toList) (depth : Nat) :
    Compiling.Makes (Followable (depth + 1) text) Catalog.IsTidy (MadeFrom text)
      (compileTo (depth + 1) text) := by
  rw [compileTo]
  exact memo_build_makes isSteadyKey_class (fun _ _ => trivial)
    (compileTo_makes isSteadyKey_class (fun _ _ => trivial) (fun _ _ => trivial) depth)
    trivial htext fun term hterm => htext.makable hterm

/-- **What a catalog answers for a tidy grammar**, and what it is then. -/
theorem Catalog.IsTidy.compile (h : catalog.IsTidy) (htext : Grammar.IsTidy text.toList) :
    (catalog.compile text).2.IsTidy ∧ ∀ m, (catalog.compile text).1 = .ok m ↔ MadeFrom text m := by
  unfold Catalog.compile Grammar.compile
  have hdepth := length_referenceGrammars
  generalize referenceDepth = depth at hdepth ⊢
  obtain ⟨hkeeps, hyields, hanswers⟩ := compileTo_makes_tidy htext depth catalog h
  refine ⟨hkeeps, fun m => ⟨hyields m, fun hmade => ?_⟩⟩
  obtain ⟨m', hm'⟩ := hanswers (hmade.followable hdepth)
  rw [hmade.unique (hyields m' hm')]
  exact hm'

/-- **What a catalog of plain texts answers** for any grammar: the matcher that is
made from it. -/
theorem Catalog.IsPlain.compile_iff (h : catalog.IsPlain) :
    (catalog.compile text).1 = .ok m ↔ MadeFrom text m := by
  refine ⟨fun hm => (h.compile_any hm).1, fun hmade => ?_⟩
  cases hfind : catalog.find? text with
  | some found =>
    have hfound : (catalog.compile text).1 = .ok found := by rw [Catalog.compile_found hfind]
    rw [hfound, hmade.unique (h.compile_any hfound).1]
  | none =>
    unfold Catalog.compile Grammar.compile
    have hdepth := length_referenceGrammars
    generalize referenceDepth = depth at hdepth ⊢
    obtain ⟨term, hterm, hresolves⟩ := hmade.followable hdepth
    have hregular : term.Regular IsKey := Term.ofString_regular Parser.readable_isKey trivial hterm
    have hbuild := build_makes (A := fun _ => True) isKey_class (fun _ _ => trivial)
      (compileTo_makes isKey_class (fun _ _ => trivial) (fun _ _ => trivial) depth)
      (hregular.makable isKey_sets) catalog h.isRight
    obtain ⟨m', hm'⟩ := hbuild.2.2 hresolves
    obtain rfl : m' = m := MadeFrom.unique ⟨term, hterm, hbuild.2.1 m' hm'⟩ hmade
    unfold compileTo
    rw [hterm]
    exact congrArg Prod.fst (Compiling.run_memo_ok hfind (Prod.ext hm' rfl))

/-- **Two such catalogs answer alike.** -/
theorem Catalog.IsTidy.agrees {other : Catalog} (h : catalog.IsTidy) (h' : other.IsTidy)
    (htext : Grammar.IsTidy text.toList) :
    (catalog.compile text).1.toOption = (other.compile text).1.toOption := by
  have hanswers := (h.compile htext).2
  have hanswers' := (h'.compile htext).2
  have hoption : ∀ (answer : Except Diagnostic Matcher) (m : Matcher),
      answer.toOption = some m ↔ answer = .ok m := by
    intro answer m
    cases answer <;> simp [Except.toOption]
  ext m
  rw [hoption, hoption, hanswers, hanswers']

/-- What is made for a function is made from its grammar. -/
theorem Catalog.IsTidy.asks (h : catalog.IsTidy) (parts : List ValuePart) :
    (Matching.surroundings catalog parts).Asks := by
  have hresolve : ∀ grammar body, grammar ∈ tableGrammars →
      (catalog.compile grammar).1.toOption = some body → MadeFrom grammar body := by
    intro grammar body hmem hbody
    have htidy := (isTableText_of_mem grammar hmem).isTidy
    refine ((h.compile htidy).2 body).mp ?_
    generalize (catalog.compile grammar).1 = answer at hbody ⊢
    cases answer with
    | error e => cases hbody
    | ok m =>
      cases hbody
      rfl
  unfold Matching.surroundings
  constructor
  · dsimp only
    exact hresolve
  · exact Made.inside_asks hresolve _

/-- **What a match asks for** is tidy. -/
theorem MadeFrom.run_isTidy (hm : MadeFrom text m) (h : catalog.IsTidy) {it : Cursor}
    (hit : ∀ grammar ∈ it.consulted, Grammar.IsTidy grammar.toList) :
    ∀ grammar ∈ (m.run catalog it).2.consulted, Grammar.IsTidy grammar.toList := by
  obtain ⟨term, -, hmade⟩ := hm
  intro grammar hgrammar
  rcases hmade.asks (h.asks it.parts) it grammar hgrammar with hbefore | hmem
  · exact hit grammar hbefore
  · exact (isTableText_of_mem grammar hmem).isTidy

theorem Catalog.IsTidy.consult (h : catalog.IsTidy) {it : Cursor}
    (hit : ∀ grammar ∈ it.consulted, Grammar.IsTidy grammar.toList) :
    (catalog.consult it).IsTidy := by
  unfold Catalog.consult
  generalize it.consulted = grammars at hit
  induction grammars with
  | nil => exact h
  | cons grammar rest ih =>
    exact (Catalog.IsTidy.compile (ih fun g hg => hit g (List.mem_cons_of_mem _ hg))
      (hit grammar List.mem_cons_self)).1

end Answers

/-! ## Histories -/

/-- **The catalogs that come about**: from the empty one on tidy grammars
are compiled, and matchers that were made of such are run and ask for more on
the way. A run may go on from a cursor of an earlier one. -/
inductive Catalog.Evolves : Catalog → Prop where
  /-- Nothing has been compiled. -/
  | empty : Catalog.empty.Evolves
  /-- A grammar is compiled. -/
  | compile {catalog : Catalog} {text : String} : catalog.Evolves → Grammar.IsTidy text.toList →
      (catalog.compile text).2.Evolves
  /-- A matcher is run. -/
  | run {catalog before : Catalog} {text : String} {m : Matcher} {it : Cursor} :
      catalog.Evolves → before.Evolves → Grammar.IsTidy text.toList →
      (before.compile text).1 = .ok m →
      (∀ grammar ∈ it.consulted, Grammar.IsTidy grammar.toList) →
      (catalog.consult (m.run catalog it).2).Evolves

section Histories

variable {catalog : Catalog} {text : String}

theorem Catalog.Evolves.isTidy (h : catalog.Evolves) : catalog.IsTidy := by
  induction h with
  | empty => exact Catalog.isTidy_empty
  | compile _ htext ih => exact (ih.compile htext).1
  | run _ _ htext hm hit ih ih' =>
    have hmade := ((ih'.compile htext).2 _).mp hm
    exact ih.consult (hmade.run_isTidy ih hit)

/-- **What was compiled before does not matter**: a tidy grammar has the
matcher that it has in an empty catalog, or none if it has none there. -/
theorem Catalog.Evolves.compile_eq (h : catalog.Evolves) (htext : Grammar.IsTidy text.toList) :
    (catalog.compile text).1.toOption = (Catalog.empty.compile text).1.toOption :=
  h.isTidy.agrees Catalog.isTidy_empty htext

/-- Two words that have been compiled, one of which is compiled again. -/
theorem Catalog.compile_word_again :
    ((Catalog.empty.compile "a | b").2.compile "a").1.toOption =
      (Catalog.empty.compile "a").1.toOption :=
  Catalog.Evolves.compile_eq (.compile .empty (isTidy_of_spaces (by decide)))
    (isTidy_of_spaces (by decide))

set_option maxRecDepth 10000 in
/-- A blank that does not end a word, but a grammar, is taken for a part of
the word only where it is followed by something: such a word cannot be
compiled alone, and it can be after it was met in the middle of a grammar. -/
theorem Catalog.compile_after_blank :
    (Catalog.empty.compile "a\u00a0").1.toOption.isNone = true ∧
      ((Catalog.empty.compile "a\u00a0 b").2.compile "a\u00a0").1.toOption.isSome = true := by
  constructor <;> with_unfolding_all rfl

end Histories

end Stylesheet.Grammar
