import Stylesheet.Proofs.Matching.Histories

/-!
# Keywords gathered in front

A compiled alternation tries all its keywords first, as one set, and then the
other alternatives. `Term.matcherOf` makes matchers that keep every
alternative for itself, in an order that can be chosen (`Matcher.arranged`): the
keywords can be put in front one by one, or everything can be left in the order
it was written in. The functions of a group are compiled on demand, and so they
are not part of such a matcher.

How the two matchers are built alike is the relation `Gathered`. Whatever is
made of a term is so related to the matcher that keeps the alternatives apart
(`Made.gathered`), if the order of choice only moves keywords.
-/

namespace Stylesheet.Grammar

open Matching

/-! ## Keywords and alternations of a matcher -/

namespace Matcher

mutual
/-- **Whether a matcher has keywords only**: it is a set of words, or all its
alternatives have keywords only. -/
def isKeywords : Matcher → Bool
  | .words _ _ => true
  | .oneOf members => !members.isEmpty && areKeywords members
  | _ => false

/-- Whether several matchers have keywords only. -/
def areKeywords : List Matcher → Bool
  | [] => true
  | m :: ms => isKeywords m && areKeywords ms
end

mutual
/-- **The keywords of a matcher** that has keywords only. -/
def keywords : Matcher → List String
  | .words ws _ => ws
  | .oneOf members => keywordsOfAll members
  | _ => []

/-- The keywords of several matchers. -/
def keywordsOfAll : List Matcher → List String
  | [] => []
  | m :: ms => keywords m ++ keywordsOfAll ms
end

mutual
/-- **The alternations in a matcher**, each as the list of its
alternatives. -/
def alternations : Matcher → List (List Matcher)
  | .words _ _ | .basic _ | .group _ => []
  | .function _ body => bodyAlternations body
  | .oneOf members => members :: alternationsOfAll members
  | .sequence members | .anyOrder members _ => alternationsOfAll members
  | .repeated inner _ separator => alternations inner ++ bodyAlternations separator
  | .alias _ inner | .bracketed inner => alternations inner

/-- The alternations in a matcher, if there is one. -/
def bodyAlternations : Option Matcher → List (List Matcher)
  | none => []
  | some m => alternations m

/-- The alternations in several matchers. -/
def alternationsOfAll : List Matcher → List (List Matcher)
  | [] => []
  | m :: ms => alternations m ++ alternationsOfAll ms
end

theorem areKeywords_iff {ms : List Matcher} : areKeywords ms = true ↔ ∀ m ∈ ms, m.isKeywords = true := by
  induction ms with
  | nil => simp [areKeywords]
  | cons m ms ih => simp [areKeywords, ih]

theorem mem_keywordsOfAll {ms : List Matcher} {w : String} :
    w ∈ keywordsOfAll ms ↔ ∃ m ∈ ms, w ∈ m.keywords := by
  induction ms with
  | nil => simp [keywordsOfAll]
  | cons m ms ih => simp [keywordsOfAll, ih]

theorem alternations_subset_of_mem {ms : List Matcher} {m : Matcher} (h : m ∈ ms) :
    m.alternations ⊆ alternationsOfAll ms := by
  induction ms with
  | nil => cases h
  | cons first ms ih =>
    rcases List.mem_cons.mp h with rfl | h
    · exact List.subset_append_left _ _
    · exact List.Subset.trans (ih h) (List.subset_append_right _ _)

theorem mem_alternationsOfAll {ms : List Matcher} {members : List Matcher} :
    members ∈ alternationsOfAll ms ↔ ∃ m ∈ ms, members ∈ m.alternations := by
  induction ms with
  | nil => simp [alternationsOfAll]
  | cons m ms ih => simp [alternationsOfAll, ih]

end Matcher

/-! ## Matchers with alternatives in a chosen order -/

/-- **The matcher of a leaf**, where `followed` makes the matchers of the
grammars behind references. -/
def Leaf.matcherOf (followed : String → Option Matcher) (key : String) : Option Matcher :=
  match Leaf.ofKey? key with
  | none => none
  | some (.words text) => some (.words (wordsOf text) text)
  | some (.basic type) => some (.basic type)
  | some (.group functions) => some (.group functions)
  | some (.grammar text) =>
    (followed text).map fun m => if key == namedReference then .alias key m else m

section Making

variable (arrange : List Matcher → List Matcher) (followed : String → Option Matcher)

mutual
/-- **The matcher of a term whose alternatives stay apart**, in an order of
choice. -/
def Term.matcherOf : Term → Option Matcher
  | .words text | .reference text => Leaf.matcherOf followed (Text.lower text)
  | .function name body => (Term.matcherOfBody body).map (.function name)
  | .oneOf members => (Term.matchersOf members).map fun ms => Grammar.combine .oneOf (arrange ms)
  | .someOf members => (Term.matchersOf members).map (Grammar.combine fun ms => .anyOrder ms none)
  | .allOf members => (Term.matchersOf members).map
      (Grammar.combine fun ms => .anyOrder ms (some (ms.map fun m => !m.isOptional)))
  | .sequence members => (Term.matchersOf members).map (Grammar.combine .sequence)
  | .repeated term times => (Term.matcherOf term).map fun m =>
      .repeated m times (if times.comma then some (.sequence [.words [","] ",", m]) else none)
  | .bracketed term => (Term.matcherOf term).map .bracketed

/-- The matcher of the body of a function. -/
def Term.matcherOfBody : Option Term → Option (Option Matcher)
  | none => some none
  | some term => (Term.matcherOf term).map some

/-- The matchers of several terms. -/
def Term.matchersOf : List Term → Option (List Matcher)
  | [] => some []
  | term :: terms => (Term.matcherOf term).bind fun m => (Term.matchersOf terms).map (m :: ·)
end

end Making

/-- The matcher of a grammar whose references are followed to a depth. -/
def Matcher.arrangedTo (arrange : List Matcher → List Matcher) : Nat → String → Option Matcher
  | 0, _ => none
  | depth + 1, text =>
    (Term.ofString text).toOption.bind (Term.matcherOf arrange (arrangedTo arrange depth))

/-- **The matcher of a grammar whose alternatives stay apart**, in an order of
choice. -/
def Matcher.arranged (arrange : List Matcher → List Matcher) (text : String) : Option Matcher :=
  Matcher.arrangedTo arrange (referenceDepth + 1) text

/-- Keywords first, and then the others. -/
def keywordsFirst (ms : List Matcher) : List Matcher :=
  ms.filter Matcher.isKeywords ++ ms.filter (!·.isKeywords)

/-- **An order of alternatives that only moves keywords**: among themselves
the keywords stay in order, and so do the others. -/
structure Arranges (arrange : List Matcher → List Matcher) : Prop where
  /-- The keywords. -/
  keywords (ms : List Matcher) : (arrange ms).filter Matcher.isKeywords = ms.filter Matcher.isKeywords
  /-- The others. -/
  others (ms : List Matcher) :
    (arrange ms).filter (!·.isKeywords) = ms.filter (!·.isKeywords)

theorem arranges_id : Arranges id := ⟨fun _ => rfl, fun _ => rfl⟩

theorem arranges_keywordsFirst : Arranges keywordsFirst where
  keywords ms := by simp [keywordsFirst, List.filter_filter]
  others ms := by simp [keywordsFirst, List.filter_filter]

namespace Arranges

variable {arrange : List Matcher → List Matcher} {ms : List Matcher} {m : Matcher}

theorem mem_iff (h : Arranges arrange) : m ∈ arrange ms ↔ m ∈ ms := by
  have hkeywords := h.keywords ms
  have hothers := h.others ms
  cases hm : m.isKeywords with
  | true =>
    have hfilter : m ∈ (arrange ms).filter Matcher.isKeywords ↔ m ∈ ms.filter Matcher.isKeywords := by
      rw [hkeywords]
    simpa [hm] using hfilter
  | false =>
    have hfilter : m ∈ (arrange ms).filter (!·.isKeywords) ↔ m ∈ ms.filter (!·.isKeywords) := by
      rw [hothers]
    simpa [hm] using hfilter

/-- Where there is nothing to move, nothing moves. -/
theorem eq_self (h : Arranges arrange)
    (hall : (∀ m ∈ ms, m.isKeywords = true) ∨ ∀ m ∈ ms, m.isKeywords = false) : arrange ms = ms := by
  rcases hall with hall | hall
  · have hkeywords := h.keywords ms
    rwa [List.filter_eq_self.mpr fun m hm => hall m (h.mem_iff.mp hm),
      List.filter_eq_self.mpr hall] at hkeywords
  · have hothers := h.others ms
    rwa [List.filter_eq_self.mpr fun m hm => by simp [hall m (h.mem_iff.mp hm)],
      List.filter_eq_self.mpr fun m hm => by simp [hall m hm]] at hothers

end Arranges

/-! ## What is gathered -/

/-- Two lists that are related one by one. -/
theorem forall₂_iff_getElem? {α β : Type} {R : α → β → Prop} {as : List α} {bs : List β} :
    List.Forall₂ R as bs ↔ as.length = bs.length ∧
      ∀ (i : Nat) a b, as[i]? = some a → bs[i]? = some b → R a b := by
  rw [List.forall₂_iff_get]
  refine and_congr_right fun hlength => ⟨fun h i a b ha hb => ?_, fun h i hi hi' => ?_⟩
  · obtain ⟨hi, rfl⟩ := List.getElem?_eq_some_iff.mp ha
    obtain ⟨hi', rfl⟩ := List.getElem?_eq_some_iff.mp hb
    exact h i hi hi'
  · exact h i _ _ (List.getElem?_eq_getElem hi) (List.getElem?_eq_getElem hi')

/-- **A matcher whose keywords are gathered in front**, beside one whose
alternatives stay apart. -/
inductive Gathered : Matcher → Matcher → Prop where
  /-- Keywords only. -/
  | words {m : Matcher} {ws : List String} {key : String} : m.isKeywords = true →
      (∀ w, w ∈ ws ↔ w ∈ m.keywords) → Gathered (.words ws key) m
  /-- A basic type. -/
  | basic {type : BasicType} : Gathered (.basic type) (.basic type)
  /-- A group of functions. -/
  | group {functions : FunctionGroup} : Gathered (.group functions) (.group functions)
  /-- A function that takes any arguments. -/
  | anyCall {name : String} : Gathered (.function name none) (.function name none)
  /-- A function with a body. -/
  | function {name : String} {m m' : Matcher} :
      Gathered m m' → Gathered (.function name (some m)) (.function name (some m'))
  /-- Alternatives without keywords. -/
  | oneOf {ms ms' : List Matcher} : ms.length = ms'.length →
      (∀ (i : Nat) m m', ms[i]? = some m → ms'[i]? = some m' → Gathered m m') →
      (∀ m ∈ ms', m.isKeywords = false) → Gathered (.oneOf ms) (.oneOf ms')
  /-- Keywords and other alternatives. -/
  | merged {ws : List String} {key : String} {ms ms' : List Matcher} :
      (∀ w, w ∈ ws ↔ ∃ m ∈ ms', m.isKeywords = true ∧ w ∈ m.keywords) →
      ms'.any Matcher.isKeywords = true → ms ≠ [] →
      ms.length = (ms'.filter (!·.isKeywords)).length →
      (∀ (i : Nat) m m', ms[i]? = some m → (ms'.filter (!·.isKeywords))[i]? = some m' →
        Gathered m m') → Gathered (.oneOf (.words ws key :: ms)) (.oneOf ms')
  /-- Matchers in a row. -/
  | sequence {ms ms' : List Matcher} : ms.length = ms'.length →
      (∀ (i : Nat) m m', ms[i]? = some m → ms'[i]? = some m' → Gathered m m') →
      Gathered (.sequence ms) (.sequence ms')
  /-- Members in any order. -/
  | anyOrder {ms ms' : List Matcher} {required : Option (List Bool)} : ms.length = ms'.length →
      (∀ (i : Nat) m m', ms[i]? = some m → ms'[i]? = some m' → Gathered m m') →
      Gathered (.anyOrder ms required) (.anyOrder ms' required)
  /-- A repeated matcher. -/
  | repeated {m m' : Matcher} {times : Multiplier} :
      Gathered m m' → Gathered (.repeated m times none) (.repeated m' times none)
  /-- A repeated matcher with a separator. -/
  | separated {m m' next next' : Matcher} {times : Multiplier} : Gathered m m' →
      Gathered next next' → Gathered (.repeated m times (some next)) (.repeated m' times (some next'))
  /-- A matcher that is written by a name. -/
  | alias {name : String} {m m' : Matcher} : Gathered m m' → Gathered (.alias name m) (.alias name m')
  /-- A block in square brackets. -/
  | bracketed {m m' : Matcher} : Gathered m m' → Gathered (.bracketed m) (.bracketed m')

namespace Gathered

variable {m m' : Matcher} {ms ms' : List Matcher}

theorem words_self (ws : List String) (key : String) : Gathered (.words ws key) (.words ws key) :=
  .words rfl fun _ => Iff.rfl

/-- **The sets of words** are what has keywords only. -/
theorem isKeywords_eq (h : Gathered m m') : m'.isKeywords = m.isWords := by
  cases h with
  | words h => exact h
  | @oneOf ms ms' _ _ hnone =>
    cases ms' with
    | nil => rfl
    | cons m ms' =>
      simp [Matcher.isKeywords, Matcher.areKeywords, Matcher.isWords, hnone m List.mem_cons_self]
  | @merged _ _ ms ms' _ _ hne hlength =>
    have hothers : ms'.filter (!·.isKeywords) ≠ [] := fun hnil =>
      hne (List.length_eq_zero_iff.mp (by rw [hlength, hnil]; rfl))
    obtain ⟨m, hm⟩ := List.exists_mem_of_ne_nil _ hothers
    obtain ⟨hmem, hnot⟩ := List.mem_filter.mp hm
    have hall : Matcher.areKeywords ms' = false := by
      refine Bool.eq_false_iff.mpr fun hall => ?_
      rw [Matcher.areKeywords_iff.mp hall m hmem] at hnot
      cases hnot
    simp [Matcher.isKeywords, Matcher.isWords, hall]
  | _ => rfl

theorem mem_keywords {ws : List String} {key : String} (h : Gathered (.words ws key) m) (w : String) :
    w ∈ ws ↔ w ∈ m.keywords := by
  cases h with
  | words _ hws => exact hws w

theorem isOptional_eq (h : Gathered m m') : m'.isOptional = m.isOptional := by
  cases h with
  | words h =>
    cases m' with
    | repeated _ _ _ => cases h
    | _ => rfl
  | _ => rfl

/-! ### Members of a combinator -/

/-- Members under a combinator, or a single one without. -/
theorem combine (wrap wrap' : List Matcher → Matcher) (h : List.Forall₂ Gathered ms ms')
    (hwrap : Gathered (wrap ms) (wrap' ms')) :
    Gathered (Grammar.combine wrap ms) (Grammar.combine wrap' ms') := by
  cases h with
  | nil => exact hwrap
  | cons hm hms =>
    cases hms with
    | nil => exact hm
    | cons _ _ => exact hwrap

/-- The members that are no keywords. -/
theorem filter_others (h : List.Forall₂ Gathered ms ms') :
    List.Forall₂ Gathered (ms.filter (!·.isWords)) (ms'.filter (!·.isKeywords)) := by
  induction h with
  | nil => exact .nil
  | @cons m m' _ _ hm _ ih =>
    rw [List.filter_cons, List.filter_cons, hm.isKeywords_eq]
    split_ifs
    · exact .cons hm ih
    · exact ih

/-- The words among the members. -/
theorem mem_words (h : List.Forall₂ Gathered ms ms') {w : String} :
    (∃ ws key, Matcher.words ws key ∈ ms ∧ w ∈ ws) ↔
      ∃ m ∈ ms', m.isKeywords = true ∧ w ∈ m.keywords := by
  induction h with
  | nil => simp
  | @cons m m' ms ms' hm _ ih =>
    have hfirst : (∃ ws key, m = .words ws key ∧ w ∈ ws) ↔ m'.isKeywords = true ∧ w ∈ m'.keywords := by
      rw [hm.isKeywords_eq]
      cases m with
      | words ws key => simpa [Matcher.isWords] using hm.mem_keywords w
      | _ => simp [Matcher.isWords]
    have hsplit : (∃ ws key, Matcher.words ws key ∈ m :: ms ∧ w ∈ ws) ↔
        (∃ ws key, m = .words ws key ∧ w ∈ ws) ∨ ∃ ws key, Matcher.words ws key ∈ ms ∧ w ∈ ws := by
      simp only [List.mem_cons, or_and_right, exists_or, eq_comm]
    rw [hsplit, hfirst, ih]
    simp only [List.mem_cons, exists_eq_or_imp]

theorem any_isKeywords (h : List.Forall₂ Gathered ms ms') :
    ms'.any Matcher.isKeywords = ms.any Matcher.isWords := by
  induction h with
  | nil => rfl
  | cons hm _ ih => rw [List.any_cons, List.any_cons, hm.isKeywords_eq, ih]

theorem map_isOptional (h : List.Forall₂ Gathered ms ms') :
    (ms'.map fun m => !m.isOptional) = ms.map fun m => !m.isOptional := by
  induction h with
  | nil => rfl
  | cons hm _ ih => rw [List.map_cons, List.map_cons, hm.isOptional_eq, ih]

section Alternatives

variable {arrange : List Matcher → List Matcher} (harrange : Arranges arrange)
  (h : List.Forall₂ Gathered ms ms')

include harrange h

/-- **Alternatives without words.** -/
theorem combine_oneOf (hnone : ms.any Matcher.isWords = false) :
    Gathered (Grammar.combine .oneOf ms) (Grammar.combine .oneOf (arrange ms')) := by
  have hnone' : ∀ m' ∈ ms', m'.isKeywords = false := by
    simpa using (any_isKeywords h).trans hnone
  obtain ⟨hlength, hmembers⟩ := forall₂_iff_getElem?.mp h
  rw [harrange.eq_self (.inr hnone')]
  exact combine .oneOf .oneOf h (.oneOf hlength hmembers hnone')

/-- **Alternatives with words among them.** -/
theorem combine_oneOf_words (hany : ms.any Matcher.isWords = true) {ws : List String} {key : String}
    (hws : ∀ w, w ∈ ws ↔ ∃ ws' key', Matcher.words ws' key' ∈ ms ∧ w ∈ ws') :
    Gathered (Grammar.combine .oneOf (.words ws key :: ms.filter (!·.isWords)))
      (Grammar.combine .oneOf (arrange ms')) := by
  obtain ⟨k, hk, hkey⟩ := List.any_eq_true.mp ((any_isKeywords h).trans hany)
  have hothers := filter_others h
  cases hfilter : ms.filter (!·.isWords) with
  | nil =>
    -- nothing but keywords: the set alone is left
    have hall : ∀ m ∈ ms', m.isKeywords = true := by
      have hnil := hothers.length_eq
      rw [hfilter, List.length_nil] at hnil
      simpa using List.length_eq_zero_iff.mp hnil.symm
    rw [harrange.eq_self (.inl hall)]
    have hmem : ∀ w, w ∈ ws ↔ ∃ m ∈ ms', w ∈ m.keywords := by
      intro w
      rw [hws, mem_words h]
      exact exists_congr fun m => and_congr_right fun hm => and_iff_right (hall m hm)
    rcases combine_cases .oneOf ms' with hms | ⟨m, rfl, hm⟩
    · rw [hms]
      refine .words ?_ fun w => (hmem w).trans Matcher.mem_keywordsOfAll.symm
      simp [Matcher.isKeywords, Matcher.areKeywords_iff.mpr hall, List.ne_nil_of_mem hk]
    · rw [hm]
      exact .words (hall m List.mem_cons_self) fun w => (hmem w).trans (by simp)
  | cons m others =>
    -- a keyword and something else: the alternatives are more than one
    have hother : ∃ m ∈ ms', m.isKeywords = false := by
      have hne : ms'.filter (!·.isKeywords) ≠ [] := fun hnil => by
        have hlength := hothers.length_eq
        rw [hfilter, hnil] at hlength
        cases hlength
      obtain ⟨m, hm⟩ := List.exists_mem_of_ne_nil _ hne
      obtain ⟨hmem, hnot⟩ := List.mem_filter.mp hm
      exact ⟨m, hmem, by simpa using hnot⟩
    obtain ⟨other, hmem, hnot⟩ := hother
    have hmany : Grammar.combine .oneOf (arrange ms') = .oneOf (arrange ms') := by
      rcases combine_cases .oneOf (arrange ms') with hms | ⟨m, hm, -⟩
      · exact hms
      · have hk' := harrange.mem_iff.mpr hk
        have hother' := harrange.mem_iff.mpr hmem
        rw [hm, List.mem_singleton] at hk' hother'
        subst hk' hother'
        exact absurd (hkey.symm.trans hnot) (by decide)
    rw [hfilter, ← harrange.others ms'] at hothers
    obtain ⟨hlength, hmembers⟩ := forall₂_iff_getElem?.mp hothers
    rw [hmany]
    refine .merged (fun w => ?_) ?_ (List.cons_ne_nil _ _) hlength hmembers
    · rw [hws, mem_words h]
      exact exists_congr fun m => and_congr_left fun _ => harrange.mem_iff.symm
    · exact List.any_eq_true.mpr ⟨k, harrange.mem_iff.mpr hk, hkey⟩

end Alternatives

end Gathered

/-! ## Compiled matchers -/

section Compiled

variable {arrange : List Matcher → List Matcher} {term : Term} {terms : List Term} {m : Matcher}
  {ms : List Matcher} {n : Nat}

/-- **The words of a set** that several sets make up. -/
theorem mem_wordsOf_intercalate {keys : List String} (hne : keys ≠ []) {w : String} :
    w ∈ wordsOf (" | ".intercalate keys) ↔ ∃ key ∈ keys, w ∈ wordsOf key := by
  induction keys with
  | nil => exact absurd rfl hne
  | cons key keys ih =>
    cases keys with
    | nil => simp [String.intercalate_singleton]
    | cons next keys =>
      rw [String.intercalate_cons_cons, wordsOf_join, List.mem_append, ih (List.cons_ne_nil _ _)]
      simp only [List.mem_cons, exists_eq_or_imp]

theorem mem_wordsOf_joinedText (hms : MadeAll terms ms) (hany : ms.any Matcher.isWords = true)
    (w : String) :
    w ∈ wordsOf (joinedText ms) ↔ ∃ ws key, Matcher.words ws key ∈ ms ∧ w ∈ ws := by
  unfold joinedText
  rw [mem_wordsOf_intercalate (filterMap_wordsText_ne_nil hany)]
  constructor
  · rintro ⟨key, hkey, hw⟩
    obtain ⟨m, hm, htext⟩ := List.mem_filterMap.mp hkey
    cases m with
    | words ws key' =>
      cases htext
      obtain ⟨i, term, hterm, hi⟩ := exists_term_of_mem hms.length_eq hm
      obtain rfl := (hms.made i _ _ hterm hi).words_eq rfl
      exact ⟨_, _, hm, hw⟩
    | _ => cases htext
  · rintro ⟨ws, key, hm, hw⟩
    obtain ⟨i, term, hterm, hi⟩ := exists_term_of_mem hms.length_eq hm
    obtain rfl := (hms.made i _ _ hterm hi).words_eq rfl
    exact ⟨key, List.mem_filterMap.mpr ⟨_, hm, rfl⟩, hw⟩

theorem Term.matcherOf_leaf {followed : String → Option Matcher} {key : String}
    (h : term.key? = some key) :
    term.matcherOf arrange followed = Leaf.matcherOf followed key := by
  cases term with
  | words text =>
    cases h
    rfl
  | reference name =>
    cases h
    rfl
  | _ => cases h

/-- Several terms whose matchers can be made one by one. -/
theorem Term.exists_matchersOf {followed : String → Option Matcher}
    (hlength : terms.length = ms.length)
    (h : ∀ (i : Nat) term m, terms[i]? = some term → ms[i]? = some m →
      (∀ key ∈ term.leaves, Resolves n key) →
        ∃ m', term.matcherOf arrange followed = some m' ∧ Gathered m m')
    (hleaves : ∀ key ∈ leavesOfAll terms, Resolves n key) :
    ∃ ms', Term.matchersOf arrange followed terms = some ms' ∧ List.Forall₂ Gathered ms ms' := by
  induction terms generalizing ms with
  | nil =>
    obtain rfl := List.length_eq_zero_iff.mp hlength.symm
    exact ⟨[], rfl, .nil⟩
  | cons term terms ih =>
    cases ms with
    | nil => cases hlength
    | cons m ms =>
      obtain ⟨m', hm', hfirst⟩ := h 0 term m rfl rfl fun key hkey =>
        hleaves key (List.mem_append_left _ hkey)
      obtain ⟨ms', hms', hrest⟩ := ih (Nat.succ.inj hlength) (fun i => h (i + 1))
        fun key hkey => hleaves key (List.mem_append_right _ hkey)
      refine ⟨m' :: ms', ?_, .cons hfirst hrest⟩
      rw [Term.matchersOf, hm', hms']
      rfl

/-- **What is made of a term** gathers the keywords of the matcher whose
alternatives stay apart. -/
theorem Made.gathered (harrange : Arranges arrange) (h : Made term m)
    (hleaves : ∀ key ∈ term.leaves, Resolves n key) :
    ∃ m', term.matcherOf arrange (Matcher.arrangedTo arrange n) = some m' ∧ Gathered m m' := by
  induction h generalizing n with
  | words hleaf =>
    obtain ⟨key, hkey, hwords⟩ := Option.bind_eq_some_iff.mp hleaf
    refine ⟨_, ?_, .words_self _ _⟩
    rw [Term.matcherOf_leaf hkey, Leaf.matcherOf, hwords]
  | basic hleaf =>
    obtain ⟨key, hkey, hbasic⟩ := Option.bind_eq_some_iff.mp hleaf
    refine ⟨_, ?_, .basic⟩
    rw [Term.matcherOf_leaf hkey, Leaf.matcherOf, hbasic]
  | group hleaf =>
    obtain ⟨key, hkey, hgroup⟩ := Option.bind_eq_some_iff.mp hleaf
    refine ⟨_, ?_, .group⟩
    rw [Term.matcherOf_leaf hkey, Leaf.matcherOf, hgroup]
  | @grammar term inner key text m hkey hleaf htext _ ih =>
    obtain ⟨name, hnames, hname⟩ := Term.leaves_of_leaf hleaf
    obtain ⟨leaf, hresolved, hfollow⟩ := hleaves name (by rw [hnames]; exact List.mem_cons_self)
    cases hname.symm.trans hresolved
    have hfollow := hfollow text rfl
    cases n with
    | zero => exact hfollow.elim
    | succ n =>
      obtain ⟨term', hterm', hinner⟩ := hfollow
      cases htext.symm.trans hterm'
      obtain ⟨m', hm', hgathered⟩ := ih hinner
      have hgrammar : Leaf.ofKey? key = some (.grammar text) := by
        rwa [Term.leaf?, hkey] at hleaf
      have hfollowed : Matcher.arrangedTo arrange (n + 1) text = some m' := by
        rw [Matcher.arrangedTo, htext]
        exact hm'
      rw [Term.matcherOf_leaf hkey, Leaf.matcherOf, hgrammar]
      dsimp only
      rw [hfollowed]
      refine ⟨_, rfl, ?_⟩
      split_ifs
      · exact .alias hgathered
      · exact hgathered
  | anyCall => exact ⟨_, rfl, .anyCall⟩
  | function _ ih =>
    obtain ⟨m', hm', hgathered⟩ := ih hleaves
    refine ⟨_, ?_, .function hgathered⟩
    rw [Term.matcherOf, Term.matcherOfBody, hm']
    rfl
  | oneOf hlength _ hnone ih =>
    obtain ⟨ms', hms', hgathered⟩ := Term.exists_matchersOf hlength
      (fun i _ _ hterm hm => ih i _ _ hterm hm) hleaves
    refine ⟨_, ?_, Gathered.combine_oneOf harrange hgathered hnone⟩
    rw [Term.matcherOf, hms']
    rfl
  | oneOfWords hlength hmade hany ih =>
    obtain ⟨ms', hms', hgathered⟩ := Term.exists_matchersOf hlength
      (fun i _ _ hterm hm => ih i _ _ hterm hm) hleaves
    refine ⟨_, ?_, Gathered.combine_oneOf_words harrange hgathered hany
      (mem_wordsOf_joinedText ⟨hlength, hmade⟩ hany)⟩
    rw [Term.matcherOf, hms']
    rfl
  | someOf hlength _ ih =>
    obtain ⟨ms', hms', hgathered⟩ := Term.exists_matchersOf hlength
      (fun i _ _ hterm hm => ih i _ _ hterm hm) hleaves
    obtain ⟨hlength', hmembers⟩ := forall₂_iff_getElem?.mp hgathered
    refine ⟨_, ?_, Gathered.combine (fun ms => .anyOrder ms none) (fun ms => .anyOrder ms none)
      hgathered (.anyOrder hlength' hmembers)⟩
    rw [Term.matcherOf, hms']
    rfl
  | allOf hlength _ ih =>
    obtain ⟨ms', hms', hgathered⟩ := Term.exists_matchersOf hlength
      (fun i _ _ hterm hm => ih i _ _ hterm hm) hleaves
    obtain ⟨hlength', hmembers⟩ := forall₂_iff_getElem?.mp hgathered
    let wrap : List Matcher → Matcher := fun ms =>
      .anyOrder ms (some (ms.map fun m => !m.isOptional))
    refine ⟨_, ?_, Gathered.combine wrap wrap hgathered ?_⟩
    · rw [Term.matcherOf, hms']
      rfl
    · unfold wrap
      rw [Gathered.map_isOptional hgathered]
      exact .anyOrder hlength' hmembers
  | sequence hlength _ ih =>
    obtain ⟨ms', hms', hgathered⟩ := Term.exists_matchersOf hlength
      (fun i _ _ hterm hm => ih i _ _ hterm hm) hleaves
    obtain ⟨hlength', hmembers⟩ := forall₂_iff_getElem?.mp hgathered
    refine ⟨_, ?_, Gathered.combine .sequence .sequence hgathered (.sequence hlength' hmembers)⟩
    rw [Term.matcherOf, hms']
    rfl
  | repeated _ hcomma _ ih =>
    obtain ⟨m', hm', hgathered⟩ := ih hleaves
    refine ⟨_, ?_, .repeated hgathered⟩
    rw [Term.matcherOf, hm', hcomma]
    rfl
  | commaRepeated _ hmade hcomma _ ih =>
    have hcommaLeaf : (Term.words ",").leaf? = some (.words ",") := by with_unfolding_all rfl
    have hwords : Made (.words ",") (.words (wordsOf ",") ",") := .words hcommaLeaf
    obtain ⟨m', hm', hgathered⟩ := ih hleaves
    obtain rfl := hmade.unique hwords
    have hnext : List.Forall₂ Gathered [.words (wordsOf ",") ",", _] [.words [","] ",", m'] :=
      .cons (.words_self _ _) (.cons hgathered .nil)
    obtain ⟨hlength, hmembers⟩ := forall₂_iff_getElem?.mp hnext
    refine ⟨_, ?_, .separated hgathered (.sequence hlength hmembers)⟩
    rw [Term.matcherOf, hm', hcomma]
    rfl
  | bracketed _ ih =>
    obtain ⟨m', hm', hgathered⟩ := ih hleaves
    refine ⟨_, ?_, .bracketed hgathered⟩
    rw [Term.matcherOf, hm']
    rfl

end Compiled

end Stylesheet.Grammar
