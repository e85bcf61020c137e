import Stylesheet.Proofs.Matching.Rereading
import Stylesheet.Proofs.Matching.Sound

/-!
# Texts of sets of words

A catalog remembers matchers of texts of terms, and alternatives that are
words make up a text of their own. So what is known of the texts of terms
has to pass on to the texts of sets. Which texts these are is left open
(`KeyClass`); what matters of a term is that its texts and those of its sets
are among them (`Term.Makable`). Where two sets always make up one
(`SetClass`) that is so of every term with such texts (`Term.Regular.makable`):
the keys of all grammars are such a class, and the plain keys are another.
-/

namespace Stylesheet.Grammar

open Text

/-! ## Classes of texts of sets -/

/-- **A class of texts of terms** that has the texts of sets with them. -/
structure SetClass (K : String → Prop) : Prop where
  /-- They are in small letters. -/
  small : ∀ key, K key → ∀ c ∈ key.toList, IsSmall c
  /-- Two sets make up one. -/
  join : ∀ a b, K a → K b → a.toList.head? ≠ some '<' → b.toList.head? ≠ some '<' →
    K (a ++ " | " ++ b)
  /-- The comma is one of them. -/
  comma : K ","
  /-- The tables have no other. -/
  table : ∀ text term, IsTableText text → Term.ofString text = .ok term → term.Regular K

theorem isPlainKey_comma : IsPlainKey "," := by
  refine ⟨fun c hc => ?_, fun c hc => ?_, .inr ⟨[[',']], List.cons_ne_nil _ _, fun p hp => ?_, rfl⟩⟩
  · obtain rfl : c = ',' := by simpa using hc
    exact isSmall_of_mark (by decide)
  · obtain rfl : c = ',' := by simpa using hc
    decide
  · obtain rfl := List.mem_singleton.mp hp
    refine ⟨List.cons_ne_nil _ _, by decide, fun c hc => ?_⟩
    obtain rfl := List.mem_singleton.mp hc
    exact ⟨by decide, by decide, by decide⟩

theorem isKey_sets : SetClass IsKey where
  small _ h := h.small
  join _ _ ha hb := ha.join hb
  comma := isPlainKey_comma.isKey
  table _ _ _ h := Term.ofString_regular Parser.readable_isKey trivial h

/-- What the grammar that is not plain is read as. -/
theorem ofString_bracketGrammar :
    Term.ofString bracketGrammar = .ok (.bracketed (.reference "<ident-for-grid>")) := by
  with_unfolding_all rfl

theorem isPlainKey_sets : SetClass IsPlainKey where
  small _ h := h.small
  join _ _ ha hb := ha.join hb
  comma := isPlainKey_comma
  table text term htable h := by
    rcases htable with rfl | hgrammar
    · -- its one reference can be read on its own
      cases ofString_bracketGrammar.symm.trans h
      have hread : Parser.reference "<ident-for-grid>".toList =
          some (.reference "<ident-for-grid>", []) := by with_unfolding_all rfl
      have hplain : "<ident-for-grid>".toList.all isPlain = true := by decide +kernel
      exact .bracketed (Parser.reference_isPlainKey
        (fun c hc => isPlain_sound (List.all_eq_true.mp hplain c hc)) hread)
    · exact Term.ofString_regular Parser.readable_isPlainKey hgrammar.plain h

/-! ## Texts of sets of words -/

section Texts

variable {K : String → Prop} {term : Term} {terms : List Term} {m : Matcher} {ms : List Matcher}
  {key text : String}

/-- Words do not begin like a reference, and stand for themselves. -/
theorem Leaf.ofKey?_words (h : Leaf.ofKey? key = some (.words text)) :
    text = key ∧ key.toList.head? ≠ some '<' := by
  obtain ⟨hstart, h⟩ | ⟨_, _, -, h⟩ | ⟨_, h⟩ | ⟨_, -, h⟩ := Leaf.ofKey?_cases h
  all_goals cases h
  refine ⟨rfl, fun hhead => ?_⟩
  cases hcs : key.toList with
  | nil =>
    rw [hcs] at hhead
    cases hhead
  | cons c cs =>
    rw [hcs] at hhead
    cases hhead
    simp [startsWith, hcs] at hstart

/-- The text of a regular term in small letters is the text that it has. -/
theorem Term.Regular.key_mem (hK : SetClass K) (h : term.Regular K) (hkey : term.key? = some key) :
    K key := by
  cases h with
  | words htext =>
    cases hkey
    rwa [lower_eq_self (hK.small _ htext)]
  | reference hname =>
    cases hkey
    rwa [lower_eq_self (hK.small _ hname)]
  | _ => cases hkey

/-- **The text of a set of words** is one of the class, and it does not
begin like a reference. -/
def IsSetText (K : String → Prop) (text : String) : Prop :=
  K text ∧ text.toList.head? ≠ some '<'

theorem IsSetText.intercalate (hK : SetClass K) {keys : List String} (hne : keys ≠ [])
    (h : ∀ key ∈ keys, IsSetText K key) : IsSetText K (" | ".intercalate keys) := by
  induction keys with
  | nil => exact absurd rfl hne
  | cons key keys ih =>
    have hkey := h key List.mem_cons_self
    cases keys with
    | nil => rwa [String.intercalate_singleton]
    | cons next keys =>
      have hrest := ih (List.cons_ne_nil _ _) fun k hk => h k (List.mem_cons_of_mem _ hk)
      rw [String.intercalate_cons_cons]
      refine ⟨hK.join _ _ hkey.1 hrest.1 hkey.2 hrest.2, ?_⟩
      rw [toList_join]
      cases hcs : key.toList with
      | nil => simp
      | cons c cs =>
        have hhead := hkey.2
        rw [hcs] at hhead
        exact hhead

/-- Some of the matchers are sets. -/
theorem filterMap_wordsText_ne_nil (hany : ms.any Matcher.isWords = true) :
    ms.filterMap wordsText? ≠ [] := by
  obtain ⟨m, hm, hwords⟩ := List.any_eq_true.mp hany
  cases m with
  | words ws text => exact List.ne_nil_of_mem (List.mem_filterMap.mpr ⟨_, hm, rfl⟩)
  | _ => cases hwords

/-- The text that the sets among some matchers make up. -/
theorem isSetText_joinedText (hK : SetClass K) (hany : ms.any Matcher.isWords = true)
    (h : ∀ ws text, .words ws text ∈ ms → IsSetText K text) : IsSetText K (joinedText ms) := by
  refine IsSetText.intercalate hK (filterMap_wordsText_ne_nil hany) fun text htext => ?_
  obtain ⟨m, hm, hwords⟩ := List.mem_filterMap.mp htext
  cases m with
  | words ws text' =>
    cases hwords
    exact h ws _ hm
  | _ => cases hwords

/-- **The grammars behind references.** -/
@[irreducible]
def referenceGrammars : List String :=
  Property.Table.types.map (·.2) ++ Property.table.filterMap (·.2.grammar?) ++
    (Property.Table.scopes.flatMap (·.descriptors)).filterMap (·.2.grammar?)

theorem referenceGrammar_mem {name grammar : String} (h : referenceGrammar? name = some grammar) :
    grammar ∈ referenceGrammars := by
  have hlookup : ∀ {α : Type} {table : List (String × α)} {name : String} {a : α},
      table.lookup name = some a → (name, a) ∈ table := by
    intro α table name a h
    obtain ⟨before, after, rfl, -⟩ := List.lookup_eq_some_iff.mp h
    simp
  unfold referenceGrammars
  simp only [List.mem_append]
  rcases Option.or_eq_some_iff.mp h with htype | ⟨-, h⟩
  · exact .inl (.inl (List.mem_map_of_mem (hlookup htype)))
  obtain ⟨inner, -, h⟩ := Option.bind_eq_some_iff.mp h
  rcases Option.or_eq_some_iff.mp h with hproperty | ⟨-, hscope⟩
  · obtain ⟨definition, hdefinition, hgrammar⟩ := Option.bind_eq_some_iff.mp hproperty
    exact .inl (.inr (List.mem_filterMap.mpr ⟨_, hlookup hdefinition, hgrammar⟩))
  · obtain ⟨scope, hscope, hdescriptor⟩ := List.exists_of_findSome?_eq_some hscope
    obtain ⟨definition, hdefinition, hgrammar⟩ := Option.bind_eq_some_iff.mp hdescriptor
    refine .inr (List.mem_filterMap.mpr ⟨(inner, definition), ?_, hgrammar⟩)
    exact List.mem_flatMap.mpr ⟨scope, hscope, hlookup hdefinition⟩

theorem Leaf.mem_referenceGrammars (h : Leaf.ofKey? key = some (.grammar text)) :
    text ∈ referenceGrammars := by
  obtain ⟨-, h⟩ | ⟨_, _, -, h⟩ | ⟨_, h⟩ | ⟨grammar, hgrammar, h⟩ := Leaf.ofKey?_cases h
  all_goals cases h
  exact referenceGrammar_mem hgrammar

/-- The grammar of a leaf is one of the tables. -/
theorem Leaf.grammar_mem (h : Leaf.ofKey? key = some (.grammar text)) : text ∈ tableGrammars := by
  have hmem := Leaf.mem_referenceGrammars h
  unfold referenceGrammars at hmem
  exact List.mem_append_left _ hmem

/-- **The text of a made set of words.** -/
theorem Made.isSetText (hK : SetClass K) (h : Made term m) (hterm : term.Regular K)
    {ws : List String} (hm : m = .words ws text) : IsSetText K text := by
  induction h generalizing ws text with
  | words hleaf =>
    cases hm
    obtain ⟨key, hkey, hwords⟩ := Option.bind_eq_some_iff.mp hleaf
    obtain ⟨rfl, hhead⟩ := Leaf.ofKey?_words hwords
    exact ⟨hterm.key_mem hK hkey, hhead⟩
  | grammar _ hleaf htext _ ih =>
    split_ifs at hm
    obtain ⟨key, -, hkey⟩ := Option.bind_eq_some_iff.mp hleaf
    exact ih (hK.table _ _ (isTableText_of_mem _ (Leaf.grammar_mem hkey)) htext) hm
  | oneOf hlength _ _ ih | someOf hlength _ ih | allOf hlength _ ih | sequence hlength _ ih =>
    obtain ⟨term, m, rfl, rfl, hm⟩ := single_of_combine hlength (· = .words ws text) hm nofun
    have hmember : term.Regular K := by
      cases hterm with
      | _ hmembers => exact hmembers term List.mem_cons_self
    exact ih 0 term m rfl rfl hmember hm
  | @oneOfWords terms ms hlength hmade hany ih =>
    rcases combine_cases .oneOf _ with hms | ⟨m, hms, hm'⟩
    · cases hms.symm.trans hm
    · obtain ⟨rfl, -⟩ := List.cons.inj hms
      cases hm'.symm.trans hm
      refine isSetText_joinedText hK hany fun ws text hmem => ?_
      obtain ⟨i, term, hi, hi'⟩ := exists_term_of_mem hlength hmem
      cases hterm with
      | oneOf hmembers => exact ih i term _ hi hi' (hmembers term (List.mem_of_getElem? hi)) rfl
  | _ => cases hm

end Texts

/-! ## Making matchers of sets -/

/-- **Matchers of several terms.** -/
structure MadeAll (terms : List Term) (ms : List Matcher) : Prop where
  /-- As many matchers as terms. -/
  length_eq : terms.length = ms.length
  /-- Each was made from its term. -/
  made : ∀ (i : Nat) term m, terms[i]? = some term → ms[i]? = some m → Made term m

theorem MadeAll.nil : MadeAll [] [] := ⟨rfl, fun i term m h => by cases h⟩

theorem MadeAll.cons {term : Term} {terms : List Term} {m : Matcher} {ms : List Matcher}
    (h : Made term m) (hs : MadeAll terms ms) : MadeAll (term :: terms) (m :: ms) := by
  refine ⟨congrArg Nat.succ hs.length_eq, fun i term' m' hterm hm => ?_⟩
  cases i with
  | zero =>
    cases hterm
    cases hm
    exact h
  | succ i => exact hs.made i term' m' hterm hm

/-- **A term whose matcher can be made**: its texts are of a class, and so
are the texts of the sets that the words in it make up. -/
inductive Term.Makable (K : String → Prop) : Term → Prop where
  /-- Words. -/
  | words {text : String} : K text → Makable K (.words text)
  /-- A reference. -/
  | reference {name : String} : K name → Makable K (.reference name)
  /-- A function, with a makable body if any. -/
  | function {name : String} {body : Option Term} :
      (∀ term, body = some term → Makable K term) → Makable K (.function name body)
  /-- Alternatives, with the set of the words among them. -/
  | oneOf {members : List Term} : (∀ term ∈ members, Makable K term) →
      (∀ ms, MadeAll members ms → ms.any Matcher.isWords = true → IsSetText K (joinedText ms)) →
      Makable K (.oneOf members)
  /-- Some members in any order. -/
  | someOf {members : List Term} : (∀ term ∈ members, Makable K term) → Makable K (.someOf members)
  /-- All members in any order. -/
  | allOf {members : List Term} : (∀ term ∈ members, Makable K term) → Makable K (.allOf members)
  /-- Terms in a row. -/
  | sequence {members : List Term} :
      (∀ term ∈ members, Makable K term) → Makable K (.sequence members)
  /-- A repeated term. -/
  | repeated {term : Term} {m : Multiplier} : Makable K term →
      (m.marker = some .optional → m.min = 0) → Makable K (.repeated term m)
  /-- A block in square brackets. -/
  | bracketed {term : Term} : Makable K term → Makable K (.bracketed term)

/-- **A regular term is makable** if two sets make up one. -/
theorem Term.Regular.makable {K : String → Prop} {term : Term} (hK : SetClass K)
    (h : term.Regular K) : term.Makable K := by
  induction h with
  | words htext => exact .words htext
  | reference hname => exact .reference hname
  | function _ ih => exact .function ih
  | oneOf hmembers ih =>
    refine .oneOf ih fun ms hms hany => isSetText_joinedText hK hany fun ws text hmem => ?_
    obtain ⟨i, term, hterm, hm⟩ := exists_term_of_mem hms.length_eq hmem
    exact (hms.made i term _ hterm hm).isSetText hK (hmembers term (List.mem_of_getElem? hterm)) rfl
  | someOf _ ih => exact .someOf ih
  | allOf _ ih => exact .allOf ih
  | sequence _ ih => exact .sequence ih
  | repeated _ hmin ih => exact .repeated ih hmin
  | bracketed _ ih => exact .bracketed ih

/-- **A class of texts that a catalog can be asked for**, whole grammars of
one kind (`R`) and texts of terms of another (`K`) alike. -/
structure KeyClass (R K : String → Prop) : Prop where
  /-- The texts of terms are in small letters. -/
  small : ∀ key, K key → ∀ c ∈ key.toList, IsSmall c
  /-- The comma is one of them. -/
  comma : K ","
  /-- What is both is read as itself. -/
  reread : ∀ key, K key → R key → IsReread key
  /-- The grammars of the tables are of the one kind. -/
  grammar : ∀ text, IsTableText text → R text
  /-- What they have in them is of the other. -/
  table : ∀ text term, IsTableText text → Term.ofString text = .ok term → term.Makable K

theorem SetClass.keyClass {K : String → Prop} (h : SetClass K)
    (hplain : ∀ key, K key → IsTableText key → IsPlainKey key) : KeyClass IsTableText K where
  small := h.small
  comma := h.comma
  reread key hkey htable := (hplain key hkey htable).isReread
  grammar _ htable := htable
  table text term htable hterm := (h.table text term htable hterm).makable h

theorem isKey_class : KeyClass IsTableText IsKey :=
  isKey_sets.keyClass fun _ h htable => h.isPlainKey htable

theorem isPlainKey_class : KeyClass IsTableText IsPlainKey :=
  isPlainKey_sets.keyClass fun _ h _ => h

end Stylesheet.Grammar
