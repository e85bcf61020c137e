import Stylesheet.Proofs.Matching.Parts

/-!
# Keys are read as themselves

The text of a term, read as a grammar, is the very term that it is the text
of, or alternatives of words whose matchers are joined to one of that text.
So it does not matter whether its matcher was made from a grammar or from a
term (`IsReread`). That holds for references, and for texts that are made of
parts; plain keys are one or the other.
-/

/-!
## The grammars of the tables are plain

All grammars of the tables are plain, but for the one that describes the
inside of square brackets (`isTableText_of_mem`). A text is looked at as
the list of its characters, piece by piece where the tables write it in
several. So what is a text of some term as well is a plain key
(`IsKey.isPlainKey`).
-/

namespace Stylesheet.Grammar

open Property

/-- The grammar of what stands in square brackets. -/
def bracketGrammar : String := "\"[\" <ident-for-grid> \"]\""

/-- **What the tables have for grammars.** -/
def IsTableText (text : String) : Prop := text = bracketGrammar ∨ IsPlainGrammar text

set_option maxRecDepth 10000

theorem IsPlainGrammar.isTableText {text : String} (h : IsPlainGrammar text) : IsTableText text :=
  .inr h

/-- What is said of the grammar of a definition is said of its text. -/
theorem isTableText_of_definition {name text : String} (h : IsTableText text) :
    ∀ grammar, (name, Definition.grammar text).2.grammar? = some grammar → IsTableText grammar := by
  rintro grammar ⟨⟩
  exact h

/-- A definition without a grammar has none to speak of. -/
theorem isTableText_of_any {name : String} :
    ∀ grammar, (name, Definition.any).2.grammar? = some grammar → IsTableText grammar := nofun

/-- **The grammars of the tables are plain**, but for one. -/
theorem isTableText_of_mem : ∀ grammar ∈ tableGrammars, IsTableText grammar := by
  unfold tableGrammars Property.table
  simp only [List.forall_mem_append, List.forall_mem_map, List.forall_mem_filterMap,
    List.forall_mem_flatMap]
  repeat' apply And.intro
  -- first the at-rules and the groups, and then the entries of each
  all_goals repeat' refine List.forall_mem_cons.mpr ⟨?_, ?_⟩
  all_goals try refine isTableText_of_definition ?_
  all_goals first
    | exact List.forall_mem_nil _
    | exact isTableText_of_any
    | with_reducible exact (isPlainGrammar_ofList (by decide +kernel)).isTableText
    | exact .inl rfl
    | (refine IsPlainGrammar.isTableText (IsLongGrammar.isPlainGrammar ?_)
       repeat' with_reducible refine IsLongGrammar.append_ofList ?_ (by decide +kernel)
       with_reducible exact isLongGrammar_ofList (by decide +kernel))

/-! ## Texts met as both -/

theorem IsPlainKey.isKey {key : String} (h : IsPlainKey key) : IsKey key :=
  ⟨h.small, h.shape.elim .reference .alternation⟩

/-- The grammar that is not plain is the text of no term: it has blanks,
and more than two quotes. -/
theorem not_isKey_bracketGrammar : ¬IsKey bracketGrammar := by
  intro h
  cases h.shape with
  | reference href => exact absurd href.head (by decide)
  | angle hhead _ => exact absurd hhead (by decide)
  | quoted _ _ hrest =>
    have hnone : ¬(' ' ∉ bracketGrammar.toList ∨ '|' ∈ bracketGrammar.toList ∨
        '\'' ∈ bracketGrammar.toList ∨ bracketGrammar.toList.count '"' = 2) := by decide
    exact hnone hrest
  | alternation hpieces =>
    obtain ⟨ps, -, hps, heq⟩ := hpieces
    have hquote : '"' ∈ bracketGrammar.toList := by decide
    rw [heq] at hquote
    rcases mem_joinBars hquote with h | h | ⟨p, hp, hc⟩
    · exact absurd h (by decide)
    · exact absurd h (by decide)
    · exact ((hps p hp).chars _ hc).2.1 rfl

/-- **A text that is met both as a grammar of the tables and as the text of
a term** is a plain key. -/
theorem IsKey.isPlainKey {key : String} (h : IsKey key) (htable : IsTableText key) :
    IsPlainKey key := by
  rcases htable with rfl | hgrammar
  · exact absurd h not_isKey_bracketGrammar
  have hplain := hgrammar.plain.plain
  refine ⟨h.small, hplain, ?_⟩
  cases h.shape with
  | reference href => exact .inl href
  | angle hhead hchars =>
    rcases hgrammar.long hhead with href | ⟨c, hc, hends⟩
    · exact .inl href
    · exact absurd (hends.symm.trans (hchars c hc)) (by decide)
  | quoted _ hquote _ =>
    rcases hquote with hc | hc
    · exact absurd rfl (hplain _ hc).2.2.1
    · exact absurd rfl (hplain _ hc).2.2.2
  | alternation hpieces => exact .inr hpieces

end Stylesheet.Grammar

namespace Stylesheet.Grammar

open Text

/-! ## Making matchers of words -/

variable {key : String} {m : Matcher}

/-- What is made from a leaf depends on its text alone. -/
theorem Made.of_key_eq {term term' : Term} (h : Made term m) (hkey : term.key? = some key)
    (hkey' : term'.key? = some key) : Made term' m := by
  have hleaf : term'.leaf? = term.leaf? := by rw [Term.leaf?, Term.leaf?, hkey, hkey']
  cases h with
  | words h => exact .words (hleaf.trans h)
  | basic h => exact .basic (hleaf.trans h)
  | group h => exact .group (hleaf.trans h)
  | grammar hsame h htext hinner =>
    exact .grammar (hkey'.trans (hkey.symm.trans hsame)) (hleaf.trans h) htext hinner
  | _ => cases hkey

/-- **Words that do not begin like a reference** are a leaf. -/
theorem leaf_words {text : String} (hsmall : ∀ c ∈ text.toList, IsSmall c)
    (hhead : text.toList.head? ≠ some '<') :
    (Term.words text).leaf? = some (.words text) := by
  have hstart : Text.startsWith text "<" = false := by
    unfold Text.startsWith
    cases hcs : text.toList with
    | nil => rfl
    | cons c cs =>
      rw [hcs] at hhead
      have hne : ('<' == c) = false := beq_false_of_ne fun h => hhead (h ▸ rfl)
      show (('<' == c) && List.isPrefixOf [] cs) = false
      rw [hne, Bool.false_and]
  have hkey : (Term.words text).key? = some text := congrArg some (lower_eq_self hsmall)
  rw [Term.leaf?, hkey, Option.bind_some, Leaf.ofKey?, hstart]
  rfl

/-- **What is made from words** that do not begin like a reference. -/
theorem made_words_iff {text : String} (hsmall : ∀ c ∈ text.toList, IsSmall c)
    (hhead : text.toList.head? ≠ some '<') :
    Made (.words text) m ↔ m = .words (wordsOf text) text := by
  have hleaf := leaf_words hsmall hhead
  constructor
  · intro h
    cases h with
    | words h =>
      obtain ⟨⟩ := hleaf.symm.trans h
      rfl
    | basic h => cases hleaf.symm.trans h
    | group h => cases hleaf.symm.trans h
    | grammar _ h => cases hleaf.symm.trans h
  · rintro rfl
    exact .words hleaf

/-- The sets of words that some texts are. -/
def setsOf (texts : List String) : List Matcher := texts.map fun text => .words (wordsOf text) text

theorem joinedText_setsOf (texts : List String) :
    joinedText (setsOf texts) = " | ".intercalate texts := by
  rw [joinedText, setsOf, List.filterMap_map]
  exact congrArg _ List.filterMap_some

/-- There is nothing else among sets of words. -/
theorem filter_setsOf (texts : List String) : (setsOf texts).filter (!·.isWords) = [] := by
  refine List.filter_eq_nil_iff.mpr fun m hm => ?_
  obtain ⟨text, -, rfl⟩ := List.mem_map.mp hm
  exact Bool.false_ne_true

theorem any_setsOf {texts : List String} (hne : texts ≠ []) :
    (setsOf texts).any Matcher.isWords = true := by
  obtain ⟨text, texts, rfl⟩ := List.exists_cons_of_ne_nil hne
  rfl

section Alternatives

variable {texts : List String} {ms : List Matcher}
  (htexts : ∀ text ∈ texts, (∀ c ∈ text.toList, IsSmall c) ∧ text.toList.head? ≠ some '<')

include htexts

theorem made_setsOf (i : Nat) (term : Term) (m : Matcher)
    (hterm : (texts.map Term.words)[i]? = some term) (hm : (setsOf texts)[i]? = some m) :
    Made term m := by
  rw [setsOf, List.getElem?_map] at hm
  rw [List.getElem?_map] at hterm
  obtain ⟨text, htext, rfl⟩ := Option.map_eq_some_iff.mp hterm
  obtain ⟨text', htext', rfl⟩ := Option.map_eq_some_iff.mp hm
  obtain rfl : text = text' := Option.some.inj (htext.symm.trans htext')
  obtain ⟨hsmall, hhead⟩ := htexts text (List.mem_of_getElem? htext)
  exact (made_words_iff hsmall hhead).mpr rfl

/-- Nothing else is made of words than sets of words. -/
theorem eq_setsOf (hlength : (texts.map Term.words).length = ms.length)
    (hms : ∀ (i : Nat) term m, (texts.map Term.words)[i]? = some term → ms[i]? = some m →
      Made term m) : ms = setsOf texts := by
  rw [List.length_map] at hlength
  refine List.ext_getElem (by rw [setsOf, List.length_map, hlength]) fun i hi hi' => ?_
  have hi'' : i < texts.length := hlength ▸ hi
  have hmade := hms i _ _ (by rw [List.getElem?_map, List.getElem?_eq_getElem hi'']; rfl)
    (List.getElem?_eq_getElem hi)
  obtain ⟨hsmall, hhead⟩ := htexts _ (List.getElem_mem hi'')
  rw [(made_words_iff hsmall hhead).mp hmade]
  simp [setsOf]

/-- **What is made from alternatives of words**: one set of them all. -/
theorem made_oneOf_words (hne : texts ≠ []) : Made (.oneOf (texts.map .words)) m ↔
    m = .words (wordsOf (" | ".intercalate texts)) (" | ".intercalate texts) := by
  constructor
  · intro h
    generalize hterm : Term.oneOf (texts.map .words) = term at h
    cases h with
    | oneOf hlength hms hnone =>
      obtain ⟨⟩ := hterm
      obtain rfl := eq_setsOf htexts hlength hms
      exact absurd ((any_setsOf hne).symm.trans hnone) (by decide)
    | oneOfWords hlength hms _ =>
      obtain ⟨⟩ := hterm
      obtain rfl := eq_setsOf htexts hlength hms
      rw [joinedText_setsOf, filter_setsOf]
      rfl
    | words h => exact absurd (hterm ▸ h) (by simp [Term.leaf?, Term.key?])
    | basic h => exact absurd (hterm ▸ h) (by simp [Term.leaf?, Term.key?])
    | group h => exact absurd (hterm ▸ h) (by simp [Term.leaf?, Term.key?])
    | grammar h => exact absurd (hterm ▸ h) (by simp [Term.key?])
    | _ => cases hterm
  · rintro rfl
    have h := Made.oneOfWords (by simp [setsOf]) (made_setsOf htexts) (any_setsOf hne)
    rwa [joinedText_setsOf, filter_setsOf] at h

end Alternatives

/-- What is made from a set of words is made from the alternatives that it
is read as. -/
theorem made_combine_words {texts : List String} (hne : texts ≠ [])
    (htexts : ∀ text ∈ texts, (∀ c ∈ text.toList, IsSmall c) ∧ text.toList.head? ≠ some '<')
    (hkey : " | ".intercalate texts = key) (hsmall : ∀ c ∈ key.toList, IsSmall c)
    (hhead : key.toList.head? ≠ some '<') :
    Made (Term.combine .oneOf (texts.map .words)) m ↔ Made (.words key) m := by
  match texts with
  | [] => exact absurd rfl hne
  | [text] =>
    obtain rfl : text = key := (String.intercalate_singleton).symm.trans hkey
    exact Iff.rfl
  | text :: next :: texts =>
    rw [made_words_iff hsmall hhead, ← hkey]
    exact made_oneOf_words htexts hne

/-! ## Reading keys -/

/-- The text of some parts is the parts with bars in between. -/
theorem toList_partsText {ps : List (List Char)} (hps : ∀ p ∈ ps, ∀ c ∈ p, IsSmall c) :
    (" | ".intercalate (ps.map fun p => lower (String.ofList p))).toList = joinBars ps := by
  rw [toList_intercalate_bars, List.map_map]
  refine congrArg joinBars ((List.map_congr_left fun p hp => ?_).trans (List.map_id ps))
  have hchars : ∀ c ∈ (String.ofList p).toList, IsSmall c := by
    rw [String.toList_ofList]
    exact hps p hp
  exact (congrArg String.toList (lower_eq_self hchars)).trans String.toList_ofList

/-- **A key that is read as itself**: what is made from it as a grammar is
what is made from it as the text of a term. -/
def IsReread (key : String) : Prop :=
  ∃ term, Term.ofString key = .ok term ∧ ∀ m, Made term m ↔ Made (.words key) m

theorem ofString_of_oneOf {term : Term}
    (h : Parser.oneOf (Parser.nested key.toList.length) key.toList = some (term, [])) :
    Term.ofString key = .ok term := by
  unfold Term.ofString
  dsimp only
  rw [Parser.nested, h]
  rfl

theorem IsReference.isReread (href : IsReference key.toList)
    (hsmall : ∀ c ∈ key.toList, IsSmall c) : IsReread key := by
  have hkey : (Term.words key).key? = some key := congrArg some (lower_eq_self hsmall)
  have hkey' : (Term.reference (lower key)).key? = some key := by
    rw [lower_eq_self hsmall]
    exact hkey
  refine ⟨.reference (lower key), ofString_of_oneOf ?_, fun m => ?_⟩
  · rw [Parser.oneOf_reference href, String.ofList_toList]
  · exact ⟨fun h => h.of_key_eq hkey' hkey, fun h => h.of_key_eq hkey hkey'⟩

/-- **Alternatives of parts in groups** are texts of sets that make up the
text of all parts. -/
theorem AreParts.exists_texts {ps : List (List Char)} {fronts : List (List (List Char))}
    (hps : AreParts ps) (hkey : key.toList = joinBars ps) (hsmall : ∀ c ∈ key.toList, IsSmall c)
    (hfronts : ∀ front ∈ fronts, front ≠ []) (hflatten : fronts.flatten = ps) :
    ∃ texts : List String, fronts.map Parser.partsTerm = texts.map .words ∧
      (∀ text ∈ texts, (∀ c ∈ text.toList, IsSmall c) ∧ text.toList.head? ≠ some '<') ∧
      " | ".intercalate texts = key := by
  have hchars : ∀ p ∈ ps, ∀ c ∈ p, IsSmall c := fun p hp c hc =>
    hsmall c (hkey ▸ mem_joinBars_of_mem hp hc)
  have hmem : ∀ front ∈ fronts, ∀ p ∈ front, p ∈ ps := fun front hfront p hp =>
    hflatten ▸ List.mem_flatten_of_mem hfront hp
  -- an alternative is the text of the parts it takes
  let text (front : List (List Char)) : String :=
    " | ".intercalate (front.map fun p => lower (String.ofList p))
  have htext : ∀ front ∈ fronts, (text front).toList = joinBars front := fun front hfront =>
    toList_partsText fun p hp => hchars p (hmem front hfront p hp)
  refine ⟨fronts.map text, by rw [List.map_map]; rfl, fun t ht => ?_, ?_⟩
  · obtain ⟨front, hfront, rfl⟩ := List.mem_map.mp ht
    rw [htext front hfront]
    refine ⟨fun c hc => ?_, joinBars_head_ne_angle (hfronts front hfront)
      fun p hp => hps.part p (hmem front hfront p hp)⟩
    rcases mem_joinBars hc with rfl | rfl | ⟨p, hp, hc⟩
    · exact isSmall_of_mark (by decide)
    · exact isSmall_of_mark (by decide)
    · exact hchars p (hmem front hfront p hp) c hc
  · rw [← String.toList_inj, toList_intercalate_bars, List.map_map, hkey, ← hflatten,
      ← joinBars_flatten hfronts]
    exact congrArg joinBars (List.map_congr_left htext)

theorem AreParts.isReread {ps : List (List Char)} (hps : AreParts ps) (hne : ps ≠ [])
    (hkey : key.toList = joinBars ps) (hsmall : ∀ c ∈ key.toList, IsSmall c) : IsReread key := by
  obtain ⟨fronts, hfronts, hflatten, honeOf⟩ :=
    Parser.oneOf_joinBars (Parser.nested key.toList.length) hps hne
  obtain ⟨texts, hterms, htexts, hjoin⟩ := hps.exists_texts hkey hsmall hfronts hflatten
  refine ⟨Term.combine .oneOf (texts.map .words), ofString_of_oneOf ?_, fun m => ?_⟩
  · rw [← hkey, hterms] at honeOf
    exact honeOf
  · refine made_combine_words ?_ htexts hjoin hsmall ?_
    · rintro rfl
      rw [List.map_nil, List.map_eq_nil_iff] at hterms
      rw [hterms] at hflatten
      exact hne hflatten.symm
    · rw [hkey]
      exact joinBars_head_ne_angle hne hps.part

/-! ## Plain keys -/

/-- A plain character that ends no literal is no blank. -/
theorem isBlank_of_isPlain : ∀ n < 0x7F, IsPlain (Char.ofNat n) →
    Parser.endsLiteral (Char.ofNat n) = false → isBlank (Char.ofNat n) = false := by
  decide +kernel

/-- **Plain pieces are parts.** -/
theorem areParts_of_plain {ps : List (List Char)} (hpieces : ∀ p ∈ ps, IsPiece p)
    (hplain : ∀ p ∈ ps, ∀ c ∈ p, IsPlain c) : AreParts ps := by
  have hquote : ∀ p ∈ ps, ∀ quote, IsQuote quote → quote ∉ p := by
    rintro p hp quote (rfl | rfl) hmem
    · exact ((hpieces p hp).chars _ hmem).2.1 rfl
    · exact ((hpieces p hp).chars _ hmem).2.2 rfl
  refine ⟨fun p hp => .bare (hpieces p hp).ne_nil (hpieces p hp).head_ne (fun c hc => ?_) ?_, ?_⟩
  · have hblank := isBlank_of_isPlain c.toNat (hplain p hp c hc).2.1
    rw [Char.ofNat_toNat] at hblank
    have hends := ((hpieces p hp).chars c hc).1
    exact ⟨hends, hblank (hplain p hp c hc) hends⟩
  · intro quote hmark hhead
    exact absurd (List.mem_of_mem_head? hhead) (hquote p hp quote hmark)
  · refine List.pairwise_of_forall_mem_list fun p hp q hq quote hmark hopens => ?_
    exact absurd (List.mem_of_mem_head? hopens.1) (hquote p hp quote hmark)

/-- **A plain key is read as itself.** -/
theorem IsPlainKey.isReread (h : IsPlainKey key) : IsReread key := by
  rcases h.shape with href | ⟨ps, hne, hpieces, hps⟩
  · exact href.isReread h.small
  · refine (areParts_of_plain hpieces fun p hp c hc => ?_).isReread hne hps h.small
    exact h.plain c (hps ▸ mem_joinBars_of_mem hp hc)

end Stylesheet.Grammar
