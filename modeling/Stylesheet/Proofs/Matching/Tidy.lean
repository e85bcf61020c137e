import Stylesheet.Proofs.Matching.Leaves
import Stylesheet.Proofs.Matching.Sets

/-!
# Tidy grammars and their sets of words

The text of a set of words in a tidy grammar is made of the texts of its
leaves, in their order, and of plain texts where a leaf is a reference to
words. As no leaf closes a quotation that one before it opens, the text is
read as itself (`IsSteadyKey.isReread`). So a catalog can be asked for tidy
grammars and for the texts in them alike (`isSteadyKey_class`).
-/

namespace Stylesheet.Grammar

open Text
open Stylesheet.Grammar.Parser

/-! ## Texts that are read as themselves -/

/-- **A text of a term or a set** in a tidy grammar. -/
structure IsSteadyKey (key : String) : Prop where
  /-- It is in small letters. -/
  small : ∀ c ∈ key.toList, IsSmall c
  /-- It is a reference, begins like one, or is made of parts. -/
  shape : IsReference key.toList ∨ IsAngle key.toList ∨
    ∃ ps, ps ≠ [] ∧ AreParts ps ∧ key.toList = joinBars ps

/-- **What begins like a reference** and is none is read as a literal. -/
theorem Parser.oneOf_angle (inside : Parser Term) {cs : List Char} (h : IsAngle cs) :
    oneOf inside cs = some (.words (lower (String.ofList cs)), []) := by
  obtain ⟨rest, rfl⟩ := List.head?_eq_some_iff.mp h.head
  have hword : word ('<' :: rest) = none := rfl
  have hrun : wordRun ('<' :: rest) = none := by
    unfold wordRun
    rw [wordsFrom, hword]
    rfl
  have hliteral : literal ('<' :: rest) =
      some (.words (lower (String.ofList ('<' :: rest))), []) := by
    have htaken : run (fun c => !endsLiteral c) (('<' :: rest) ++ []) =
        some ('<' :: rest, []) :=
      run_append (List.cons_ne_nil '<' rest) (fun c hc => by simp [(h.sticky c hc).1])
        fun _ hc => by cases hc
    rw [List.append_nil] at htaken
    unfold literal
    rw [quotedBy_of_head_ne (by simp), quotedBy_of_head_ne (by simp), htaken]
    rfl
  have hsome : someOf inside ('<' :: rest) =
      some (.words (lower (String.ofList ('<' :: rest))), []) := by
    refine someOf_single endsChoice_nil ?_
    have hgroup : group inside ('<' :: rest) = none := rfl
    have hfunction : function inside ('<' :: rest) = none := by
      unfold function
      rw [hword]
      rfl
    rw [hgroup, hfunction, h.none, hliteral]
    rfl
  have hchoice : (wordRun ('<' :: rest)).or (someOf inside ('<' :: rest)) =
      some (.words (lower (String.ofList ('<' :: rest))), []) := by
    rw [hrun, hsome]
    rfl
  rw [oneOf, separated_single hchoice rfl]
  rfl

theorem IsSteadyKey.isReread {key : String} (h : IsSteadyKey key) : IsReread key := by
  rcases h.shape with href | hangle | ⟨ps, hne, hps, hkey⟩
  · exact href.isReread h.small
  · refine ⟨.words key, ofString_of_oneOf ?_, fun _ => Iff.rfl⟩
    rw [oneOf_angle _ hangle, String.ofList_toList, lower_eq_self h.small]
  · exact hps.isReread hne hkey h.small

/-- The parts of a leaf that does not begin like a reference. -/
theorem IsLeaf.parts {cs : List Char} (h : IsLeaf cs) (hhead : cs.head? ≠ some '<') :
    ∃ ps, ps ≠ [] ∧ AreParts ps ∧ cs = joinBars ps ∧
      ∀ p ∈ ps, ∀ quote, IsQuote quote → Opens quote p → Opens quote cs := by
  cases h with
  | reference href => exact absurd href.head hhead
  | angle hangle => exact absurd hangle.head hhead
  | part hpart =>
    refine ⟨[cs], List.cons_ne_nil _ _, ⟨?_, List.pairwise_singleton _ _⟩, rfl, ?_⟩
    · simpa using hpart
    · simp
  | words hne hws =>
    refine ⟨_, hne, areParts_words hws, rfl, fun p hp quote hquote hopens => ?_⟩
    exact absurd (List.mem_of_mem_head? hopens.1) (notMem_words hquote (hws p hp).2)

theorem IsLeafKey.isSteadyKey {key : String} (h : IsLeafKey key) : IsSteadyKey key := by
  refine ⟨h.small, ?_⟩
  by_cases hhead : key.toList.head? = some '<'
  · have hleaf := h.leaf
    generalize key.toList = cs at hhead hleaf
    cases hleaf with
    | reference href => exact .inl href
    | angle hangle => exact .inr (.inl hangle)
    | part hpart => exact absurd hhead hpart.head_ne
    | words hne hws =>
      obtain ⟨w, ws, rfl⟩ := List.exists_cons_of_ne_nil hne
      have hw := (areParts_words hws).part w List.mem_cons_self
      obtain ⟨c, cs, rfl⟩ := List.exists_cons_of_ne_nil hw.ne_nil
      rw [joinBars_cons_eq] at hhead
      exact absurd hhead hw.head_ne
  · obtain ⟨ps, hne, hps, hkey, -⟩ := h.leaf.parts hhead
    exact .inr (.inr ⟨ps, hne, hps, hkey⟩)

theorem IsPlainKey.isSteadyKey {key : String} (h : IsPlainKey key) : IsSteadyKey key := by
  refine ⟨h.small, ?_⟩
  rcases h.shape with href | ⟨ps, hne, hpieces, hps⟩
  · exact .inl href
  · refine .inr (.inr ⟨ps, hne, areParts_of_plain hpieces fun p hp c hc => ?_, hps⟩)
    exact h.plain c (hps ▸ mem_joinBars_of_mem hp hc)

/-! ## The texts of sets -/

/-- **The text of a set** that is made of some leaves: its parts have the
quotes of the leaves, and open what these open. -/
structure IsSetOf (keys : List String) (text : String) : Prop where
  /-- It is in small letters. -/
  small : ∀ c ∈ text.toList, IsSmall c
  /-- It is made of parts. -/
  parts : ∃ ps, ps ≠ [] ∧ AreParts ps ∧ text.toList = joinBars ps ∧
    (∀ p ∈ ps, ∀ quote, IsQuote quote → quote ∈ p → ∃ key ∈ keys, quote ∈ key.toList) ∧
    ∀ p ∈ ps, ∀ quote, IsQuote quote → Opens quote p → ∃ key ∈ keys, Opens quote key.toList

section Sets

variable {keys keys' : List String} {text text' : String}

theorem IsSetOf.mono (h : IsSetOf keys text) (hkeys : ∀ key ∈ keys, key ∈ keys') :
    IsSetOf keys' text := by
  obtain ⟨hsmall, ps, hne, hps, htext, hquotes, hopens⟩ := h
  refine ⟨hsmall, ps, hne, hps, htext, fun p hp quote hquote hmem => ?_,
    fun p hp quote hquote hopen => ?_⟩
  · obtain ⟨key, hkey, hmem⟩ := hquotes p hp quote hquote hmem
    exact ⟨key, hkeys key hkey, hmem⟩
  · obtain ⟨key, hkey, hopen⟩ := hopens p hp quote hquote hopen
    exact ⟨key, hkeys key hkey, hopen⟩

/-- **Two sets make up one** if their leaves are apart. -/
theorem IsSetOf.join (h : IsSetOf keys text) (h' : IsSetOf keys' text')
    (hapart : ∀ key ∈ keys, ∀ key' ∈ keys', Apart key.toList key'.toList) :
    IsSetOf (keys ++ keys') (text ++ " | " ++ text') := by
  have hsmall := forall_mem_join (isSmall_of_mark (by decide)) (isSmall_of_mark (by decide))
    h.small h'.small
  obtain ⟨-, ps, hne, hps, htext, hquotes, hopens⟩ := h
  obtain ⟨-, qs, hne', hqs, htext', hquotes', hopens'⟩ := h'
  refine ⟨hsmall, ps ++ qs, List.append_ne_nil_of_left_ne_nil hne _, ⟨fun p hp => ?_, ?_⟩, ?_,
    fun p hp quote hquote hmem => ?_, fun p hp quote hquote hopen => ?_⟩
  · exact (List.mem_append.mp hp).elim (hps.part p) (hqs.part p)
  · refine List.pairwise_append.mpr ⟨hps.apart, hqs.apart, fun p hp q hq quote hquote hopen hmem => ?_⟩
    obtain ⟨key, hkey, hopen⟩ := hopens p hp quote hquote hopen
    obtain ⟨key', hkey', hmem⟩ := hquotes' q hq quote hquote hmem
    exact hapart key hkey key' hkey' quote hquote hopen hmem
  · rw [toList_join, htext, htext', joinBars_append hne hne']
  · rcases List.mem_append.mp hp with hp | hp
    · obtain ⟨key, hkey, hmem⟩ := hquotes p hp quote hquote hmem
      exact ⟨key, List.mem_append_left _ hkey, hmem⟩
    · obtain ⟨key, hkey, hmem⟩ := hquotes' p hp quote hquote hmem
      exact ⟨key, List.mem_append_right _ hkey, hmem⟩
  · rcases List.mem_append.mp hp with hp | hp
    · obtain ⟨key, hkey, hopen⟩ := hopens p hp quote hquote hopen
      exact ⟨key, List.mem_append_left _ hkey, hopen⟩
    · obtain ⟨key, hkey, hopen⟩ := hopens' p hp quote hquote hopen
      exact ⟨key, List.mem_append_right _ hkey, hopen⟩

theorem IsLeafKey.isSetOf (h : IsLeafKey text) (hhead : text.toList.head? ≠ some '<') :
    IsSetOf [text] text := by
  obtain ⟨ps, hne, hps, htext, hopens⟩ := h.leaf.parts hhead
  refine ⟨h.small, ps, hne, hps, htext, fun p hp quote _ hmem => ?_,
    fun p hp quote hquote hopen => ?_⟩
  · exact ⟨text, List.mem_cons_self, htext ▸ mem_joinBars_of_mem hp hmem⟩
  · exact ⟨text, List.mem_cons_self, hopens p hp quote hquote hopen⟩

/-- A plain text has no quotes that a leaf would have to account for. -/
theorem IsPlainKey.isSetOf (h : IsPlainKey text) (hhead : text.toList.head? ≠ some '<')
    (keys : List String) : IsSetOf keys text := by
  obtain ⟨ps, hne, hpieces, htext⟩ := h.shape.resolve_left fun href => hhead href.head
  have hquote : ∀ p ∈ ps, ∀ quote, IsQuote quote → quote ∉ p := by
    rintro p hp quote (rfl | rfl) hmem
    · exact ((hpieces p hp).chars _ hmem).2.1 rfl
    · exact ((hpieces p hp).chars _ hmem).2.2 rfl
  refine ⟨h.small, ps, hne, areParts_of_plain hpieces fun p hp c hc => ?_, htext,
    fun p hp quote hmark hmem => absurd hmem (hquote p hp quote hmark),
    fun p hp quote hmark hopen => absurd (List.mem_of_mem_head? hopen.1) (hquote p hp quote hmark)⟩
  exact h.plain c (htext ▸ mem_joinBars_of_mem hp hc)

theorem IsSetOf.isSetText (h : IsSetOf keys text) : IsSetText IsSteadyKey text := by
  obtain ⟨hsmall, ps, hne, hps, htext, -⟩ := h
  refine ⟨⟨hsmall, .inr (.inr ⟨ps, hne, hps, htext⟩)⟩, ?_⟩
  obtain ⟨p, ps, rfl⟩ := List.exists_cons_of_ne_nil hne
  have hp := hps.part p List.mem_cons_self
  obtain ⟨c, cs, rfl⟩ := List.exists_cons_of_ne_nil hp.ne_nil
  rw [htext, joinBars_cons_eq]
  exact hp.head_ne

end Sets

/-! ## The sets of a term -/

/-- The leaves of a member are some of those of all members. -/
theorem leaves_sublist {terms : List Term} {term : Term} (h : term ∈ terms) :
    term.leaves.Sublist (leavesOfAll terms) := by
  induction terms with
  | nil => cases h
  | cons first terms ih =>
    rcases List.mem_cons.mp h with rfl | h
    · exact List.sublist_append_left _ _
    · exact (ih h).trans (List.sublist_append_right _ _)

/-- **Leaves that are apart**, one from the later ones. -/
def AreApart (keys : List String) : Prop := keys.Pairwise fun key key' => Apart key.toList key'.toList

section Terms

variable {term : Term} {terms : List Term} {m : Matcher} {ms : List Matcher} {text : String}

/-- **The text that the sets among some matchers make up**, if there are
any. -/
theorem isSetOf_joinedText (hlength : terms.length = ms.length)
    (h : ∀ (i : Nat) term m, terms[i]? = some term → ms[i]? = some m → ∀ ws text,
      m = .words ws text → IsSetOf term.leaves text)
    (hapart : AreApart (leavesOfAll terms)) :
    ms.filterMap wordsText? = [] ∨ IsSetOf (leavesOfAll terms) (joinedText ms) := by
  unfold joinedText
  induction terms generalizing ms with
  | nil =>
    obtain rfl := List.length_eq_zero_iff.mp hlength.symm
    exact .inl rfl
  | cons term terms ih =>
    obtain ⟨m, ms, rfl⟩ : ∃ m ms', ms = m :: ms' := by
      cases ms with
      | nil => cases hlength
      | cons m ms => exact ⟨m, ms, rfl⟩
    obtain ⟨-, hrest, hbetween⟩ := List.pairwise_append.mp hapart
    have ih := ih (Nat.succ.inj hlength) (fun i term m => h (i + 1) term m) hrest
    have hmore : ∀ key ∈ leavesOfAll terms, key ∈ leavesOfAll (term :: terms) := fun key hkey =>
      List.mem_append_right _ hkey
    cases hwords : wordsText? m with
    | none =>
      rw [List.filterMap_cons_none hwords]
      exact ih.imp id fun hset => hset.mono hmore
    | some text =>
      obtain ⟨ws, rfl⟩ : ∃ ws, m = .words ws text := by
        cases m with
        | words ws text' =>
          cases hwords
          exact ⟨ws, rfl⟩
        | _ => cases hwords
      have hfirst := h 0 term _ rfl rfl ws text rfl
      right
      rw [List.filterMap_cons_some hwords]
      rcases ih with hnil | hset
      · rw [hnil, String.intercalate_singleton]
        exact hfirst.mono fun key hkey => List.mem_append_left _ hkey
      · cases hothers : ms.filterMap wordsText? with
        | nil =>
          rw [String.intercalate_singleton]
          exact hfirst.mono fun key hkey => List.mem_append_left _ hkey
        | cons next others =>
          rw [hothers] at hset
          rw [String.intercalate_cons_cons]
          exact hfirst.join hset hbetween

/-- The text of words that are a leaf. -/
theorem Term.Regular.isSetOf_leaf {key : String} (h : term.Regular IsLeafKey)
    (hkey : term.key? = some key) (hhead : key.toList.head? ≠ some '<') :
    IsSetOf term.leaves key := by
  cases h with
  | words htext =>
    cases hkey
    rw [lower_eq_self htext.small] at hhead ⊢
    exact htext.isSetOf hhead
  | reference hname =>
    cases hkey
    rw [lower_eq_self hname.small] at hhead ⊢
    exact hname.isSetOf hhead
  | _ => cases hkey

/-- **The text of a made set of words** is one of the leaves. -/
theorem Made.isSetOf (h : Made term m) (hterm : term.Regular IsLeafKey)
    (hapart : AreApart term.leaves) {ws : List String} (hm : m = .words ws text) :
    IsSetOf term.leaves text := by
  induction h generalizing ws text with
  | words hleaf =>
    cases hm
    obtain ⟨key, hkey, hwords⟩ := Option.bind_eq_some_iff.mp hleaf
    obtain ⟨rfl, hhead⟩ := Leaf.ofKey?_words hwords
    exact hterm.isSetOf_leaf hkey hhead
  | grammar _ hleaf htext hmade _ =>
    split_ifs at hm
    obtain ⟨key, -, hkey⟩ := Option.bind_eq_some_iff.mp hleaf
    have htable := isTableText_of_mem _ (Leaf.grammar_mem hkey)
    have hset := hmade.isSetText isPlainKey_sets (isPlainKey_sets.table _ _ htable htext) hm
    exact hset.1.isSetOf hset.2 _
  | oneOf hlength _ _ ih | someOf hlength _ ih | allOf hlength _ ih | sequence hlength _ ih =>
    obtain ⟨term, m, rfl, rfl, hm⟩ := single_of_combine hlength (· = .words ws text) hm nofun
    have hmember : term.Regular IsLeafKey := by
      cases hterm with
      | _ hmembers => exact hmembers term List.mem_cons_self
    have hsub : term.leaves.Sublist (leavesOfAll [term]) := leaves_sublist List.mem_cons_self
    exact (ih 0 term m rfl rfl hmember (hapart.sublist hsub) hm).mono fun key hkey =>
      hsub.subset hkey
  | @oneOfWords terms ms hlength hmade hany ih =>
    rcases combine_cases .oneOf _ with hms | ⟨m, hms, hm'⟩
    · cases hms.symm.trans hm
    · obtain ⟨rfl, -⟩ := List.cons.inj hms
      cases hm'.symm.trans hm
      have hmembers : ∀ term ∈ terms, term.Regular IsLeafKey := by
        cases hterm with
        | oneOf hmembers => exact hmembers
      refine (isSetOf_joinedText hlength (fun i term m hi hi' ws text hm => ?_) hapart).resolve_left ?_
      · have hmem := List.mem_of_getElem? hi
        exact ih i term m hi hi' (hmembers term hmem) (hapart.sublist (leaves_sublist hmem)) hm
      · exact filterMap_wordsText_ne_nil hany
  | _ => cases hm

/-- **A term whose leaves are apart is makable.** -/
theorem Term.Regular.makable_of_apart (h : term.Regular IsLeafKey) (hapart : AreApart term.leaves) :
    term.Makable IsSteadyKey := by
  induction h with
  | words htext => exact .words htext.isSteadyKey
  | reference hname => exact .reference hname.isSteadyKey
  | @function name body _ ih =>
    refine .function fun term hbody => ?_
    subst hbody
    exact ih term rfl hapart
  | @oneOf members hmembers ih =>
    refine .oneOf (fun term hterm => ih term hterm (hapart.sublist (leaves_sublist hterm)))
      fun ms hms hany => ?_
    refine ((isSetOf_joinedText hms.length_eq (fun i term m hi hi' ws text hm => ?_)
      hapart).resolve_left (filterMap_wordsText_ne_nil hany)).isSetText
    have hmem := List.mem_of_getElem? hi
    exact (hms.made i term m hi hi').isSetOf (hmembers term hmem)
      (hapart.sublist (leaves_sublist hmem)) hm
  | someOf _ ih => exact .someOf fun term h => ih term h (hapart.sublist (leaves_sublist h))
  | allOf _ ih => exact .allOf fun term h => ih term h (hapart.sublist (leaves_sublist h))
  | sequence _ ih => exact .sequence fun term h => ih term h (hapart.sublist (leaves_sublist h))
  | repeated _ hmin ih => exact .repeated (ih hapart) hmin
  | bracketed _ ih => exact .bracketed (ih hapart)

end Terms

/-! ## Tidy grammars -/

/-- **What a tidy grammar is read as** is makable. -/
theorem IsTidy.makable {text : String} {term : Term} (h : IsTidy text.toList)
    (hterm : Term.ofString text = .ok term) : term.Makable IsSteadyKey := by
  obtain ⟨rest, hregular, hfollow⟩ := Term.ofString_reads readable_isLeafKey h hterm
  exact hregular.makable_of_apart hfollow.apart

/-- The grammars of the tables are tidy. -/
theorem IsTableText.isTidy {text : String} (h : IsTableText text) : IsTidy text.toList := by
  rcases h with rfl | hgrammar
  · exact isTidy_of_spaces (by decide +kernel)
  · have hplain : ∀ n < 0x7F, IsPlain (Char.ofNat n) → isBlank (Char.ofNat n) = true →
        Char.ofNat n = ' ' := by decide +kernel
    intro c hc hblank
    have hspace := hplain c.toNat (hgrammar.plain.plain c hc).2.1
    rw [Char.ofNat_toNat] at hspace
    exact .inl (hspace (hgrammar.plain.plain c hc) hblank)

/-- **A catalog can be asked for tidy grammars** and for the texts in them
alike. -/
theorem isSteadyKey_class : KeyClass (fun text => IsTidy text.toList) IsSteadyKey where
  small _ h := h.small
  comma := isPlainKey_comma.isSteadyKey
  reread _ h _ := h.isReread
  grammar _ h := h.isTidy
  table _ _ h hterm := h.isTidy.makable hterm

end Stylesheet.Grammar
