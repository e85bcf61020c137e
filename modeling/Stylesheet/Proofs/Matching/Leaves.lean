import Stylesheet.Proofs.Matching.Rereading

/-!
# The texts of a tidy grammar

A text is tidy if its only blanks are those of the notation: spaces, tabs
and newlines. The texts in the terms of a tidy grammar are references, words
and single literals (`IsLeaf`), and no literal opens a quotation that a
later one closes, as the quotation would have gone on to there
(`Parser.Follow`). This is what makes the texts of sets parts that are apart.
-/

namespace Stylesheet.Grammar

open Text

variable {cs : List Char}

/-- **A tidy text**: its blanks are those of the notation. -/
def IsTidy (cs : List Char) : Prop := ∀ c ∈ cs, isBlank c = true → c = ' ' ∨ c = '\t' ∨ c = '\n'

/-- **What begins like a reference** and is none. -/
structure IsAngle (cs : List Char) : Prop where
  /-- It begins with an angle bracket. -/
  head : cs.head? = some '<'
  /-- It is a single literal. -/
  sticky : ∀ c ∈ cs, IsSticky c
  /-- No reference can be read there. -/
  none : Parser.reference cs = .none

/-- **The text of a leaf** of a tidy grammar. -/
inductive IsLeaf : List Char → Prop where
  /-- A reference. -/
  | reference {cs : List Char} : IsReference cs → IsLeaf cs
  /-- What begins like a reference. -/
  | angle {cs : List Char} : IsAngle cs → IsLeaf cs
  /-- A single literal. -/
  | part {cs : List Char} : IsPart cs → IsLeaf cs
  /-- Words with bars in between. -/
  | words {ws : List (List Char)} : ws ≠ [] →
      (∀ w ∈ ws, w ≠ [] ∧ ∀ c ∈ w, Parser.isWordChar c = true) → IsLeaf (joinBars ws)

/-- **The text of a leaf**, in small letters. -/
structure IsLeafKey (key : String) : Prop where
  /-- It is in small letters. -/
  small : ∀ c ∈ key.toList, IsSmall c
  /-- It has one of the forms. -/
  leaf : IsLeaf key.toList

/-- A text without blanks other than spaces. -/
theorem isTidy_of_spaces (h : cs.all (fun c => !isBlank c || c == ' ') = true) : IsTidy cs := by
  intro c hc hblank
  have hc := List.all_eq_true.mp h c hc
  rw [hblank] at hc
  exact .inl (by simpa using hc)

theorem IsTidy.suffix {rest : List Char} (h : IsTidy cs) (hrest : rest <:+ cs) : IsTidy rest :=
  fun c hc => h c (hrest.subset hc)

/-- In a tidy text whatever ends no literal is no blank either. -/
theorem IsTidy.isSticky (h : IsTidy cs) {c : Char} (hc : c ∈ cs)
    (hends : Parser.endsLiteral c = false) : IsSticky c := by
  refine ⟨hends, Bool.eq_false_iff.mpr fun hblank => ?_⟩
  rcases h c hc hblank with rfl | rfl | rfl <;> exact absurd hends (by decide)

theorem isSticky_lower {s : String} (h : ∀ c ∈ s.toList, IsSticky c) :
    ∀ c ∈ (lower s).toList, IsSticky c := fun c hc =>
  ⟨endsLiteral_lower (fun d hd => (h d hd).1) c hc, Bool.eq_false_iff.mpr fun hblank =>
    Bool.eq_false_iff.mp (h c (mem_of_isBlank_lower hc hblank)).2 hblank⟩

/-- A character of words stays with what stands before it. -/
theorem isSticky_of_isWordChar {c : Char} (h : Parser.isWordChar c = true) : IsSticky c := by
  have hplain := Parser.isPlain_of_isWordChar h
  have hends : ∀ n < 0x7F, Parser.isWordChar (Char.ofNat n) = true →
      Parser.endsLiteral (Char.ofNat n) = false ∧ isBlank (Char.ofNat n) = false := by
    decide +kernel
  have hc := hends c.toNat hplain.2.1
  rw [Char.ofNat_toNat] at hc
  exact hc h

theorem notMem_words {quote : Char} (hquote : IsQuote quote) {w : List Char}
    (h : ∀ c ∈ w, Parser.isWordChar c = true) : quote ∉ w := fun hmem =>
  absurd ((isWordChar_quote hquote).symm.trans (h _ hmem)) (by decide)

/-- **Words are parts.** -/
theorem areParts_words {ws : List (List Char)}
    (h : ∀ w ∈ ws, w ≠ [] ∧ ∀ c ∈ w, Parser.isWordChar c = true) : AreParts ws := by
  refine ⟨fun w hw => ?_, List.pairwise_of_forall_mem_list fun w hw _ _ quote hquote hopens =>
    absurd (List.mem_of_mem_head? hopens.1) (notMem_words hquote (h w hw).2)⟩
  refine .bare (h w hw).1 (fun hhead => ?_) (fun c hc => isSticky_of_isWordChar ((h w hw).2 c hc)) ?_
  · exact absurd ((h w hw).2 _ (List.mem_of_mem_head? hhead)) (by decide)
  · intro quote hquote hhead
    exact absurd (List.mem_of_mem_head? hhead) (notMem_words hquote (h w hw).2)

namespace Parser

variable {cs rest text : List Char} {quote : Char} {term : Term}

/-! ## Leaves -/

/-- **No reference** is read from the beginning of one that is not closed. -/
theorem reference_lower_eq_none {left : List Char} (hhead : text.head? = some '<')
    (hchars : ∀ c ∈ text, endsLiteral c = false) (hnone : reference (text ++ left) = none) :
    reference (lower (String.ofList text)).toList = none := by
  obtain ⟨cs, rfl⟩ := List.head?_eq_some_iff.mp hhead
  have hmark : IsMark '<' ∧ IsMark '>' := by decide
  rw [toList_lower_cons hmark.1]
  cases href : reference ('<' :: lowerAfter ['<'] cs) with
  | none => rfl
  | some result =>
    exfalso
    obtain ⟨inside, hne, hinside, hcs, -⟩ := reference_eq href
    have hsmall : lowerAfter ['<'] cs = inside ++ '>' :: result.2 := (List.cons.inj hcs).2
    -- so the text itself has a reference at its beginning
    have hclose : '>' ∈ cs := by
      rw [← List.count_pos_iff, ← count_lowerAfter ['<'] cs hmark.2, hsmall, List.count_pos_iff]
      simp
    have hfirst : cs.head? ≠ some '>' := by
      rw [ne_eq, ← head?_lowerAfter_mark ['<'] hmark.2, hsmall]
      obtain ⟨d, ds, rfl⟩ := List.exists_cons_of_ne_nil hne
      rintro ⟨⟩
      exact absurd (hinside '>' List.mem_cons_self) (by decide)
    obtain ⟨before, after, rfl, hbefore⟩ := List.eq_append_cons_of_mem hclose
    have hne' : before ≠ [] := by
      rintro rfl
      exact hfirst rfl
    have hangles : ∀ c ∈ before, inAngles c = true := by
      intro c hc
      have hends := hchars c (List.mem_cons_of_mem _ (List.mem_append_left _ hc))
      have hne : c ≠ '>' ∧ c ≠ '\t' ∧ c ≠ '\n' ∧ c ≠ ' ' := by
        refine ⟨?_, ?_, ?_, ?_⟩ <;> rintro rfl
        · exact hbefore hc
        all_goals exact absurd hends (by decide)
      simp [inAngles, hne]
    have happend : '<' :: (before ++ '>' :: after) ++ left =
        '<' :: before ++ '>' :: (after ++ left) := by simp
    rw [happend, reference_append hne' hangles] at hnone
    cases hnone

/-- What opens no quotation for a reader has no quote after the first. -/
theorem notMem_of_quotedBy_eq_none (h : quotedBy quote (quote :: cs) = none) : quote ∉ cs := by
  intro hmem
  obtain ⟨before, after, rfl, hbefore⟩ := List.eq_append_cons_of_mem hmem
  have hquoted := quotedBy_append hbefore after
  have happend : quote :: before ++ [quote] ++ after = quote :: (before ++ quote :: after) := by simp
  rw [happend, h] at hquoted
  cases hquoted

/-- **What is known of the leaves along a tidy text**: none opens a
quotation that a later one closes, or for which there is a quote in the
rest, and their quotes are those of the text. -/
structure Follow (cs : List Char) (keys : List String) (rest : List Char) : Prop where
  /-- None closes what one before it opens. -/
  apart : keys.Pairwise fun key key' => Apart key.toList key'.toList
  /-- What one opens the rest does not close. -/
  open_rest : ∀ key ∈ keys, Apart key.toList rest
  /-- Their quotes stand in the text. -/
  quote_mem : ∀ key ∈ keys, ∀ quote, IsQuote quote → quote ∈ key.toList → quote ∈ cs
  /-- The rest is one of the text. -/
  suffix : rest <:+ cs

theorem tracking_follow : Tracking Follow where
  nil cs rest hrest := ⟨List.Pairwise.nil, by simp, by simp, hrest⟩
  append cs keys mid keys' rest h h' := by
    refine ⟨List.pairwise_append.mpr ⟨h.apart, h'.apart, ?_⟩, ?_, ?_, h'.suffix.trans h.suffix⟩
    · intro key hkey key' hkey' quote hquote hopens hmem
      exact h.open_rest key hkey quote hquote hopens (h'.quote_mem key' hkey' quote hquote hmem)
    · intro key hkey quote hquote hopens hmem
      rcases List.mem_append.mp hkey with hkey | hkey
      · exact h.open_rest key hkey quote hquote hopens (h'.suffix.subset hmem)
      · exact h'.open_rest key hkey quote hquote hopens hmem
    · intro key hkey quote hquote hmem
      rcases List.mem_append.mp hkey with hkey | hkey
      · exact h.quote_mem key hkey quote hquote hmem
      · exact h.suffix.subset (h'.quote_mem key hkey quote hquote hmem)
  sublist cs keys keys' rest hsub h :=
    ⟨h.apart.sublist hsub, fun key hkey => h.open_rest key (hsub.subset hkey),
      fun key hkey => h.quote_mem key (hsub.subset hkey), h.suffix⟩

/-- A single leaf. -/
theorem follow_single {key : String}
    (hopen : ∀ quote, IsQuote quote → Opens quote key.toList → quote ∉ rest)
    (hmem : ∀ quote, IsQuote quote → quote ∈ key.toList → quote ∈ cs) (hrest : rest <:+ cs) :
    Follow cs [key] rest :=
  ⟨List.pairwise_singleton _ _, by simpa [Apart] using hopen, by simpa using hmem, hrest⟩

/-- A leaf without quotes. -/
theorem follow_of_notMem {key : String} (h : ∀ quote, IsQuote quote → quote ∉ key.toList)
    (hrest : rest <:+ cs) : Follow cs [key] rest :=
  follow_single (fun quote hquote hopens => absurd (List.mem_of_mem_head? hopens.1) (h quote hquote))
    (fun quote hquote hmem => absurd hmem (h quote hquote)) hrest

theorem toList_words (ws : List (List Char)) :
    (" | ".intercalate (ws.map fun w => lower (String.ofList w))).toList =
      joinBars (ws.map fun w => (lower (String.ofList w)).toList) := by
  rw [toList_intercalate_bars, List.map_map]
  rfl

/-- The small form of a word is a word. -/
theorem isWordChar_lower {w : List Char} (h : ∀ c ∈ w, isWordChar c = true) :
    ∀ c ∈ (lower (String.ofList w)).toList, isWordChar c = true := by
  have hascii : (String.ofList w).toList.all (·.toNat < 0x80) = true := by
    rw [String.toList_ofList, List.all_eq_true]
    intro c hc
    exact decide_eq_true (Nat.lt_trans (isPlain_of_isWordChar (h c hc)).2.1 (by decide))
  have hlower : ∀ n < 0x7F, isWordChar (Char.ofNat n) = true →
      isWordChar (Char.ofNat n).toLower = true := by decide +kernel
  intro c hc
  rw [lower, if_pos hascii, asciiLower, String.toList_map, String.toList_ofList] at hc
  obtain ⟨d, hd, rfl⟩ := List.mem_map.mp hc
  have hword := hlower d.toNat (isPlain_of_isWordChar (h d hd)).2.1
  rw [Char.ofNat_toNat] at hword
  exact hword (h d hd)

theorem wordRun_follow (h : wordRun cs = some (term, rest)) :
    Reads IsLeafKey Follow cs term rest := by
  have hrest := wordRun_suffix h
  obtain ⟨ws, hne, hws, rfl⟩ := wordRun_eq h
  have hsmall : ∀ w ∈ ws.map fun w => (lower (String.ofList w)).toList,
      w ≠ [] ∧ ∀ c ∈ w, isWordChar c = true := by
    intro w hw
    obtain ⟨v, hv, rfl⟩ := List.mem_map.mp hw
    refine ⟨lower_ne_empty ?_, isWordChar_lower (hws v hv).2⟩
    rw [String.toList_ofList]
    exact (hws v hv).1
  refine ⟨.words ⟨isSmall_words ws, ?_⟩, follow_of_notMem (fun quote hquote hmem => ?_) hrest⟩
  · rw [toList_words]
    exact .words (by simpa using hne) hsmall
  · rw [toList_words] at hmem
    rcases mem_joinBars hmem with rfl | rfl | ⟨w, hw, hc⟩
    · exact absurd hquote (by rintro (h | h) <;> cases h)
    · exact absurd hquote (by rintro (h | h) <;> cases h)
    · exact notMem_words hquote (hsmall w hw).2 hc

theorem reference_follow (h : reference cs = some (term, rest)) :
    Reads IsLeafKey Follow cs term rest := by
  have hrest := reference_suffix h
  obtain ⟨inside, hne, hchars, rfl, rfl⟩ := reference_eq h
  have href := isReference_lower hne hchars
  refine ⟨.reference ⟨fun _ => isSmall_of_mem_lower, .reference href⟩,
    follow_single (fun quote hquote hopens => ?_) (fun quote hquote hmem => ?_) hrest⟩
  · have hhead := href.head.symm.trans hopens.1
    rcases hquote with rfl | rfl <;> cases hhead
  · rw [mem_lower_mark hquote.isMark, String.toList_ofList] at hmem
    rcases List.mem_append.mp hmem with hmem | hmem
    · exact List.mem_append_left _ hmem
    · obtain rfl := List.mem_singleton.mp hmem
      exact List.mem_append_right _ List.mem_cons_self

theorem quotedBy_append_eq (h : quotedBy quote cs = some (text, rest)) : cs = text ++ rest := by
  obtain ⟨left, hopen, h⟩ := Option.bind_eq_some_iff.mp h
  obtain ⟨after, hclose, h⟩ := Option.bind_eq_some_iff.mp h
  cases h
  obtain ⟨tail, htail⟩ := List.takeWhile_prefix (l := left) (· != quote)
  have hdrop : (left.takeWhile (· != quote) ++ tail).drop (left.takeWhile (· != quote)).length =
      tail := List.drop_left
  rw [htail] at hdrop
  rw [hdrop] at hclose
  rw [expect_eq hopen]
  conv_lhs => rw [← htail, expect_eq hclose]
  simp

/-- **A literal in quotes.** -/
theorem quotedBy_follow (hquote : IsQuote quote) (h : quotedBy quote cs = some (text, rest)) :
    Reads IsLeafKey Follow cs (.words (lower (String.ofList text))) rest := by
  have hrest := quotedBy_suffix h
  have hcs := quotedBy_append_eq h
  obtain ⟨inside, hinside, rfl⟩ := quotedBy_eq h
  have hmark := hquote.isMark
  have hsmall : (lower (String.ofList (quote :: inside ++ [quote]))).toList =
      quote :: lowerAfter [quote] (inside ++ [quote]) := toList_lower_cons hmark _
  obtain ⟨small, hlower, -, hcount⟩ := lowerAfter_append_mark [quote] inside hmark
  rw [hlower] at hsmall
  refine ⟨.words ⟨fun _ => isSmall_of_mem_lower, .part ?_⟩,
    follow_single (fun quote' _ hopens => ?_) (fun quote' hquote' hmem => ?_) hrest⟩
  · rw [hsmall]
    refine .quoted hquote fun hmem => hinside ?_
    rwa [← List.count_pos_iff, ← hcount quote hmark, List.count_pos_iff]
  · -- the quote that opens it closes it too
    rw [hsmall] at hopens
    obtain rfl : quote = quote' := Option.some.inj hopens.1
    exact absurd (List.mem_append_right _ (List.mem_singleton_self quote)) hopens.2
  · rw [mem_lower_mark hquote'.isMark, String.toList_ofList] at hmem
    rw [hcs]
    exact List.mem_append_left _ hmem

/-- **A literal without quotes around it**, where no quotation begins. -/
theorem run_follow (hcs : IsTidy cs) (hreference : reference cs = none)
    (hnone : ∀ quote, IsQuote quote → quotedBy quote cs = none)
    (h : run (fun c => !endsLiteral c) cs = some (text, rest)) :
    Reads IsLeafKey Follow cs (.words (lower (String.ofList text))) rest := by
  have hrest := run_suffix h
  obtain ⟨hne, hchars, rfl⟩ := run_eq h
  have hends : ∀ c ∈ text, endsLiteral c = false := fun c hc => by simpa using hchars c hc
  have hsticky : ∀ c ∈ (lower (String.ofList text)).toList, IsSticky c := by
    refine isSticky_lower fun c hc => ?_
    rw [String.toList_ofList] at hc
    exact hcs.isSticky (List.mem_append_left _ hc) (hends c hc)
  have hne' : (lower (String.ofList text)).toList ≠ [] := lower_ne_empty (by
    rwa [String.toList_ofList])
  have hhead : ∀ x, IsMark x → (lower (String.ofList text)).toList.head? = some x →
      text.head? = some x := fun x hx h => by
    rwa [head?_lower_mark hx, String.toList_ofList] at h
  -- a quote at the start is the last one in the text
  have hlast : ∀ quote, IsQuote quote → text.head? = some quote → ∃ cs, text = quote :: cs ∧
      quote ∉ cs ++ rest := by
    intro quote hquote hhead
    obtain ⟨cs, rfl⟩ := List.head?_eq_some_iff.mp hhead
    exact ⟨cs, rfl, notMem_of_quotedBy_eq_none (hnone quote hquote)⟩
  refine ⟨.words ⟨fun _ => isSmall_of_mem_lower, ?_⟩,
    follow_single (fun quote hquote hopens hmem => ?_) (fun quote hquote hmem => ?_) hrest⟩
  · by_cases hangle : (lower (String.ofList text)).toList.head? = some '<'
    · refine .angle ⟨hangle, hsticky, ?_⟩
      exact reference_lower_eq_none (hhead '<' (by decide) hangle) hends hreference
    · refine .part (.bare hne' hangle hsticky fun quote hquote hopens => ⟨hopens, ?_⟩)
      obtain ⟨cs, rfl, hnot⟩ := hlast quote hquote (hhead quote hquote.isMark hopens)
      rw [toList_lower_cons hquote.isMark]
      refine fun hmem => hnot (List.mem_append_left _ ?_)
      rwa [List.tail_cons, ← List.count_pos_iff, count_lowerAfter _ _ hquote.isMark,
        List.count_pos_iff] at hmem
  · obtain ⟨cs, rfl, hnot⟩ := hlast quote hquote (hhead quote hquote.isMark hopens.1)
    exact hnot (List.mem_append_right _ hmem)
  · rw [mem_lower_mark hquote.isMark, String.toList_ofList] at hmem
    exact List.mem_append_left _ hmem

theorem literal_follow (hcs : IsTidy cs) (hreference : reference cs = none)
    (h : literal cs = some (term, rest)) : Reads IsLeafKey Follow cs term rest := by
  obtain ⟨⟨text, left⟩, htext, h⟩ := Option.bind_eq_some_iff.mp h
  cases h
  rcases Option.or_eq_some_iff.mp htext with hquoted | ⟨hnone, htext⟩
  · exact quotedBy_follow (.inl rfl) hquoted
  rcases Option.or_eq_some_iff.mp htext with hquoted | ⟨hnone', hrun⟩
  · exact quotedBy_follow (.inr rfl) hquoted
  · refine run_follow hcs hreference (fun quote hquote => ?_) hrun
    rcases hquote with rfl | rfl
    · exact hnone
    · exact hnone'

/-- **The texts in the terms of a tidy grammar** are leaves, and none opens
a quotation that a later one closes. -/
theorem readable_isLeafKey : Readable IsTidy IsLeafKey Follow where
  toTracking := tracking_follow
  rest _ _ hrest h := h.suffix hrest
  wordRun _ _ _ _ h := wordRun_follow h
  reference _ _ _ _ h := reference_follow h
  literal _ _ _ hcs hnone h := literal_follow hcs hnone h

end Parser

end Stylesheet.Grammar
