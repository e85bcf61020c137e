import Stylesheet.Proofs.Matching.Repetitions

/-!
# Matchers that are written and read again

A matcher is written as a grammar, with brackets where the surroundings bind
more strongly than it does. Where they bind as strongly, there are no brackets:
a sequence in a sequence is written like a single one, and what is repeated
and then repeated again has two multipliers in a row, which is no grammar. A
matcher without such pairs is legible (`Matcher.Legible`). It is read back from
what it is written as, in all surroundings that it fits in
(`Matcher.IsRestored`): this has one lemma for each kind of matcher.
-/

namespace Stylesheet.Grammar

open Text
open Stylesheet.Grammar.Parser

/-! ## Legible matchers -/

/-- **A text of words that can be read** wherever it stands: it is made of
parts, and none of them opens a quotation that it does not close. -/
def IsLegibleText (text : String) : Prop :=
  ∃ ps, ps ≠ [] ∧ (∀ p ∈ ps, IsPart p) ∧
    (∀ p ∈ ps, ∀ quote, IsQuote quote → ¬Opens quote p) ∧ text.toList = joinBars ps

namespace Matcher

/-- How strongly a matcher binds its members. -/
def strength : Matcher → Nat
  | .oneOf _ => strengthOneOf
  | .anyOrder _ none => strengthSomeOf
  | .anyOrder _ (some _) => strengthAllOf
  | .sequence _ | .bracketed _ => strengthSequence
  | .repeated _ _ _ => strengthMultiplier
  | _ => strengthMultiplier + 1

/-- Whether a matcher is a block in square brackets. -/
def isBlock : Matcher → Bool
  | .bracketed _ => true
  | _ => false

/-- **A matcher that can be told from its surroundings**: it does not bind just
as strongly. A block is never put in brackets, so it cannot be repeated
either. -/
structure Fits (s : Nat) (m : Matcher) : Prop where
  /-- It binds more or less strongly than what is around it. -/
  strength_ne : m.strength ≠ s
  /-- A block is not repeated. -/
  block : m.isBlock = true → s ≠ strengthMultiplier

/-- **A legible matcher**: its members can be told from their surroundings, its
words can be read, its multipliers are written without loss, and no functions
of a group are among it, which are written without their arguments. -/
inductive Legible : Matcher → Prop where
  /-- Words. -/
  | words {ws : List String} {text : String} : IsLegibleText text → Legible (.words ws text)
  /-- A basic type. -/
  | basic {type : BasicType} : Legible (.basic type)
  /-- A function that takes any arguments. -/
  | anyCall {name : String} : Legible (.function name none)
  /-- A function with a body. -/
  | function {name : String} {body : Matcher} : Legible body →
      Legible (.function name (some body))
  /-- Alternatives. -/
  | oneOf {ms : List Matcher} : (∀ m ∈ ms, Legible m) → (∀ m ∈ ms, m.Fits strengthOneOf) →
      Legible (.oneOf ms)
  /-- Some members in any order. -/
  | someOf {ms : List Matcher} : (∀ m ∈ ms, Legible m) → (∀ m ∈ ms, m.Fits strengthSomeOf) →
      Legible (.anyOrder ms none)
  /-- All members in any order. -/
  | allOf {ms : List Matcher} {marks : List Bool} : (∀ m ∈ ms, Legible m) →
      (∀ m ∈ ms, m.Fits strengthAllOf) → Legible (.anyOrder ms (some marks))
  /-- Members in a row. -/
  | sequence {ms : List Matcher} : (∀ m ∈ ms, Legible m) →
      (∀ m ∈ ms, m.Fits strengthSequence) → Legible (.sequence ms)
  /-- A repeated matcher. -/
  | repeated {inner : Matcher} {times : Multiplier} {separator : Option Matcher} :
      Legible inner → inner.Fits strengthMultiplier → times.IsLossless →
      Legible (.repeated inner times separator)
  /-- A matcher that is written by its name. -/
  | alias {name : String} {inner : Matcher} : Legible (.alias name inner)
  /-- A block in square brackets. -/
  | bracketed {inner : Matcher} : Legible inner → inner.Fits strengthSequence →
      Legible (.bracketed inner)

end Matcher

/-! ## Texts that are read back -/

/-- **A text that a matcher is read back from** in surroundings that bind with
a strength. -/
structure ReadsBack (s : Nat) (text : List Char) (m : Matcher) : Prop where
  /-- It stands for the matcher. -/
  reads : ReadsAt s text m
  /-- It begins as terms do. -/
  starts : Parser.Starts text
  /-- It begins no run of words, unless it is a set of words. -/
  firm : 1 ≤ s → m.isWords = false → Firm text
  /-- It begins no run of words that something parts from it. -/
  opening : 2 ≤ s → Parser.Opening text

/-- **A matcher that is read back** from what it is written as, in all
surroundings that it can be told from. Sets of words come first among
alternatives, and run together with them. -/
def Matcher.IsRestored (m : Matcher) : Prop :=
  ∀ s, s ≤ 5 → m.Fits s → (m.isWords = true → s ≠ 1) → ReadsBack s (m.write s).toList m

section Restoring

variable {m : Matcher} {text : List Char} {s k : Nat}

variable {ms : List Matcher} {key name : String} {terms : List Term} {term : Term}

theorem ReadsBack.bracket (hread : ReadsAt 0 text m) (hstart : Parser.Starts text)
    (hs : s ≤ 5) : ReadsBack s ("[ ".toList ++ text ++ " ]".toList) m := by
  have hfirm : Firm ("[ ".toList ++ text ++ " ]".toList) := firm_cons rfl _
  exact ⟨(hread.bracket hstart).lower hs (Nat.le_refl 5) fun _ => hfirm,
    ⟨'[', _, rfl, by decide, by decide⟩, fun _ _ => hfirm, fun _ => hfirm.opening⟩

/-- **A matcher with a text of its own level** is read back: in surroundings
that bind no more strongly than this text allows for, it is written as this
text, and in brackets in all others. -/
theorem Matcher.IsRestored.of_level (hread : ReadsAt k text m) (hk : k ≤ 5)
    (hstart : Parser.Starts text) (hfirm : 1 ≤ k → Firm text)
    (hwrite : ∀ s, s ≤ 5 → m.Fits s → s ≤ k ∧ (m.write s).toList = text ∨
      (m.write s).toList = "[ ".toList ++ text ++ " ]".toList) : m.IsRestored := by
  have hlower : ∀ s ≤ k, ReadsAt s text m := by
    intro s hle
    by_cases hzero : k = 0
    · obtain rfl : s = k := by omega
      exact hread
    · exact hread.lower hle hk fun _ => hfirm (by omega)
  intro s hs hfits hwords
  rcases hwrite s hs hfits with ⟨hle, htext⟩ | htext
  · rw [htext]
    exact ⟨hlower s hle, hstart, fun hone _ => hfirm (hone.trans hle),
      fun htwo => (hfirm (by omega)).opening⟩
  · rw [htext]
    exact ReadsBack.bracket (hlower 0 (Nat.zero_le k)) hstart hs

/-- **A matcher that is written alike in all surroundings** is read back. -/
theorem Matcher.IsRestored.of_atom (hread : ReadsAt 5 text m) (hstart : Parser.Starts text)
    (hfirm : Firm text) (hwrite : ∀ s, (m.write s).toList = text) : m.IsRestored :=
  .of_level hread (Nat.le_refl 5) hstart (fun _ => hfirm) fun s hs _ => .inl ⟨hs, hwrite s⟩

theorem Matcher.fits_zero (m : Matcher) : m.Fits 0 := by
  refine ⟨?_, fun _ => by decide⟩
  cases m with
  | anyOrder ms marks => cases marks <;> exact Nat.succ_ne_zero _
  | _ => exact Nat.succ_ne_zero _

/-- A matcher that is read back is so from what it is written as alone. -/
theorem Matcher.IsRestored.alone (h : m.IsRestored) :
    ReadsAt 0 m.display.toList m ∧ Parser.Starts m.display.toList :=
  have hzero := h 0 (by decide) m.fits_zero fun _ => by decide
  ⟨hzero.reads, hzero.starts⟩

/-! ## Words -/

theorem toList_bracket (needed : Bool) (text : String) : (Matcher.bracket needed text).toList =
    if needed then "[ ".toList ++ text.toList ++ " ]".toList else text.toList := by
  unfold Matcher.bracket
  split_ifs
  · rw [String.toList_append, String.toList_append]
  · rfl

theorem toList_partsTerm {p : List Char} (hkey : key.toList = p)
    (hsmall : ∀ c ∈ key.toList, IsSmall c) : partsTerm [p] = .words key := by
  unfold partsTerm
  rw [List.map_singleton, String.intercalate_singleton, ← hkey, String.ofList_toList,
    lower_eq_self hsmall]

theorem IsLegibleText.head_ne (h : IsLegibleText key) : key.toList.head? ≠ some '<' := by
  obtain ⟨ps, hne, hps, -, hkey⟩ := h
  rw [hkey]
  exact joinBars_head_ne_angle hne hps

theorem IsLegibleText.starts (h : IsLegibleText key) : Parser.Starts key.toList := by
  obtain ⟨ps, hne, hps, -, hkey⟩ := h
  obtain ⟨p, ps, rfl⟩ := List.exists_cons_of_ne_nil hne
  rw [hkey, joinBars_cons_eq]
  exact (Parser.IsPart.starts (hps p List.mem_cons_self)).append _

/-- **A set of words before other alternatives** is read as alternatives of
words that make it up. -/
theorem IsLegibleText.separated {tail rest : List Char} (h : IsLegibleText key)
    (hsmall : ∀ c ∈ key.toList, IsSmall c) (inside : Parser Term) (htail : EndsChoice tail)
    (hstuck : ∀ next, anyBar tail = some next → Stuck next)
    (hmore : ∀ n, tail.length ≤ n →
      more singleBar (choice inside) n tail = (terms, rest)) :
    ∃ texts : List String, texts ≠ [] ∧
      (∀ text ∈ texts, (∀ c ∈ text.toList, IsSmall c) ∧ text.toList.head? ≠ some '<') ∧
      " | ".intercalate texts = key ∧
      separated singleBar (choice inside) (key.toList ++ tail) =
        some (texts.map .words ++ terms, rest) := by
  obtain ⟨ps, hne, hps, hclosed, hkey⟩ := h
  have hparts : AreParts ps := ⟨hps, List.pairwise_of_forall_mem_list
    fun p hp q _ quote hquote hopens => absurd hopens (hclosed p hp quote hquote)⟩
  obtain ⟨fronts, hfronts, hnonempty, hflatten, hseparated⟩ :=
    separated_joinBars inside hparts hne htail
      (fun p hp quote hquote hopens => absurd hopens (hclosed p hp quote hquote)) hstuck hmore
  obtain ⟨texts, hterms, htexts, hjoin⟩ := hparts.exists_texts hkey hsmall hnonempty hflatten
  rw [hterms, ← hkey] at hseparated
  refine ⟨texts, ?_, htexts, hjoin, hseparated⟩
  rintro rfl
  rw [List.map_nil, List.map_eq_nil_iff] at hterms
  exact hfronts hterms

/-- **A set of words** is read back, outside of alternatives. -/
theorem Matcher.isRestored_words (hlegible : IsLegibleText key)
    (hsmall : ∀ c ∈ key.toList, IsSmall c) : (Matcher.words (wordsOf key) key).IsRestored := by
  have hhead := hlegible.head_ne
  have hstart := hlegible.starts
  have hmade : Made (.words key) (.words (wordsOf key) key) :=
    (made_words_iff hsmall hhead).mpr rfl
  have hread : ReadsAt 0 key.toList (.words (wordsOf key) key) := by
    intro depth _ rest hrest
    have hmore : ∀ n, rest.length ≤ n → more singleBar
        (choice (nested depth)) n rest = ([], rest) := by
      rintro (_ | n) -
      · rfl
      · rw [more, hrest.bar_eq_none.1]
    obtain ⟨texts, hne, htexts, hjoin, hread⟩ := hlegible.separated hsmall (nested depth)
      (hrest.endsChoice (by decide))
      (fun next hnext => by rw [hrest.bar_eq_none.2] at hnext; cases hnext) hmore
    rw [List.append_nil] at hread
    refine ⟨_, (made_combine_words hne htexts hjoin hsmall hhead).mpr hmade, ?_⟩
    exact congrArg (Option.map fun result => (Term.combine .oneOf result.1, result.2)) hread
  obtain ⟨ps, hne, hps, hclosed, hkey⟩ := hlegible
  intro s hs _ hone
  have hone := hone rfl
  have htext : ((Matcher.words (wordsOf key) key).write s).toList = if 1 < s ∧ ' ' ∈ key.toList then
      "[ ".toList ++ key.toList ++ " ]".toList else key.toList := by
    rw [Matcher.write, toList_bracket]
    simp [Matcher.strengthOneOf]
  rw [htext]
  split_ifs with hbracket
  · exact ReadsBack.bracket hread hstart hs
  · by_cases hzero : s = 0
    · subst hzero
      exact ⟨hread, hstart, fun h => absurd h (by decide), fun h => absurd h (by decide)⟩
    · -- a set without blanks is a single part
      obtain ⟨p, rfl⟩ : ∃ p, ps = [p] := by
        rcases ps with _ | ⟨p, _ | ⟨q, ps⟩⟩
        · exact absurd rfl hne
        · exact ⟨p, rfl⟩
        · refine absurd ⟨by omega, ?_⟩ hbracket
          rw [hkey]
          simp [joinBars]
      have hpart := hps p List.mem_cons_self
      have hclosed := hclosed p List.mem_cons_self
      rw [show key.toList = p from hkey]
      have hread : ReadsAt 5 p (.words (wordsOf key) key) :=
        readsAt_part (toList_partsTerm hkey hsmall ▸ hmade) hpart hclosed
      exact ⟨hread.lower hs (Nat.le_refl 5) (by omega), Parser.IsPart.starts hpart,
        fun _ h => Bool.noConfusion h, fun _ => Parser.IsPart.opening hpart⟩

/-! ## Combinations -/

/-- The texts of some matchers in surroundings that bind with a strength. -/
def textsAt (s : Nat) (ms : List Matcher) : List (List Char) := ms.map fun m => (m.write s).toList

theorem toList_writeAll (s : Nat) (ms : List Matcher) :
    (Matcher.writeAll s ms).map String.toList = textsAt s ms := by
  induction ms with
  | nil => rfl
  | cons m ms ih =>
    rw [Matcher.writeAll, List.map_cons, ih]
    rfl

theorem starts_textsAt (h : ∀ m ∈ ms, ReadsBack s (m.write s).toList m) :
    ∀ text ∈ textsAt s ms, Parser.Starts text := by
  intro text htext
  obtain ⟨m, hm, rfl⟩ := List.mem_map.mp htext
  exact (h m hm).starts

theorem reads_textsAt (h : ∀ m ∈ ms, ReadsBack s (m.write s).toList m) :
    List.Forall₂ (ReadsAt s) (textsAt s ms) ms := by
  rw [textsAt, List.forall₂_map_left_iff, List.forall₂_same]
  exact fun m hm => (h m hm).reads

/-- **What some matchers are written as with separators in between.** -/
structure Joined (k : Nat) (separator : List Char → Option (List Char)) (ms : List Matcher)
    (text : List Char) : Prop where
  /-- It begins as terms do. -/
  starts : Parser.Starts text
  /-- It begins no run of words. -/
  firm : 1 ≤ k → Firm text
  /-- It is read as terms that the matchers are made from. -/
  reads : ∀ depth, text.length ≤ depth → ∀ rest, Ends k rest → ∃ terms, MadeAll terms ms ∧
    separated separator (readerAt (k + 1) (nested depth)) (text ++ rest) =
      some (terms, rest)

theorem Joined.of_readsBack {separator : List Char → Option (List Char)} {sep : List Char}
    (hsep : Separates k separator sep)
    (hparting : 1 ≤ k → ∀ text, Parser.Starts text → Parting (sep ++ text))
    (htwo : 2 ≤ ms.length) (h : ∀ m ∈ ms, ReadsBack (k + 1) (m.write (k + 1)).toList m) :
    Joined k separator ms (sep.intercalate (textsAt (k + 1) ms)) := by
  match ms with
  | first :: next :: ms =>
    have hfirst := h first List.mem_cons_self
    have hnext := h next (List.mem_cons_of_mem _ List.mem_cons_self)
    have hstarts := starts_textsAt h
    have htext : sep.intercalate (textsAt (k + 1) (first :: next :: ms)) =
        (first.write (k + 1)).toList ++ after sep (textsAt (k + 1) (next :: ms)) :=
      intercalate_cons _ _ _
    refine ⟨?_, fun hk => ?_, fun depth hdepth rest hrest => ?_⟩
    · rw [htext]
      exact hfirst.starts.append _
    · rw [htext]
      refine (hfirst.opening (by omega)).firm fun tail => ?_
      have hafter : after sep (textsAt (k + 1) (next :: ms)) ++ tail =
          sep ++ ((next.write (k + 1)).toList ++
            (after sep (textsAt (k + 1) ms) ++ tail)) := by
        simp [textsAt, after]
      rw [hafter]
      exact hparting hk _ (hnext.starts.append _)
    · exact separated_join hsep (reads_textsAt h) (List.cons_ne_nil _ _) hstarts hdepth hrest

theorem combine_two {wrap : List Matcher → Matcher} (h : 2 ≤ ms.length) :
    combine wrap ms = wrap ms := by
  match ms with
  | _ :: _ :: _ => rfl

theorem Term.combine_two {wrap : List Term → Term} (h : 2 ≤ terms.length) :
    Term.combine wrap terms = wrap terms := by
  match terms with
  | _ :: _ :: _ => rfl

theorem toList_intercalate_writeAll (sep : String) (s : Nat) (ms : List Matcher) :
    (sep.intercalate (Matcher.writeAll s ms)).toList = sep.toList.intercalate (textsAt s ms) := by
  rw [String.toList_intercalate, toList_writeAll]

/-- **Members with separators in between** are read back. What is left to each
kind of them is which terms it is made from. -/
theorem Matcher.IsRestored.of_joined {whole : Matcher} (sep : String)
    {separator : List Char → Option (List Char)} (hsep : Separates k separator sep.toList)
    (hparting : 1 ≤ k → ∀ text, Parser.Starts text → Parting (sep.toList ++ text))
    (hk : k ≤ 5) (htwo : 2 ≤ ms.length)
    (hback : ∀ m ∈ ms, ReadsBack (k + 1) (m.write (k + 1)).toList m)
    (hstrength : whole.strength = k + 1)
    (hwrite : ∀ s, whole.write s = bracket (s > k + 1) (sep.intercalate (writeAll (k + 1) ms)))
    (hread : ∀ {depth cs terms rest}, MadeAll terms ms → 2 ≤ terms.length →
      (1 ≤ k → Stuck cs) →
      separated separator (readerAt (k + 1) (nested depth)) cs =
        some (terms, rest) →
      ∃ term, Made term whole ∧ readerAt k (nested depth) cs = some (term, rest)) :
    whole.IsRestored := by
  have hjoined := Joined.of_readsBack hsep hparting htwo hback
  refine .of_level (k := k) (fun depth hdepth rest hrest => ?_) hk hjoined.starts
    hjoined.firm fun s _ hfits => ?_
  · obtain ⟨terms, hterms, hread'⟩ := hjoined.reads depth hdepth rest hrest
    exact hread hterms (hterms.length_eq ▸ htwo) (fun hk => hjoined.firm hk rest) hread'
  · have hne : s ≠ k + 1 := fun hs => hfits.strength_ne (hstrength.trans hs.symm)
    rw [hwrite, toList_bracket, toList_intercalate_writeAll]
    simp only [gt_iff_lt, decide_eq_true_eq]
    split_ifs with hlt
    · exact .inr rfl
    · exact .inl ⟨by omega, rfl⟩

/-- **Some members in any order** are read back. -/
theorem Matcher.isRestored_someOf (htwo : 2 ≤ ms.length) (h : ∀ m ∈ ms, m.IsRestored)
    (hfits : ∀ m ∈ ms, m.Fits strengthSomeOf) : (Matcher.anyOrder ms none).IsRestored := by
  refine .of_joined " || " separates_bars (fun _ text _ => parting_bars text)
    (by decide) htwo (fun m hm => h m hm 2 (by decide) (hfits m hm) fun _ => by decide) rfl
    (fun _ => rfl) fun {_ _ terms _} hterms htwo' hstuck hread => ?_
  have hmade := Made.someOf hterms.length_eq hterms.made
  rw [combine_two htwo] at hmade
  refine ⟨_, hmade, ?_⟩
  rw [← show Term.combine .someOf terms = .someOf terms from Term.combine_two htwo']
  refine (choice_of_stuck (hstuck (by decide))).trans ?_
  exact congrArg (Option.map fun result => (Term.combine .someOf result.1, result.2)) hread

/-- A matcher marked as optional is written with its mark last, alike in all
surroundings. -/
theorem Matcher.write_of_isOptional {m : Matcher} (h : m.isOptional = true) (s : Nat) :
    m.write strengthMultiplier = m.write s ∧ (m.write s).toList.getLast? = some '?' := by
  cases m with
  | repeated inner times separator =>
    obtain ⟨least, greatest, marker, comma⟩ := times
    obtain rfl : marker = some .optional := by simpa [isOptional] using h
    have hmark : writeMultiplier ⟨least, greatest, some .optional, comma⟩ = "?" := rfl
    refine ⟨by rw [write, write], ?_⟩
    rw [write, hmark, String.toList_append]
    exact List.getLast?_concat
  | _ => cases h

/-- Members of which some are optional are written like any. -/
theorem Matcher.writeMarked_eq (ms : List Matcher) :
    writeMarked ms (ms.map fun m => !m.isOptional) = writeAll strengthAllOf ms := by
  induction ms with
  | nil => rfl
  | cons m ms ih =>
    rw [List.map_cons, writeMarked, writeAll, List.drop_one, List.tail_cons, ih, List.headD_cons]
    cases hoptional : m.isOptional with
    | false => rfl
    | true =>
      obtain ⟨hwrite, hlast⟩ := write_of_isOptional hoptional strengthAllOf
      rw [hwrite]
      simp [hlast]

/-- **All members in any order** are read back. -/
theorem Matcher.isRestored_allOf (htwo : 2 ≤ ms.length) (h : ∀ m ∈ ms, m.IsRestored)
    (hfits : ∀ m ∈ ms, m.Fits strengthAllOf) :
    (Matcher.anyOrder ms (some (ms.map fun m => !m.isOptional))).IsRestored := by
  refine .of_joined " && " separates_ands (fun _ text _ => parting_ands text)
    (by decide) htwo (fun m hm => h m hm 3 (by decide) (hfits m hm) fun _ => by decide) rfl
    (fun s => by rw [write, writeMarked_eq]; rfl) fun {_ _ terms _} hterms htwo' _ hread => ?_
  have hmade := Made.allOf hterms.length_eq hterms.made
  rw [combine_two htwo] at hmade
  refine ⟨_, hmade, ?_⟩
  rw [← show Term.combine .allOf terms = .allOf terms from Term.combine_two htwo']
  exact congrArg (Option.map fun result => (Term.combine .allOf result.1, result.2)) hread

/-- **A repeated matcher** is read back. -/
theorem Matcher.isRestored_repeated {inner : Matcher} {times : Multiplier}
    {separator : Option Matcher} (h : inner.IsRestored) (hfits : inner.Fits strengthMultiplier)
    (htimes : times.Proper) (hlossless : times.IsLossless)
    (hmade : ∀ term, Made term inner →
      Made (.repeated term times) (.repeated inner times separator)) :
    (Matcher.repeated inner times separator).IsRestored := by
  have hinner := h 5 (Nat.le_refl 5) hfits fun _ => by decide
  obtain ⟨⟨c, cs, hmarks, hc⟩, hreads⟩ := htimes.restores hlossless
  have htext : ∀ s, ((Matcher.repeated inner times separator).write s).toList =
      (inner.write 5).toList ++ (writeMultiplier times).toList := fun s => by
    rw [Matcher.write, String.toList_append]
    rfl
  have hparting : ∀ tail, Parting ((writeMultiplier times).toList ++ tail) := fun tail => by
    rw [hmarks]
    exact parting_mark hc _
  have hends : ∀ rest, Ends 5 ((writeMultiplier times).toList ++ rest) := fun rest => by
    rw [hmarks]
    exact .mark (Nat.le_refl 5) hc
  refine .of_level (k := 4) (hinner.reads.repeated hmade hends hreads) (by decide)
    (hinner.starts.append _) (fun _ => (hinner.opening (by decide)).firm hparting)
    fun s hs hfits => .inl ⟨?_, htext s⟩
  have hne : s ≠ 5 := fun hs => hfits.strength_ne hs.symm
  omega

/-! ## Sequences and blocks -/

/-- There are blanks in the text of several sets. -/
theorem blank_mem_joinedText (hothers : ms.filter (!·.isWords) = []) (htwo : 2 ≤ ms.length) :
    ' ' ∈ (joinedText ms).toList := by
  have hwords : ∀ m ∈ ms, ∃ text, wordsText? m = some text := fun m hm => by
    have hset := List.filter_eq_nil_iff.mp hothers m hm
    cases m with
    | words _ text => exact ⟨text, rfl⟩
    | _ => exact absurd rfl hset
  match ms with
  | first :: next :: ms =>
    obtain ⟨text, htext⟩ := hwords first List.mem_cons_self
    obtain ⟨text', htext'⟩ := hwords next (List.mem_cons_of_mem _ List.mem_cons_self)
    rw [joinedText, List.filterMap_cons_some htext, List.filterMap_cons_some htext',
      String.intercalate_cons_cons]
    simp

/-- **A term for words in quotes** is these words, whatever it is made of: no
grammar of the tables has such words, and the text of several words has
blanks. -/
theorem Made.eq_words {ws : List String} (h : Made term (.words ws key)) (hterm : term.Proper)
    (hquote : '"' ∈ key.toList) (hblank : ' ' ∉ key.toList) : term = .words key := by
  generalize hm : Matcher.words ws key = m at h
  cases h with
  | words hleaf =>
    obtain ⟨key', hkey, hwords⟩ := Option.bind_eq_some_iff.mp hleaf
    obtain ⟨rfl, hhead⟩ := Leaf.ofKey?_words hwords
    obtain ⟨-, rfl⟩ := Matcher.words.inj hm
    cases hterm with
    | words htext =>
      cases hkey
      rw [lower_eq_self htext.small]
    | reference hname hangle =>
      cases hkey
      rw [lower_eq_self hname.small] at hhead
      exact absurd hangle hhead
    | _ => cases hkey
  | grammar _ hleaf htext hmade =>
    split_ifs at hm
    obtain ⟨key', -, hkey⟩ := Option.bind_eq_some_iff.mp hleaf
    have htable := isTableText_of_mem _ (Leaf.grammar_mem hkey)
    have hplain := hmade.isSetText isPlainKey_sets (isPlainKey_sets.table _ _ htable htext) hm.symm
    exact absurd rfl (hplain.1.plain _ hquote).2.2.1
  | oneOf hlength _ _ | someOf hlength _ | allOf hlength _ | sequence hlength _ =>
    obtain ⟨_, _, rfl, -, -⟩ := single_of_combine hlength (· = .words ws key) hm.symm nofun
    cases hterm with
    | _ htwo => exact absurd htwo (Nat.lt_irrefl 1)
  | @oneOfWords terms ms hlength _ _ =>
    rcases combine_cases .oneOf _ with hms | ⟨m, hms, hm'⟩
    · cases hm.trans hms
    · obtain ⟨rfl, hothers⟩ := List.cons.inj hms
      obtain ⟨-, rfl⟩ := Matcher.words.inj (hm.trans hm')
      cases hterm with
      | oneOf htwo => exact absurd (blank_mem_joinedText hothers (hlength ▸ htwo)) hblank
  | _ => cases hm

/-- **The texts of the brackets of a block.** -/
theorem isLegibleText_bracket {c : Char} (hc : c ≠ '"') :
    IsLegibleText (String.ofList ['"', c, '"']) := by
  refine ⟨[['"', c, '"']], List.cons_ne_nil _ _, ?_, ?_, String.toList_ofList⟩
  · rintro p hp
    obtain rfl := List.mem_singleton.mp hp
    exact .quoted (.inl rfl) (show '"' ∉ [c] by simpa using hc.symm)
  · rintro p hp quote - ⟨hhead, hnot⟩
    obtain rfl := List.mem_singleton.mp hp
    obtain rfl : '"' = quote := by simpa using hhead
    exact hnot (by simp)

theorem isSmall_bracket {c : Char} (hc : IsMark c) :
    ∀ d ∈ (String.ofList ['"', c, '"']).toList, IsSmall d := by
  intro d hd
  obtain rfl | rfl | rfl : d = '"' ∨ d = c ∨ d = '"' := by simpa using hd
  · exact isSmall_of_mark (by decide)
  · exact isSmall_of_mark hc
  · exact isSmall_of_mark (by decide)

/-- What stands for the brackets of a block. -/
def openBracket : Matcher := .words (wordsOf "\"[\"") "\"[\""

/-- What stands for the brackets of a block. -/
def closeBracket : Matcher := .words (wordsOf "\"]\"") "\"]\""

theorem openBracket_isRestored : openBracket.IsRestored :=
  Matcher.isRestored_words (isLegibleText_bracket (by decide)) (isSmall_bracket (by decide))

theorem closeBracket_isRestored : closeBracket.IsRestored :=
  Matcher.isRestored_words (isLegibleText_bracket (by decide)) (isSmall_bracket (by decide))

/-- **The terms read for a sequence** are proper. -/
theorem proper_of_sequence {depth : Nat} {cs rest : List Char}
    (h : separated gapBetween (readerAt 4 (nested depth)) cs =
      some (terms, rest)) : ∀ term ∈ terms, term.Proper :=
  (separated_proper (item_proper (nested_proper depth)) h).2

/-- **A sequence** that is no block is read back. -/
theorem Matcher.isRestored_sequence (htwo : 2 ≤ ms.length)
    (hblock : ∀ m, ms ≠ [openBracket, m, closeBracket]) (h : ∀ m ∈ ms, m.IsRestored)
    (hfits : ∀ m ∈ ms, m.Fits strengthSequence) : (Matcher.sequence ms).IsRestored := by
  refine .of_joined " " separates_gap
    (fun _ text htext => parting_blank htext) (by decide) htwo
    (fun m hm => h m hm 4 (by decide) (hfits m hm) fun _ => by decide) rfl (fun _ => rfl)
    fun {_ _ terms _} hterms htwo' _ hread => ?_
  have hmade := Made.sequence hterms.length_eq hterms.made
  rw [combine_two htwo] at hmade
  refine ⟨_, hmade, ?_⟩
  have hsequence : ofSequence terms = .sequence terms := by
    unfold ofSequence
    split
    · next term =>
      exfalso
      match ms, hterms with
      | [first, m, last], hterms =>
        have hfirst := hterms.made 0 _ _ rfl rfl
        have hlast := hterms.made 2 _ _ rfl rfl
        rw [made_words_iff (isSmall_bracket (c := '[') (by decide)) (by decide)] at hfirst
        rw [made_words_iff (isSmall_bracket (c := ']') (by decide)) (by decide)] at hlast
        exact hblock m (by rw [hfirst, hlast]; rfl)
    · exact Term.combine_two htwo'
  rw [← hsequence]
  exact congrArg (Option.map fun result => (ofSequence result.1, result.2)) hread

/-- **A block in square brackets** is read back. -/
theorem Matcher.isRestored_bracketed {inner : Matcher} (h : inner.IsRestored)
    (hfits : inner.Fits strengthSequence) : (Matcher.bracketed inner).IsRestored := by
  have hmembers : ∀ m ∈ [openBracket, inner, closeBracket], ReadsBack 4 (m.write 4).toList m := by
    have hwords : ∀ ws text, (Matcher.words ws text).Fits 4 := fun _ _ =>
      ⟨show 6 ≠ 4 by decide, fun _ => by decide⟩
    intro m hm
    obtain rfl | rfl | rfl : m = openBracket ∨ m = inner ∨ m = closeBracket := by simpa using hm
    · exact openBracket_isRestored 4 (by decide) (hwords _ _) fun _ => by decide
    · exact h 4 (by decide) hfits fun _ => by decide
    · exact closeBracket_isRestored 4 (by decide) (hwords _ _) fun _ => by decide
  have hjoined : Joined 3 gapBetween [openBracket, inner, closeBracket]
      ([' '].intercalate (textsAt 4 [openBracket, inner, closeBracket])) :=
    .of_readsBack separates_gap (fun _ text htext => parting_blank htext)
      (Nat.le_add_left 2 1) hmembers
  refine .of_level (k := 3) (fun depth hdepth rest hrest => ?_) (by decide) hjoined.starts
    (fun _ => hjoined.firm (by decide)) fun s hs hfits => .inl ⟨?_, ?_⟩
  · obtain ⟨terms, hterms, hread⟩ := hjoined.reads depth hdepth rest hrest
    have hproper := proper_of_sequence hread
    match terms, hterms with
    | [first, term, last], hterms =>
      have hfirst : first = .words "\"[\"" :=
        Made.eq_words (hterms.made 0 _ _ rfl rfl) (hproper first (by simp)) (by decide) (by decide)
      have hlast : last = .words "\"]\"" :=
        Made.eq_words (hterms.made 2 _ _ rfl rfl) (hproper last (by simp)) (by decide) (by decide)
      subst hfirst hlast
      refine ⟨_, .bracketed (hterms.made 1 _ _ rfl rfl), ?_⟩
      exact congrArg (Option.map fun result => (ofSequence result.1, result.2)) hread
  · have hne : s ≠ 4 := fun hs => hfits.strength_ne hs.symm
    have hne' : s ≠ 5 := hfits.block rfl
    omega
  · rw [Matcher.write]
    simp [textsAt, openBracket, closeBracket, Matcher.write, Matcher.bracket, strengthSequence]

/-! ## Alternatives -/

/-- **Alternatives without words** are read back. -/
theorem Matcher.isRestored_oneOf (htwo : 2 ≤ ms.length) (hwords : ms.any Matcher.isWords = false)
    (h : ∀ m ∈ ms, m.IsRestored) (hfits : ∀ m ∈ ms, m.Fits strengthOneOf) :
    (Matcher.oneOf ms).IsRestored := by
  have hothers : ∀ m ∈ ms, ¬m.isWords = true := List.any_eq_false.mp hwords
  refine .of_joined " | " separates_bar (fun hzero => absurd hzero (by decide)) (by decide)
    htwo (fun m hm => h m hm 1 (by decide) (hfits m hm) fun hm' => absurd hm' (hothers m hm)) rfl
    (fun _ => rfl) fun {_ _ terms _} hterms htwo' _ hread => ?_
  have hmade := Made.oneOf hterms.length_eq hterms.made hwords
  rw [combine_two htwo] at hmade
  refine ⟨_, hmade, ?_⟩
  rw [← show Term.combine .oneOf terms = .oneOf terms from Term.combine_two htwo']
  exact congrArg (Option.map fun result => (Term.combine .oneOf result.1, result.2)) hread

theorem wordsText_eq_none {m : Matcher} (h : m.isWords = false) : wordsText? m = none := by
  cases m with
  | words ws text => cases h
  | _ => rfl

/-- **What is made from alternatives of words and others**: the words in one
set that comes first. -/
theorem made_oneOf_append {texts : List String}
    (htexts : ∀ text ∈ texts, (∀ c ∈ text.toList, IsSmall c) ∧ text.toList.head? ≠ some '<')
    (hne : texts ≠ []) (hterms : MadeAll terms ms) (hothers : ∀ m ∈ ms, m.isWords = false) :
    Made (.oneOf (texts.map .words ++ terms)) (combine .oneOf
      (.words (wordsOf (" | ".intercalate texts)) (" | ".intercalate texts) :: ms)) := by
  have hlength : (texts.map Term.words).length = (setsOf texts).length := by simp [setsOf]
  have hjoin : joinedText (setsOf texts ++ ms) = " | ".intercalate texts := by
    have hnone : ms.filterMap wordsText? = [] := List.filterMap_eq_nil_iff.mpr fun m hm =>
      wordsText_eq_none (hothers m hm)
    rw [← joinedText_setsOf, joinedText, List.filterMap_append, hnone, List.append_nil]
    rfl
  have hfilter : (setsOf texts ++ ms).filter (!·.isWords) = ms := by
    rw [List.filter_append, filter_setsOf, List.nil_append, List.filter_eq_self]
    exact fun m hm => by simp [hothers m hm]
  have hall : MadeAll (texts.map Term.words ++ terms) (setsOf texts ++ ms) := by
    refine ⟨by rw [List.length_append, List.length_append, hlength, hterms.length_eq],
      fun i term m hterm hm => ?_⟩
    by_cases hi : i < (texts.map Term.words).length
    · rw [List.getElem?_append_left hi] at hterm
      rw [List.getElem?_append_left (hlength ▸ hi)] at hm
      exact made_setsOf htexts i term m hterm hm
    · rw [List.getElem?_append_right (Nat.le_of_not_lt hi)] at hterm
      rw [List.getElem?_append_right (hlength ▸ Nat.le_of_not_lt hi), ← hlength] at hm
      exact hterms.made _ term m hterm hm
  have hmade := Made.oneOfWords hall.length_eq hall.made
    (by rw [List.any_append, any_setsOf hne, Bool.true_or])
  rwa [hjoin, hfilter] at hmade

/-- **Alternatives with words first** are read from their texts with bars in
between. -/
theorem readsAt_oneOfWords (hlegible : IsLegibleText key) (hsmall : ∀ c ∈ key.toList, IsSmall c)
    (hne : ms ≠ []) (hwords : ∀ m ∈ ms, m.isWords = false)
    (hback : ∀ m ∈ ms, ReadsBack 1 (m.write 1).toList m) :
    ReadsAt 0 (key.toList ++ after " | ".toList (textsAt 1 ms))
      (.oneOf (.words (wordsOf key) key :: ms)) := by
  intro depth hdepth rest hrest
  rw [List.length_append] at hdepth
  have hshort : ∀ text ∈ textsAt 1 ms, text.length ≤ depth := fun text ht =>
    (length_le_of_mem_after " | ".toList ht).trans (by omega)
  obtain ⟨terms, hterms, hmore⟩ := more_after separates_bar (reads_textsAt hback)
    (starts_textsAt hback) hshort hrest
  obtain ⟨first, ms, rfl⟩ := List.exists_cons_of_ne_nil hne
  have hfirst := hback first List.mem_cons_self
  have htail : after " | ".toList (textsAt 1 (first :: ms)) ++ rest =
      " | ".toList ++ ((first.write 1).toList ++
        (after " | ".toList (textsAt 1 ms) ++ rest)) := by
    simp [textsAt, after]
  have hends : Ends 1 (after " | ".toList (textsAt 1 (first :: ms)) ++ rest) :=
    htail ▸ separates_bar.ends _
  have hlength : (textsAt 1 (first :: ms)).length ≤
      (after " | ".toList (textsAt 1 (first :: ms)) ++ rest).length := by
    rw [List.length_append]
    exact (length_le_after " | ".toList (starts_textsAt hback)).trans
      (Nat.le_add_right _ _)
  have hskip : anyBar (" | ".toList ++ ((first.write 1).toList ++
      (after " | ".toList (textsAt 1 ms) ++ rest))) = some ((first.write 1).toList ++
        (after " | ".toList (textsAt 1 ms) ++ rest)) :=
    congrArg some (show skipGap (' ' :: _) = _ from (hfirst.starts.append _).skipGap_eq)
  have hstuck : ∀ next, anyBar (after " | ".toList (textsAt 1 (first :: ms)) ++
      rest) = some next → Stuck next := by
    intro next hnext
    rw [htail, hskip] at hnext
    obtain rfl := Option.some.inj hnext
    exact hfirst.firm (Nat.le_refl 1) (hwords first List.mem_cons_self) _
  obtain ⟨texts, hne, htexts, hjoin, hread⟩ := hlegible.separated hsmall (nested depth)
    (hends.endsChoice (Nat.le_refl 1)) hstuck fun n hn => hmore n (hlength.trans hn)
  have htwo : 2 ≤ (Matcher.words (wordsOf key) key :: first :: ms).length :=
    Nat.le_add_left 2 _
  have htwo' : 2 ≤ (texts.map Term.words ++ terms).length := by
    have hlength := hterms.length_eq
    have hpos := List.length_pos_iff.mpr hne
    simp only [List.length_append, List.length_map, List.length_cons] at hlength ⊢
    omega
  have hmade := made_oneOf_append htexts hne hterms hwords
  rw [hjoin, combine_two htwo] at hmade
  refine ⟨_, hmade, ?_⟩
  rw [List.append_assoc, ← show Term.combine .oneOf (texts.map .words ++ terms) =
    .oneOf (texts.map .words ++ terms) from Term.combine_two htwo']
  exact congrArg (Option.map fun result => (Term.combine .oneOf result.1, result.2)) hread

/-- **Alternatives with words first** are read back. -/
theorem Matcher.isRestored_oneOfWords (hlegible : IsLegibleText key)
    (hsmall : ∀ c ∈ key.toList, IsSmall c) (hne : ms ≠ []) (hwords : ∀ m ∈ ms, m.isWords = false)
    (h : ∀ m ∈ ms, m.IsRestored) (hfits : ∀ m ∈ ms, m.Fits strengthOneOf) :
    (Matcher.oneOf (.words (wordsOf key) key :: ms)).IsRestored := by
  have hread := readsAt_oneOfWords hlegible hsmall hne hwords fun m hm =>
    h m hm 1 (by decide) (hfits m hm) fun hm' => absurd hm' (by simp [hwords m hm])
  refine .of_level hread (by decide) (hlegible.starts.append _) nofun fun s _ hfits => ?_
  have hne : s ≠ 1 := fun hs => hfits.strength_ne hs.symm
  rw [Matcher.write, toList_bracket, toList_intercalate_writeAll,
    show textsAt strengthOneOf (.words (wordsOf key) key :: ms) = key.toList :: textsAt 1 ms from rfl,
    intercalate_cons]
  simp only [strengthOneOf, gt_iff_lt, decide_eq_true_eq]
  split_ifs with hlt
  · exact .inr rfl
  · exact .inl ⟨by omega, rfl⟩

/-! ## Leaves and functions -/

theorem key?_small (h : term.key? = some key) : ∀ c ∈ key.toList, IsSmall c := by
  cases term with
  | words text | reference name =>
    cases h
    exact fun _ => isSmall_of_mem_lower
  | _ => cases h

/-- The names of the basic types are references. -/
theorem isReference_name {type : BasicType} (h : type ∈ BasicType.all) :
    IsReference type.name.toList := by
  have hall : BasicType.all.all (fun type => type.name.toList.head? == some '<' &&
      isReference type.name.toList) = true := by decide +kernel
  have htype := List.all_eq_true.mp hall type h
  rw [Bool.and_eq_true, beq_iff_eq] at htype
  exact isReference_sound htype.1 htype.2

/-- **A reference that is written by a name** is read back from it. -/
theorem Matcher.isRestored_reference {m : Matcher} (hmade : Made (.reference name) m)
    (hname : IsReference name.toList) (hsmall : ∀ c ∈ name.toList, IsSmall c)
    (hwrite : ∀ s, m.write s = name) : m.IsRestored := by
  obtain ⟨cs, hcs⟩ := List.head?_eq_some_iff.mp hname.head
  refine .of_atom (readsAt_reference hmade hname hsmall) ⟨_, cs, hcs, by decide, by decide⟩
    ?_ fun s => congrArg String.toList (hwrite s)
  rw [hcs]
  exact firm_cons rfl cs

theorem Matcher.isRestored_basic {type : BasicType} (hleaf : term.leaf? = some (.basic type)) :
    (Matcher.basic type).IsRestored := by
  obtain ⟨key, hkey, hbasic⟩ := Option.bind_eq_some_iff.mp hleaf
  have hfound : BasicType.ofName? key = some type := by
    unfold Leaf.ofKey? at hbasic
    split at hbasic
    · cases hbasic
    · split at hbasic
      · obtain ⟨_, -, h⟩ := Option.map_eq_some_iff.mp hbasic
        cases h
      · split at hbasic
        · next hfound =>
          cases hbasic
          exact hfound
        · obtain ⟨_, -, h⟩ := Option.map_eq_some_iff.mp hbasic
          cases h
  obtain rfl : type.name = key := by simpa using List.find?_some hfound
  have hsmall : ∀ c ∈ type.name.toList, IsSmall c := key?_small hkey
  refine isRestored_reference ((Made.basic hleaf).of_key_eq hkey ?_)
    (isReference_name (List.mem_of_find?_eq_some hfound)) hsmall fun s => rfl
  exact congrArg some (lower_eq_self hsmall)

theorem starts_name (hname : IsFunctionName name) (cs : List Char) :
    Parser.Starts (name.toList ++ cs) := by
  obtain ⟨c, w, hw⟩ := List.exists_cons_of_ne_nil hname.ne_nil
  have hc := hname.chars c (hw ▸ List.mem_cons_self)
  refine ⟨c, w ++ cs, by rw [hw]; rfl, (isSticky_of_isWordChar hc).2, fun hmem => ?_⟩
  have hall : "&|)]".toList.all (fun c => !isWordChar c) = true := by decide
  have hnot := List.all_eq_true.mp hall c hmem
  rw [hc] at hnot
  cases hnot

theorem Matcher.isRestored_call (hname : IsFunctionName name) :
    (Matcher.function name none).IsRestored := by
  refine .of_atom (readsAt_call hname) (starts_name hname _) (firm_call hname _)
    fun s => ?_
  rw [Matcher.write, Matcher.writeFunction, String.toList_append]

theorem Matcher.isRestored_function {body : Matcher} (hname : IsFunctionName name)
    (h : body.IsRestored) : (Matcher.function name (some body)).IsRestored := by
  refine .of_atom (h.alone.1.function hname h.alone.2) ?_ ?_ fun s => ?_
  · rw [List.append_assoc, List.append_assoc]
    exact starts_name hname _
  · rw [List.append_assoc, List.append_assoc]
    exact firm_call hname _
  · rw [Matcher.write, Matcher.writeFunction]
    simp only [String.toList_append]
    rfl

end Restoring

end Stylesheet.Grammar
