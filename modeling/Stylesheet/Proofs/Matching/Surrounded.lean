import Stylesheet.Proofs.Matching.Proper
import Stylesheet.Proofs.Matching.Sets

/-!
# Texts in surroundings

A grammar that is written is read piece by piece, each piece by the reader
for what stands in its surroundings (`Parser.readerAt`). A piece stands for a
matcher if it is read as a term that the matcher is made from, before whatever
can follow it there (`Parser.ReadsAt`, `Parser.Ends`): the more strongly the surroundings bind,
the more can follow. What is read in strong surroundings is read in weaker
ones (`Parser.ReadsAt.lower`), pieces with separators between them are read
one by one (`Parser.separated_join`), and a piece in brackets is read
anywhere (`Parser.ReadsAt.bracket`).

Alternatives need more care, as runs of words are tried first. A piece that is
no set of words must not begin with a run of words, whatever follows it; and a
piece that does may end there only where it is a set of words as a whole
(`Parser.Stuck`, `Parser.Parting`).
-/

namespace Stylesheet.Grammar

open Text

namespace Parser

variable {s : Nat} {c : Char} {cs rest tail text : List Char} {term : Term} {m : Matcher}

/-! ## What follows -/

/-- **What can follow a text** in surroundings that bind with a strength. -/
inductive Ends : Nat → List Char → Prop where
  /-- Nothing. -/
  | nil {s : Nat} : Ends s []
  /-- A bracket that closes the surroundings. -/
  | close {s : Nat} {c : Char} {cs : List Char} : c ∈ ")]".toList → Ends s (' ' :: c :: cs)
  /-- Another alternative. -/
  | bar {s : Nat} {cs : List Char} : 1 ≤ s → Ends s (' ' :: '|' :: ' ' :: cs)
  /-- Another of some members in any order. -/
  | bars {s : Nat} {cs : List Char} : 2 ≤ s → Ends s (' ' :: '|' :: '|' :: cs)
  /-- Another of all members in any order. -/
  | ands {s : Nat} {cs : List Char} : 3 ≤ s → Ends s (' ' :: '&' :: '&' :: cs)
  /-- Another term of a sequence. -/
  | blank {s : Nat} {cs : List Char} : 4 ≤ s → Ends s (' ' :: cs)
  /-- A multiplier. -/
  | mark {s : Nat} {c : Char} {cs : List Char} : 5 ≤ s → c ∈ "?*+#\x7b".toList → Ends s (c :: cs)

namespace Ends

theorem mono {s' : Nat} (h : Ends s rest) (hle : s ≤ s') : Ends s' rest := by
  cases h with
  | nil => exact .nil
  | close hc => exact .close hc
  | bar hs => exact .bar (hs.trans hle)
  | bars hs => exact .bars (hs.trans hle)
  | ands hs => exact .ands (hs.trans hle)
  | blank hs => exact .blank (hs.trans hle)
  | mark hs hc => exact .mark (hs.trans hle) hc

theorem endsLiteral (h : Ends s rest) (hc : rest.head? = some c) : endsLiteral c = true := by
  have hmarks : "?*+#\x7b".toList.all Parser.endsLiteral = true := by decide
  cases h with
  | nil => cases hc
  | mark _ hmark =>
    cases hc
    exact List.all_eq_true.mp hmarks _ hmark
  | _ =>
    cases hc
    decide

theorem head_ne (h : Ends s rest) : rest.head? ≠ some '(' := by
  cases h with
  | mark _ hmark =>
    rintro ⟨⟩
    exact absurd hmark (by decide)
  | _ => simp

theorem multiplier_eq_none (h : Ends s rest) (hs : s ≤ 4) : multiplier rest = none := by
  cases h with
  | mark hle => exact absurd (hle.trans hs) (by decide)
  | _ => rfl

theorem gapBetween_eq_none (h : Ends s rest) (hs : s ≤ 3) : gapBetween rest = none := by
  cases h with
  | nil => rfl
  | close hc =>
    obtain rfl | rfl : _ = ')' ∨ _ = ']' := by simpa using hc
    · simp [gapBetween, skipGap, isGap]
    · simp [gapBetween, skipGap, isGap]
  | blank hle | mark hle => exact absurd (hle.trans hs) (by decide)
  | _ => simp [gapBetween, skipGap, isGap]

theorem ands_eq_none (h : Ends s rest) (hs : s ≤ 2) : expectSpaced "&&" rest = none := by
  cases h with
  | close hc =>
    obtain rfl | rfl : _ = ')' ∨ _ = ']' := by simpa using hc
    · rfl
    · rfl
  | ands hle | blank hle | mark hle => exact absurd (hle.trans hs) (by decide)
  | _ => rfl

theorem bars_eq_none (h : Ends s rest) (hs : s ≤ 1) : expectSpaced "||" rest = none := by
  cases h with
  | close hc =>
    obtain rfl | rfl : _ = ')' ∨ _ = ']' := by simpa using hc
    · rfl
    · rfl
  | bars hle | ands hle | blank hle | mark hle => exact absurd (hle.trans hs) (by decide)
  | _ => rfl

/-- No alternative follows outside of alternatives. -/
theorem bar_eq_none (h : Ends 0 rest) : singleBar rest = none ∧ anyBar rest = none := by
  cases h with
  | nil => exact ⟨rfl, rfl⟩
  | close hc =>
    obtain rfl | rfl : _ = ')' ∨ _ = ']' := by simpa using hc
    · exact ⟨rfl, rfl⟩
    · exact ⟨rfl, rfl⟩
  | bar hle | bars hle | ands hle | blank hle | mark hle => exact absurd hle (by decide)

theorem runMayEnd_eq_true (h : Ends s rest) (hs : s ≤ 1) : runMayEnd rest = true := by
  have hblank : isBlank ' ' = true := by decide
  cases h with
  | nil => rfl
  | close hc =>
    obtain rfl | rfl : _ = ')' ∨ _ = ']' := by simpa using hc
    · simp [runMayEnd, hblank, show isBlank ')' = false by decide]
    · simp [runMayEnd, hblank, show isBlank ']' = false by decide]
  | bar => rfl
  | bars hle | ands hle | blank hle | mark hle => exact absurd (hle.trans hs) (by decide)

/-- **An alternative may end** before what can follow it. -/
theorem endsChoice (h : Ends s rest) (hs : s ≤ 1) : EndsChoice rest where
  head _ hc := h.endsLiteral hc
  run := h.runMayEnd_eq_true hs
  multiplier := h.multiplier_eq_none (hs.trans (by decide))
  gap := h.gapBetween_eq_none (hs.trans (by decide))
  spaced := ⟨h.ands_eq_none (hs.trans (by decide)), h.bars_eq_none hs⟩

end Ends

/-! ## Readers for surroundings -/

/-- An item without its multiplier. -/
def atom (inside : Parser Term) : Parser Term := fun cs =>
  (group inside cs).or ((function inside cs).or ((reference cs).or (literal cs)))

/-- An alternative. -/
def choice (inside : Parser Term) : Parser Term := fun cs =>
  (wordRun cs).or (someOf inside cs)

theorem item_of_atom {inside : Parser Term} (h : atom inside cs = some (term, tail))
    {times : Multiplier} (htimes : multiplier tail = some (times, rest)) :
    item inside cs = some (.repeated term times, rest) := by
  unfold atom at h
  unfold item
  simp only [h, Option.bind_eq_bind, Option.bind_some, htimes]
  rfl

theorem item_of_atom_alone {inside : Parser Term} (h : atom inside cs = some (term, rest))
    (hrest : multiplier rest = none) : item inside cs = some (term, rest) := by
  unfold atom at h
  unfold item
  simp only [h, Option.bind_eq_bind, Option.bind_some, hrest]
  rfl

theorem choice_of_stuck {inside : Parser Term} (h : Stuck cs) :
    choice inside cs = someOf inside cs := by
  unfold choice
  rw [h.wordRun_eq_none, Option.none_or]

/-- **The reader for what stands in surroundings** that bind with a strength. -/
def readerAt : Nat → Parser Term → Parser Term
  | 0, inside => oneOf inside
  | 1, inside => choice inside
  | 2, inside => allOf inside
  | 3, inside => sequence inside
  | 4, inside => item inside
  | _, inside => atom inside

/-- **A text that a matcher can be read from** in surroundings that bind with a
strength: it is read as a term that the matcher is made from. -/
def ReadsAt (s : Nat) (text : List Char) (m : Matcher) : Prop :=
  ∀ depth, text.length ≤ depth → ∀ rest, Ends s rest →
    ∃ term, Made term m ∧ readerAt s (nested depth) (text ++ rest) = some (term, rest)

/-- **A text that begins no run of words** whatever follows it. -/
def Firm (text : List Char) : Prop := ∀ tail, Stuck (text ++ tail)

/-- What is read in some surroundings is read in those that bind less. -/
theorem ReadsAt.step (h : ReadsAt (s + 1) text m) (hs : s ≤ 4) (hfirm : s = 1 → Firm text) :
    ReadsAt s text m := by
  intro depth hdepth rest hrest
  obtain ⟨term, hmade, hread⟩ := h depth hdepth rest (hrest.mono (Nat.le_succ s))
  refine ⟨term, hmade, ?_⟩
  match s with
  | 0 =>
    have hone := separated_single hread hrest.bar_eq_none.1
    exact congrArg (Option.map fun result => (Term.combine .oneOf result.1, result.2)) hone
  | 1 =>
    have hone := separated_single hread
      (hrest.bars_eq_none (Nat.le_refl _))
    refine (choice_of_stuck (hfirm rfl rest)).trans ?_
    exact congrArg (Option.map fun result => (Term.combine .someOf result.1, result.2)) hone
  | 2 =>
    have hone := separated_single hread
      (hrest.ands_eq_none (Nat.le_refl _))
    exact congrArg (Option.map fun result => (Term.combine .allOf result.1, result.2)) hone
  | 3 =>
    have hone := separated_single hread
      (hrest.gapBetween_eq_none (Nat.le_refl _))
    refine (congrArg (Option.map fun result => (ofSequence result.1, result.2)) hone).trans ?_
    rw [Option.map_some, ofSequence_singleton]
  | 4 => exact item_of_atom_alone hread (hrest.multiplier_eq_none (Nat.le_refl _))

/-- **What is read in strong surroundings** is read in weaker ones. -/
theorem ReadsAt.lower {s' : Nat} (h : ReadsAt s' text m) (hle : s ≤ s') (hs : s' ≤ 5)
    (hfirm : s ≤ 1 → Firm text) : ReadsAt s text m := by
  obtain ⟨n, rfl⟩ := Nat.exists_eq_add_of_le hle
  induction n with
  | zero => exact h
  | succ n ih =>
    have hread : ReadsAt (s + n + 1) text m := h
    exact ih (hread.step (by omega) fun hone => hfirm (by omega)) (by omega) (by omega)

/-! ## Beginnings -/

/-- **How the texts of terms begin**: with no blank, and with nothing that
combines or closes. -/
def Starts (text : List Char) : Prop :=
  ∃ c cs, text = c :: cs ∧ isBlank c = false ∧ c ∉ "&|)]".toList

theorem Starts.append (h : Starts text) (cs : List Char) : Starts (text ++ cs) := by
  obtain ⟨c, text, rfl, hblank, hc⟩ := h
  exact ⟨c, text ++ cs, rfl, hblank, hc⟩

theorem Starts.skipGap_eq (h : Starts cs) : skipGap cs = cs := by
  obtain ⟨c, cs, rfl, hblank, -⟩ := h
  have hgap : isGap c = false := Bool.eq_false_iff.mpr fun hgap =>
    Bool.eq_false_iff.mp hblank (isBlank_of_isGap hgap)
  rw [skipGap, List.dropWhile_cons, hgap, if_neg (by decide)]

theorem Starts.head_ne (h : Starts cs) {d : Char} (hd : d ∈ "&|)]".toList) :
    cs.head? ≠ some d := by
  obtain ⟨c, cs, rfl, -, hc⟩ := h
  rintro ⟨⟩
  exact hc hd

theorem IsPart.starts {p : List Char} (h : IsPart p) : Starts p := by
  obtain ⟨c, p, rfl⟩ := List.exists_cons_of_ne_nil h.ne_nil
  obtain ⟨hends, hblank⟩ := h.sticky_head
  have hall : "&|)]".toList.all Parser.endsLiteral = true := by decide
  refine ⟨c, p, rfl, hblank, fun hmem => ?_⟩
  exact absurd (List.all_eq_true.mp hall c hmem) (by rw [hends]; decide)

/-! ## Separators -/

/-- **A separator of what stands in surroundings**: what it is written as
leads on to the next text, and where the surroundings end there is none. -/
structure Separates (s : Nat) (separator : List Char → Option (List Char)) (sep : List Char) :
    Prop where
  /-- It leads on to the next text. -/
  next : ∀ text, Starts text → separator (sep ++ text) = some text
  /-- A text ends before it. -/
  ends : ∀ cs, Ends (s + 1) (sep ++ cs)
  /-- There is none where the surroundings end. -/
  stop : ∀ rest, Ends s rest → separator rest = none

theorem separates_gap : Separates 3 gapBetween [' '] where
  next text h := by
    have hskip : skipGap (' ' :: text) = text := h.skipGap_eq
    obtain ⟨c, cs, rfl, -, hc⟩ := h
    have hnone : (some c).any (fun c => c == '&' || c == '|' || c == ')' || c == ']') = false := by
      simp only [Option.any_some, Bool.or_eq_false_iff, beq_eq_false_iff_ne]
      exact ⟨⟨⟨fun h => hc (h ▸ by decide), fun h => hc (h ▸ by decide)⟩,
        fun h => hc (h ▸ by decide)⟩, fun h => hc (h ▸ by decide)⟩
    unfold gapBetween
    rw [List.cons_append, List.nil_append, hskip]
    simp [hnone]
  ends _ := .blank (by decide)
  stop _ h := h.gapBetween_eq_none (by decide)

theorem separates_ands : Separates 2 (expectSpaced "&&") " && ".toList where
  next text h := congrArg some (show skipGap (' ' :: text) = text from h.skipGap_eq)
  ends _ := .ands (by decide)
  stop _ h := h.ands_eq_none (by decide)

theorem separates_bars : Separates 1 (expectSpaced "||") " || ".toList where
  next text h := congrArg some (show skipGap (' ' :: text) = text from h.skipGap_eq)
  ends _ := .bars (by decide)
  stop _ h := h.bars_eq_none (by decide)

theorem separates_bar : Separates 0 singleBar " | ".toList where
  next text h := congrArg some (show skipGap (' ' :: text) = text from h.skipGap_eq)
  ends _ := .bar (by decide)
  stop _ h := h.bar_eq_none.1

/-- Texts after a first one, each after a separator. -/
def after (sep : List Char) (texts : List (List Char)) : List Char := texts.flatMap (sep ++ ·)

theorem intercalate_cons (sep text : List Char) (texts : List (List Char)) :
    sep.intercalate (text :: texts) = text ++ after sep texts := by
  induction texts generalizing text with
  | nil => simp [List.intercalate, after]
  | cons next texts ih =>
    rw [List.intercalate_cons_cons, ih]
    simp [after]

section Join

variable {separator : List Char → Option (List Char)} {sep : List Char}
  {texts : List (List Char)} {ms : List Matcher} {depth : Nat}

/-- **Texts after separators** are read one by one. -/
theorem more_after (h : Separates s separator sep)
    (hreads : List.Forall₂ (ReadsAt (s + 1)) texts ms) (hstarts : ∀ text ∈ texts, Starts text)
    (hdepth : ∀ text ∈ texts, text.length ≤ depth) (hrest : Ends s rest) :
    ∃ terms, MadeAll terms ms ∧ ∀ fuel, texts.length ≤ fuel →
      more separator (readerAt (s + 1) (nested depth)) fuel (after sep texts ++ rest) =
        (terms, rest) := by
  induction hreads with
  | nil =>
    refine ⟨[], .nil, fun fuel _ => ?_⟩
    cases fuel with
    | zero => rfl
    | succ fuel =>
      have hstop : separator (after sep [] ++ rest) = none := h.stop rest hrest
      rw [more, hstop]
      rfl
  | @cons text m texts ms hread hreads ih =>
    have hstart := hstarts text List.mem_cons_self
    have hnext : separator (after sep (text :: texts) ++ rest) =
        some (text ++ (after sep texts ++ rest)) := by
      rw [← h.next _ (hstart.append _)]
      simp [after]
    have hends : Ends (s + 1) (after sep texts ++ rest) := by
      cases texts with
      | nil => exact hrest.mono (Nat.le_succ s)
      | cons next texts =>
        have hcs : after sep (next :: texts) ++ rest = sep ++ (next ++ after sep texts ++ rest) := by
          simp [after]
        rw [hcs]
        exact h.ends _
    obtain ⟨terms, hterms, hmore⟩ := ih (fun text ht => hstarts text (List.mem_cons_of_mem _ ht))
      fun text ht => hdepth text (List.mem_cons_of_mem _ ht)
    obtain ⟨term, hmade, hfirst⟩ := hread depth (hdepth text List.mem_cons_self) _ hends
    refine ⟨term :: terms, .cons hmade hterms, fun fuel hfuel => ?_⟩
    cases fuel with
    | zero => exact absurd hfuel (Nat.not_succ_le_zero _)
    | succ fuel =>
      rw [more, hnext]
      dsimp only
      rw [hfirst]
      dsimp only
      rw [hmore fuel (Nat.le_of_succ_le_succ hfuel)]

theorem length_le_after (sep : List Char) (hstarts : ∀ text ∈ texts, Starts text) :
    texts.length ≤ (after sep texts).length := by
  induction texts with
  | nil => exact Nat.zero_le _
  | cons text texts ih =>
    have ih := ih fun text ht => hstarts text (List.mem_cons_of_mem _ ht)
    obtain ⟨c, cs, rfl, -⟩ := hstarts text List.mem_cons_self
    simp only [after, List.flatMap_cons, List.length_append, List.length_cons] at ih ⊢
    omega

theorem length_le_of_mem_after (sep : List Char) {text : List Char} (h : text ∈ texts) :
    text.length ≤ (after sep texts).length := by
  have hmem : (sep ++ text).length ≤ (after sep texts).length :=
    (List.sublist_flatten_of_mem (List.mem_map_of_mem h)).length_le
  rw [List.length_append] at hmem
  omega

/-- **Texts with separators between them** are read one by one. -/
theorem separated_join (h : Separates s separator sep)
    (hreads : List.Forall₂ (ReadsAt (s + 1)) texts ms) (hne : texts ≠ [])
    (hstarts : ∀ text ∈ texts, Starts text) (hdepth : (sep.intercalate texts).length ≤ depth)
    (hrest : Ends s rest) : ∃ terms, MadeAll terms ms ∧
      separated separator (readerAt (s + 1) (nested depth)) (sep.intercalate texts ++ rest) =
        some (terms, rest) := by
  cases hreads with
  | nil => exact absurd rfl hne
  | @cons text m texts ms hread hreads =>
    rw [intercalate_cons] at hdepth ⊢
    rw [List.length_append] at hdepth
    have hstarts' : ∀ text ∈ texts, Starts text := fun text ht =>
      hstarts text (List.mem_cons_of_mem _ ht)
    have hends : Ends (s + 1) (after sep texts ++ rest) := by
      cases texts with
      | nil => exact hrest.mono (Nat.le_succ s)
      | cons next texts =>
        have hcs : after sep (next :: texts) ++ rest = sep ++ (next ++ after sep texts ++ rest) := by
          simp [after]
        rw [hcs]
        exact h.ends _
    have hlength := length_le_after sep hstarts'
    obtain ⟨term, hmade, hfirst⟩ := hread depth (by omega) _ hends
    have hshort : ∀ text ∈ texts, text.length ≤ depth := fun text ht =>
      (length_le_of_mem_after sep ht).trans (by omega)
    obtain ⟨terms, hterms, hmore⟩ := more_after h hreads hstarts' hshort hrest
    have hmore := hmore (after sep texts ++ rest).length (by rw [List.length_append]; omega)
    refine ⟨term :: terms, .cons hmade hterms, ?_⟩
    unfold separated
    rw [List.append_assoc]
    simp only [hfirst, Option.bind_eq_bind, Option.bind_some, hmore]
    rfl

end Join

/-! ## Brackets, functions and literals -/

/-- What stands in brackets is read by the reader for brackets. -/
theorem nested_eq {depth : Nat} (h : 0 < depth) :
    nested depth = oneOf (nested (depth - 1)) := by
  obtain ⟨n, rfl⟩ := Nat.exists_eq_succ_of_ne_zero h.ne'
  rfl

theorem ReadsAt.nested (h : ReadsAt 0 text m) {depth : Nat} (hdepth : text.length < depth)
    {close : Char} (hclose : close ∈ ")]".toList) (rest : List Char) : ∃ term, Made term m ∧
      nested depth (text ++ ' ' :: close :: rest) = some (term, ' ' :: close :: rest) := by
  rw [nested_eq (by omega)]
  exact h (depth - 1) (by omega) _ (.close hclose)

/-- **A text in square brackets** stands for what it stands for alone. -/
theorem ReadsAt.bracket (h : ReadsAt 0 text m) (hstart : Starts text) :
    ReadsAt 5 ("[ ".toList ++ text ++ " ]".toList) m := by
  intro depth hdepth rest _
  have hcs : "[ ".toList ++ text ++ " ]".toList ++ rest =
      '[' :: ' ' :: (text ++ ' ' :: ']' :: rest) := by simp
  have hskip : skipGap (' ' :: (text ++ ' ' :: ']' :: rest)) = text ++ ' ' :: ']' :: rest :=
    (hstart.append _).skipGap_eq
  have hopen : expect '[' ('[' :: ' ' :: (text ++ ' ' :: ']' :: rest)) =
      some (' ' :: (text ++ ' ' :: ']' :: rest)) := rfl
  have hclose : expect ']' (skipGap (' ' :: ']' :: rest)) = some rest := rfl
  have hshort : text.length < depth := by
    simp at hdepth
    omega
  obtain ⟨term, hmade, hinside⟩ := h.nested hshort (show ']' ∈ ")]".toList by decide) rest
  have hgroup : group (Parser.nested depth) ('[' :: ' ' :: (text ++ ' ' :: ']' :: rest)) =
      some (term, rest) := by
    unfold group
    simp only [hopen, hskip, hinside, hclose, Option.bind_eq_bind, Option.bind_some]
    rfl
  refine ⟨term, hmade, ?_⟩
  rw [hcs]
  show atom (Parser.nested depth) _ = _
  unfold atom
  rw [hgroup, Option.some_or]

section Functions

variable {name : String}

theorem word_of_name (hname : IsFunctionName name) (cs : List Char) :
    word (name.toList ++ '(' :: cs) = some (name.toList, '(' :: cs) := by
  refine run_append hname.ne_nil hname.chars ?_
  rintro c ⟨⟩
  decide

/-- A name begins neither a group nor anything else. -/
theorem group_of_name (inside : Parser Term) (hname : IsFunctionName name) (cs : List Char) :
    group inside (name.toList ++ cs) = none := by
  obtain ⟨c, w, hw⟩ := List.exists_cons_of_ne_nil hname.ne_nil
  have hc := hname.chars c (hw ▸ List.mem_cons_self)
  have hne : (name.toList ++ cs).head? ≠ some '[' := by
    rw [hw]
    rintro ⟨⟩
    exact absurd hc (by decide)
  unfold group
  rw [expect_eq_none hne]
  rfl

/-- **A function without a body** stands for itself. -/
theorem readsAt_call (hname : IsFunctionName name) :
    ReadsAt 5 (name.toList ++ "()".toList) (.function name none) := by
  intro depth _ rest _
  have hcs : name.toList ++ "()".toList ++ rest = name.toList ++ '(' :: ')' :: rest := by simp
  have hopen : expect '(' ('(' :: ')' :: rest) = some (')' :: rest) := rfl
  have hclose : expect ')' (skipGap (')' :: rest)) = some rest := rfl
  have hfunction : function (Parser.nested depth) (name.toList ++ '(' :: ')' :: rest) =
      some (.function name none, rest) := by
    unfold function
    simp only [word_of_name hname, hopen, hclose, Option.bind_eq_bind, Option.bind_some,
      String.ofList_toList, lower_eq_self hname.small]
    rfl
  refine ⟨_, .anyCall, ?_⟩
  rw [hcs]
  show atom (Parser.nested depth) _ = _
  unfold atom
  rw [group_of_name _ hname, hfunction, Option.none_or, Option.some_or]

/-- **A function with a body** stands for one with the body that the text of
the body stands for. -/
theorem ReadsAt.function (h : ReadsAt 0 text m) (hname : IsFunctionName name)
    (hstart : Starts text) :
    ReadsAt 5 (name.toList ++ "( ".toList ++ text ++ " )".toList) (.function name (some m)) := by
  intro depth hdepth rest _
  have hcs : name.toList ++ "( ".toList ++ text ++ " )".toList ++ rest =
      name.toList ++ '(' :: ' ' :: (text ++ ' ' :: ')' :: rest) := by simp
  have hopen : expect '(' ('(' :: ' ' :: (text ++ ' ' :: ')' :: rest)) =
      some (' ' :: (text ++ ' ' :: ')' :: rest)) := rfl
  have hskip : skipGap (' ' :: (text ++ ' ' :: ')' :: rest)) = text ++ ' ' :: ')' :: rest :=
    (hstart.append _).skipGap_eq
  have hbody : expect ')' (text ++ ' ' :: ')' :: rest) = none :=
    expect_eq_none ((hstart.append _).head_ne (by decide))
  have hclose : expect ')' (skipGap (' ' :: ')' :: rest)) = some rest := rfl
  have hshort : text.length < depth := by
    simp at hdepth
    omega
  obtain ⟨term, hmade, hinside⟩ := h.nested hshort (show ')' ∈ ")]".toList by decide) rest
  have hfunction : Parser.function (Parser.nested depth)
      (name.toList ++ '(' :: ' ' :: (text ++ ' ' :: ')' :: rest)) =
        some (.function name (some term), rest) := by
    unfold Parser.function
    simp only [word_of_name hname, hopen, hskip, hbody, hinside, hclose, Option.bind_eq_bind,
      Option.bind_some, String.ofList_toList, lower_eq_self hname.small]
    rfl
  refine ⟨_, .function hmade, ?_⟩
  rw [hcs]
  show atom (Parser.nested depth) _ = _
  unfold atom
  rw [group_of_name _ hname, hfunction, Option.none_or, Option.some_or]

end Functions

/-- **A reference** stands for what is made from it. -/
theorem readsAt_reference {name : String} (hmade : Made (.reference name) m)
    (hname : IsReference name.toList) (hsmall : ∀ c ∈ name.toList, IsSmall c) :
    ReadsAt 5 name.toList m := by
  intro depth _ rest _
  obtain ⟨inside, hne, hchars, htext⟩ := hname
  have hword : word ('<' :: inside ++ '>' :: rest) = none := rfl
  have hgroup : group (Parser.nested depth) ('<' :: inside ++ '>' :: rest) = none := rfl
  have hfunction : function (Parser.nested depth) ('<' :: inside ++ '>' :: rest) = none := by
    unfold function
    rw [hword]
    rfl
  have hcs : name.toList ++ rest = '<' :: inside ++ '>' :: rest := by rw [htext]; simp
  refine ⟨_, hmade, ?_⟩
  rw [hcs]
  show atom (Parser.nested depth) _ = _
  unfold atom
  rw [hgroup, hfunction, reference_append hne hchars, Option.none_or, Option.none_or,
    Option.some_or, ← htext, String.ofList_toList, lower_eq_self hsmall]

/-- **A part that opens no quotation** stands for what is made from its words. -/
theorem readsAt_part {p : List Char} (hmade : Made (partsTerm [p]) m) (hpart : IsPart p)
    (hclosed : ∀ quote, IsQuote quote → ¬Opens quote p) : ReadsAt 5 p m := by
  intro depth _ rest hrest
  exact ⟨_, hmade, literalItem_append hpart (fun c => hrest.endsLiteral) hrest.head_ne
    fun quote hquote hopens => absurd hopens (hclosed quote hquote)⟩

/-- **A text with a multiplier** stands for what is made from repetitions. -/
theorem ReadsAt.repeated {m' : Matcher} (h : ReadsAt 5 text m) {marks : List Char}
    {times : Multiplier} (hmade : ∀ term, Made term m → Made (.repeated term times) m')
    (hends : ∀ rest, Ends 5 (marks ++ rest))
    (htimes : ∀ rest, Ends 4 rest → multiplier (marks ++ rest) = some (times, rest)) :
    ReadsAt 4 (text ++ marks) m' := by
  intro depth hdepth rest hrest
  rw [List.append_assoc]
  rw [List.length_append] at hdepth
  obtain ⟨term, hterm, hread⟩ := h depth (by omega) _ (hends rest)
  exact ⟨_, hmade term hterm, item_of_atom hread (htimes rest hrest)⟩

/-! ## Texts that begin no run of words -/

/-- **A text that parts what stands before it** from the alternatives after
it: a run of words does not end before it, and does not go on. -/
structure Parting (tail : List Char) : Prop where
  /-- No word goes on. -/
  head : ∀ c, tail.head? = some c → isWordChar c = false
  /-- No run ends before it. -/
  run : runMayEnd tail = false
  /-- No word comes next. -/
  next : ∀ cs, anyBar tail = some cs → word cs = none

/-- **A text that begins no run of words** where something parts it from
other alternatives. -/
def Opening (text : List Char) : Prop := ∀ tail, Parting tail → Stuck (text ++ tail)

theorem Firm.opening (h : Firm text) : Opening text := fun tail _ => h tail

theorem Opening.firm (h : Opening text) {cs : List Char} (hcs : ∀ tail, Parting (cs ++ tail)) :
    Firm (text ++ cs) := by
  intro tail
  rw [List.append_assoc]
  exact h _ (hcs tail)

theorem stuck_of_word_eq_none (h : word cs = none) : Stuck cs := by
  intro fuel entry hentry
  cases fuel with
  | zero => cases hentry
  | succ fuel =>
    rw [wordsFrom, h] at hentry
    cases hentry

/-- A text that begins with a word that no run ends with. -/
theorem stuck_of_word {w : List Char} (hword : word cs = some (w, rest))
    (hrun : runMayEnd rest = false) (hnext : ∀ cs, anyBar rest = some cs → word cs = none) :
    Stuck cs := by
  intro fuel entry hentry
  cases fuel with
  | zero => cases hentry
  | succ fuel =>
    rw [wordsFrom, hword] at hentry
    rcases List.mem_cons.mp hentry with rfl | hentry
    · exact hrun
    · cases hbar : anyBar rest with
      | none =>
        rw [hbar] at hentry
        cases hentry
      | some next =>
        rw [hbar] at hentry
        exact stuck_of_word_eq_none (hnext next hbar) fuel entry hentry

theorem firm_cons (hc : isWordChar c = false) (cs : List Char) : Firm (c :: cs) := by
  intro tail
  refine stuck_of_word_eq_none ?_
  unfold word run
  rw [List.cons_append, List.takeWhile_cons, hc]
  rfl

theorem firm_call {name : String} (hname : IsFunctionName name) (cs : List Char) :
    Firm (name.toList ++ '(' :: cs) := by
  intro tail
  rw [List.append_assoc, List.cons_append]
  refine stuck_of_word (word_of_name hname _) ?_ nofun
  simp [runMayEnd, singleBar, skipGap, expect, isGap, show isBlank '(' = false by decide]

theorem IsPart.opening {p : List Char} (h : IsPart p) : Opening p := by
  intro tail htail
  by_cases hword : p.all isWordChar = true
  · have htaken : word (p ++ tail) = some (p, tail) :=
      run_append h.ne_nil (List.all_eq_true.mp hword) htail.head
    exact stuck_of_word htaken htail.run htail.next
  · cases htaken : word (p ++ tail) with
    | none => exact stuck_of_word_eq_none htaken
    | some result =>
      have hsticks := word_append h hword htaken
      refine stuck_of_word htaken hsticks.runMayEnd_eq_false fun cs hcs => ?_
      rw [hsticks.anyBar_eq_none] at hcs
      cases hcs

theorem parting_blank (h : Starts text) : Parting (' ' :: text) := by
  have hskip : skipGap (' ' :: text) = text := h.skipGap_eq
  have hbar : singleBar (' ' :: text) = none := by
    unfold singleBar
    rw [hskip, expect_eq_none (h.head_ne (by decide))]
    rfl
  obtain ⟨c, cs, rfl, hblank, hc⟩ := h
  refine ⟨?_, ?_, fun next hnext => ?_⟩
  · rintro d ⟨⟩
    decide
  · have htrim : (' ' :: c :: cs).dropWhile isBlank = c :: cs := by
      rw [List.dropWhile_cons, if_pos (by decide), List.dropWhile_cons, hblank, if_neg (by decide)]
    have hclose : c ≠ ']' ∧ c ≠ ')' := ⟨fun h => hc (h ▸ by decide), fun h => hc (h ▸ by decide)⟩
    unfold runMayEnd
    rw [hbar, htrim]
    simp [hclose]
  · unfold anyBar expectSpaced at hnext
    rw [hskip] at hnext
    have hne : ('|' == c) = false := beq_false_of_ne fun h => hc (h ▸ by decide)
    simp [List.isPrefixOf?, hne] at hnext

theorem parting_ands (cs : List Char) : Parting (" && ".toList ++ cs) := by
  refine ⟨?_, rfl, nofun⟩
  rintro d ⟨⟩
  decide

theorem parting_bars (cs : List Char) : Parting (" || ".toList ++ cs) := by
  refine ⟨?_, rfl, ?_⟩
  · rintro d ⟨⟩
    decide
  · rintro next ⟨⟩
    rfl

theorem parting_mark (hc : c ∈ "?*+#\x7b".toList) (cs : List Char) : Parting (c :: cs) := by
  obtain rfl | rfl | rfl | rfl | rfl : c = '?' ∨ c = '*' ∨ c = '+' ∨ c = '#' ∨ c = '\x7b' := by
    simpa using hc
  all_goals exact ⟨by rintro d ⟨⟩; decide, rfl, nofun⟩

end Parser

end Stylesheet.Grammar
