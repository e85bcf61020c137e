import Mathlib.Data.List.TakeWhile
import Stylesheet.Proofs.Matching.Keys

/-!
# Parts with bars in between

The text of a set of words is made of parts: literals, in quotes or not.
Read as a grammar, it is alternatives of words that make up the same text
again (`Parser.oneOf_joinBars`). Parts that are words only are read in
runs, and any other part alone. How the parts are divided into runs is left
open; it is enough that the runs make up the text. What follows the parts is
left open as well, as long as an alternative may end before it
(`Parser.EndsChoice`).

Two things could go wrong. A blank that is none of the notation would let a
run of words end inside a part, so parts have no such blank. And a quote
that a part opens and does not close would be closed by a quote in a later
part, so the parts have to be apart (`Apart`).
-/

namespace Stylesheet.Grammar

open Text

variable {p : List Char} {ps : List (List Char)} {quote : Char}

/-! ## Parts -/

/-- **A character that stays** with what stands before it: it ends no
literal, and it is no blank. -/
def IsSticky (c : Char) : Prop := Parser.endsLiteral c = false ∧ isBlank c = false

/-- **A quote.** -/
def IsQuote (c : Char) : Prop := c = '"' ∨ c = '\''

/-- **A text that opens a quotation** and does not close it. -/
def Opens (quote : Char) (cs : List Char) : Prop := cs.head? = some quote ∧ quote ∉ cs.tail

/-- **A part of the text of a set.** -/
inductive IsPart : List Char → Prop where
  /-- A literal without quotes around it. -/
  | bare {p : List Char} : p ≠ [] → p.head? ≠ some '<' → (∀ c ∈ p, IsSticky c) →
      (∀ quote, IsQuote quote → p.head? = some quote → Opens quote p) → IsPart p
  /-- A literal in quotes. -/
  | quoted {quote : Char} {inside : List Char} : IsQuote quote → quote ∉ inside →
      IsPart (quote :: inside ++ [quote])

/-- **Texts that are apart**: what the one opens the other does not close. -/
def Apart (cs ds : List Char) : Prop := ∀ quote, IsQuote quote → Opens quote cs → quote ∉ ds

/-- **Parts that do not close what another one opens.** -/
structure AreParts (ps : List (List Char)) : Prop where
  /-- Each is a part. -/
  part : ∀ p ∈ ps, IsPart p
  /-- None closes what one before it opens. -/
  apart : ps.Pairwise Apart

theorem IsQuote.isMark (h : IsQuote quote) : IsMark quote := by
  rcases h with rfl | rfl <;> decide

theorem IsPart.ne_nil (h : IsPart p) : p ≠ [] := by
  cases h with
  | bare hne => exact hne
  | quoted => exact List.cons_ne_nil _ _

/-- A part does not begin like a reference. -/
theorem IsPart.head_ne (h : IsPart p) : p.head? ≠ some '<' := by
  cases h with
  | bare _ hhead => exact hhead
  | quoted hquote =>
    rintro ⟨⟩
    rcases hquote with h | h <;> cases h

theorem isSticky_quote (h : IsQuote quote) : IsSticky quote := by
  rcases h with rfl | rfl <;> exact ⟨by decide, by decide⟩

/-- A quote is no character of words. -/
theorem isWordChar_quote (h : IsQuote quote) : Parser.isWordChar quote = false := by
  rcases h with rfl | rfl <;> decide

theorem IsPart.sticky_head {c : Char} (h : IsPart (c :: p)) : IsSticky c := by
  generalize hcs : c :: p = cs at h
  cases h with
  | bare _ _ hchars => exact hchars c (hcs ▸ List.mem_cons_self)
  | quoted hquote =>
    obtain ⟨rfl, -⟩ := List.cons_eq_cons.mp hcs
    exact isSticky_quote hquote

theorem AreParts.tail (h : AreParts (p :: ps)) : AreParts ps :=
  ⟨fun q hq => h.part q (List.mem_cons_of_mem _ hq), (List.pairwise_cons.mp h.apart).2⟩

theorem AreParts.of_append {qs : List (List Char)} (h : AreParts (ps ++ qs)) : AreParts qs :=
  ⟨fun q hq => h.part q (List.mem_append_right _ hq), (List.pairwise_append.mp h.apart).2.1⟩

/-- What follows a part: the other parts, each after a bar. -/
def barsBefore : List (List Char) → List Char
  | [] => []
  | p :: ps => ' ' :: '|' :: ' ' :: joinBars (p :: ps)

theorem joinBars_cons_eq (p : List Char) (ps : List (List Char)) :
    joinBars (p :: ps) = p ++ barsBefore ps := by
  cases ps with
  | nil => exact (List.append_nil p).symm
  | cons q ps => rfl

/-- Parts with bars in between do not begin like a reference. -/
theorem joinBars_head_ne_angle (hne : ps ≠ []) (hps : ∀ p ∈ ps, IsPart p) :
    (joinBars ps).head? ≠ some '<' := by
  obtain ⟨p, ps, rfl⟩ := List.exists_cons_of_ne_nil hne
  have hpart := hps p List.mem_cons_self
  obtain ⟨c, cs, rfl⟩ := List.exists_cons_of_ne_nil hpart.ne_nil
  rw [joinBars_cons_eq]
  exact hpart.head_ne

theorem mem_joinBars_of_mem {c : Char} (hp : p ∈ ps) (hc : c ∈ p) : c ∈ joinBars ps := by
  induction ps with
  | nil => cases hp
  | cons q ps ih =>
    rw [joinBars_cons_eq]
    rcases List.mem_cons.mp hp with rfl | hp
    · exact List.mem_append_left _ hc
    · refine List.mem_append_right _ ?_
      cases ps with
      | nil => cases hp
      | cons r ps => simp [barsBefore, ih hp]

/-- **Parts in groups** make up the same as all parts. -/
theorem joinBars_flatten {fronts : List (List (List Char))} (h : ∀ front ∈ fronts, front ≠ []) :
    joinBars (fronts.map joinBars) = joinBars fronts.flatten := by
  induction fronts with
  | nil => rfl
  | cons front fronts ih =>
    have ih := ih fun front hfront => h front (List.mem_cons_of_mem _ hfront)
    have hfront := h front List.mem_cons_self
    cases fronts with
    | nil => simp [joinBars]
    | cons next fronts =>
      have hnext : (next :: fronts).flatten ≠ [] := by
        simp [h next (List.mem_cons_of_mem _ List.mem_cons_self)]
      calc joinBars ((front :: next :: fronts).map joinBars)
          = joinBars front ++ ' ' :: '|' :: ' ' :: joinBars ((next :: fronts).map joinBars) := rfl
        _ = joinBars front ++ ' ' :: '|' :: ' ' :: joinBars (next :: fronts).flatten := by rw [ih]
        _ = joinBars (front :: next :: fronts).flatten := (joinBars_append hfront hnext).symm

/-! ## What sticks to a word -/

namespace Parser

variable {α : Type} {cs rest tail : List Char} {inside : Parser Term} {ps : List (List Char)}

variable {p : List Char} {quote : Char}

/-- **A text that sticks** to what stands before it. -/
def Sticks (cs : List Char) : Prop := ∃ c rest, cs = c :: rest ∧ IsSticky c

theorem sticks_append (hp : IsPart p) (rest : List Char) : Sticks (p ++ rest) := by
  obtain ⟨c, cs, rfl⟩ := List.exists_cons_of_ne_nil hp.ne_nil
  exact ⟨c, cs ++ rest, rfl, hp.sticky_head⟩

theorem isBlank_of_isGap {c : Char} (h : isGap c = true) : isBlank c = true := by
  unfold isGap at h
  simp only [Bool.or_eq_true, beq_iff_eq] at h
  rcases h with ((rfl | rfl) | rfl) | rfl <;> decide

/-- What stays with the text before it is neither a blank nor a mark that
matters to readers. -/
theorem Sticks.head (h : Sticks cs) : ∃ c rest, cs = c :: rest ∧ isGap c = false ∧
    isBlank c = false ∧ ∀ d ∈ "|[])(".toList, c ≠ d := by
  obtain ⟨c, rest, rfl, hends, hblank⟩ := h
  refine ⟨c, rest, rfl, ?_, hblank, ?_⟩
  · exact Bool.eq_false_iff.mpr fun hgap => Bool.eq_false_iff.mp hblank (isBlank_of_isGap hgap)
  · rintro d hd rfl
    have hall : ("|[])(".toList.all endsLiteral) = true := by decide
    exact Bool.eq_false_iff.mp hends (List.all_eq_true.mp hall c hd)

theorem Sticks.skipGap_eq (h : Sticks cs) : skipGap cs = cs := by
  obtain ⟨c, rest, rfl, hgap, -⟩ := h.head
  rw [skipGap, List.dropWhile_cons, hgap, if_neg (by decide)]

theorem Sticks.expect_eq_none (h : Sticks cs) {d : Char} (hd : d ∈ "|[])(".toList) :
    expect d cs = none := by
  obtain ⟨c, rest, rfl, -, -, hne⟩ := h.head
  unfold expect
  rw [if_neg (by simpa using hne d hd)]

theorem Sticks.singleBar_eq_none (h : Sticks cs) : singleBar cs = none := by
  unfold singleBar
  rw [h.skipGap_eq, h.expect_eq_none (by decide)]
  rfl

theorem Sticks.anyBar_eq_none (h : Sticks cs) : anyBar cs = none := by
  unfold anyBar expectSpaced
  rw [h.skipGap_eq]
  obtain ⟨c, rest, rfl, -, -, hne⟩ := h.head
  have hbar : ('|' == c) = false := by simpa using (hne '|' (by decide)).symm
  simp [List.isPrefixOf?, hbar]

/-- No run ends where something sticks to it. -/
theorem Sticks.runMayEnd_eq_false (h : Sticks cs) : runMayEnd cs = false := by
  unfold runMayEnd
  rw [h.singleBar_eq_none]
  obtain ⟨c, rest, rfl, -, hblank, hne⟩ := h.head
  have hclose := hne ']' (by decide)
  rw [List.dropWhile_cons, hblank, if_neg (by decide)]
  simp [hclose]

/-! ## What follows a part -/

/-- **A text that an alternative may end before.** -/
structure EndsChoice (tail : List Char) : Prop where
  /-- No literal goes on there. -/
  head : ∀ c, tail.head? = some c → endsLiteral c = true
  /-- A run of words may end there. -/
  run : runMayEnd tail = true
  /-- It is no multiplier. -/
  multiplier : multiplier tail = none
  /-- No sequence goes on there. -/
  gap : gapBetween tail = none
  /-- Nothing is combined with what follows. -/
  spaced : expectSpaced "&&" tail = none ∧ expectSpaced "||" tail = none

/-- **A text whose words end no run**, as far as they are found. -/
def Stuck (cs : List Char) : Prop := ∀ fuel, ∀ entry ∈ wordsFrom fuel cs, runMayEnd entry.2 = false

theorem endsChoice_nil : EndsChoice [] := ⟨nofun, rfl, rfl, rfl, rfl, rfl⟩

/-- **A bar** leads to the next part. -/
theorem bars_barsBefore (hps : ∀ q ∈ p :: ps, IsPart q) (tail : List Char) :
    singleBar (barsBefore (p :: ps) ++ tail) = some (joinBars (p :: ps) ++ tail) ∧
      anyBar (barsBefore (p :: ps) ++ tail) = some (joinBars (p :: ps) ++ tail) := by
  have hsticks : Sticks (joinBars (p :: ps) ++ tail) := by
    rw [joinBars_cons_eq, List.append_assoc]
    exact sticks_append (hps p List.mem_cons_self) _
  have hskip : skipGap (' ' :: (joinBars (p :: ps) ++ tail)) = joinBars (p :: ps) ++ tail :=
    hsticks.skipGap_eq
  constructor
  · have hnext : expect '|' (skipGap (barsBefore (p :: ps) ++ tail)) =
        some (' ' :: (joinBars (p :: ps) ++ tail)) := rfl
    unfold singleBar
    rw [hnext, Option.bind_eq_bind, Option.bind_some, hskip]
    rfl
  · exact congrArg some hskip

/-- An alternative may end before a bar and the parts after it. -/
theorem EndsChoice.barsBefore (h : EndsChoice tail) (hps : ∀ q ∈ ps, IsPart q) :
    EndsChoice (barsBefore ps ++ tail) := by
  cases ps with
  | nil => exact h
  | cons p ps =>
    refine ⟨?_, ?_, rfl, ?_, rfl, rfl⟩
    · rintro c ⟨⟩
      decide
    · unfold runMayEnd
      rw [(bars_barsBefore hps tail).1]
      simp
    · simp [Grammar.barsBefore, gapBetween, skipGap, isGap]

theorem EndsChoice.word_eq_none (h : EndsChoice tail) : word tail = none := by
  cases tail with
  | nil => rfl
  | cons c tail =>
    unfold word Parser.run
    rw [List.takeWhile_cons, isWordChar_of_endsLiteral (h.head c rfl)]
    rfl

/-- No function begins there. -/
theorem EndsChoice.head_ne (h : EndsChoice tail) : tail.head? ≠ some '(' := by
  intro hhead
  obtain ⟨cs, rfl⟩ := List.head?_eq_some_iff.mp hhead
  exact absurd h.run (by simp [runMayEnd, singleBar, skipGap, expect, isGap,
    show isBlank '(' = false by decide])

/-! ## Runs of words -/

/-- **The words that parts begin with**, each with what follows it. -/
def runEntries (tail : List Char) : List (List Char) → List (List Char × List Char)
  | [] => []
  | p :: ps => if p.all isWordChar then (p, barsBefore ps ++ tail) :: runEntries tail ps else []

/-- Where a part is no word, what follows the word at its start sticks to
it. -/
theorem word_append {w : List Char} (h : IsPart p) (hp : ¬p.all isWordChar = true)
    (hword : word (p ++ cs) = some (w, rest)) : Sticks rest := by
  cases h with
  | @quoted quote inside hquote =>
    obtain ⟨hne, hall, heq⟩ := run_eq hword
    obtain ⟨d, ds, rfl⟩ := List.exists_cons_of_ne_nil hne
    obtain ⟨rfl, -⟩ := List.cons_eq_cons.mp heq
    exact absurd ((isWordChar_quote hquote).symm.trans (hall _ List.mem_cons_self)) (by decide)
  | bare hne _ hsticky =>
    obtain ⟨c, left, hleft⟩ : ∃ c left, p.dropWhile isWordChar = c :: left := by
      refine List.exists_cons_of_ne_nil fun hnil => hp (List.all_eq_true.mpr ?_)
      exact List.dropWhile_eq_nil_iff.mp hnil
    have hsplit : p = p.takeWhile isWordChar ++ c :: left := by
      rw [← hleft, List.takeWhile_append_dropWhile]
    have hc : isWordChar c = false := by
      have hhead := List.head?_dropWhile_not isWordChar p
      rw [hleft] at hhead
      simpa using hhead
    have hfirst : ∀ d, (c :: (left ++ cs)).head? = some d → isWordChar d = false := by
      rintro d ⟨⟩
      exact hc
    refine ⟨c, left ++ cs, ?_, hsticky c (by rw [hsplit]; simp)⟩
    rw [hsplit, List.append_assoc, List.cons_append] at hword
    by_cases hempty : p.takeWhile isWordChar = []
    · rw [hempty, List.nil_append] at hword
      obtain ⟨hne, hall, heq⟩ := run_eq hword
      obtain ⟨d, ds, rfl⟩ := List.exists_cons_of_ne_nil hne
      obtain ⟨rfl, -⟩ := List.cons_eq_cons.mp heq
      exact absurd (hc.symm.trans (hall _ List.mem_cons_self)) (by decide)
    · rw [word, run_append hempty (List.all_eq_true.mp List.all_takeWhile) hfirst] at hword
      cases hword
      rfl

/-- **The words found in parts** are those that are words as a whole;
others may be found that no run can end with. -/
theorem wordsFrom_joinBars {fuel : Nat} (hps : ∀ p ∈ ps, IsPart p) (htail : EndsChoice tail)
    (hstuck : ∀ next, anyBar tail = some next → Stuck next)
    (hfuel : (joinBars ps).length < fuel) : ∃ stuck,
      wordsFrom fuel (joinBars ps ++ tail) = runEntries tail ps ++ stuck ∧
        ∀ entry ∈ stuck, runMayEnd entry.2 = false := by
  induction ps generalizing fuel with
  | nil =>
    cases fuel with
    | zero => exact absurd hfuel (Nat.not_lt_zero _)
    | succ fuel =>
      refine ⟨[], ?_, nofun⟩
      rw [wordsFrom, joinBars, List.nil_append, htail.word_eq_none]
      rfl
  | cons p ps ih =>
    obtain ⟨fuel, rfl⟩ : ∃ n, fuel = n + 1 := ⟨fuel - 1, by omega⟩
    have hp := hps p List.mem_cons_self
    have hps' : ∀ q ∈ ps, IsPart q := fun q hq => hps q (List.mem_cons_of_mem _ hq)
    rw [wordsFrom, runEntries, joinBars_cons_eq, List.append_assoc]
    by_cases hword : p.all isWordChar = true
    · have htaken : word (p ++ (barsBefore ps ++ tail)) = some (p, barsBefore ps ++ tail) :=
        run_append hp.ne_nil (List.all_eq_true.mp hword) fun c hc =>
          isWordChar_of_endsLiteral ((htail.barsBefore hps').head c hc)
      rw [if_pos hword, htaken]
      dsimp only
      cases ps with
      | nil =>
        cases hbar : anyBar tail with
        | none => exact ⟨[], by rw [barsBefore, List.nil_append, hbar]; rfl, nofun⟩
        | some next =>
          exact ⟨wordsFrom fuel next, by rw [barsBefore, List.nil_append, hbar]; rfl,
            hstuck next hbar fuel⟩
      | cons q ps =>
        rw [(bars_barsBefore hps' tail).2]
        have hshort : (joinBars (q :: ps)).length < fuel := by
          rw [joinBars_cons_eq] at hfuel
          simp only [barsBefore, List.length_append, List.length_cons] at hfuel
          omega
        obtain ⟨stuck, hwords, hend⟩ := ih hps' hshort
        exact ⟨stuck, by dsimp only; rw [hwords]; rfl, hend⟩
    · rw [if_neg hword]
      cases htaken : word (p ++ (barsBefore ps ++ tail)) with
      | none => exact ⟨[], rfl, nofun⟩
      | some result =>
        obtain ⟨w, rest⟩ := result
        have hsticks : Sticks rest := word_append hp hword htaken
        dsimp only
        rw [hsticks.anyBar_eq_none]
        refine ⟨[(w, rest)], rfl, fun entry hentry => ?_⟩
        rw [List.mem_singleton.mp hentry]
        exact hsticks.runMayEnd_eq_false

theorem longestRun_append {stuck entries : List (List Char × List Char)}
    (h : ∀ entry ∈ stuck, runMayEnd entry.2 = false) :
    longestRun (stuck ++ entries) = longestRun entries := by
  induction stuck with
  | nil => rfl
  | cons entry stuck ih =>
    rw [List.cons_append, longestRun, h entry List.mem_cons_self, if_neg (by decide)]
    exact ih fun e he => h e (List.mem_cons_of_mem _ he)

/-- **A text whose words end no run** does not begin with a run. -/
theorem Stuck.wordRun_eq_none (h : Stuck cs) : wordRun cs = none := by
  have hrun : longestRun (wordsFrom (cs.length + 1) cs).reverse = none := by
    rw [← List.append_nil (wordsFrom (cs.length + 1) cs).reverse]
    exact longestRun_append fun entry hentry => h _ entry (List.mem_reverse.mp hentry)
  unfold wordRun
  rw [hrun]
  rfl

/-- The words at the start of parts are the first parts. -/
theorem runEntries_cases (tail : List Char) (ps : List (List Char)) :
    runEntries tail ps = [] ∧ (∀ p qs, ps = p :: qs → ¬p.all isWordChar = true) ∨
      ∃ entries p back, ps = entries.map (·.1) ++ p :: back ∧
        runEntries tail ps = entries ++ [(p, barsBefore back ++ tail)] := by
  induction ps with
  | nil => exact .inl ⟨rfl, nofun⟩
  | cons p ps ih =>
    rw [runEntries]
    by_cases hword : p.all isWordChar = true
    · rw [if_pos hword]
      rcases ih with ⟨hnil, -⟩ | ⟨entries, q, back, rfl, hentries⟩
      · exact .inr ⟨[], p, ps, rfl, by rw [hnil]; rfl⟩
      · exact .inr ⟨(p, _) :: entries, q, back, rfl, by rw [hentries]; rfl⟩
    · refine .inl ⟨if_neg hword, ?_⟩
      rintro _ _ ⟨⟩
      exact hword

/-- **The term of some parts**: they are words. -/
def partsTerm (ps : List (List Char)) : Term :=
  .words (" | ".intercalate (ps.map fun p => lower (String.ofList p)))

/-- **A run of words** takes the first parts, unless the first one is no
word. -/
theorem wordRun_joinBars (hps : ∀ p ∈ ps, IsPart p) (htail : EndsChoice tail)
    (hstuck : ∀ next, anyBar tail = some next → Stuck next) :
    wordRun (joinBars ps ++ tail) = none ∧ (∀ p qs, ps = p :: qs → ¬p.all isWordChar = true) ∨
      ∃ front back, front ≠ [] ∧ ps = front ++ back ∧
        wordRun (joinBars ps ++ tail) = some (partsTerm front, barsBefore back ++ tail) := by
  have hlength : (joinBars ps).length < (joinBars ps ++ tail).length + 1 := by
    rw [List.length_append]
    omega
  obtain ⟨stuck, hwords, hend⟩ := wordsFrom_joinBars hps htail hstuck hlength
  have hrun : longestRun (wordsFrom ((joinBars ps ++ tail).length + 1) (joinBars ps ++ tail)).reverse =
      longestRun (runEntries tail ps).reverse := by
    rw [hwords, List.reverse_append]
    exact longestRun_append fun entry hentry => hend entry (List.mem_reverse.mp hentry)
  unfold wordRun
  rw [hrun]
  rcases runEntries_cases tail ps with ⟨hnil, hfirst⟩ | ⟨entries, p, back, rfl, hentries⟩
  · exact .inl ⟨by rw [hnil]; rfl, hfirst⟩
  · have hback : ∀ q ∈ back, IsPart q := fun q hq => hps q (by simp [hq])
    refine .inr ⟨entries.map (·.1) ++ [p], back, by simp, by simp, ?_⟩
    rw [hentries, List.reverse_append]
    simp [longestRun, (htail.barsBefore hback).run, partsTerm]

/-! ## Parts one by one -/

/-- A single item before what is no separator. -/
theorem separated_single {separator : List Char → Option (List Char)} {item : Parser α} {a : α}
    (h : item cs = some (a, rest)) (hrest : separator rest = none) :
    separated separator item cs = some ([a], rest) := by
  have hmore : ∀ fuel, more separator item fuel rest = ([], rest) := by
    intro fuel
    cases fuel with
    | zero => rfl
    | succ fuel => rw [more, hrest]
  simp only [separated, h, Option.bind_eq_bind, Option.bind_some, hmore]
  rfl

theorem ofSequence_singleton (term : Term) : ofSequence [term] = term := by
  unfold ofSequence
  split
  · next h => cases h
  · rfl

/-- **An item that stands alone** before the end of an alternative. -/
theorem someOf_single {term : Term} (hrest : EndsChoice rest)
    (h : (group inside cs).or ((function inside cs).or
      ((reference cs).or (literal cs))) = some (term, rest)) :
    someOf inside cs = some (term, rest) := by
  have hitem : item inside cs = some (term, rest) := by
    unfold item
    simp only [h, Option.bind_eq_bind, Option.bind_some, hrest.multiplier]
    rfl
  have hsequence : sequence inside cs = some (term, rest) := by
    rw [sequence, separated_single hitem hrest.gap, Option.map_some]
    dsimp only
    rw [ofSequence_singleton]
  have hall : allOf inside cs = some (term, rest) := by
    rw [allOf, separated_single hsequence hrest.spaced.1]
    rfl
  rw [someOf, separated_single hall hrest.spaced.2]
  rfl

theorem expect_eq_none {c : Char} (h : cs.head? ≠ some c) : expect c cs = none := by
  unfold expect
  rw [if_neg (by simpa using h)]

theorem quotedBy_of_head_ne (h : cs.head? ≠ some quote) : quotedBy quote cs = none := by
  unfold quotedBy
  rw [expect_eq_none h]
  rfl

/-- **A quotation that is not closed** is none. -/
theorem quotedBy_of_opens (h : Opens quote cs) : quotedBy quote cs = none := by
  obtain ⟨hhead, hnot⟩ := h
  obtain ⟨rest, rfl⟩ := List.head?_eq_some_iff.mp hhead
  have hopen : expect quote (quote :: rest) = some rest := by
    unfold expect
    rw [if_pos (by simp)]
    rfl
  have hall : rest.takeWhile (· != quote) = rest := by
    refine List.takeWhile_eq_self_iff.mpr fun c hc => ?_
    simp only [bne_iff_ne]
    rintro rfl
    exact hnot hc
  unfold quotedBy
  simp only [hopen, Option.bind_eq_bind, Option.bind_some, hall, List.drop_length]
  rfl

/-- **A quotation** goes on to the quote that closes it. -/
theorem quotedBy_append {inside : List Char} (h : quote ∉ inside) (rest : List Char) :
    quotedBy quote (quote :: inside ++ [quote] ++ rest) =
      some (quote :: inside ++ [quote], rest) := by
  have hopen : ∀ cs, expect quote (quote :: cs) = some cs := fun cs => by
    unfold expect
    rw [if_pos (by simp)]
    rfl
  have htake : (inside ++ quote :: rest).takeWhile (· != quote) = inside := by
    rw [List.takeWhile_append_of_pos fun c hc => ?_, List.takeWhile_cons, if_neg (by simp),
      List.append_nil]
    simp only [bne_iff_ne]
    rintro rfl
    exact h hc
  have hcs : quote :: inside ++ [quote] ++ rest = quote :: (inside ++ quote :: rest) := by simp
  unfold quotedBy
  rw [hcs]
  simp only [hopen, Option.bind_eq_bind, Option.bind_some, htake, List.drop_left]
  rfl

/-- What follows a part has no quotes but those of later parts. -/
theorem notMem_barsBefore (hquote : IsQuote quote) (h : ∀ p ∈ ps, quote ∉ p) :
    quote ∉ barsBefore ps := by
  cases ps with
  | nil => exact List.not_mem_nil
  | cons p ps =>
    intro hmem
    have hne : quote ≠ ' ' ∧ quote ≠ '|' := by
      rcases hquote with rfl | rfl <;> exact ⟨by decide, by decide⟩
    have hjoin : quote ∈ joinBars (p :: ps) := by simpa [barsBefore, hne.1, hne.2] using hmem
    rcases mem_joinBars hjoin with hblank | hbar | ⟨q, hq, hc⟩
    · exact hne.1 hblank
    · exact hne.2 hbar
    · exact h q hq hc

/-- **A part is read as a literal**, where nothing later closes what it
opens. -/
theorem literal_append (hpart : IsPart p)
    (hrest : ∀ c, rest.head? = some c → endsLiteral c = true)
    (hclosed : ∀ quote, IsQuote quote → Opens quote p → quote ∉ rest) :
    literal (p ++ rest) = some (partsTerm [p], rest) := by
  have htext : partsTerm [p] = .words (lower (String.ofList p)) := by simp [partsTerm]
  rw [htext]
  unfold literal
  cases hpart with
  | @quoted quote inside hquote hinside =>
    rcases hquote with rfl | rfl
    · rw [quotedBy_append hinside, Option.some_or]
      rfl
    · rw [quotedBy_of_head_ne (by simp), quotedBy_append hinside, Option.none_or, Option.some_or]
      rfl
  | bare hne _ hsticky hopens =>
    have hnone : ∀ quote, IsQuote quote → quotedBy quote (p ++ rest) = none := by
      intro quote hquote
      obtain ⟨c, cs, rfl⟩ := List.exists_cons_of_ne_nil hne
      by_cases hhead : c = quote
      · subst hhead
        have hopen := hopens c hquote rfl
        refine quotedBy_of_opens ⟨rfl, fun hmem => ?_⟩
        rcases List.mem_append.mp hmem with hmem | hmem
        · exact hopen.2 hmem
        · exact hclosed c hquote hopen hmem
      · exact quotedBy_of_head_ne (by simpa using hhead)
    rw [hnone '"' (.inl rfl), hnone '\'' (.inr rfl),
      run_append hne (fun c hc => by simp [(hsticky c hc).1]) fun c hc => by simp [hrest c hc]]
    rfl

/-- What is not taken to be a group, a function or a reference is a
literal. -/
theorem literalItem_append (hpart : IsPart p)
    (hrest : ∀ c, rest.head? = some c → endsLiteral c = true) (hcall : rest.head? ≠ some '(')
    (hclosed : ∀ quote, IsQuote quote → Opens quote p → quote ∉ rest) :
    (group inside (p ++ rest)).or ((function inside (p ++ rest)).or
      ((reference (p ++ rest)).or (literal (p ++ rest)))) = some (partsTerm [p], rest) := by
  have hsticks : Sticks (p ++ rest) := sticks_append hpart _
  have hgroup : group inside (p ++ rest) = none := by
    unfold group
    rw [hsticks.expect_eq_none (by decide)]
    rfl
  have hfunction : function inside (p ++ rest) = none := by
    unfold function
    cases htaken : word (p ++ rest) with
    | none => rfl
    | some result =>
      obtain ⟨w, left⟩ := result
      have hopen : expect '(' left = none := by
        by_cases hword : p.all isWordChar = true
        · rw [word, run_append hpart.ne_nil (List.all_eq_true.mp hword) fun c hc =>
            isWordChar_of_endsLiteral (hrest c hc)] at htaken
          cases htaken
          exact expect_eq_none hcall
        · exact (word_append hpart hword htaken).expect_eq_none (by decide)
      simp only [Option.bind_eq_bind, Option.bind_some, hopen]
      rfl
  have hreference : reference (p ++ rest) = none := by
    unfold reference
    rw [expect_eq_none]
    · rfl
    · obtain ⟨c, cs, rfl⟩ := List.exists_cons_of_ne_nil hpart.ne_nil
      exact hpart.head_ne
  rw [hgroup, hfunction, hreference, literal_append hpart hrest hclosed]
  rfl

/-- **A text that closes nothing** that one of some parts opens. -/
def Spares (ps : List (List Char)) (tail : List Char) : Prop :=
  ∀ p ∈ ps, ∀ quote, IsQuote quote → Opens quote p → quote ∉ tail

theorem spares_nil (ps : List (List Char)) : Spares ps [] := fun _ _ _ _ _ => List.not_mem_nil

/-- **An alternative** takes some parts, at least one. -/
theorem choice_joinBars (inside : Parser Term) (hps : AreParts ps) (hne : ps ≠ [])
    (htail : EndsChoice tail) (hspares : Spares ps tail)
    (hstuck : ∀ next, anyBar tail = some next → Stuck next) :
    ∃ front back, front ≠ [] ∧ ps = front ++ back ∧
      (wordRun (joinBars ps ++ tail)).or (someOf inside (joinBars ps ++ tail)) =
        some (partsTerm front, barsBefore back ++ tail) := by
  rcases wordRun_joinBars hps.part htail hstuck with
    ⟨hnone, -⟩ | ⟨front, back, hfront, hsplit, hrun⟩
  · obtain ⟨p, ps, rfl⟩ := List.exists_cons_of_ne_nil hne
    have hends := htail.barsBefore hps.tail.part
    refine ⟨[p], ps, List.cons_ne_nil _ _, rfl, ?_⟩
    rw [hnone, Option.none_or, joinBars_cons_eq, List.append_assoc]
    refine someOf_single hends (literalItem_append (hps.part p List.mem_cons_self)
      hends.head hends.head_ne fun quote hquote hopens hmem => ?_)
    rcases List.mem_append.mp hmem with hmem | hmem
    · refine notMem_barsBefore hquote (fun q hq => ?_) hmem
      exact (List.pairwise_cons.mp hps.apart).1 q hq quote hquote hopens
    · exact hspares p List.mem_cons_self quote hquote hopens hmem
  · exact ⟨front, back, hfront, hsplit, by rw [hrun, Option.some_or]⟩

/-- **The alternatives after the first**, up to those that follow the
parts. -/
theorem more_barsBefore (inside : Parser Term) {fuel : Nat} {terms : List Term}
    (hps : AreParts ps) (htail : EndsChoice tail) (hspares : Spares ps tail)
    (hstuck : ∀ next, anyBar tail = some next → Stuck next) (hfuel : ps.length ≤ fuel)
    (hmore : ∀ n, fuel ≤ n + ps.length →
      more singleBar (fun cs => (wordRun cs).or (someOf inside cs)) n tail = (terms, rest)) :
    ∃ fronts : List (List (List Char)), (∀ front ∈ fronts, front ≠ []) ∧ fronts.flatten = ps ∧
      more singleBar (fun cs => (wordRun cs).or (someOf inside cs)) fuel (barsBefore ps ++ tail) =
        (fronts.map partsTerm ++ terms, rest) := by
  induction fuel generalizing ps with
  | zero =>
    obtain rfl := List.length_eq_zero_iff.mp (Nat.le_zero.mp hfuel)
    exact ⟨[], nofun, rfl, hmore 0 (Nat.zero_le _)⟩
  | succ fuel ih =>
    cases ps with
    | nil => exact ⟨[], nofun, rfl, hmore _ (Nat.le_refl _)⟩
    | cons p ps =>
      obtain ⟨front, back, hfront, hsplit, hchoice⟩ :=
        choice_joinBars inside hps (List.cons_ne_nil p ps) htail hspares hstuck
      have hlength := congrArg List.length hsplit
      have hpos := List.length_pos_iff.mpr hfront
      rw [List.length_append] at hlength
      have hback : AreParts back := (hsplit ▸ hps).of_append
      obtain ⟨fronts, hfronts, hflatten, hrest⟩ := ih hback
        (fun q hq => hspares q (hsplit ▸ List.mem_append_right _ hq)) (by omega)
        fun n hn => hmore n (by omega)
      refine ⟨front :: fronts, ?_, by rw [List.flatten_cons, hflatten, hsplit], ?_⟩
      · intro f hf
        rcases List.mem_cons.mp hf with rfl | hf
        · exact hfront
        · exact hfronts f hf
      · rw [more, (bars_barsBefore hps.part tail).1]
        dsimp only
        rw [hchoice]
        dsimp only
        rw [hrest]
        rfl

theorem length_le_barsBefore (hps : ∀ p ∈ ps, IsPart p) :
    ps.length ≤ (barsBefore ps).length := by
  induction ps with
  | nil => exact Nat.le_refl _
  | cons p ps ih =>
    have ih := ih fun q hq => hps q (List.mem_cons_of_mem _ hq)
    rw [barsBefore, joinBars_cons_eq]
    simp only [List.length_cons, List.length_append]
    omega

/-- **A set of words** is read as alternatives of words, and those that
follow come after them. -/
theorem separated_joinBars (inside : Parser Term) {terms : List Term} (hps : AreParts ps)
    (hne : ps ≠ []) (htail : EndsChoice tail) (hspares : Spares ps tail)
    (hstuck : ∀ next, anyBar tail = some next → Stuck next)
    (hmore : ∀ n, tail.length ≤ n →
      more singleBar (fun cs => (wordRun cs).or (someOf inside cs)) n tail = (terms, rest)) :
    ∃ fronts : List (List (List Char)), fronts ≠ [] ∧ (∀ front ∈ fronts, front ≠ []) ∧
      fronts.flatten = ps ∧
      separated singleBar (fun cs => (wordRun cs).or (someOf inside cs)) (joinBars ps ++ tail) =
        some (fronts.map partsTerm ++ terms, rest) := by
  obtain ⟨front, back, hfront, hsplit, hchoice⟩ :=
    choice_joinBars inside hps hne htail hspares hstuck
  have hback : AreParts back := (hsplit ▸ hps).of_append
  have hlength := length_le_barsBefore hback.part
  have hfuel : back.length ≤ (barsBefore back ++ tail).length := by
    rw [List.length_append]
    omega
  obtain ⟨fronts, hfronts, hflatten, hrest⟩ := more_barsBefore inside hback htail
    (fun q hq => hspares q (hsplit ▸ List.mem_append_right _ hq)) hstuck hfuel
    fun n hn => hmore n (by rw [List.length_append] at hn; omega)
  refine ⟨front :: fronts, List.cons_ne_nil _ _, ?_,
    by rw [List.flatten_cons, hflatten, hsplit], ?_⟩
  · intro f hf
    rcases List.mem_cons.mp hf with rfl | hf
    · exact hfront
    · exact hfronts f hf
  · unfold separated
    dsimp only
    rw [hchoice]
    simp only [Option.bind_eq_bind, Option.bind_some, hrest]
    rfl

/-- **A set of words** is read as alternatives of words. -/
theorem oneOf_joinBars (inside : Parser Term) (hps : AreParts ps) (hne : ps ≠ []) :
    ∃ fronts : List (List (List Char)), (∀ front ∈ fronts, front ≠ []) ∧ fronts.flatten = ps ∧
      oneOf inside (joinBars ps) = some (Term.combine .oneOf (fronts.map partsTerm), []) := by
  have hmore : ∀ n, ([] : List Char).length ≤ n →
      more singleBar (fun cs => (wordRun cs).or (someOf inside cs)) n [] = ([], []) := by
    rintro (_ | n) - <;> rfl
  obtain ⟨fronts, -, hfronts, hflatten, hread⟩ :=
    separated_joinBars inside hps hne endsChoice_nil (spares_nil ps) nofun hmore
  rw [List.append_nil, List.append_nil] at hread
  exact ⟨fronts, hfronts, hflatten, by rw [oneOf, hread]; rfl⟩

/-- **A reference** is read as itself. -/
theorem oneOf_reference {cs : List Char} (h : IsReference cs) :
    oneOf inside cs = some (.reference (lower (String.ofList cs)), []) := by
  obtain ⟨between, hne, hchars, rfl⟩ := h
  have hword : word ('<' :: between ++ ['>']) = none := rfl
  have hrun : wordRun ('<' :: between ++ ['>']) = none := by
    unfold wordRun
    rw [wordsFrom, hword]
    rfl
  have hsome : someOf inside ('<' :: between ++ ['>']) =
      some (.reference (lower (String.ofList ('<' :: between ++ ['>']))), []) := by
    refine someOf_single endsChoice_nil ?_
    have hgroup : group inside ('<' :: between ++ ['>']) = none := rfl
    have hfunction : function inside ('<' :: between ++ ['>']) = none := by
      unfold function
      rw [hword]
      rfl
    rw [hgroup, hfunction, reference_append hne hchars]
    rfl
  have hchoice : (wordRun ('<' :: between ++ ['>'])).or (someOf inside ('<' :: between ++ ['>'])) =
      some (.reference (lower (String.ofList ('<' :: between ++ ['>']))), []) := by
    rw [hrun, hsome]
    rfl
  rw [oneOf, separated_single hchoice rfl]
  rfl

end Parser

end Stylesheet.Grammar
