import Mathlib.Data.Nat.Basic
import Mathlib.Order.Basic
import Stylesheet.Proofs.Ending.Unbounded
import Stylesheet.Proofs.Matching.Keys

/-!
# Reading a grammar ends

What a reader of items takes is never empty (`Parser.Takes`), so each level of
brackets, each member after a separator and each word of a run is read from a
shorter text than the one before. The bounds of the readers that run, all of
them lengths of texts, are therefore never met, and the reading without bounds
ends with what they read (`Unbounded.read_ends`).
-/

namespace Stylesheet.Grammar

namespace Parser

/-! ## Readers that take something -/

/-- **A reader that leaves a shorter text.** -/
def Takes {α : Type} (p : Parser α) : Prop :=
  ∀ cs a rest, p cs = some (a, rest) → rest.length < cs.length

/-- A reader that leaves no longer text. -/
def Shortens {α : Type} (p : Parser α) : Prop :=
  ∀ cs a rest, p cs = some (a, rest) → rest.length ≤ cs.length

theorem expect_lt {c : Char} {cs rest : List Char} (h : expect c cs = some rest) :
    rest.length < cs.length := by
  rw [expect_eq h]
  exact Nat.lt_succ_self _

theorem run_takes (p : Char → Bool) : Takes (run p) := by
  intro cs taken rest h
  obtain ⟨hne, -, rfl⟩ := run_eq h
  rw [List.length_append]
  have := List.length_pos_of_ne_nil hne
  omega

theorem skipGap_le (cs : List Char) : (skipGap cs).length ≤ cs.length :=
  (skipGap_suffix cs).length_le

theorem quotedBy_takes (quote : Char) : Takes (quotedBy quote) := by
  intro cs text rest h
  obtain ⟨left, hopen, h⟩ := Option.bind_eq_some_iff.mp h
  obtain ⟨after, hclose, h⟩ := Option.bind_eq_some_iff.mp h
  cases h
  have hleft := expect_lt hopen
  have hafter := expect_lt hclose
  rw [List.length_drop] at hafter
  omega

theorem reference_takes : Takes reference := by
  intro cs term rest h
  obtain ⟨left, hopen, h⟩ := Option.bind_eq_some_iff.mp h
  obtain ⟨⟨inside, left'⟩, hinside, h⟩ := Option.bind_eq_some_iff.mp h
  obtain ⟨after, hclose, h⟩ := Option.bind_eq_some_iff.mp h
  cases h
  exact (expect_lt hclose).trans ((run_takes _ _ _ _ hinside).trans (expect_lt hopen))

theorem literal_takes : Takes literal := by
  intro cs term rest h
  obtain ⟨⟨text, left⟩, htext, h⟩ := Option.bind_eq_some_iff.mp h
  cases h
  rcases Option.or_eq_some_iff.mp htext with hquoted | ⟨-, htext⟩
  · exact quotedBy_takes _ _ _ _ hquoted
  · rcases Option.or_eq_some_iff.mp htext with hquoted | ⟨-, hrun⟩
    · exact quotedBy_takes _ _ _ _ hquoted
    · exact run_takes _ _ _ _ hrun

theorem wordRun_takes : Takes wordRun := by
  intro cs term rest h
  obtain ⟨⟨ws, left⟩, hrun, h⟩ := Option.bind_eq_some_iff.mp h
  cases h
  obtain ⟨w, after, hafter, hword⟩ := word_of_longestRun hrun
  exact (run_takes _ _ _ _ hword).trans_le hafter.length_le

section Inside

variable {inside : Parser Term} (hinside : Shortens inside)

include hinside

theorem group_takes : Takes (group inside) := by
  intro cs term rest h
  obtain ⟨left, hopen, h⟩ := Option.bind_eq_some_iff.mp h
  obtain ⟨⟨term', left'⟩, hterm, h⟩ := Option.bind_eq_some_iff.mp h
  obtain ⟨after, hclose, h⟩ := Option.bind_eq_some_iff.mp h
  cases h
  have hopen := expect_lt hopen
  have hgap := skipGap_le left
  have hterm := hinside _ _ _ hterm
  have hgap' := skipGap_le left'
  have hclose := expect_lt hclose
  omega

theorem function_takes : Takes (function inside) := by
  intro cs term rest h
  obtain ⟨⟨name, left⟩, hname, h⟩ := Option.bind_eq_some_iff.mp h
  obtain ⟨left', hopen, h⟩ := Option.bind_eq_some_iff.mp h
  have hname := run_takes _ _ _ _ hname
  have hopen := expect_lt hopen
  have hgap := skipGap_le left'
  dsimp only at h
  split at h
  · next after hclose =>
    cases h
    have hclose := expect_lt hclose
    omega
  · obtain ⟨⟨body, after⟩, hbody, h⟩ := Option.bind_eq_some_iff.mp h
    obtain ⟨after', hclose, h⟩ := Option.bind_eq_some_iff.mp h
    cases h
    have hbody : after.length ≤ (skipGap left').length := hinside _ _ _ hbody
    have hgap' : (skipGap after).length ≤ after.length := skipGap_le after
    have hclose : rest.length < (skipGap after).length := expect_lt hclose
    omega

theorem item_takes : Takes (item inside) := by
  intro cs term rest h
  obtain ⟨⟨inner, left⟩, hinner, h⟩ := Option.bind_eq_some_iff.mp h
  have hleft : left.length < cs.length := by
    rcases Option.or_eq_some_iff.mp hinner with hgroup | ⟨-, hinner⟩
    · exact group_takes hinside _ _ _ hgroup
    rcases Option.or_eq_some_iff.mp hinner with hfunction | ⟨-, hinner⟩
    · exact function_takes hinside _ _ _ hfunction
    rcases Option.or_eq_some_iff.mp hinner with href | ⟨-, hliteral⟩
    · exact reference_takes _ _ _ href
    · exact literal_takes _ _ _ hliteral
  dsimp only at h
  split at h
  · next m after hmultiplier =>
    cases h
    exact (multiplier_suffix hmultiplier).length_le.trans_lt hleft
  · cases h
    exact hleft

end Inside

section Lists

variable {α : Type} {separator : List Char → Option (List Char)} (hseparator : Leaves separator)
  {item : Parser α} (hitem : Takes item)

include hseparator hitem

theorem more_le (fuel : Nat) (cs : List Char) :
    (more separator item fuel cs).2.length ≤ cs.length := by
  induction fuel generalizing cs with
  | zero => exact Nat.le_refl _
  | succ fuel ih =>
    unfold more
    cases hsep : separator cs with
    | none => exact Nat.le_refl _
    | some left =>
      have hleft := (hseparator _ _ hsep).length_le
      dsimp only
      rcases hfirst : item left with _ | ⟨a, left'⟩
      · exact Nat.le_refl _
      · exact (ih left').trans ((hitem _ _ _ hfirst).le.trans hleft)

theorem separated_takes : Takes (separated separator item) := by
  intro cs as rest h
  obtain ⟨⟨a, left⟩, hfirst, h⟩ := Option.bind_eq_some_iff.mp h
  cases h
  exact (more_le hseparator hitem _ left).trans_lt (hitem _ _ _ hfirst)

end Lists

theorem Takes.map {α β : Type} {p : Parser α} (h : Takes p) (f : α → β) :
    Takes fun cs => (p cs).map fun (a, rest) => (f a, rest) := by
  intro cs b rest hb
  obtain ⟨⟨a, left⟩, ha, hb⟩ := Option.map_eq_some_iff.mp hb
  cases hb
  exact h _ _ _ ha

end Parser

/-! ## Levels -/

namespace Unbounded

open Grammar.Parser (Takes Shortens Leaves)

/-- The bounded reader of the members of a level. -/
def Level.memberReader (inside : Parser Term) : Level → Parser Term
  | .oneOf => fun cs => (Parser.wordRun cs).or (Parser.someOf inside cs)
  | .someOf => Parser.allOf inside
  | .allOf => Parser.sequence inside
  | .sequence => Parser.item inside

/-- The bounded reader of a level. -/
def Level.reader (inside : Parser Term) (level : Level) : Parser Term := fun cs =>
  (Parser.separated level.separator (level.memberReader inside) cs).map fun (terms, rest) =>
    (level.wrap terms, rest)

theorem Level.separator_leaves (level : Level) : Leaves level.separator := by
  cases level with
  | oneOf => exact Parser.singleBar_leaves
  | someOf => exact Parser.expectSpaced_leaves _
  | allOf => exact Parser.expectSpaced_leaves _
  | sequence => exact Parser.gapBetween_leaves

section Takes

variable {inside : Parser Term} (hinside : Shortens inside)

include hinside

/-- **No member is empty**, whatever the level. -/
theorem Level.memberReader_takes (level : Level) : Takes (level.memberReader inside) := by
  have hlevel : ∀ level : Level, Takes (level.memberReader inside) → Takes (level.reader inside) :=
    fun level h => (Parser.separated_takes level.separator_leaves h).map level.wrap
  have hitem : Takes (Level.sequence.memberReader inside) := Parser.item_takes hinside
  have hsequence : Takes (Level.allOf.memberReader inside) := hlevel .sequence hitem
  have hallOf : Takes (Level.someOf.memberReader inside) := hlevel .allOf hsequence
  cases level with
  | oneOf =>
    intro cs term rest h
    rcases Option.or_eq_some_iff.mp h with hwords | ⟨-, hsome⟩
    · exact Parser.wordRun_takes _ _ _ hwords
    · exact hlevel .someOf hallOf _ _ _ hsome
  | someOf => exact hallOf
  | allOf => exact hsequence
  | sequence => exact hitem

end Takes

theorem nested_shortens (depth : Nat) : Shortens (Parser.nested depth) := by
  intro cs term rest h
  exact (Parser.nested_yields Parser.readable_isKey _ _ _ _ trivial h).2.length_le

/-! ## The readings agree -/

/-- **The words of a run** come to an end with the text. -/
theorem wordsFrom_ends {fuel : Nat} {cs : List Char} (hfuel : cs.length < fuel) :
    Ends (fun depth => wordsFrom depth cs) (Parser.wordsFrom fuel cs) := by
  induction fuel generalizing cs with
  | zero => omega
  | succ fuel ih =>
    refine .call ?_
    simp only [wordsFrom, Parser.wordsFrom]
    rcases hword : Parser.word cs with _ | ⟨w, rest⟩
    · exact .known _
    have hrest : rest.length < cs.length := Parser.run_takes _ _ _ _ hword
    dsimp only
    cases hbar : Parser.anyBar rest with
    | none => exact .known _
    | some next =>
      have hnext : next.length ≤ rest.length := (Parser.expectSpaced_leaves _ _ _ hbar).length_le
      exact (ih (by omega)).bind (.known _)

theorem wordRun_ends (cs : List Char) :
    Ends (fun depth => wordRun depth cs) (Parser.wordRun cs) := by
  refine (wordsFrom_ends (Nat.lt_succ_self cs.length)).bind ?_
  unfold Parser.wordRun
  cases Parser.longestRun (Parser.wordsFrom (cs.length + 1) cs).reverse with
  | none => exact .known _
  | some run => exact .known _

section Agree

variable {inside : Parser Term} {cs : List Char}
  (h : ∀ left : List Char, left.length < cs.length →
    Ends (fun depth => combination depth .oneOf left) (inside left))

include h

/-- What stands in brackets is read from a shorter text. -/
theorem group_ends : Ends (fun depth => group depth cs) (Parser.group inside cs) := by
  refine .call ?_
  simp only [group]
  unfold Parser.group
  cases hopen : Parser.expect '[' cs with
  | none => exact .known _
  | some left =>
    refine (h _ ((Parser.skipGap_le left).trans_lt (Parser.expect_lt hopen))).bind ?_
    dsimp only [Option.bind_eq_bind, Option.bind_some]
    rcases inside (Parser.skipGap left) with _ | ⟨term, rest⟩
    · exact .known _
    · dsimp only [Option.bind_some]
      cases Parser.expect ']' (Parser.skipGap rest) with
      | none => exact .known _
      | some rest' => exact .known _

theorem function_ends : Ends (fun depth => function depth cs) (Parser.function inside cs) := by
  refine .call ?_
  simp only [function]
  unfold Parser.function
  rcases hname : Parser.word cs with _ | ⟨name, left⟩
  · exact .known _
  have hname : left.length < cs.length := Parser.run_takes _ _ _ _ hname
  dsimp only [Option.bind_eq_bind, Option.bind_some]
  cases hopen : Parser.expect '(' left with
  | none => exact .known _
  | some left' =>
    have hleft := ((Parser.skipGap_le left').trans_lt (Parser.expect_lt hopen)).trans hname
    dsimp only [Option.bind_some]
    cases Parser.expect ')' (Parser.skipGap left') with
    | some rest => exact .known _
    | none =>
      refine (h _ hleft).bind ?_
      rcases inside (Parser.skipGap left') with _ | ⟨body, rest⟩
      · exact .known _
      · dsimp only [Option.bind_some]
        cases Parser.expect ')' (Parser.skipGap rest) with
        | none => exact .known _
        | some rest' => exact .known _

theorem component_ends : Ends (fun depth => component depth cs) ((Parser.group inside cs).or
    ((Parser.function inside cs).or ((Parser.reference cs).or (Parser.literal cs)))) := by
  refine .call ?_
  simp only [component]
  refine (group_ends h).bind ?_
  cases Parser.group inside cs with
  | some found => exact .known _
  | none =>
    refine (function_ends h).bind ?_
    cases Parser.function inside cs with
    | some found => exact .known _
    | none => exact .known _

theorem item_ends : Ends (fun depth => item depth cs) (Parser.item inside cs) := by
  refine .call ?_
  simp only [item]
  unfold Parser.item
  refine (component_ends h).bind ?_
  rcases (Parser.group inside cs).or ((Parser.function inside cs).or
    ((Parser.reference cs).or (Parser.literal cs))) with _ | ⟨term, rest⟩
  · exact .known _
  · dsimp only [Option.bind_eq_bind, Option.bind_some]
    cases Parser.multiplier rest with
    | none => exact .known _
    | some found => exact .known _

end Agree

section Combinations

variable {inside : Parser Term} (hinside : Shortens inside) {level : Level} {cs : List Char}
  (h : ∀ left : List Char, left.length ≤ cs.length →
    Ends (fun depth => member depth level left) (level.memberReader inside left))

include hinside h

/-- **The members after the first** come to an end with the text. -/
theorem further_ends {fuel : Nat} {left : List Char} (hleft : left.length ≤ cs.length)
    (hfuel : left.length ≤ fuel) : Ends (fun depth => further depth level left)
      (Parser.more level.separator (level.memberReader inside) fuel left) := by
  have htakes := level.memberReader_takes hinside
  induction fuel generalizing left with
  | zero =>
    refine .call ?_
    simp only [further, Parser.more]
    cases hsep : level.separator left with
    | none => exact .known _
    | some left' =>
      have hleft' := (level.separator_leaves _ _ hsep).length_le
      refine (h left' (hleft'.trans hleft)).bind ?_
      rcases hmember : level.memberReader inside left' with _ | ⟨term, rest⟩
      · exact .known _
      · have := htakes _ _ _ hmember
        omega
  | succ fuel ih =>
    refine .call ?_
    simp only [further, Parser.more]
    cases hsep : level.separator left with
    | none => exact .known _
    | some left' =>
      have hleft' := (level.separator_leaves _ _ hsep).length_le
      dsimp only
      refine (h left' (hleft'.trans hleft)).bind ?_
      rcases hmember : level.memberReader inside left' with _ | ⟨term, rest⟩
      · exact .known _
      · have hrest := htakes _ _ _ hmember
        exact (ih (by omega) (by omega)).bind (.known _)

theorem combination_ends :
    Ends (fun depth => combination depth level cs) (level.reader inside cs) := by
  refine .call ?_
  simp only [combination]
  refine (h cs (Nat.le_refl _)).bind ?_
  unfold Level.reader Parser.separated
  rcases hmember : level.memberReader inside cs with _ | ⟨term, rest⟩
  · exact .known _
  · have hrest := (level.memberReader_takes hinside _ _ _ hmember).le
    exact (further_ends hinside h hrest (Nat.le_refl _)).bind (.known _)

end Combinations

/-- **Reading alternatives** ends, to any nesting that the text allows for. -/
theorem combination_nested {nesting : Nat} {cs : List Char} (hnesting : cs.length < nesting) :
    Ends (fun depth => combination depth .oneOf cs) (Parser.nested nesting cs) := by
  induction nesting generalizing cs with
  | zero => omega
  | succ nesting ih =>
    have hinside := nested_shortens nesting
    have hitem : ∀ left : List Char, left.length ≤ cs.length →
        Ends (fun depth => member depth .sequence left)
          (Level.sequence.memberReader (Parser.nested nesting) left) := by
      intro left hleft
      refine .call ?_
      simp only [member]
      exact item_ends fun left' hleft' => ih (by omega)
    have hsequence : ∀ left : List Char, left.length ≤ cs.length →
        Ends (fun depth => member depth .allOf left)
          (Level.allOf.memberReader (Parser.nested nesting) left) := by
      intro left hleft
      refine .call ?_
      simp only [member]
      exact combination_ends hinside fun left' hleft' => hitem left' (hleft'.trans hleft)
    have hallOf : ∀ left : List Char, left.length ≤ cs.length →
        Ends (fun depth => member depth .someOf left)
          (Level.someOf.memberReader (Parser.nested nesting) left) := by
      intro left hleft
      refine .call ?_
      simp only [member]
      exact combination_ends hinside fun left' hleft' => hsequence left' (hleft'.trans hleft)
    have hchoice : ∀ left : List Char, left.length ≤ cs.length →
        Ends (fun depth => member depth .oneOf left)
          (Level.oneOf.memberReader (Parser.nested nesting) left) := by
      intro left hleft
      refine .call ?_
      simp only [member]
      refine (wordRun_ends left).bind ?_
      show Ends _ ((Parser.wordRun left).or _)
      cases Parser.wordRun left with
      | some found => exact .known _
      | none =>
        exact combination_ends hinside fun left' hleft' => hallOf left' (hleft'.trans hleft)
    exact combination_ends hinside hchoice

/-- **Reading a grammar ends** with what the bounded reader comes to. -/
theorem read_ends (text : String) : Ends (fun depth => read depth text) (Term.ofString text) := by
  refine (combination_nested (Nat.lt_succ_self _)).bind ?_
  unfold Term.ofString
  dsimp only
  rcases Parser.nested (text.toList.length + 1) text.toList with _ | ⟨term, rest⟩
  · exact .known _
  · dsimp only
    cases Parser.skipGap rest with
    | nil => exact .known _
    | cons c rest => exact .known _

end Unbounded

end Stylesheet.Grammar
