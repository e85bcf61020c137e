import Mathlib.Data.List.Basic
import Stylesheet.Grammar.Parser

/-!
# What grammars are read as

A reader leaves a rest of the text, and the terms it makes are regular
(`Term.ofString_reads`): the texts in them are those that its three
leaves read, one after the other, and a mark of repetition that stands for
“at most once” goes with a multiplier that allows for none.

What is said of texts is left open here: of the text that is read (`G`),
which has to pass on to its rests, of the texts in terms (`P`), and of where
in the text they stand (`T`), which has to go together along the text
(`Parser.Tracking`).
-/

namespace Stylesheet.Grammar

/-- **A regular term**: its texts are as they should be, and what is
marked as optional can be left out. -/
inductive Term.Regular (P : String → Prop) : Term → Prop where
  /-- Words. -/
  | words {text : String} : P text → Regular P (.words text)
  /-- A reference. -/
  | reference {name : String} : P name → Regular P (.reference name)
  /-- A function, with a regular body if any. -/
  | function {name : String} {body : Option Term} :
      (∀ term, body = some term → Regular P term) → Regular P (.function name body)
  /-- Alternatives. -/
  | oneOf {members : List Term} : (∀ term ∈ members, Regular P term) → Regular P (.oneOf members)
  /-- Some members in any order. -/
  | someOf {members : List Term} : (∀ term ∈ members, Regular P term) → Regular P (.someOf members)
  /-- All members in any order. -/
  | allOf {members : List Term} : (∀ term ∈ members, Regular P term) → Regular P (.allOf members)
  /-- Terms in a row. -/
  | sequence {members : List Term} :
      (∀ term ∈ members, Regular P term) → Regular P (.sequence members)
  /-- A repeated term. -/
  | repeated {term : Term} {m : Multiplier} : Regular P term →
      (m.marker = some .optional → m.min = 0) → Regular P (.repeated term m)
  /-- A block in square brackets. -/
  | bracketed {term : Term} : Regular P term → Regular P (.bracketed term)

theorem Term.regular_combine {P : String → Prop} {wrap : List Term → Term} {members : List Term}
    (hwrap : (∀ term ∈ members, term.Regular P) → (wrap members).Regular P)
    (h : ∀ term ∈ members, term.Regular P) : (Term.combine wrap members).Regular P := by
  match members with
  | [] => exact hwrap h
  | [term] => exact h term List.mem_cons_self
  | _ :: _ :: _ => exact hwrap h

mutual
/-- **The texts in a term**, in the order they are written in. -/
def Term.leaves : Term → List String
  | .words text => [text]
  | .reference name => [name]
  | .function _ body => leavesOfBody body
  | .oneOf members => leavesOfAll members
  | .someOf members => leavesOfAll members
  | .allOf members => leavesOfAll members
  | .sequence members => leavesOfAll members
  | .repeated term _ => term.leaves
  | .bracketed term => term.leaves

/-- The texts in the body of a function. -/
def leavesOfBody : Option Term → List String
  | none => []
  | some body => body.leaves

/-- The texts in several terms. -/
def leavesOfAll : List Term → List String
  | [] => []
  | term :: terms => term.leaves ++ leavesOfAll terms
end

theorem Term.leaves_combine {wrap : List Term → Term}
    (hwrap : ∀ members, (wrap members).leaves = leavesOfAll members) (members : List Term) :
    (Term.combine wrap members).leaves = leavesOfAll members := by
  match members with
  | [] => exact hwrap []
  | [term] => exact (List.append_nil _).symm
  | _ :: _ :: _ => exact hwrap _

namespace Parser

variable {α : Type} {cs rest : List Char}

/-! ## Rests -/

/-- **A separator leaves a rest** of the text. -/
def Leaves (separator : List Char → Option (List Char)) : Prop :=
  ∀ cs rest, separator cs = some rest → rest <:+ cs

theorem skipGap_suffix (cs : List Char) : skipGap cs <:+ cs := List.dropWhile_suffix _

theorem expect_leaves (c : Char) : Leaves (expect c) := by
  intro cs rest h
  unfold expect at h
  split_ifs at h
  cases h
  exact List.drop_suffix 1 cs

theorem expectSpaced_leaves (text : String) : Leaves (expectSpaced text) := by
  intro cs rest h
  obtain ⟨left, hleft, rfl⟩ := Option.map_eq_some_iff.mp h
  have happend := List.isPrefixOf?_eq_some_iff_append_eq.mp hleft
  exact (skipGap_suffix left).trans ((List.suffix_append_of_suffix (List.suffix_refl left)).trans
    (happend ▸ skipGap_suffix cs))

theorem run_suffix {p : Char → Bool} {taken : List Char} (h : run p cs = some (taken, rest)) :
    rest <:+ cs := by
  unfold run at h
  dsimp only at h
  split_ifs at h
  cases h
  exact List.drop_suffix _ cs

theorem singleBar_leaves : Leaves singleBar := by
  intro cs rest h
  obtain ⟨left, hleft, h⟩ := Option.bind_eq_some_iff.mp h
  split_ifs at h
  cases h
  exact (skipGap_suffix left).trans ((expect_leaves '|' _ _ hleft).trans (skipGap_suffix cs))

theorem gapBetween_leaves : Leaves gapBetween := by
  intro cs rest h
  unfold gapBetween at h
  dsimp only at h
  split_ifs at h
  cases h
  exact skipGap_suffix cs

/-- **A word that can end a run** is read after some of the run. -/
theorem word_of_mem_wordsFrom {fuel : Nat} {entry : List Char × List Char}
    (h : entry ∈ wordsFrom fuel cs) : ∃ left, left <:+ cs ∧ word left = some entry := by
  induction fuel generalizing cs with
  | zero => cases h
  | succ fuel ih =>
    unfold wordsFrom at h
    rcases hword : word cs with _ | ⟨w, after⟩ <;> rw [hword] at h
    · cases h
    · rcases List.mem_cons.mp h with rfl | h
      · exact ⟨cs, List.suffix_refl cs, hword⟩
      · cases hbar : anyBar after with
        | none =>
          rw [hbar] at h
          cases h
        | some next =>
          rw [hbar] at h
          obtain ⟨left, hleft, hentry⟩ := ih h
          have hnext := (expectSpaced_leaves _ _ _ hbar).trans (run_suffix hword)
          exact ⟨left, hleft.trans hnext, hentry⟩

theorem longestRun_mem {entries : List (List Char × List Char)} {ws : List (List Char)}
    (h : longestRun entries = some (ws, rest)) : ∃ w, (w, rest) ∈ entries := by
  induction entries with
  | nil => cases h
  | cons entry entries ih =>
    unfold longestRun at h
    split_ifs at h
    · cases h
      exact ⟨_, List.mem_cons_self⟩
    · obtain ⟨w, hw⟩ := ih h
      exact ⟨w, List.mem_cons_of_mem _ hw⟩

/-- **A run of words ends where its last word does.** -/
theorem word_of_longestRun {fuel : Nat} {ws : List (List Char)}
    (h : longestRun (wordsFrom fuel cs).reverse = some (ws, rest)) :
    ∃ w left, left <:+ cs ∧ word left = some (w, rest) := by
  obtain ⟨w, hw⟩ := longestRun_mem h
  exact ⟨w, word_of_mem_wordsFrom (List.mem_reverse.mp hw)⟩

theorem number_suffix {n : Nat} (h : number cs = some (n, rest)) : rest <:+ cs := by
  obtain ⟨⟨digits, left⟩, hleft, h⟩ := Option.bind_eq_some_iff.mp h
  dsimp only at h
  split_ifs at h
  cases h
  exact (skipGap_suffix left).trans ((run_suffix hleft).trans (skipGap_suffix cs))

theorem range_suffix {r : Nat × Option Nat} (h : range cs = some (r, rest)) : rest <:+ cs := by
  obtain ⟨left, hopen, h⟩ := Option.bind_eq_some_iff.mp h
  obtain ⟨⟨least, left'⟩, hleast, h⟩ := Option.bind_eq_some_iff.mp h
  have hleft' := (number_suffix hleast).trans (expect_leaves _ _ _ hopen)
  obtain ⟨after, hclose, h⟩ := Option.bind_eq_some_iff.mp h
  cases h
  refine (expect_leaves _ _ _ hclose).trans (List.IsSuffix.trans ?_ hleft')
  split
  · exact List.suffix_refl _
  · next left'' hcomma =>
    have hleft'' := expectSpaced_leaves _ _ _ hcomma
    split
    · next n after' hnumber => exact (number_suffix hnumber).trans hleft''
    · exact hleft''

theorem multiplier_suffix {m : Multiplier} (h : multiplier cs = some (m, rest)) :
    rest <:+ cs := by
  unfold multiplier at h
  split at h
  · next least greatest left hrange =>
    cases h
    exact range_suffix hrange
  · split at h
    · cases h
    · next c left _ =>
      split at h
      · cases h
      · split at h
        · next least greatest after hrange =>
          cases h
          split_ifs at hrange
          exact (range_suffix hrange).trans (List.suffix_cons c left)
        · cases h
          exact List.suffix_cons c _

/-- What is marked as optional can be left out. -/
theorem multiplier_min {m : Multiplier} (h : multiplier cs = some (m, rest))
    (hmarker : m.marker = some .optional) : m.min = 0 := by
  unfold multiplier at h
  split at h
  · cases h
    cases hmarker
  · split at h
    · cases h
    · split at h
      · cases h
      · next marker _ =>
        split at h
        · cases h
          cases hmarker
        · cases h
          cases marker with
          | optional => rfl
          | _ => cases hmarker

theorem quotedBy_suffix {quote : Char} {text : List Char}
    (h : quotedBy quote cs = some (text, rest)) : rest <:+ cs := by
  obtain ⟨left, hopen, h⟩ := Option.bind_eq_some_iff.mp h
  obtain ⟨after, hclose, h⟩ := Option.bind_eq_some_iff.mp h
  cases h
  exact (expect_leaves _ _ _ hclose).trans ((List.drop_suffix _ left).trans
    (expect_leaves _ _ _ hopen))

theorem reference_suffix {term : Term} (h : reference cs = some (term, rest)) : rest <:+ cs := by
  obtain ⟨left, hopen, h⟩ := Option.bind_eq_some_iff.mp h
  obtain ⟨⟨inside, left'⟩, hinside, h⟩ := Option.bind_eq_some_iff.mp h
  obtain ⟨after, hclose, h⟩ := Option.bind_eq_some_iff.mp h
  cases h
  exact (expect_leaves _ _ _ hclose).trans ((run_suffix hinside).trans (expect_leaves _ _ _ hopen))

theorem literal_suffix {term : Term} (h : literal cs = some (term, rest)) : rest <:+ cs := by
  obtain ⟨⟨text, left⟩, htext, h⟩ := Option.bind_eq_some_iff.mp h
  cases h
  rcases Option.or_eq_some_iff.mp htext with hquoted | ⟨-, htext⟩
  · exact quotedBy_suffix hquoted
  · rcases Option.or_eq_some_iff.mp htext with hquoted | ⟨-, hrun⟩
    · exact quotedBy_suffix hquoted
    · exact run_suffix hrun

theorem wordRun_suffix {term : Term} (h : wordRun cs = some (term, rest)) : rest <:+ cs := by
  obtain ⟨⟨ws, left⟩, hrun, h⟩ := Option.bind_eq_some_iff.mp h
  cases h
  obtain ⟨w, after, hafter, hword⟩ := word_of_longestRun hrun
  exact (run_suffix hword).trans hafter

/-! ## Terms -/

/-- **What is known of texts along a text**: of those that stand in it up to
a rest. -/
structure Tracking (T : List Char → List String → List Char → Prop) : Prop where
  /-- There may be none. -/
  nil : ∀ cs rest, rest <:+ cs → T cs [] rest
  /-- Others may follow. -/
  append : ∀ cs keys mid keys' rest, T cs keys mid → T mid keys' rest → T cs (keys ++ keys') rest
  /-- Some may be left out. -/
  sublist : ∀ cs keys keys' rest, keys'.Sublist keys → T cs keys rest → T cs keys' rest

/-- **What a reader yields** from texts of a kind; it leaves a rest. -/
def Yields (G : List Char → Prop) (Q : List Char → α → List Char → Prop) (p : Parser α) : Prop :=
  ∀ cs a rest, G cs → p cs = some (a, rest) → Q cs a rest ∧ rest <:+ cs

/-- **A term read from a text** up to a rest. -/
def Reads (P : String → Prop) (T : List Char → List String → List Char → Prop) (cs : List Char)
    (term : Term) (rest : List Char) : Prop :=
  term.Regular P ∧ T cs term.leaves rest

/-- Several terms read from a text up to a rest. -/
def ReadsAll (P : String → Prop) (T : List Char → List String → List Char → Prop) (cs : List Char)
    (terms : List Term) (rest : List Char) : Prop :=
  (∀ term ∈ terms, term.Regular P) ∧ T cs (leavesOfAll terms) rest

/-- **Texts in terms**: what is said of a text passes on to its rests,
and then it says something of what the leaves read. -/
structure Readable (G : List Char → Prop) (P : String → Prop)
    (T : List Char → List String → List Char → Prop) : Prop extends Tracking T where
  /-- What is said of a text is true of its rests. -/
  rest : ∀ cs rest, rest <:+ cs → G cs → G rest
  /-- A run of words. -/
  wordRun : ∀ cs term rest, G cs → wordRun cs = some (term, rest) → Reads P T cs term rest
  /-- A reference. -/
  reference : ∀ cs term rest, G cs → reference cs = some (term, rest) → Reads P T cs term rest
  /-- A literal, where there is no reference. -/
  literal : ∀ cs term rest, G cs → Parser.reference cs = none → literal cs = some (term, rest) →
    Reads P T cs term rest

variable {G : List Char → Prop} {P : String → Prop}
  {T : List Char → List String → List Char → Prop}

/-- What is known along a rest is known along the text. -/
theorem Tracking.mono (h : Tracking T) {keys : List String} {mid mid' : List Char}
    (hstart : mid <:+ cs) (hkeys : T mid keys mid') (hend : rest <:+ mid') : T cs keys rest := by
  have hall := h.append cs [] mid keys mid' (h.nil cs mid hstart) hkeys
  rw [List.nil_append] at hall
  have hall' := h.append cs keys mid' [] rest hall (h.nil mid' rest hend)
  rwa [List.append_nil] at hall'

/-- Terms under a combinator that has their texts. -/
theorem ReadsAll.combine {terms : List Term} {wrap : List Term → Term}
    (h : ReadsAll P T cs terms rest)
    (hwrap : ∀ {members}, (∀ term ∈ members, term.Regular P) → (wrap members).Regular P)
    (hleaves : ∀ members, (wrap members).leaves = leavesOfAll members) :
    Reads P T cs (Term.combine wrap terms) rest := by
  refine ⟨Term.regular_combine hwrap h.1, ?_⟩
  rw [Term.leaves_combine hleaves]
  exact h.2

section Lists

variable (hreads : Readable G P T) {separator : List Char → Option (List Char)}
  (hseparator : Leaves separator) {item : Parser Term} (hitem : Yields G (Reads P T) item)

include hreads hseparator hitem

theorem more_yields {fuel : Nat} {terms : List Term} (hcs : G cs)
    (h : more separator item fuel cs = (terms, rest)) :
    ReadsAll P T cs terms rest ∧ rest <:+ cs := by
  induction fuel generalizing cs terms rest with
  | zero =>
    cases h
    exact ⟨⟨by simp, hreads.nil cs cs (List.suffix_refl _)⟩, List.suffix_refl _⟩
  | succ fuel ih =>
    unfold more at h
    cases hsep : separator cs with
    | none =>
      rw [hsep] at h
      cases h
      exact ⟨⟨by simp, hreads.nil cs cs (List.suffix_refl _)⟩, List.suffix_refl _⟩
    | some left =>
      rw [hsep] at h
      have hleft := hseparator cs left hsep
      dsimp only at h
      rcases hfirst : item left with _ | ⟨term, left'⟩ <;> rw [hfirst] at h
      · cases h
        exact ⟨⟨by simp, hreads.nil cs cs (List.suffix_refl _)⟩, List.suffix_refl _⟩
      · dsimp only at h
        obtain ⟨⟨hterm, htrack⟩, hleft'⟩ := hitem left term left' (hreads.rest _ _ hleft hcs) hfirst
        have hsuffix := hleft'.trans hleft
        rcases hmore : more separator item fuel left' with ⟨terms', rest'⟩
        rw [hmore] at h
        cases h
        obtain ⟨⟨hterms, htrack'⟩, hrest'⟩ := ih (hreads.rest _ _ hsuffix hcs) hmore
        refine ⟨⟨by simpa using ⟨hterm, hterms⟩, ?_⟩, hrest'.trans hsuffix⟩
        exact hreads.append _ _ _ _ _
          (hreads.toTracking.mono hleft htrack (List.suffix_refl _)) htrack'

theorem separated_yields : Yields G (ReadsAll P T) (separated separator item) := by
  intro cs terms rest hcs h
  obtain ⟨⟨term, left⟩, hfirst, h⟩ := Option.bind_eq_some_iff.mp h
  obtain ⟨⟨hterm, htrack⟩, hleft⟩ := hitem cs term left hcs hfirst
  rcases hmore : more separator item left.length left with ⟨terms', rest'⟩
  dsimp only at h
  rw [hmore] at h
  cases h
  obtain ⟨⟨hterms, htrack'⟩, hrest'⟩ :=
    more_yields hreads hseparator hitem (hreads.rest _ _ hleft hcs) hmore
  exact ⟨⟨by simpa using ⟨hterm, hterms⟩, hreads.append _ _ _ _ _ htrack htrack'⟩,
    hrest'.trans hleft⟩

end Lists

section Readers

variable (hreads : Readable G P T) {inside : Parser Term} (hinside : Yields G (Reads P T) inside)

include hreads hinside

theorem group_yields : Yields G (Reads P T) (group inside) := by
  intro cs term rest hcs h
  obtain ⟨left, hopen, h⟩ := Option.bind_eq_some_iff.mp h
  obtain ⟨⟨term', left'⟩, hterm, h⟩ := Option.bind_eq_some_iff.mp h
  obtain ⟨after, hclose, h⟩ := Option.bind_eq_some_iff.mp h
  cases h
  have hleft := (skipGap_suffix left).trans (expect_leaves _ _ _ hopen)
  obtain ⟨⟨hregular, htrack⟩, hleft'⟩ := hinside _ _ _ (hreads.rest _ _ hleft hcs) hterm
  have hrest := (expect_leaves _ _ _ hclose).trans (skipGap_suffix left')
  exact ⟨⟨hregular, hreads.toTracking.mono hleft htrack hrest⟩, hrest.trans (hleft'.trans hleft)⟩

theorem function_yields : Yields G (Reads P T) (function inside) := by
  intro cs term rest hcs h
  obtain ⟨⟨name, left⟩, hname, h⟩ := Option.bind_eq_some_iff.mp h
  obtain ⟨left', hopen, h⟩ := Option.bind_eq_some_iff.mp h
  have hleft := (skipGap_suffix left').trans ((expect_leaves _ _ _ hopen).trans (run_suffix hname))
  dsimp only at h
  split at h
  · next after hclose =>
    cases h
    have hrest := (expect_leaves _ _ _ hclose).trans hleft
    exact ⟨⟨.function nofun, hreads.nil _ _ hrest⟩, hrest⟩
  · obtain ⟨⟨body, after⟩, hbody, h⟩ := Option.bind_eq_some_iff.mp h
    obtain ⟨after', hclose, h⟩ := Option.bind_eq_some_iff.mp h
    cases h
    obtain ⟨⟨hregular, htrack⟩, hafter⟩ := hinside _ _ _ (hreads.rest _ _ hleft hcs) hbody
    have hrest := (expect_leaves _ _ _ hclose).trans (skipGap_suffix after)
    refine ⟨⟨.function ?_, hreads.toTracking.mono hleft htrack hrest⟩,
      hrest.trans (hafter.trans hleft)⟩
    rintro term ⟨⟩
    exact hregular

theorem item_yields : Yields G (Reads P T) (item inside) := by
  intro cs term rest hcs h
  obtain ⟨⟨inner, left⟩, hinner, h⟩ := Option.bind_eq_some_iff.mp h
  have hread : Reads P T cs inner left ∧ left <:+ cs := by
    rcases Option.or_eq_some_iff.mp hinner with hgroup | ⟨-, hinner⟩
    · exact group_yields hreads hinside cs inner left hcs hgroup
    rcases Option.or_eq_some_iff.mp hinner with hfunction | ⟨-, hinner⟩
    · exact function_yields hreads hinside cs inner left hcs hfunction
    rcases Option.or_eq_some_iff.mp hinner with href | ⟨hnone, hliteral⟩
    · exact ⟨hreads.reference cs inner left hcs href, reference_suffix href⟩
    · exact ⟨hreads.literal cs inner left hcs hnone hliteral, literal_suffix hliteral⟩
  dsimp only at h
  split at h
  · next m after hmultiplier =>
    cases h
    have hafter := multiplier_suffix hmultiplier
    exact ⟨⟨.repeated hread.1.1 (multiplier_min hmultiplier),
      hreads.toTracking.mono (List.suffix_refl _) hread.1.2 hafter⟩, hafter.trans hread.2⟩
  · cases h
    exact hread

theorem sequence_yields : Yields G (Reads P T) (sequence inside) := by
  intro cs term rest hcs h
  obtain ⟨⟨members, left⟩, hmembers, h⟩ := Option.map_eq_some_iff.mp h
  cases h
  obtain ⟨hall, hrest⟩ := separated_yields hreads gapBetween_leaves
    (item_yields hreads hinside) cs members rest hcs hmembers
  refine ⟨?_, hrest⟩
  unfold ofSequence
  split
  · next term =>
    refine ⟨.bracketed (hall.1 _ (by simp)), hreads.sublist _ _ _ _ ?_ hall.2⟩
    show term.leaves.Sublist (["\"[\""] ++ (term.leaves ++ (["\"]\""] ++ [])))
    exact (List.sublist_append_left _ _).trans (List.sublist_append_right _ _)
  · exact hall.combine .sequence fun _ => rfl

theorem allOf_yields : Yields G (Reads P T) (allOf inside) := by
  intro cs term rest hcs h
  obtain ⟨⟨members, left⟩, hmembers, h⟩ := Option.map_eq_some_iff.mp h
  cases h
  obtain ⟨hall, hrest⟩ := separated_yields hreads (expectSpaced_leaves "&&")
    (sequence_yields hreads hinside) cs members rest hcs hmembers
  exact ⟨hall.combine .allOf fun _ => rfl, hrest⟩

theorem someOf_yields : Yields G (Reads P T) (someOf inside) := by
  intro cs term rest hcs h
  obtain ⟨⟨members, left⟩, hmembers, h⟩ := Option.map_eq_some_iff.mp h
  cases h
  obtain ⟨hall, hrest⟩ := separated_yields hreads (expectSpaced_leaves "||")
    (allOf_yields hreads hinside) cs members rest hcs hmembers
  exact ⟨hall.combine .someOf fun _ => rfl, hrest⟩

theorem oneOf_yields : Yields G (Reads P T) (oneOf inside) := by
  intro cs term rest hcs h
  obtain ⟨⟨members, left⟩, hmembers, h⟩ := Option.map_eq_some_iff.mp h
  cases h
  have hchoice : Yields G (Reads P T) fun cs => (wordRun cs).or (someOf inside cs) := by
    intro cs term rest hcs h
    rcases Option.or_eq_some_iff.mp h with hwords | ⟨-, hsome⟩
    · exact ⟨hreads.wordRun cs term rest hcs hwords, wordRun_suffix hwords⟩
    · exact someOf_yields hreads hinside cs term rest hcs hsome
  obtain ⟨hall, hrest⟩ := separated_yields hreads singleBar_leaves hchoice
    cs members rest hcs hmembers
  exact ⟨hall.combine .oneOf fun _ => rfl, hrest⟩

end Readers

theorem nested_yields (hreads : Readable G P T) (depth : Nat) :
    Yields G (Reads P T) (nested depth) := by
  induction depth with
  | zero =>
    intro cs term rest _ h
    cases h
  | succ depth ih => exact oneOf_yields hreads ih

end Parser

/-- **Every term that is read is regular**, and its texts are known along
the text. -/
theorem Term.ofString_reads {G : List Char → Prop} {P : String → Prop}
    {T : List Char → List String → List Char → Prop} (hreads : Parser.Readable G P T)
    {text : String} {term : Term} (htext : G text.toList) (h : Term.ofString text = .ok term) :
    ∃ rest, Parser.Reads P T text.toList term rest := by
  unfold Term.ofString at h
  dsimp only at h
  split at h
  · next term' rest hnested =>
    split at h
    · cases h
      exact ⟨rest, (Parser.nested_yields hreads _ _ _ _ htext hnested).1⟩
    · cases h
  · cases h

/-! ## Texts wherever they stand -/

/-- Nothing is known of where texts stand. -/
def Parser.Anywhere (_ : List Char) (_ : List String) (_ : List Char) : Prop := True

theorem Parser.tracking_anywhere : Parser.Tracking Parser.Anywhere :=
  ⟨fun _ _ _ => trivial, fun _ _ _ _ _ _ _ => trivial, fun _ _ _ _ _ _ => trivial⟩

/-- **Every term that is read is regular.** -/
theorem Term.ofString_regular {G : List Char → Prop} {P : String → Prop}
    (hreads : Parser.Readable G P Parser.Anywhere) {text : String} {term : Term}
    (htext : G text.toList) (h : Term.ofString text = .ok term) : term.Regular P :=
  (Term.ofString_reads hreads htext h).elim fun _ hread => hread.1

end Stylesheet.Grammar
