import Stylesheet.Proofs.Completion
import Stylesheet.Proofs.Core.Block
import Stylesheet.Proofs.Core.Selector

/-!
# Rules of the core language

A rule is read in the same way wherever it stands, as long as it stands in
no other rule. What differs is who reads the block inside it, which is only
asked to go one level deeper.
-/

namespace Stylesheet

open Parse (State)
open Stylesheet.Parser

namespace Core

variable {s : State} {a z : List Char} {l : List Token} {block : BlockParser}

/-! ## Rules -/

/-- The selectors of rules that stand alone have nothing to complain
about. -/
theorem checkNesting_on {selectors : List Selector} {loc : Location}
    (h : ∀ selector ∈ selectors, selector.usesAmp = false ∧ selector.isRelative = false) :
    checkNesting selectors loc s = (.ok (), s) := by
  have hnone : selectors.any (fun x => x.usesAmp || x.isRelative) = false := by
    simpa using h
  unfold checkNesting
  refine (bind_ok (show state s = (.ok s, s) from rfl)).trans ?_
  rw [hnone, Bool.and_false, if_neg Bool.false_ne_true]
  rfl

theorem Heads.length_selectors_le (hs : Heads) : hs.selectors.length ≤ hs.chars.length := by
  induction hs with
  | last g₀ x g =>
    simp only [Heads.selectors, Heads.chars, List.length_append, List.length_cons, List.length_nil]
    omega
  | more g₀ x g hs ih =>
    simp only [Heads.selectors, Heads.chars, List.length_append, List.length_cons]
    omega

/-- Without a store a rule is not opened in it. -/
theorem openInStore_on (h : s.store = none) (loc : Location) :
    openInStore loc s = (.ok none, s) := by
  obtain ⟨_, _, _, _, _, _, _, _, _, _, _⟩ := s
  cases h
  rfl

/-- Without a store no rule is remembered. -/
theorem remembered_on (h : s.store = none) (loc : Location) :
    remembered loc s = (.ok none, s) := by
  obtain ⟨_, _, _, _, _, _, _, _, _, _, _⟩ := s
  cases h
  rfl

/-- **What follows the selectors** of a rule. -/
theorem ruleBody_on (hblock : Deep s.budget block) (b : Body) {t brace : Token}
    {selectors : List Selector} (hrest : b.NoFilter z) (hopen : Open s)
    (hbudget : b.chars.length < s.budget) (hbrace : brace.kind = .lBrace)
    (hselectors : ∀ selector ∈ selectors,
      selector.usesAmp = false ∧ selector.isRelative = false) :
    ∃ (validator : Validator) (events : List Event) (l' : List Token),
      Says events (.startRule (selectors.map (·.text)) :: (b.declarations.map (·.gist) ++
        [.endRule (selectors.map (·.text)) b.declarations.isEmpty])) (b.places a) ∧
      ruleBody block t true selectors
          (s.on a (b.chars ++ z) (brace :: l) []) = (.ok .parsed,
        (reporting s validator events).on (a ++ b.chars) z l' []) := by
  let start := (selectors.head?.map (·.location)).getD t.location
  obtain ⟨validator, events, close, l', hsays, hblock⟩ := block_on (a := a)
    (l := brace :: l) hblock b hrest hopen (Nat.le_of_lt hbudget) start selectors
  refine ⟨validator, events, close :: l', hsays, ?_⟩
  have hstored := openInStore_on (s := s.on a (b.chars ++ z) (brace :: l) []) hopen.store start
  have hreuse := mustReuse_on (s := s) (a := a) (z := b.chars ++ z)
    (l := l) (show brace.kind ∈ [TokenKind.lBrace] from hbrace ▸ List.mem_cons_self)
  unfold ruleBody
  refine (show _ = _ from bind_ok hstored).trans ?_
  refine (show _ = _ from bind_ok (checkNesting_on hselectors)).trans ?_
  refine (show _ = _ from bind_ok (attempt_ok hreuse)).trans ?_
  refine (show _ = _ from bind_ok (attempt_ok hblock)).trans ?_
  cases b.declarations.isEmpty <;> rfl

/-- **A rule** after its first token. -/
theorem styleRule_on (hblock : Deep s.budget block) (r : Rule) {t : Token} {s₁ : State}
    (hrest : r.body.NoFilter z) (hopen : Open s) (hinStyle : s.inStyle = 0)
    (hbudget : r.chars.length + 1 < s.budget)
    (hgrab : grab (s.on a (r.chars ++ z) l []) = (.ok t, s₁))
    (ht : (t.kind == .uvar) = false) :
    ∃ (validator : Validator) (events : List Event) (l' : List Token),
      Says events r.gists (r.body.places (a ++ r.heads.chars)) ∧
      styleRule block t s₁ = (.ok .parsed,
        (reporting s validator events).on (a ++ r.chars) z l' []) := by
  have hlength : r.chars.length = r.heads.chars.length + r.body.chars.length := by
    simp [Rule.chars]
  have hcount := r.heads.length_selectors_le
  rw [show r.chars ++ z = r.heads.chars ++ (r.body.chars ++ z) from
    List.append_assoc _ _ _] at hgrab
  obtain ⟨read, brace, l₁, hhead, hbrace, htexts, hread⟩ :=
    ruleHead_on r.heads hgrab ht (by omega)
  obtain ⟨validator, events, l', hsays, hbody⟩ := ruleBody_on (a := a ++ r.heads.chars)
    (l := l₁) (t := t) hblock r.body hrest hopen (by omega) hbrace hread
  refine ⟨validator, events, l', ?_, ?_⟩
  · rwa [htexts] at hsays
  · have hs₁ : s₁ = { s.on a (r.heads.chars ++ (r.body.chars ++ z)) l [] with
        stream := s₁.stream } := (Prod.mk.inj hgrab).2 ▸ rfl
    have hremembered := remembered_on (s := s₁) (by rw [hs₁]; exact hopen.store) t.location
    have hstorable : (s₁.inStyle == 0) = true := by
      rw [hs₁]
      exact beq_iff_eq.mpr hinStyle
    unfold styleRule
    refine (bind_ok (show state s₁ = (.ok s₁, s₁) from rfl)).trans ?_
    rw [hstorable]
    refine (show _ = _ from bind_ok hremembered).trans ?_
    refine (show _ = _ from bind_ok (attempt_ok hhead)).trans ?_
    rw [show a ++ r.chars = a ++ r.heads.chars ++ r.body.chars from
      (List.append_assoc _ _ _).symm]
    exact hbody

/-- The blanks before selectors. -/
def Heads.before : Heads → Gap
  | .last before _ _ => before
  | .more before _ _ _ => before

/-- **What the first token of a rule is**: a name, a dot or a hash, after the
blanks before the rule. -/
structure IsFirst (a : List Char) (hs : Heads) (t : Token) : Prop where
  /-- Its kind. -/
  kind : t.kind ∈ [TokenKind.ident, .dot, .hash]
  /-- It is no name with two dashes. -/
  isCustomIdent : t.isCustomIdent = false
  /-- Its place. -/
  location : t.location = Location.start.advance (a ++ hs.before.chars)

/-- **The first token of a rule.** -/
theorem next_heads (hs : Heads) :
    ∃ t s₁, (∀ p, next p false (s.on a (hs.chars ++ z) l []) = (.ok t, s₁)) ∧
      IsFirst a hs t := by
  have hround : ∀ (g₀ : Gap) (x : Simple) (g : Gap) {m : Char} {kind : TokenKind} {after},
      (m, kind) ∈ headEnds → ∀ p, next p false
        (s.on a (g₀.chars ++ (x.chars ++ (g.chars ++ m :: after))) l []) = _ :=
    fun g₀ x g _ _ _ h p => next_simple p g₀ x (g.ends (ends_of_headEnds h)) (head_ne_colon g h)
  have hkind : ∀ (x : Simple) b, (x.token b).kind ∈ [TokenKind.ident, .dot, .hash] ∧
      (x.token b).isCustomIdent = false := by
    intro x b
    cases x <;> refine ⟨?_, rfl⟩ <;>
      simp [Simple.token, Simple.lexeme, Lexeme.after, Word.lexeme, Word.hash]
  cases hs with
  | last g₀ x g =>
    rw [show (Heads.last g₀ x g).chars ++ z = g₀.chars ++ (x.chars ++ (g.chars ++
      '\x7b' :: z)) by simp [Heads.chars]]
    exact ⟨_, _, hround g₀ x g (show ('\x7b', TokenKind.lBrace) ∈ headEnds by decide),
      (hkind x _).1, (hkind x _).2, rfl⟩
  | more g₀ x g hs =>
    rw [show (Heads.more g₀ x g hs).chars ++ z = g₀.chars ++ (x.chars ++ (g.chars ++
      ',' :: (hs.chars ++ z))) by simp [Heads.chars]]
    exact ⟨_, _, hround g₀ x g (show (',', TokenKind.comma) ∈ headEnds by decide),
      (hkind x _).1, (hkind x _).2, rfl⟩

/-! ## Rules of a stylesheet -/

/-- **One rule of a stylesheet.** -/
theorem sheetStep_rule (r : Rule) (hrest : r.body.NoFilter z) (hopen : Open s)
    (hinStyle : s.inStyle = 0) (hbudget : r.chars.length + 1 < s.budget) :
    ∃ (validator : Validator) (events : List Event) (l' : List Token),
      Says events r.gists (r.body.places (a ++ r.heads.chars)) ∧
      sheetStep () (s.on a (r.chars ++ z) l []) = (.ok (.yield ()),
        (reporting s validator events).on (a ++ r.chars) z l' []) := by
  obtain ⟨t, s₁, hnext, hfirst⟩ := next_heads (s := s) (a := a) (l := l)
    (z := r.body.chars ++ z) r.heads
  have hgrab : grab (s.on a (r.heads.chars ++ (r.body.chars ++ z)) l []) = (.ok t, s₁) :=
    hnext false
  rw [← List.append_assoc] at hgrab
  have ht := hfirst.kind
  have hall : ∀ kind ∈ [TokenKind.ident, .dot, .hash],
      (kind == .uvar) = false ∧ (kind == .eof) = false := by decide
  obtain ⟨huvar, heof⟩ := hall _ ht
  obtain ⟨validator, events, l', hsays, hrule⟩ :=
    styleRule_on (deep_block (by omega)) r hrest hopen hinStyle hbudget hgrab huvar
  refine ⟨validator, events, l', hsays, ?_⟩
  have htop : topRule t s₁ =
      (.ok (), (reporting s validator events).on (a ++ r.chars) z l' []) := by
    unfold topRule
    simp only [List.mem_cons, List.not_mem_nil, or_false] at ht
    rcases ht with ht | ht | ht <;> rw [ht] <;> exact bind_ok hrule
  unfold sheetStep
  refine (show _ = _ from bind_ok hgrab).trans ?_
  rw [show t.isEof = false from heof]
  exact bind_ok (attempt_ok htop)

/-- **The end of a stylesheet**, after blanks. -/
theorem sheetStep_end (g : Gap) :
    ∃ t, sheetStep () (s.on a g.chars l []) =
      (.ok (.done ()), s.on (a ++ g.chars) [] (t :: l.take 4) []) := by
  have hgrab : grab (s.on a (g.chars ++ ([] ++ [])) l []) = _ :=
    next_on g Solid.nil rfl rfl
  rw [List.append_nil, List.append_nil, List.append_nil] at hgrab
  exact ⟨_, bind_ok hgrab⟩

theorem Rule.length_pos (r : Rule) : 0 < r.chars.length := by
  cases hbody : r.body <;>
    simp only [Rule.chars, hbody, Body.chars, List.length_append, List.length_cons] <;> omega

theorem all_isWritten_sheetChars (rules : List Rule) (tail : Gap) :
    (sheetChars rules tail).all isWritten = true := by
  rw [sheetChars, List.all_append, all_isWritten tail.all_isInk, Bool.and_true]
  simp [Rule.chars, List.all_flatMap]

/-! ## The state before anything is read -/

theorem all_isInLine {cs : List Char} (h : cs.all isWritten = true) : cs.all isInLine = true :=
  List.all_eq_true.mpr fun c hc => (Bool.and_eq_true_iff.mp (List.all_eq_true.mp h c hc)).2

theorem normalizeNewlines_of_isInLine {cs : List Char} (h : cs.all isInLine = true) :
    normalizeNewlines cs = cs :=
  normalizeNewlines_of_forall fun c hc => by
    simpa [isInLine] using List.all_eq_true.mp h c hc

/-- **The state before a text** is read. -/
theorem initial_on {cs : List Char} (h : cs.all isInLine = true) (options : Options)
    (validator : Validator) : State.initial (String.ofList cs) options validator none =
      (State.initial (String.ofList cs) options validator none).on [] cs [] [] := by
  have hreader : Reader.ofString (String.ofList cs) = Reader.on [] cs := by
    unfold Reader.ofString Reader.atPlace Reader.on
    rw [String.toList_ofList, normalizeNewlines_of_isInLine h]
    simp only [List.nil_append, Location.advance_nil, Reader.mk.injEq, true_and, and_true]
    exact Text.suffixAt_zero cs
  unfold State.initial Parse.State.on Stream.ofString
  rw [hreader]

/-!
## The core language is read as it is written

Rules whose selectors are a name, a class or an id, with declarations whose
values are words and whole numbers, are reported as they stand, whatever
blanks there are between the parts: every rule with its selectors, every
declaration with its name and its value, and nothing else.
-/

section Parts

variable {ι : Type} {chars : ι → List Char} {tail : Gap}
  {Told : List Char → List ι → List Event → Prop}

/-- The text of the parts of a stylesheet, one after the other, and blanks at
the end. -/
def partChars (chars : ι → List Char) (parts : List ι) (tail : Gap) : List Char :=
  parts.flatMap chars ++ tail.chars

/-- **What is told of a stylesheet part by part**: each part is read where other
parts come after it, and what is told of these goes with its events. -/
structure ToldInParts (s : State) (chars : ι → List Char) (tail : Gap)
    (Told : List Char → List ι → List Event → Prop) : Prop where
  /-- No part is empty. -/
  length_pos : ∀ part, 0 < (chars part).length
  /-- Where there are no parts, there are no events. -/
  nil : ∀ a, Told a [] []
  /-- A part before others. -/
  cons : ∀ part parts validator before a l, (chars part).length + 1 < s.budget →
    ∃ (validator' : Validator) (events : List Event) (l' : List Token),
      (∀ later, Told (a ++ chars part) parts later → Told a (part :: parts) (later ++ events)) ∧
      sheetStep () ((reporting s validator before).on a
          (chars part ++ partChars chars parts tail) l []) = (.ok (.yield ()),
        (reporting s validator' (events ++ before)).on (a ++ chars part)
          (partChars chars parts tail) l' [])

/-- **The parts of a stylesheet**, one after the other, to the end. -/
theorem sheetSteps_parts (h : ToldInParts s chars tail Told) {parts : List ι} {n : Nat}
    {validator : Validator} {before : List Event} (hn : (partChars chars parts tail).length < n)
    (hbudget : (partChars chars parts tail).length + 1 < s.budget) :
    ∃ (validator' : Validator) (events : List Event) (l' : List Token), Told a parts events ∧
      rounds sheetStep n ()
          ((reporting s validator before).on a (partChars chars parts tail) l []) =
        (.ok (), (reporting s validator' (events ++ before)).on
          (a ++ partChars chars parts tail) [] l' []) := by
  induction parts generalizing validator before a l n with
  | nil =>
    obtain ⟨n, rfl⟩ : ∃ k, n = k + 1 := ⟨n - 1, by omega⟩
    obtain ⟨t, hstep⟩ := sheetStep_end (s := reporting s validator before) (a := a) (l := l) tail
    exact ⟨validator, [], t :: l.take 4, h.nil a, rounds_done hstep⟩
  | cons part parts ih =>
    have hchars : partChars chars (part :: parts) tail =
        chars part ++ partChars chars parts tail := by
      simp [partChars]
    have hpos := h.length_pos part
    rw [hchars, List.length_append] at hn hbudget
    obtain ⟨n, rfl⟩ : ∃ k, n = k + 1 := ⟨n - 1, by omega⟩
    obtain ⟨validator₁, events₁, l₁, htold₁, hstep⟩ :=
      h.cons part parts validator before a l (by omega)
    obtain ⟨validator', events, l', htold, hrounds⟩ := @ih (a ++ chars part) l₁ n validator₁
      (events₁ ++ before) (by omega) (by omega)
    refine ⟨validator', events ++ events₁, l', htold₁ _ htold, ?_⟩
    rw [hchars, ← List.append_assoc, List.append_assoc events]
    exact (rounds_yield hstep).trans hrounds

/-- **A whole stylesheet**, from its start to its end. -/
theorem sheet_parts (h : ToldInParts s chars tail Told) {parts : List ι} (hopen : Open s)
    (hevents : s.events = []) (hbudget : (partChars chars parts tail).length + 1 < s.budget) :
    ∃ s' events loc, sheet (s.on [] (partChars chars parts tail) [] []) = (.ok (), s') ∧
      Told [] parts events ∧
      s'.events = ⟨.endStylesheet, loc⟩ :: (events ++ [⟨.startStylesheet, .start⟩]) := by
  let first : Event := ⟨.startStylesheet, .start⟩
  have hfirst : fire .startStylesheet .start (s.on [] (partChars chars parts tail) [] []) =
      (.ok (), (reporting s s.validator [first]).on [] (partChars chars parts tail) [] []) :=
    fire_apply (s := s.on [] (partChars chars parts tail) [] []) hopen.deferred hopen.store
      _ _
  obtain ⟨validator, events, l, htold, hrounds⟩ := @sheetSteps_parts s [] [] _ chars tail Told h
    parts s.budget s.validator [first] (by omega) hbudget
  let s₁ := (reporting s validator (events ++ [first])).on ([] ++ partChars chars parts tail) [] l []
  have hlast := fire_apply (s := s₁) hopen.deferred hopen.store .endStylesheet
    s₁.stream.current.location
  refine ⟨{ s₁ with events := ⟨.endStylesheet, s₁.stream.current.location⟩ :: s₁.events }, events,
    s₁.stream.current.location, ?_, htold, ?_⟩
  · unfold sheet
    refine (bind_ok hfirst).trans ?_
    refine (bind_ok (show repeating () sheetStep ((reporting s s.validator
      [first]).on [] (partChars chars parts tail) [] []) = (.ok (), s₁) from hrounds)).trans ?_
    exact (bind_ok (show current s₁ = (.ok s₁.stream.current, s₁) from rfl)).trans
      hlast
  · show _ :: (events ++ [first] ++ s.events) = _
    rw [hevents, List.append_nil]

end Parts

/-- **A stylesheet of rules.** -/
theorem sheet_says (rules : List Rule) (tail : Gap) (hopen : Open s) (hinStyle : s.inStyle = 0)
    (hevents : s.events = []) (hbudget : (sheetChars rules tail).length + 1 < s.budget) :
    ∃ s', sheet (s.on [] (sheetChars rules tail) [] []) = (.ok (), s') ∧
      Says s'.events (sheetGists rules) (rulePlaces [] rules) := by
  have hrules : ToldInParts s Rule.chars tail fun a rules events =>
      Says events (rules.flatMap (·.gists)) (rulePlaces a rules) := by
    refine ⟨Rule.length_pos, fun _ => .nil, fun r rules validator before a l hlength => ?_⟩
    obtain ⟨validator', events, l', hsays, hstep⟩ := sheetStep_rule (a := a) (l := l)
      (s := reporting s validator before) r
      (r.body.noFilter_of_isWritten (all_isWritten_sheetChars rules tail)) (hopen.reporting _ _)
      hinStyle hlength
    rw [reporting_reporting] at hstep
    refine ⟨validator', events, l', fun later hlater => ?_, hstep⟩
    rw [List.flatMap_cons]
    exact hsays.append hlater
  obtain ⟨s', events, loc, hrun, hsays, hall⟩ := sheet_parts hrules hopen hevents hbudget
  have hstart : Says [⟨.startStylesheet, .start⟩] [.startSheet] [] := ⟨rfl, rfl⟩
  have hend : Says [⟨.endStylesheet, loc⟩] [.endSheet] [] := ⟨rfl, rfl⟩
  have hsheet := (hstart.append hsays).append hend
  rw [List.append_nil, List.nil_append, List.append_assoc] at hsheet
  exact ⟨s', hrun, hall ▸ hsheet⟩

/-- What a whole stylesheet says. -/
theorem sheet_on (rules : List Rule) (tail : Gap) (hopen : Open s) (hinStyle : s.inStyle = 0)
    (hevents : s.events = []) (hbudget : (sheetChars rules tail).length + 1 < s.budget) :
    ∃ s', sheet (s.on [] (sheetChars rules tail) [] []) = (.ok (), s') ∧
      s'.events.reverse.map (·.gist) = sheetGists rules :=
  have ⟨s', hrun, hsays⟩ := sheet_says rules tail hopen hinStyle hevents hbudget
  ⟨s', hrun, hsays.gists_eq⟩

end Core

/-- **The core language is accepted and reported as it stands.** The parse
of a text of rules, with any blanks between its parts, reports the start of
the stylesheet, every rule with its selectors and its declarations in their
order, and the end; nothing else, and so no error and no warning. -/
theorem core_language_reported (rules : List Core.Rule) (tail : Core.Gap) (options : Options)
    (validator : Validator) (hlax : options.strict = false) :
    (sheet.run (String.ofList (Core.sheetChars rules tail)) options validator none).result =
        .ok () ∧
      (sheet.run (String.ofList (Core.sheetChars rules tail)) options validator
        none).events.map (·.gist) = Core.sheetGists rules := by
  let s := State.initial (String.ofList (Core.sheetChars rules tail)) options validator none
  have hinitial : s = s.on [] (Core.sheetChars rules tail) [] [] :=
    Core.initial_on (Core.all_isInLine (Core.all_isWritten_sheetChars rules tail)) options validator
  have hbudget : s.budget = 4 * (Core.sheetChars rules tail).length + 64 := by
    show Parse.budgetOf s.stream.source = _
    rw [hinitial]
    rfl
  obtain ⟨s', hrun, hgists⟩ := Core.sheet_on (s := s) rules tail ⟨hlax, rfl, rfl⟩ rfl rfl (by omega)
  have hsheet : sheet s = (.ok (), s') := hinitial ▸ hrun
  rw [result_run, events_run]
  exact ⟨congrArg Prod.fst hsheet,
    (congrArg (fun r => r.2.events.reverse.map (·.gist)) hsheet).trans hgists⟩

/-- A rule with two selectors and one declaration, and blanks around its
parts. -/
theorem core_language_reported_two :
    (parseSheet "a, .b \x7bp:1 c\x7d" {}).events.map (·.gist) =
      [.startSheet, .startRule ["a", ".b"], .property "p" "1 c" false, .endRule ["a", ".b"] false,
        .endSheet] := by
  let letter (c : Char) (h : Core.isLetter c = true) : Core.Word := ⟨c, [], h, by simp⟩
  let one : Core.Numeral := ⟨'1', [], List.forall_mem_singleton.mpr rfl⟩
  let value : Core.Parts := .more (.numeral one) (.last (.word (letter 'c' rfl)))
  let heads : Core.Heads := .more Core.noGap (.element (letter 'a' rfl)) Core.noGap
    (.last Core.space (.className (letter 'b' rfl)) Core.space)
  let body : Core.Body :=
    .last ⟨Core.noGap, letter 'p' rfl, Core.noGap, Core.noGap, value, Core.noGap⟩
  exact (core_language_reported [⟨heads, body⟩] Core.noGap {} .fresh rfl).2

end Stylesheet
