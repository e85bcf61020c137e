import Stylesheet.Proofs.Core.Document

/-!
# The documents of a stylesheet

When nothing but the documents of a stylesheet is asked for, the bodies of
documents and all other at-rules are passed over by their characters. The
documents that are reported are the same as otherwise as long as that comes
to the brace at which the body is read to its end.

It does in the core language (`documents_found`): for a text of rules,
documents and at-rules that are not known, both parses report the documents
that stand in it, from their at-keywords to their closing braces. It does
not when a token holds a bracket that is none. The address in
`url(\x7b)` is one token to a parse that reads it, but an open brace to one
that passes over it (`document_lost`).
-/

namespace Stylesheet

open Parse (State)
open Stylesheet.Parser

namespace Core

/-! ## Stylesheets with documents -/

/-- **A part of a stylesheet.** -/
inductive Item where
  /-- A rule or an at-rule that is not known. -/
  | statement (statement : Statement)
  /-- A document. -/
  | document (document : Document)

/-- The text of a part of a stylesheet. -/
def Item.chars : Item → List Char
  | .statement x => x.chars
  | .document d => d.chars

/-- The text of parts of a stylesheet, one after the other, and blanks at
the end. -/
def itemChars (items : List Item) (tail : Gap) : List Char :=
  items.flatMap (·.chars) ++ tail.chars

/-- **The document that a part is**, after some text: it starts at its
at-keyword and ends at its closing brace. -/
def Item.marks (a : List Char) : Item → List DocumentMark
  | .statement _ => []
  | .document d =>
    let body := a ++ d.before.chars ++ '@' :: d.keyword.chars ++ d.sites.chars ++ d.body
    [⟨true, d.sites.functions, Location.start.advance (a ++ d.before.chars)⟩,
      ⟨false, d.sites.functions, Location.start.advance body⟩]

/-- **The documents of a stylesheet**, after some text. -/
def itemMarks (a : List Char) : List Item → List DocumentMark
  | [] => []
  | item :: items => item.marks a ++ itemMarks (a ++ item.chars) items

variable {s : State} {a z : List Char} {l : List Token}

/-- **One part of a stylesheet**, read from its first token. -/
theorem sheetStep_of_topRule {t : Token} {s₁ s₂ : State} (hgrab : grab s = (.ok t, s₁))
    (ht : t.isEof = false) (htop : topRule t s₁ = (.ok (), s₂)) :
    sheetStep () s = (.ok (.yield ()), s₂) := by
  unfold sheetStep
  refine (bind_ok hgrab).trans ?_
  rw [ht]
  exact bind_ok (attempt_ok htop)

/-- **A document that stands in no block** is read as one, whatever is
asked for. -/
theorem atRule_document {t : Token} (ht : t.name = "document") :
    atRule block t true s = documentRule block t s := by
  have hnamed : namedRule block t = documentRule block t := by
    simp [namedRule, ht]
  have hne : (t.name != "document") = false := bne_eq_false_iff_eq.mpr ht
  unfold atRule
  refine (bind_ok (show options s = (.ok s.options, s) from rfl)).trans ?_
  rw [hne, Bool.and_false, if_neg Bool.false_ne_true, hnamed]

/-- **One statement of a stylesheet.** -/
theorem sheetStep_statement (x : Statement) (hopen : Open s) (hinStyle : s.inStyle = 0)
    (hbudget : x.chars.length + 1 < s.budget) :
    ∃ (validator : Validator) (events : List Event) (l' : List Token),
      Silent events.reverse ∧
      sheetStep () (s.on a (x.chars ++ z) l []) = (.ok (.yield ()),
        (reporting s validator events).on (a ++ x.chars) z l' []) := by
  cases x with
  | rule x hx =>
    obtain ⟨validator, events, l', hsays, hstep⟩ := sheetStep_rule (a := a) (l := l) (z := z) x
      (hx.noFilter z) hopen hinStyle hbudget
    exact ⟨validator, events, l', x.silent hsays.gists_eq, hstep⟩
  | unknown u =>
    have hgrab : grab (s.on a (u.before.chars ++ ('@' :: u.keyword.chars ++
        (u.tail ++ z))) l []) = _ := next_at false u.before u.keyword u.ends_tail
    obtain ⟨events, hwarnings, hrule⟩ := atRule_unknown block (s := s)
      (a := a ++ u.before.chars ++
      '@' :: u.keyword.chars) (z := z) (l := u.keyword.token (a ++ u.before.chars) :: l.take 4)
      u hopen
      (show (u.keyword.token (a ++ u.before.chars)).name = u.keyword.name from rfl) true
    have hstep := sheetStep_of_topRule hgrab rfl (show topRule _ _ = _ from hrule)
    refine ⟨s.validator, events, [],
      .of_warnings fun e he => hwarnings e (List.mem_reverse.mp he), ?_⟩
    rw [show (Statement.unknown u).chars ++ z =
        u.before.chars ++ ('@' :: u.keyword.chars ++ (u.tail ++ z)) by
      simp [Statement.chars, Unknown.chars],
      show a ++ (Statement.unknown u).chars =
        a ++ u.before.chars ++ '@' :: u.keyword.chars ++ u.tail by
      simp [Statement.chars, Unknown.chars]]
    exact hstep

/-- **One document of a stylesheet.** -/
theorem sheetStep_document (d : Document) (hopen : Open s) (hinStyle : s.inStyle = 0)
    (hdepth : s.depth = 0) (hbudget : d.chars.length + 1 < s.budget) :
    ∃ (validator : Validator) (events : List Event) (l' : List Token),
      (∀ rest, documentMarks 0 (events.reverse ++ rest) =
        (Item.document d).marks a ++ documentMarks 0 rest) ∧
      sheetStep () (s.on a (d.chars ++ z) l []) = (.ok (.yield ()),
        (reporting s validator events).on (a ++ d.chars) z l' []) := by
  have hgrab : grab (s.on a (d.before.chars ++ ('@' :: d.keyword.chars ++
      (d.sites.chars ++ (d.body ++ '\x7d' :: z)))) l []) = _ :=
    next_at false d.before d.keyword d.ends_sites
  obtain ⟨validator, events, empty, l', hsilent, hrule⟩ := documentRule_on (s := s)
    (a := a ++ d.before.chars ++ '@' :: d.keyword.chars) (z := z)
    (l := d.keyword.token (a ++ d.before.chars) :: l.take 4) d hopen hinStyle hdepth
    (Nat.lt_of_succ_lt hbudget) (d.keyword.token (a ++ d.before.chars))
  have htop := atRule_document (s := s.on (a ++ d.before.chars ++ '@' :: d.keyword.chars)
    (d.sites.chars ++ (d.body ++ '\x7d' :: z))
    (d.keyword.token (a ++ d.before.chars) :: l.take 4) [])
    (show (d.keyword.token (a ++ d.before.chars)).name = "document" from d.name_keyword)
  have hstep := sheetStep_of_topRule hgrab rfl
    (show topRule _ _ = _ from htop.trans hrule)
  let first : Event :=
    ⟨.start (.document d.sites.functions), Location.start.advance (a ++ d.before.chars)⟩
  let last : Event := ⟨.stop (.document d.sites.functions) empty, Location.start.advance
    (a ++ d.before.chars ++ '@' :: d.keyword.chars ++ d.sites.chars ++ d.body)⟩
  refine ⟨validator, last :: (events ++ [first]), l', fun rest => ?_, ?_⟩
  · have hmarks : (last :: (events ++ [first])).reverse ++ rest =
        first :: (events.reverse ++ last :: rest) := by simp
    rw [hmarks]
    show _ :: documentMarks 1 (events.reverse ++ last :: rest) = _
    rw [hsilent]
    rfl
  · rw [show d.chars ++ z = d.before.chars ++ ('@' :: d.keyword.chars ++
        (d.sites.chars ++ (d.body ++ '\x7d' :: z))) by simp [Document.chars],
      show a ++ d.chars = a ++ d.before.chars ++ '@' :: d.keyword.chars ++
        d.sites.chars ++ d.body ++ ['\x7d'] by simp [Document.chars]]
    exact hstep

/-- **One part of a stylesheet**, of which the documents are reported. -/
theorem sheetStep_item (item : Item) (hopen : Open s) (hinStyle : s.inStyle = 0)
    (hdepth : s.depth = 0) (hbudget : item.chars.length + 1 < s.budget) :
    ∃ (validator : Validator) (events : List Event) (l' : List Token),
      (∀ rest, documentMarks 0 (events.reverse ++ rest) = item.marks a ++ documentMarks 0 rest) ∧
      sheetStep () (s.on a (item.chars ++ z) l []) = (.ok (.yield ()),
        (reporting s validator events).on (a ++ item.chars) z l' []) := by
  cases item with
  | statement x =>
    obtain ⟨validator, events, l', hsilent, hstep⟩ := sheetStep_statement (a := a) (l := l)
      (z := z) x hopen hinStyle hbudget
    exact ⟨validator, events, l', hsilent 0, hstep⟩
  | document d => exact sheetStep_document d hopen hinStyle hdepth hbudget

theorem Item.length_pos (item : Item) : 0 < item.chars.length := by
  cases item with
  | statement x => exact x.length_pos
  | document d =>
    simp only [Item.chars, Document.chars, List.cons_append, List.length_append, List.length_cons]
    omega

/-- **A whole stylesheet with documents**, from its start to its end. -/
theorem sheet_items (items : List Item) (tail : Gap) (hopen : Open s) (hinStyle : s.inStyle = 0)
    (hdepth : s.depth = 0) (hevents : s.events = [])
    (hbudget : (itemChars items tail).length + 1 < s.budget) :
    ∃ s', sheet (s.on [] (itemChars items tail) [] []) = (.ok (), s') ∧
      documentMarks 0 s'.events.reverse = itemMarks [] items := by
  have hitems : ToldInParts s Item.chars tail fun a items events =>
      ∀ rest, documentMarks 0 (events.reverse ++ rest) =
        itemMarks a items ++ documentMarks 0 rest := by
    refine ⟨Item.length_pos, fun _ _ => rfl, fun item items validator before a l hlength => ?_⟩
    obtain ⟨validator', events, l', hmarks, hstep⟩ := sheetStep_item (a := a) (l := l)
      (s := reporting s validator before) item (hopen.reporting _ _) hinStyle hdepth hlength
    rw [reporting_reporting] at hstep
    refine ⟨validator', events, l', fun later hlater rest => ?_, hstep⟩
    rw [List.reverse_append, List.append_assoc, hmarks, hlater, itemMarks, List.append_assoc]
  obtain ⟨s', events, loc, hrun, hmarks, hall⟩ := sheet_parts hitems hopen hevents hbudget
  refine ⟨s', hrun, ?_⟩
  have hreverse : s'.events.reverse =
      ⟨.startStylesheet, .start⟩ :: (events.reverse ++ [⟨.endStylesheet, loc⟩]) := by simp [hall]
  rw [hreverse]
  exact (hmarks _).trans (List.append_nil _)

theorem Item.all_isInLine (item : Item) : item.chars.all isInLine = true := by
  cases item with
  | statement x => exact x.all_isInLine
  | document d => exact d.all_isInLine

theorem all_isInLine_itemChars (items : List Item) (tail : Gap) :
    (itemChars items tail).all isInLine = true := by
  rw [itemChars, List.all_append, tail.all_isInLine, Bool.and_true, List.all_flatMap]
  exact List.all_eq_true.mpr fun item _ => item.all_isInLine

end Core

/-- **The documents that stand in a stylesheet are found**, whether all of
it is asked for or only they are. -/
theorem documents_found (items : List Core.Item) (tail : Core.Gap) (options : Options)
    (validator : Validator) (hlax : options.strict = false) :
    (sheet.run (String.ofList (Core.itemChars items tail)) options validator none).result =
        .ok () ∧
      documentMarks 0 (sheet.run (String.ofList (Core.itemChars items tail)) options
        validator none).events = Core.itemMarks [] items := by
  let s := State.initial (String.ofList (Core.itemChars items tail)) options validator none
  have hinitial : s = s.on [] (Core.itemChars items tail) [] [] :=
    Core.initial_on (Core.all_isInLine_itemChars items tail) options validator
  have hbudget : s.budget = 4 * (Core.itemChars items tail).length + 64 := by
    show Parse.budgetOf s.stream.source = _
    rw [hinitial]
    rfl
  obtain ⟨s', hrun, hmarks⟩ := Core.sheet_items (s := s) items tail ⟨hlax, rfl, rfl⟩ rfl rfl rfl
    (by omega)
  have hsheet : sheet s = (.ok (), s') := hinitial ▸ hrun
  rw [result_run, events_run]
  refine ⟨congrArg Prod.fst hsheet, ?_⟩
  rw [show sheet (State.initial _ options validator none) = _ from hsheet]
  exact hmarks

/-- **The documents are the same** whether all of a stylesheet is asked for
or only they are: those that stand in its text, each from its at-keyword to
its closing brace. -/
theorem same_documents (items : List Core.Item) (tail : Core.Gap) (options : Options)
    (validator : Validator) (hlax : options.strict = false) :
    let found := fun top => documentMarks 0 (sheet.run (String.ofList
      (Core.itemChars items tail)) { options with topDocOnly := top } validator none).events
    found true = found false ∧ found false = Core.itemMarks [] items := by
  have hfound := fun top =>
    (documents_found items tail { options with topDocOnly := top } validator hlax).2
  exact ⟨(hfound true).trans (hfound false).symm, hfound false⟩

/-- An at-rule that is not known with a block, and a document with a rule
and another such at-rule. -/
theorem same_documents_moz :
    let css := "@x \x7b\x7d@-moz-document url(\x7b)\x7ba\x7bp:1\x7d@x;\x7d"
    let found := fun top => documentMarks 0 (parseSheet css { topDocOnly := top }).events
    found true = found false ∧ found false =
      [⟨true, ["url(\x7b)"], ⟨1, 6, 5⟩⟩, ⟨false, ["url(\x7b)"], ⟨1, 37, 36⟩⟩] := by
  let letter (c : Char) (h : Core.isLetter c = true) : Core.Word := ⟨c, [], h, by simp⟩
  let one : Core.Numeral := ⟨'1', [], List.forall_mem_singleton.mpr rfl⟩
  let heads : Core.Heads := .last Core.noGap (.element (letter 'a' rfl)) Core.noGap
  let body : Core.Body := .last ⟨Core.noGap, letter 'p' rfl, Core.noGap, Core.noGap,
    .last (.numeral one), Core.noGap⟩
  let x : Core.AtWord := ⟨['x'], List.forall_mem_singleton.mpr (by decide), rfl⟩
  let moz : Core.AtWord := ⟨"-moz-document".toList, List.all_eq_true.mp (by decide +kernel),
    by decide +kernel⟩
  let address : Core.Address := ⟨['\x7b'], by decide, List.forall_mem_singleton.mpr (by decide)⟩
  let inner : Core.Statement := .unknown ⟨Core.noGap, x, by decide +kernel, [], by simp [Core.Ends],
    .nil, rfl, .semicolon⟩
  let outer : Core.Statement := .unknown ⟨Core.noGap, x, by decide +kernel, [' '],
    by simp [Core.Ends, Core.isBoundary], .plain (by decide) (by decide) (by decide) .nil, rfl,
    .block [] .nil rfl⟩
  let document : Core.Document := ⟨Core.noGap, moz, by decide +kernel,
    .last ⟨Core.space, "url", by decide, address, Core.noGap⟩,
    by simp [Core.Sites.before, Core.space],
    [.rule ⟨heads, body⟩ (List.forall_mem_singleton.mpr (by decide +kernel)), inner], Core.noGap⟩
  let items : List Core.Item := [.statement outer, .document document]
  have htext : String.ofList (Core.itemChars items Core.noGap) =
      "@x \x7b\x7d@-moz-document url(\x7b)\x7ba\x7bp:1\x7d@x;\x7d" := by decide +kernel
  have hmarks : Core.itemMarks [] items =
      [⟨true, ["url(\x7b)"], ⟨1, 6, 5⟩⟩, ⟨false, ["url(\x7b)"], ⟨1, 37, 36⟩⟩] := by decide +kernel
  have hsame := same_documents items Core.noGap {} .fresh rfl
  rwa [htext, hmarks] at hsame

/-- **A document that is lost**: the brace of the address in its body is
taken for one that opens a block, so that its end is not found. Read to its
end, the same text has no error. -/
theorem document_lost :
    let css := "@-moz-document url(x)\x7ba\x7bb:url(\x7b)\x7d\x7d"
    let outcome := fun top => parseSheet css { noValidation := true, topDocOnly := top }
    ((outcome false).result.isOk = true ∧ (outcome false).events.map (·.display) =
        ["1:1 startstylesheet", "1:1 startdocument", "1:23 startrule a",
          "1:25 property b: url(\x7b)", "1:33 endrule", "1:34 enddocument", "1:35 endstylesheet"]) ∧
      (outcome true).events.map (·.display) =
        ["1:1 startstylesheet", "1:1 startdocument",
          "1:32 error Expected \"\x7d\" but found \")\".", "1:32 error Unexpected \")\".", "1:33 error Unexpected \"\x7d\".",
          "1:34 error Unexpected \"\x7d\".", "1:35 endstylesheet"] ∧
      documentMarks 0 (outcome true).events ≠ documentMarks 0 (outcome false).events := by
  refine ⟨⟨?_, ?_⟩, ?_, ?_⟩ <;> decide +kernel

end Stylesheet
