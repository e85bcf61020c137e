import Stylesheet.Proofs.Tells.Block

/-!
# What a parse reports

Whatever the text and the options are, every location that a parse
reports is a true one: its offset, its line and its column all belong to
the same place of the source. And the blocks of a stylesheet are
reported as they nest. A block is closed at a closing brace, once
everything inside it is closed; the only other thing that can become of
it is that it is given up, and then an error is reported.

An error need not be the end of the block it is in, and in most blocks
it is not. A block without declarations is given up, though, when an
item in it turns out to start no rule: the token that the item starts
with is taken back, and the loop does not go over it a second time.
-/

namespace Stylesheet

open Parse (State)
open Parse.State (Keeps)
open Stylesheet.Parser

/-- **What a parse comes to** that is told of by a parser: the events are
true, and so is the place of a failure. -/
structure Outcome.IsTrue {α : Type} (source : List Char) (o : Outcome α) : Prop where
  /-- The events are true. -/
  events : ∀ e ∈ o.events, e.IsTrue source
  /-- The place of a failure is one of the source. -/
  failure : ∀ e, o.result = .error e → IsPlaced source e

/-- **The events of a parser that tells of true ones only.** -/
theorem Emits.outcome_isTrue {α : Type} {p : Parser α} {Q : α → Prop} (text : String)
    (options : Options) (validator : Validator)
    (h : Tells (normalizeNewlines text.toList) false [] p Q) :
    (p.run text options validator none).IsTrue (normalizeNewlines text.toList) := by
  obtain ⟨new, hadds, -, herror⟩ := h.run (State.initial text options validator none)
    (State.isSound_initial text options validator) rfl rfl
  have hevents : (p (State.initial text options validator none)).2.events = new.reverse := by
    have hlog := hadds.log_eq
    have hnone := hadds.keeps.deferred rfl
    unfold Parse.State.log at hlog
    rw [hnone] at hlog
    exact hlog.trans (List.append_nil _)
  constructor
  · rw [events_run, hevents, List.reverse_reverse]
    exact hadds.isTrue
  · rw [result_run]
    exact fun e he => (herror e he).1

/-- The start and the end of a stylesheet are true wherever they are
placed. -/
theorem Event.isTrue_of_place {source : List Char} {kind : EventKind} {loc : Location}
    (hloc : IsPlace source loc) (hkind : kind = .startStylesheet ∨ kind = .endStylesheet) :
    Event.IsTrue source ⟨kind, loc⟩ := by
  rcases hkind with rfl | rfl
  all_goals exact ⟨isPlaced_event.mpr ⟨hloc, fun _ h => by cases h⟩, fun _ _ h => by cases h⟩

/-- **What a stylesheet reports**, whether or not it is parsed to its
end: true events, which leave no block open if it is. -/
theorem sheet_reports {source : List Char} {s : State} (hs : s.IsSound)
    (hsource : s.stream.source = source) (hnone : s.deferred = none) :
    ∃ new, (sheet s).2.events = new.reverse ++ s.events ∧ (∀ e ∈ new, e.IsTrue source) ∧
      (∀ e, (sheet s).1 = .error e → IsPlaced source e) ∧
      ((sheet s).1 = .ok () →
        ∃ before stop, new = before ++ [⟨.endStylesheet, stop⟩] ∧ Nests [] before []) := by
  have hstarted : s.started.IsSound := ⟨hs.stream, hs.budget, hs.store, hs.deferred⟩
  have hstart : Event.IsTrue source ⟨.startStylesheet, .start⟩ :=
    Event.isTrue_of_place ⟨[], source, rfl, rfl⟩ (.inl rfl)
  have htells : Tells source false [] (repeating () sheetStep) _ := Emits.sheetLoop
  obtain ⟨new, hadds, hok, herror⟩ := htells.run s.started hstarted hsource
    (congrArg Option.isSome hnone)
  have hheld := hadds.keeps.deferred hnone
  have hlog := hadds.log_eq
  rw [Parse.State.log, hheld, Parse.State.log, show s.started.deferred = none from hnone] at hlog
  unfold sheet
  rw [bind_ok (fire_apply hnone hs.store _ _)]
  rcases hloop : repeating () sheetStep s.started with ⟨e | _, s₁⟩
    <;> rw [hloop] at hadds hok herror hheld hlog
  · rw [show ({ s with events := _ } : State) = s.started from rfl, bind_error hloop]
    refine ⟨⟨.startStylesheet, .start⟩ :: new, ?_, ?_, fun e' he' => ?_, fun h => by cases h⟩
    · rw [List.reverse_cons, List.append_assoc]
      exact hlog
    · exact List.forall_mem_cons.mpr ⟨hstart, hadds.isTrue⟩
    · obtain rfl : e = e' := Except.error.inj he'
      exact (herror e rfl).1
  · rw [show ({ s with events := _ } : State) = s.started from rfl, bind_ok hloop]
    have hplace : IsPlace source s₁.stream.current.location := by
      have hplaced := hadds.keeps.isSound.stream.current_isPlaced
      rw [hadds.keeps.source_eq.trans hsource] at hplaced
      exact (isPlaced_token.mp hplaced).1
    have hend : (do fire .endStylesheet (← current).location : Parser Unit) s₁ =
        (.ok (), { s₁ with events := ⟨.endStylesheet, s₁.stream.current.location⟩ :: s₁.events }) :=
      fire_apply hheld hadds.keeps.isSound.store _ _
    rw [hend]
    have hnests : Nests [] (⟨.startStylesheet, .start⟩ :: new) [] :=
      .plain trivial (hok () rfl).2
    refine ⟨⟨.startStylesheet, .start⟩ :: new ++ [⟨.endStylesheet, s₁.stream.current.location⟩],
      ?_, ?_, fun _ h => (by cases h), fun _ => ⟨_, _, rfl, hnests⟩⟩
    · simp [show s₁.events = _ from hlog]
      rfl
    · intro e he
      rcases List.mem_append.mp he with he | he
      · exact (List.forall_mem_cons.mpr ⟨hstart, hadds.isTrue⟩) e he
      · exact List.mem_singleton.mp he ▸ Event.isTrue_of_place hplace (.inr rfl)

/-- **The events of a stylesheet are true.** -/
theorem sheet_isTrue (text : String) (options : Options) (validator : Validator) :
    (sheet.run text options validator none).IsTrue (normalizeNewlines text.toList) := by
  obtain ⟨new, hevents, htrue, herror, -⟩ := sheet_reports
    (State.isSound_initial text options validator) rfl rfl
  constructor
  · rw [events_run, hevents, State.events_initial, List.append_nil, List.reverse_reverse]
    exact htrue
  · rw [result_run]
    exact herror

/-! ## Locations -/

/-- **Every location agrees with a source** that a parse reports or fails
at. -/
def Outcome.AgreesWith {α : Type} (source : List Char) (o : Outcome α) : Prop :=
  (∀ e ∈ o.events, ∀ loc ∈ places e, loc.AgreesWith source) ∧
    ∀ e, o.result = .error e → ∀ loc ∈ places e, loc.AgreesWith source

theorem Outcome.IsTrue.agreesWith {α : Type} {source : List Char} {o : Outcome α}
    (h : o.IsTrue source) : o.AgreesWith source :=
  ⟨fun e he loc hloc => isPlace_iff.mp ((h.events e he).1 loc hloc),
    fun e he loc hloc => isPlace_iff.mp (h.failure e he loc hloc)⟩

/-- **All reported locations are true**, whatever is parsed – a
stylesheet, a single rule or the content of a style attribute – and
whatever the options are: the offset of each is a boundary between two
characters of the source, its line is one more than the number of
newlines before, and its column one more than the number of characters
since the last of them. -/
theorem locations_agree (text : String) (options : Options) (validator : Validator) :
    let source := normalizeNewlines text.toList
    (sheet.run text options validator none).AgreesWith source ∧
    (singleRule.run text options validator none).AgreesWith source ∧
    (styleAttribute.run text options validator none).AgreesWith source :=
  ⟨(sheet_isTrue text options validator).agreesWith,
    (Emits.singleRule.outcome_isTrue text options validator).agreesWith,
    (Emits.styleAttribute.outcome_isTrue text options validator).agreesWith⟩

/-! ## Nesting -/

/-- A stylesheet that is not parsed strictly leaves no block open. -/
theorem sheet_nests (text : String) (options : Options) (validator : Validator)
    (hlax : options.strict = false) :
    ∃ before stop, (sheet.run text options validator none).events =
      before ++ [⟨.endStylesheet, stop⟩] ∧ Nests [] before [] := by
  have hs := State.isSound_initial text options validator
  obtain ⟨new, hevents, -, -, hnests⟩ := sheet_reports hs rfl rfl
  obtain ⟨s', hrun, -⟩ := sheet_apply hs hlax rfl
  have hok : (sheet (State.initial text options validator none)).1 = .ok () :=
    congrArg Prod.fst (hrun _ hs.budget)
  obtain ⟨before, stop, rfl, hbefore⟩ := hnests hok
  refine ⟨before, stop, ?_, hbefore⟩
  rw [events_run, hevents, State.events_initial, List.append_nil, List.reverse_reverse]

/-- **Events nest**, and a block is given up at an error only: a stack of
open blocks can be run over the events of every parse that is not strict,
and is empty at the end of the stylesheet. So without errors every block
is closed in its place. -/
theorem sheet_events_nest (text : String) (options : Options) (validator : Validator)
    (hlax : options.strict = false) :
    let events := (sheet.run text options validator none).events
    (∃ before stop, events = before ++ [⟨.endStylesheet, stop⟩] ∧ Nests [] before []) ∧
    ((∀ e ∈ events, ¬e.IsError) → Balanced events) := by
  intro events
  obtain ⟨before, stop, hevents, hbefore⟩ := sheet_nests text options validator hlax
  refine ⟨⟨before, stop, hevents, hbefore⟩, fun hnone => ?_⟩
  have hnests : Nests [] events [] := by
    rw [show events = _ from hevents]
    exact hbefore.append (.plain trivial (.done _))
  exact hnests.unwinds hnone

/-- A rule in an at-rule. -/
theorem sheet_events_nest_media :
    Balanced (parseSheet "@media x\x7ba\x7b\x7d\x7d" {}).events :=
  (sheet_events_nest "@media x\x7ba\x7b\x7d\x7d" {} .fresh rfl).2 (by decide +kernel)

/-! ## The ends of blocks -/

/-- **What becomes of a block** in the events after its start. Either it
ends at a closing brace of the source, when everything inside it is closed
or given up; or an error is reported at which it is given up. -/
def BlockEnds (source : List Char) (kind : BlockKind) (after : List Event) : Prop :=
  (∃ (body : List Event) (empty : Bool) (close : Token) (rest : List Event),
    after = body ++ ⟨.stop kind empty, close.location⟩ :: rest ∧ Nests [] body [] ∧
      close.IsCut source ∧ close.kind = .rBrace) ∨
  ∃ (body : List Event) (e : Event) (rest : List Event) (lost : List BlockKind),
    after = body ++ e :: rest ∧ e.IsError ∧ Nests [] body lost

/-- **A block ends at a closing brace, or it is given up at an error.** -/
theorem sheet_blocks_end (text : String) (options : Options) (validator : Validator)
    (hlax : options.strict = false) :
    ∀ before kind loc after, (sheet.run text options validator none).events =
        before ++ ⟨.start kind, loc⟩ :: after →
      BlockEnds (normalizeNewlines text.toList) kind after := by
  intro before kind loc after hevents
  obtain ⟨inner, stop, hend, hinner⟩ := sheet_nests text options validator hlax
  have hnests : Nests [] (before ++ ⟨.start kind, loc⟩ :: after) [] := by
    rw [← hevents, hend]
    exact hinner.append (.plain trivial (.done _))
  obtain ⟨open_, -, hrest⟩ := hnests.split
  have hopened : Nests ([] ++ kind :: open_) after [] := by
    cases hrest with
    | start h => exact h
    | plain hplain => exact hplain.elim
  obtain ⟨body, empty, loc', rest, rfl, hbody⟩ | ⟨body, e, rest, lost, hafter, he, hbody⟩ :=
    hopened.fate
  · have hmem : ⟨.stop kind empty, loc'⟩ ∈
        (sheet.run text options validator none).events := by
      rw [hevents]
      simp
    obtain ⟨close, hcut, hkind, hloc⟩ :=
      ((sheet_isTrue text options validator).events _ hmem).2 kind empty rfl
    obtain rfl : loc' = close.location := hloc
    exact .inl ⟨body, empty, close, rest, rfl, hbody, hcut, hkind⟩
  · exact .inr ⟨body, e, rest, lost, hafter, he, hbody⟩

/-- Junk in a rule: its block goes on. -/
theorem sheet_blocks_end_rule :
    let events := (parseSheet "a\x7b!\x7d" {}).events
    events.map (·.display) = ["1:1 startstylesheet", "1:1 startrule a",
      "1:3 error Unexpected \"!\".", "1:4 endrule", "1:5 endstylesheet"] ∧
    ∀ before kind loc after, events = before ++ ⟨.start kind, loc⟩ :: after →
      BlockEnds "a\x7b!\x7d".toList kind after :=
  ⟨by decide +kernel, sheet_blocks_end "a\x7b!\x7d" {} .fresh rfl⟩

/-- **Junk in an at-rule tears its block apart**: though the braces are
balanced, the end of the block is not reported. -/
theorem sheet_block_torn :
    ((Stream.ofString "@media x\x7b!\x7d").allTokens.1.map fun t => (t.text, t.location.display)) =
      [("@media", "1:1"), (" ", "1:7"), ("x", "1:8"), ("\x7b", "1:9"), ("!", "1:10"),
        ("\x7d", "1:11")] ∧
    (parseSheet "@media x\x7b!\x7d" {}).events.map (·.display) =
      ["1:1 startstylesheet", "1:1 startmedia x", "1:10 error Unexpected \"!\".",
        "1:11 error Unexpected \"\x7d\".", "1:12 endstylesheet"] :=
  ⟨by decide +kernel, by decide +kernel⟩

end Stylesheet
