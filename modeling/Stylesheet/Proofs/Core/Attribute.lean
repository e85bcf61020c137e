import Stylesheet.Proofs.Core.Rule
import Stylesheet.Proofs.Reuse

/-!
# Style attributes

The content of a style attribute is the body of a rule without its braces, and
should say the same. Both are read by one loop over the items of a block, and
what is different is the end: a closing brace for a rule, and the end of the
text for an attribute. A declaration that is the last one has to end there in
either case.

In the core language it does. A style attribute reports the declarations that
the body of a rule reports, each at the place that its name has in the text of
the attribute (`style_attribute_reported`). A declaration that is important
does not, because what follows its mark is asked to be a semicolon or a closing
brace, and the end of the text is neither (`important_declaration_lost`).
-/

namespace Stylesheet

open Parse (State)

namespace Core

/-- The text of a body before its brace ends no line but with a newline. -/
theorem Body.all_isInLine (b : Body) : b.ink.all isInLine = true :=
  Core.all_isInLine (Core.all_isWritten b.all_isInk)

/-- **The places of declarations move with the text** they stand in. -/
theorem Body.places_append (c a : List Char) (b : Body) :
    b.places (c ++ a) = (b.places a).map
      (shift (Delta.between .start (Location.start.advance c))) := by
  have hplace : ∀ x : List Char, Location.start.advance (c ++ x) =
      shift (Delta.between .start (Location.start.advance c)) (Location.start.advance x) :=
    fun x => by
    rw [shift_between_advance, Location.advance_append]
  induction b generalizing a with
  | done g => rfl
  | last d => simp only [Body.places, List.map_cons, List.map_nil, List.append_assoc, hplace]
  | more d b ih =>
    have hrest := ih (a ++ d.chars ++ [';'])
    simp only [List.append_assoc] at hrest
    simp only [Body.places, List.map_cons, List.append_assoc, hplace, hrest]

/-- An event that says what a declaration says stands where one does. -/
theorem Declared.declaredAt?_of_gist {e : Event} {d : Declared} (h : e.gist = d.gist) :
    e.declaredAt? = some e.location := by
  unfold Event.gist at h
  unfold Event.declaredAt?
  split at h <;> first | cases h | simp_all

/-- Declarations alone stand where their events do. -/
theorem filterMap_declaredAt? {events : List Event}
    (h : ∀ e ∈ events, e.declaredAt? = some e.location) :
    events.filterMap (·.declaredAt?) = events.map (·.location) := by
  induction events with
  | nil => rfl
  | cons e events ih =>
    rw [List.filterMap_cons_some (h e List.mem_cons_self),
      ih fun f hf => h f (List.mem_cons_of_mem _ hf), List.map_cons]

/-- **The content of a style attribute**, up to the end of the text. -/
theorem styleAttribute_on (b : Body) :
    ∃ s' : State, Parser.styleAttribute (State.initial (String.ofList b.ink) {} .fresh none) =
        (.ok (), s') ∧
      Says s'.events (b.declarations.map (·.gist)) (b.places []) := by
  set s := State.initial (String.ofList b.ink) {} .fresh none with hs
  have hinitial : s = s.on [] b.ink [] [] := initial_on b.all_isInLine {} .fresh
  have hbudget : b.ink.length < s.budget := by
    show _ < Parse.budgetOf s.stream.source
    rw [hinitial]
    show _ < 4 * ([] ++ b.ink).length + 64
    rw [List.nil_append]
    omega
  obtain ⟨validator, events, close, l, hsays, hitems⟩ := blockItems_on (s := s)
    (i := Parser.block) (y := { declarations := true }) (a := []) (l := []) b .stop
    (b.noFilter_of_isWritten rfl) ⟨rfl, rfl, rfl⟩ rfl rfl hbudget
  rw [List.append_nil, List.append_nil, ← hinitial] at hitems
  refine ⟨_, Parser.bind_ok hitems, ?_⟩
  show Says (events ++ []) _ _
  rwa [List.append_nil]

/-- **A stylesheet of one rule.** -/
theorem sheet_alone (r : Rule) :
    ∃ s' : State, (Parser.sheet (State.initial (String.ofList r.chars) {} .fresh none)) =
        (.ok (), s') ∧
      Says s'.events (sheetGists [r]) (rulePlaces [] [r]) := by
  have hchars : r.chars = sheetChars [r] noGap := by simp [sheetChars, noGap]
  rw [hchars]
  set s := State.initial (String.ofList (sheetChars [r] noGap)) {} .fresh none with hs
  have hinitial : s = s.on [] (sheetChars [r] noGap) [] [] :=
    initial_on (all_isInLine (all_isWritten_sheetChars [r] noGap)) {} .fresh
  have hbudget : (sheetChars [r] noGap).length + 1 < s.budget := by
    show _ < Parse.budgetOf s.stream.source
    rw [hinitial]
    show _ < 4 * ([] ++ sheetChars [r] noGap).length + 64
    rw [List.nil_append]
    omega
  rw [hinitial]
  exact sheet_says [r] noGap ⟨rfl, rfl, rfl⟩ rfl rfl hbudget

end Core

/-- **A style attribute says what the body of a rule says** in the core
language: parsing it succeeds and reports the same declarations, each where its
name stands once the text before the body is left out. -/
theorem style_attribute_reported (heads : Core.Heads) (b : Core.Body) :
    ∃ events, parseStyleAttribute (String.ofList b.ink) = .ok events ∧
      (parseSheet (String.ofList (heads.chars ++ b.chars)) {}).events.map (·.gist) =
        .startSheet :: .startRule heads.selectors :: (events.map (·.gist) ++
          [.endRule heads.selectors events.isEmpty, .endSheet]) ∧
      (parseSheet (String.ofList (heads.chars ++ b.chars)) {}).events.filterMap (·.declaredAt?) =
        events.map fun e =>
          shift (.between .start (Location.start.advance heads.chars)) e.location := by
  obtain ⟨s', hrun, hsays⟩ := Core.styleAttribute_on b
  obtain ⟨s₁, hsheet, hrule⟩ := Core.sheet_alone ⟨heads, b⟩
  have hparse : parseStyleAttribute (String.ofList b.ink) = .ok s'.events.reverse := by
    unfold parseStyleAttribute Parser.runAlone Outcome.events?
    rw [Parser.result_run, Parser.events_run, hrun]
    rfl
  have hlocations : s'.events.reverse.map (·.location) = b.places [] := by
    rw [← hsays.places_eq]
    refine (Core.filterMap_declaredAt? fun e he => ?_).symm
    have hmem : e.gist ∈ b.declarations.map (·.gist) := by
      rw [← hsays.gists_eq]
      exact List.mem_map_of_mem he
    obtain ⟨d, -, hd⟩ := List.mem_map.mp hmem
    exact Core.Declared.declaredAt?_of_gist hd.symm
  have hempty : s'.events.reverse.isEmpty = b.declarations.isEmpty := by
    rw [← List.isEmpty_map (f := (·.gist)), hsays.gists_eq, List.isEmpty_map]
  have hevents : (parseSheet (String.ofList (heads.chars ++ b.chars)) {}).events =
      s₁.events.reverse := by
    unfold parseSheet
    rw [Parser.events_run]
    exact congrArg (fun r => r.2.events.reverse) hsheet
  refine ⟨s'.events.reverse, hparse, ?_, ?_⟩
  · rw [hevents, hrule.gists_eq, hsays.gists_eq, hempty]
    simp [Core.sheetGists, Core.Rule.gists]
  · have hplaces : Core.rulePlaces [] [⟨heads, b⟩] = b.places (heads.chars ++ []) := by
      simp [Core.rulePlaces]
    rw [hevents, hrule.places_eq, hplaces, Core.Body.places_append, ← hlocations, List.map_map]
    rfl

/-- **An important declaration is lost at the end of a style attribute**: the
body of a rule reports it and the attribute asks for a semicolon in its place. -/
theorem important_declaration_lost :
    (parseSheet "a\x7bcolor:red!important\x7d" {}).events.map (·.gist) =
        [.startSheet, .startRule ["a"], .property "color" "red" true, .endRule ["a"] false,
          .endSheet] ∧
      (parseStyleAttribute "color:red!important").toOption.map (·.map (·.diagnostic?)) =
        some [some (.at_ "Expected \";\", \"\x7d\" but found \"\"." ⟨1, 20, 19⟩)] := by
  constructor <;> decide +kernel

end Stylesheet
