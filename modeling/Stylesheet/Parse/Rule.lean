import Stylesheet.Parse.Basic
import Stylesheet.Parse.Selector

/-!
# Reading style rules

A rule that stands in no other rule is looked up among the rules of
earlier parses before it is read. While it is read it is open in the
store, and at its end it is filed there, unless it had an error or no
content.
-/

namespace Stylesheet

namespace Parser

/-- The events of an earlier parse for the rule at a place, and the place
after it. -/
def remembered (loc : Location) : Parser (Option (List Event × Location)) :=
  modifyGet fun s =>
    match s.store with
    | none => (none, s)
    | some store =>
      let (found, store) := store.findBlock s.stream.source loc
      (found, { s with store := some store })

/-- Open a rule in the store. -/
def openInStore (start : Location) : Parser (Option Nat) :=
  modifyGet fun s =>
    match s.store with
    | none => (none, s)
    | some store =>
      let (id, store) := store.openBlock start
      (some id, { s with store := some store })

/-- Drop a rule that was opened in the store. -/
def dropFromStore : Option Nat → Parser Unit
  | none => pure ()
  | some id => update fun s => { s with store := s.store.map (·.cancelBlock id) }

/-- File a rule that was opened in the store. -/
def fileInStore (stop : Location) : Option Nat → Parser Unit
  | none => pure ()
  | some _ => update fun s =>
    { s with store := s.store.map (·.closeBlock s.stream.source stop) }

/-- The selectors of a rule; without any the token after them is taken
back. -/
def ruleHead (t : Token) : Parser (Option (List Selector)) := do
  match ← selectorGroup (some t) true false with
  | some selectors => return some selectors
  | none =>
    unget
    return none

/-- Complain about selectors that refer to a rule around them where there
is none. -/
def checkNesting (selectors : List Selector) (loc : Location) : Parser Unit := do
  let s ← state
  if s.inScope == 0 && s.inStyle == 0 && selectors.any (fun s => s.usesAmp || s.isRelative) then
    fire (.error (.at_ "Nested selector must be inside a style rule." loc) true) loc

/-- What becomes of a broken rule: a strict parse ends, any other passes
over the rest of it. -/
def ruleFailed (error : Diagnostic) (braceSeen : Bool) : Parser RuleOutcome := do
  if (← options).strict then throw error
  recover error braceSeen
  return .failed

/-- **The rest of a rule after its selectors.** -/
def ruleBody (block : BlockParser) (t : Token) (storable : Bool) (selectors : List Selector) :
    Parser RuleOutcome := do
  let start := (selectors.head?.map (·.location)).getD t.location
  let id ← if storable then openInStore start else pure none
  checkNesting selectors t.location
  match ← attempt (mustReuse [.lBrace]) with
  | .error e =>
    dropFromStore id
    ruleFailed e false
  | .ok _ =>
    let shape := { event := some (.rule selectors), opened := true, declarations := true }
    match ← attempt (block start shape) with
    | .error e =>
      dropFromStore id
      ruleFailed e true
    | .ok stop =>
      if stop.empty then dropFromStore id else fileInStore stop.close.stop id
      return .parsed

/-- **A style rule** after its first token. -/
def styleRule (block : BlockParser) (t : Token) : Parser RuleOutcome := do
  let storable := (← state).inStyle == 0
  match ← if storable then remembered t.location else pure none with
  | some (events, stop) =>
    replay events
    seek stop
    return .parsed
  | none =>
    match ← attempt (ruleHead t) with
    | .error e => ruleFailed e false
    | .ok none => return .notRule
    | .ok (some selectors) => ruleBody block t storable selectors

end Parser

end Stylesheet
