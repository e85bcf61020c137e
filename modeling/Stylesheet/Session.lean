import Stylesheet.Parse.Sheet

/-!
# Sessions

A session keeps what is worth keeping between parses of the same
document: the matchers made, the values that passed, and the rules. The
rules belong to one document and are forgotten when another is opened.
-/

namespace Stylesheet

/-- **What is kept between parses.** -/
structure Session where
  /-- The memory of the checks. -/
  validator : Validator
  /-- The rules of earlier parses. -/
  store : BlockStore
  /-- The document they belong to. -/
  document : Option String

namespace Session

/-- A session without any memory. -/
def new (retention : Retention) : Session := ⟨.fresh, .empty retention, none⟩

/-- **Turn to a document.** -/
def openDocument (s : Session) (id : String) : Session :=
  if s.document = some id then s
  else { s with store := s.store.reset, document := some id }

/-- **Parse a text.** Rules of earlier parses are used only if the options
ask for it. -/
def parse (s : Session) (text : String) (options : Options) (now : Nat) :
    Outcome Unit × Session :=
  let store := if options.reuseCache then some (s.store.start now) else none
  let outcome := Parser.sheet.run text options s.validator store
  (outcome,
    { s with validator := outcome.validator, store := outcome.store.getD s.store })

/-- **Take note of the diagnostics a caller still complains about** after
the latest parse. -/
def feedback (s : Session) (diagnostics : List Diagnostic) : Session :=
  { s with store := s.store.feedback (diagnostics.filterMap (·.location)) }

/-- How often a rule of an earlier parse was used. -/
def hits (s : Session) : Nat := s.store.hits

/-- How often a rule was looked for in vain. -/
def misses (s : Session) : Nat := s.store.misses

end Session

/-- **What events complain about**, in the order of the source. -/
def diagnosticsOf (events : List Event) : List Diagnostic := events.filterMap (·.diagnostic?)

end Stylesheet
