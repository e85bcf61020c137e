import Stylesheet.Parse.Block

/-!
# Reading whole texts

What a caller can have parsed: a stylesheet, a single rule, the content
of a style attribute, a selector, a value, or a media query. A
stylesheet that is not parsed strictly always succeeds; everything else
fails on text that is left over.
-/

namespace Stylesheet

/-- **What a parse leaves**: its result, the events in order, and what it
learned. -/
structure Outcome (α : Type) where
  /-- The result, or the failure that ended the parse. -/
  result : Except Diagnostic α
  /-- The events reported until then. -/
  events : List Event
  /-- The memory of the checks. -/
  validator : Validator
  /-- The rules of this and earlier parses. -/
  store : Option BlockStore

namespace Parser

/-- **Run a parser on a text.** -/
def run {α : Type} (p : Parser α) (text : String) (options : Options) (validator : Validator)
    (store : Option BlockStore) : Outcome α :=
  let (result, s) := p (Parse.State.initial text options validator store)
  ⟨result, s.events.reverse, s.validator, s.store⟩

/-- Run a parser on a text with nothing to start from. -/
def runAlone {α : Type} (p : Parser α) (text : String) : Outcome α :=
  p.run text {} .fresh none

/-- A rule that stands in no block, after its first token. -/
def topRule (t : Token) : Parser Unit := do
  match t.kind with
  | .at => atRule block t true
  | .cdco => pure ()
  | _ =>
    match ← styleRule block t with
    | .notRule =>
      let t ← grab
      unless t.isEof do failAt "" t
    | _ => pure ()

/-- One more rule that stands in no block. -/
def sheetStep (_ : Unit) : Parser (ForInStep Unit) := do
  let t ← grab
  if t.isEof then return .done ()
  match ← attempt (topRule t) with
  | .ok _ => return .yield ()
  | .error e =>
    if (← options).strict then throw e
    report e
    return .yield ()

/-- **A stylesheet.** -/
def sheet : Parser Unit := do
  fire .startStylesheet .start
  repeating () sheetStep
  fire .endStylesheet (← current).location

/-- Fail unless the token handed out last is the end of the source, or
is hidden and the end follows. -/
def expectEnd : Parser Unit := do
  let t ← current
  let t ← if t.kind.isHidden then grab else pure t
  unless t.isEof do failAt "end of input" t

/-- **A single rule.** -/
def singleRule : Parser Unit := do
  let t ← grab
  if t.kind == .at then atRule block t false
  else if (← styleRule block t) == .notRule then failAt "a rule" t
  discard grab
  expectEnd

/-- **The content of a style attribute.** -/
def styleAttribute : Parser Unit := do
  discard (blockItems block { declarations := true } true)

/-- **A single selector.** -/
def singleSelector : Parser Selector := do
  let t ← grab
  match ← selector (some t) false with
  | none => failAt "a selector" t
  | some s =>
    expectEnd
    return s

/-- **A single value.** -/
def singleValue : Parser Value := do
  match ← expr [.semicolon, .rBrace, .delim] false with
  | none => failHere "a value"
  | some v =>
    expectEnd
    return v

/-- **A single media query.** -/
def singleQuery : Parser MediaQuery := do
  let t ← grab
  match ← mediaQueries true with
  | [query] =>
    discard grab
    expectEnd
    return query
  | _ => failAt "a media query" t

end Parser

/-- **Parse a stylesheet** by itself. -/
def parseSheet (text : String) (options : Options) : Outcome Unit :=
  Parser.sheet.run text options .fresh none

/-- The events of a run, or the failure that ended it. -/
def Outcome.events? {α : Type} (o : Outcome α) : Except Diagnostic (List Event) :=
  o.result.map fun _ => o.events

/-- **Parse a single rule.** -/
def parseRule (text : String) : Except Diagnostic (List Event) :=
  (Parser.singleRule.runAlone text).events?

/-- **Parse the content of a style attribute.** -/
def parseStyleAttribute (text : String) : Except Diagnostic (List Event) :=
  (Parser.styleAttribute.runAlone text).events?

/-- **Parse a selector.** -/
def parseSelector (text : String) : Except Diagnostic Selector :=
  (Parser.singleSelector.runAlone text).result

/-- **Parse a value.** -/
def parseValue (text : String) : Except Diagnostic Value :=
  (Parser.singleValue.runAlone text).result

/-- **Parse a media query.** -/
def parseMediaQuery (text : String) : Except Diagnostic MediaQuery :=
  (Parser.singleQuery.runAlone text).result

end Stylesheet
