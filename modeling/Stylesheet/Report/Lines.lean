import Stylesheet.Event
import Stylesheet.Location
import Stylesheet.Number
import Stylesheet.Report.Wire
import Stylesheet.Selector.Specificity
import Stylesheet.Text.Printable

/-!
# Line by line

Two reports with one item a line: the events as JSON, and the tokens
with all their fields spelled out. They lay out numbers in their own
ways: both write an exponent from `10 ^ 16` on, the events below
`10 ^ -5` and the tokens below `10 ^ -4`.

The outline of a stylesheet shows the events as an indented list. What
stands in a block is indented two blanks more than the block; ends of
blocks are not shown.

A diagnostic is shown with the line it is about, two lines before it and
two after it, and a caret under its column. Lines end at line feeds, and
carriage returns at their ends are not shown.
-/

namespace Stylesheet

namespace Report

/-- **Numbers in JSON.** -/
def jsonLayout : Layout where
  lowestPoint := -4
  highestPoint := 16
  exponentSign := "+"
  infinity := "null"

/-- **Events in JSON**: places as objects, numbers as numbers; there is
no infinite one. -/
def jsonWire : Wire where
  location loc :=
    .obj [("line", .nat loc.line), ("column", .nat loc.column), ("offset", .nat loc.offset)]
  number x := if x.isInfinite then .null else .num (jsonLayout.write x)

/-- **An event as a line of JSON.** -/
def eventLine (e : Event) : String := (jsonWire.event e).render

/-! ## Tokens -/

/-- **Numbers in a token.** -/
def tokenLayout : Layout where
  lowestPoint := -3
  highestPoint := 16
  exponentSign := ""
  infinity := "inf"

/-- A character of a string in a token: what would break the line or
cannot be seen is escaped. -/
def visibleChar (c : Char) : String :=
  if c = '\x00' then "\\0"
  else if c = '\t' then "\\t"
  else if c = '\n' then "\\n"
  else if c = '\r' then "\\r"
  else if c = '"' then "\\\""
  else if c = '\\' then "\\\\"
  else if Text.isPrintable c then String.singleton c
  else "\\u\x7b" ++ String.ofList (Nat.toDigits 16 c.toNat) ++ "\x7d"

/-- A string in quotes. -/
def visibleText (s : String) : String := "\"" ++ String.join (s.toList.map visibleChar) ++ "\""

/-- A string that may be missing. -/
def visibleText? : Option String → String
  | some s => "Some(" ++ visibleText s ++ ")"
  | none => "None"

/-- A truth value. -/
def truth (b : Bool) : String := if b then "true" else "false"

/-- A name with its fields. -/
def record (name : String) (fields : List (String × String)) : String :=
  name ++ " \x7b " ++ ", ".intercalate (fields.map fun (field, text) => field ++ ": " ++ text) ++
    " \x7d"

/-- The payload of a token. -/
def payloadText : Payload → String
  | .none => "None"
  | .ident name vendorPos custom =>
    record "Ident" [("name", visibleText name), ("vendor_pos", toString vendorPos),
      ("custom", truth custom)]
  | .function name vendor filter =>
    record "Function" [("name", visibleText name), ("prefix", visibleText? vendor),
      ("ie", truth filter)]
  | .uri address name =>
    record "Uri" [("uri", visibleText address), ("name", visibleText name)]
  | .at name vendor =>
    record "At" [("name", visibleText name), ("prefix", visibleText? vendor)]
  | .hash name => record "Hash" [("name", visibleText name)]
  | .string value => record "String" [("value", visibleText value)]
  | .number value unit isInt =>
    record "Number" [("value", tokenLayout.write value), ("unit", visibleText unit),
      ("is_int", truth isInt)]
  | .uvar name => record "Uvar" [("name", visibleText name)]
  | .star hack => record "Star" [("hack", truth hack)]

/-- **A token as a line.** -/
def tokenLine (t : Token) : String :=
  t.location.display ++ " " ++
    record "Token" [("kind", t.kind.label), ("value", payloadText t.payload),
      ("text", visibleText t.text), ("location", t.location.bracketed),
      ("end", t.stop.bracketed)]

end Report

/-! ## The outline -/

namespace Outline

/-- The lines of the start of a block. -/
def blockLines : BlockKind → List String
  | .rule selectors =>
    "[Rule]" :: selectors.map fun s =>
      "  [Selector] " ++ s.text ++ " (" ++ s.specificity.display ++ ")"
  | .media queries => ["[AtRule] media " ++ ", ".intercalate (queries.map (·.text))]
  | .keyframes name _ => ["[AtRule] keyframes " ++ name]
  | .keyframeRule keys => ["[Keyframe] " ++ ", ".intercalate keys]
  | other => ["[AtRule] " ++ other.name]

/-- The line of a declaration. -/
def declarationLine (d : Declaration) : String :=
  "[Declaration] " ++ d.property.display ++ ": " ++ d.value.text ++
    (if d.important then " !important" else "") ++
    match d.invalid with
    | some e => " (invalid: " ++ e.message ++ ")"
    | none => ""

/-- **The lines of an event**, not yet indented. -/
def eventLines (e : Event) : List String :=
  match e.kind with
  | .startStylesheet => ["[Stylesheet]"]
  | .endStylesheet | .stop _ _ => []
  | .start kind => blockLines kind
  | .property d => [declarationLine d]
  | .error error _ => ["[Error] " ++ e.location.display ++ " " ++ error.message]
  | .warning message => ["[Warning] " ++ e.location.display ++ " " ++ message]
  | _ => [e.display]

/-- How an event changes the depth before and after it is shown: an end
takes one off before, a start adds one after. -/
def depthAt (depth : Nat) (e : Event) : Nat × Nat :=
  match e.kind with
  | .stop _ _ | .endStylesheet => (depth - 1, depth - 1)
  | .start _ | .startStylesheet => (depth, depth + 1)
  | _ => (depth, depth)

/-- **The lines of events** from a depth on. -/
def lines (depth : Nat) : List Event → List String
  | [] => []
  | e :: es =>
    let (here, after) := depthAt depth e
    (eventLines e).map ("".pushn ' ' (2 * here) ++ ·) ++ lines after es

end Outline

/-- **The outline of events**, each line with its end. -/
def outline (events : List Event) : String :=
  String.join ((Outline.lines 0 events).map (· ++ "\n"))

/-! ## Snippets of the source -/

namespace Snippet

/-- How many lines are shown before and after the line itself. -/
def context : Nat := 2

/-- **The lines of a text**, without the line feeds between them; there
is always one. -/
def splitLines : List Char → List (List Char)
  | [] => [[]]
  | c :: cs =>
    match splitLines cs with
    | [] => [[]]
    | line :: lines => if c = '\n' then [] :: line :: lines else (c :: line) :: lines

/-- A line without the carriage returns at its end. -/
def shown (line : List Char) : List Char :=
  (line.reverse.dropWhile (· == '\r')).reverse

/-- A text filled up with blanks to five characters. -/
def padded (text : String) : String := text ++ "".pushn ' ' (5 - text.length)

/-- A line with its number. -/
def numberedLine (entry : Nat × List Char) : String :=
  padded (toString (entry.1 + 1)) ++ "|" ++ String.ofList (shown entry.2) ++ "\n"

/-- The line a place is on, counted from zero; past the last line it is
the last one. -/
def lineIndex (lines : List (List Char)) (loc : Location) : Nat :=
  min (loc.line - 1) (lines.length - 1)

/-- The line with the caret. -/
def caretLine (loc : Location) : String := "     |" ++ "".pushn ' ' (loc.column - 1) ++ "^\n"

/-- **The lines around a place and a message.** -/
def render (source : String) (loc : Location) (message : String) : String :=
  let lines := splitLines source.toList
  let here := lineIndex lines loc
  let numbered := (List.range lines.length).zip lines
  let before := (numbered.drop (here - context)).take (min here context + 1)
  let after := (numbered.drop (here + 1)).take context
  String.join (before.map numberedLine) ++ caretLine loc ++
    String.join (after.map numberedLine) ++ message ++ "\n"

end Snippet

end Stylesheet
