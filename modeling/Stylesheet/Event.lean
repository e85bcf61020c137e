import Stylesheet.Declaration
import Stylesheet.Media
import Stylesheet.Selector.Basic

/-!
# Events

A stylesheet is reported as a flat list of events in the order of the
source. What has a body – rules and most at-rules – gives an event at
its start and one at its end; everything else gives one event. Errors
and warnings are events like any other.
-/

namespace Stylesheet

/-- **What has a body.** -/
inductive BlockKind where
  /-- A style rule. -/
  | rule (selectors : List Selector)
  /-- The at-rule `@media`. -/
  | media (queries : List MediaQuery)
  /-- The at-rule `@supports`. -/
  | supports
  /-- The at-rule `@container`. -/
  | container (name : Option String)
  /-- The at-rule `@layer`. -/
  | layer (id : Option String)
  /-- The at-rule `@scope`, from some roots to some limits. -/
  | scope (start stop : Option (List Selector))
  /-- The at-rule `@document`. -/
  | document (functions : List String)
  /-- The at-rule `@font-face`. -/
  | fontFace
  /-- The at-rule `@font-palette-values`. -/
  | fontPaletteValues (id : String)
  /-- The at-rule `@page`. -/
  | page (id pseudo : Option String)
  /-- A margin box of a page. -/
  | pageMargin (margin : String)
  /-- The at-rule `@property`. -/
  | property (name : String)
  /-- The at-rule `@counter-style`. -/
  | counterStyle (name : String)
  /-- The at-rule `@viewport`. -/
  | viewport
  /-- The at-rule `@keyframes`. -/
  | keyframes (name : String) (vendor : Option String)
  /-- A rule of `@keyframes`. -/
  | keyframeRule (keys : List String)
  deriving Repr

namespace BlockKind

/-- The name of a kind of block in event names. -/
def name : BlockKind → String
  | .rule _ => "rule"
  | .media _ => "media"
  | .supports => "supports"
  | .container _ => "container"
  | .layer _ => "layer"
  | .scope _ _ => "scope"
  | .document _ => "document"
  | .fontFace => "fontface"
  | .fontPaletteValues _ => "fontpalettevalues"
  | .page _ _ => "page"
  | .pageMargin _ => "pagemargin"
  | .property _ => "property"
  | .counterStyle _ => "counterstyle"
  | .viewport => "viewport"
  | .keyframes _ _ => "keyframes"
  | .keyframeRule _ => "keyframerule"

instance : Shift BlockKind where
  shift δ kind :=
    match kind with
    | .rule selectors => .rule (shift δ selectors)
    | .media queries => .media (shift δ queries)
    | .scope start stop => .scope (shift δ start) (shift δ stop)
    | other => other

end BlockKind

/-- **What is reported.** -/
inductive EventKind where
  /-- The start of a stylesheet. -/
  | startStylesheet
  /-- The end of a stylesheet. -/
  | endStylesheet
  /-- The at-rule `@charset`. -/
  | charset (charset : String)
  /-- The at-rule `@import`. -/
  | import_ (uri : String) (layer : Option String) (queries : List MediaQuery)
  /-- The at-rule `@namespace`. -/
  | namespace_ (name : Option String) (uri : String)
  /-- The at-rule `@layer` without a body. -/
  | layer (ids : List String)
  /-- The start of a block. -/
  | start (kind : BlockKind)
  /-- The end of a block, and whether the block had no content. -/
  | stop (kind : BlockKind) (empty : Bool)
  /-- A selector in a condition of `@supports`. -/
  | supportsSelector (selector : Selector)
  /-- A declaration. -/
  | property (declaration : Declaration)
  /-- An error, and whether there is something left to read after it. -/
  | error (error : Diagnostic) (recoverable : Bool)
  /-- A warning. -/
  | warning (message : String)
  deriving Repr

/-- **An event and its place.** -/
structure Event where
  /-- What is reported. -/
  kind : EventKind
  /-- Where it starts. -/
  location : Location
  deriving Repr

namespace Event

/-- The name of an event. -/
def name (e : Event) : String :=
  match e.kind with
  | .startStylesheet => "startstylesheet"
  | .endStylesheet => "endstylesheet"
  | .charset _ => "charset"
  | .import_ _ _ _ => "import"
  | .namespace_ _ _ => "namespace"
  | .layer _ => "layer"
  | .start kind => "start" ++ kind.name
  | .stop kind _ => "end" ++ kind.name
  | .supportsSelector _ => "supportsselector"
  | .property _ => "property"
  | .error _ _ => "error"
  | .warning _ => "warning"

/-- The declaration of an event. -/
def declaration? (e : Event) : Option Declaration :=
  match e.kind with
  | .property d => some d
  | _ => none

/-- **What an event complains about**: an error, or a declaration that
its property does not allow. -/
def diagnostic? (e : Event) : Option Diagnostic :=
  match e.kind with
  | .error error _ => some error
  | .property d => d.invalid
  | _ => none

/-- What an event says after its name in a one-line report. -/
def details (e : Event) : String :=
  match e.kind with
  | .start (.rule selectors) => " " ++ ", ".intercalate (selectors.map (·.text))
  | .start (.media queries) => " " ++ ", ".intercalate (queries.map (·.text))
  | .property d =>
    " " ++ d.property.display ++ ": " ++ d.value.text ++
      (if d.important then " !important" else "") ++
      (match d.invalid with
       | some e => " [invalid: " ++ e.message ++ "]"
       | none => "")
  | .error e _ => " " ++ e.message
  | .warning message => " " ++ message
  | .import_ uri _ _ => " " ++ uri
  | .namespace_ _ uri => " " ++ uri
  | .layer ids => " " ++ ", ".intercalate ids
  | _ => ""

/-- **An event in one line.** -/
def display (e : Event) : String := e.location.display ++ " " ++ e.name ++ e.details

instance : Shift Event where
  shift δ e :=
    { location := shift δ e.location
      kind :=
        match e.kind with
        | .import_ uri layer queries => .import_ uri layer (shift δ queries)
        | .start kind => .start (shift δ kind)
        | .stop kind empty => .stop (shift δ kind) empty
        | .supportsSelector selector => .supportsSelector (shift δ selector)
        | .property d => .property (shift δ d)
        | .error error recoverable => .error (shift δ error) recoverable
        | other => other }

end Event

end Stylesheet
