import Stylesheet.Event
import Stylesheet.Json.Basic

/-!
# Events and their parts as JSON

Everything an event holds can be written as JSON. Objects list their
fields in a fixed order, a choice without content is its name, and a
choice with content is an object with that one name. Two leaves can be
written in more than one way, places and numbers, and a `Wire` says how.

The leaves, the tokens, the values and the media queries come first, then
selectors, then events.
-/

namespace Stylesheet

/-- **How places and numbers are written.** -/
structure Wire where
  /-- A place in the source. -/
  location : Location → Json
  /-- The value of a number. -/
  number : Binary64 → Json

namespace Wire

/-- A payload, tagged with the name of its choice. -/
def payload (w : Wire) : Payload → Json
  | .none => .str "None"
  | .ident name vendorPos custom =>
    .tagged "Ident" (.obj [("name", .str name), ("vendor_pos", .nat vendorPos),
      ("custom", .bool custom)])
  | .function name vendor filter =>
    .tagged "Function" (.obj [("name", .str name), ("prefix", .ofText? vendor),
      ("ie", .bool filter)])
  | .uri address name => .tagged "Uri" (.obj [("uri", .str address), ("name", .str name)])
  | .at name vendor => .tagged "At" (.obj [("name", .str name), ("prefix", .ofText? vendor)])
  | .hash name => .tagged "Hash" (.obj [("name", .str name)])
  | .string value => .tagged "String" (.obj [("value", .str value)])
  | .number value unit isInt =>
    .tagged "Number" (.obj [("value", w.number value), ("unit", .str unit),
      ("is_int", .bool isInt)])
  | .uvar name => .tagged "Uvar" (.obj [("name", .str name)])
  | .star hack => .tagged "Star" (.obj [("hack", .bool hack)])

/-- **A token.** -/
def token (w : Wire) (t : Token) : Json :=
  .obj [("kind", .str t.kind.label), ("value", w.payload t.payload), ("text", .str t.text),
    ("location", w.location t.location), ("end", w.location t.stop)]

/-- **A diagnostic** inside an event. -/
def diagnostic (w : Wire) (d : Diagnostic) : Json :=
  .obj [("kind", .str d.kind.label), ("message", .str d.message),
    ("location", .ofOption (d.location.map w.location))]

/-! ## Values and media queries -/

mutual
/-- **A part of a value.** -/
def part (w : Wire) : ValuePart → Json
  | ⟨token, text, type, expr, stop, isCalc, isVar, isAttr, isNone⟩ =>
    .obj [("token", w.token token), ("text", .str text), ("part_type", .str type.label),
      ("expr", w.optionalValue expr), ("end", w.location stop), ("is_calc", .bool isCalc),
      ("is_var", .bool isVar), ("is_attr", .bool isAttr), ("is_none", .bool isNone)]

/-- A value that may be missing. -/
def optionalValue (w : Wire) : Option (ValueOf ValuePart) → Json
  | none => .null
  | some v => w.value v

/-- **A value.** -/
def value (w : Wire) : ValueOf ValuePart → Json
  | ⟨parts, text, location, stop, isVar⟩ =>
    .obj [("parts", .arr (w.parts parts)), ("text", .str text),
      ("location", w.location location), ("end", w.location stop), ("is_var", .bool isVar)]

/-- The parts of a value. -/
def parts (w : Wire) : List ValuePart → List Json
  | [] => []
  | p :: ps => w.part p :: w.parts ps
end

/-- **A feature of a media query.** -/
def feature (w : Wire) (f : MediaFeature) : Json :=
  .obj [("name", w.token f.name), ("expr", w.optionalValue f.expr), ("text", .str f.text),
    ("location", w.location f.location), ("end", w.location f.stop)]

/-- **A media query.** -/
def query (w : Wire) (q : MediaQuery) : Json :=
  .obj [("modifier", .ofText? q.modifier), ("media_type", .ofText? q.mediaType),
    ("features", .arr (q.features.map w.feature)), ("text", .str q.text),
    ("location", w.location q.location)]

/-! ## Selectors -/

/-- **A combinator.** -/
def combinator (w : Wire) (c : Combinator) : Json :=
  .obj [("kind", .str c.kind.label), ("text", .str c.text), ("location", w.location c.location)]

/-- **A test of an attribute.** -/
def attributeTest (t : AttributeTest) : Json :=
  .obj [("ns", .ofText? t.ns), ("name", .str t.name), ("op", .ofText? t.op),
    ("value", .ofText? t.value), ("flag", .ofText? t.flag)]

mutual
/-- **A selector.** -/
def selector (w : Wire) : Selector → Json
  | ⟨items, text, location, stop⟩ =>
    .obj [("items", .arr (w.selectorItems items)), ("text", .str text),
      ("location", w.location location), ("end", w.location stop)]

/-- The pieces of a selector. -/
def selectorItems (w : Wire) : List (SelectorItem Selector) → List Json
  | [] => []
  | item :: items => w.selectorItem item :: w.selectorItems items

/-- A piece of a selector. -/
def selectorItem (w : Wire) : SelectorItem Selector → Json
  | .compound c => .tagged "Part" (w.compound c)
  | .combinator c => .tagged "Combinator" (w.combinator c)

/-- **A compound.** -/
def compound (w : Wire) : Compound Selector → Json
  | ⟨ns, elementName, modifiers, text, location⟩ =>
    .obj [("namespace", .ofText? ns), ("element_name", .ofText? elementName),
      ("modifiers", .arr (w.modifiers modifiers)), ("text", .str text),
      ("location", w.location location)]

/-- The modifiers of a compound. -/
def modifiers (w : Wire) : List (Modifier Selector) → List Json
  | [] => []
  | m :: ms => w.modifier m :: w.modifiers ms

/-- A modifier. -/
def modifier (w : Wire) : Modifier Selector → Json
  | ⟨kind, text, location⟩ =>
    .obj [("kind", w.modifierKind kind), ("text", .str text), ("location", w.location location)]

/-- What a modifier asks for. -/
def modifierKind (w : Wire) : ModifierKind Selector → Json
  | .amp => .str "Amp"
  | .id => .str "Id"
  | .className => .str "Class"
  | .attribute test => .tagged "Attribute" (attributeTest test)
  | .pseudo name colons args =>
    .tagged "Pseudo" (.obj [("name", .str name), ("colons", .nat colons),
      ("args", w.optionalArgs args)])

/-- The argument of a pseudo-class, if it has one. -/
def optionalArgs (w : Wire) : Option (PseudoArgs Selector) → Json
  | none => .null
  | some args => w.args args

/-- The argument of a pseudo-class. -/
def args (w : Wire) : PseudoArgs Selector → Json
  | .selectors list => .tagged "Selectors" (.arr (w.selectors list))
  | .nth count among =>
    .tagged "Nth" (.obj [("a", .str count.step), ("b", .str count.offset),
      ("of", .arr (w.selectors among))])
  | .value v => .tagged "Value" (w.optionalValue v)

/-- Selectors. -/
def selectors (w : Wire) : List Selector → List Json
  | [] => []
  | s :: ss => w.selector s :: w.selectors ss
end

/-! ## Events -/

/-- Strings. -/
def texts (list : List String) : Json := .arr (list.map .str)

/-- A list of selectors that may be missing. -/
def optionalSelectors (w : Wire) (list : Option (List Selector)) : Json :=
  .ofOption (list.map fun list => .arr (w.selectors list))

/-- **The name of a property.** -/
def propertyName (w : Wire) (name : PropertyName) : Json :=
  .obj [("text", .str name.text), ("hack", .ofText? (name.hack.map String.singleton)),
    ("location", w.location name.location), ("vendor_pos", .nat name.vendorPos)]

/-- **A declaration.** -/
def declaration (w : Wire) (d : Declaration) : Json :=
  .obj [("property", w.propertyName d.property), ("value", w.value d.value),
    ("important", .bool d.important), ("in_parens", .bool d.inParens),
    ("scope", .ofText? d.scope), ("invalid", .ofOption (d.invalid.map w.diagnostic))]

/-- **A kind of block.** -/
def blockKind (w : Wire) : BlockKind → Json
  | .rule selectors => .tagged "Rule" (.obj [("selectors", .arr (w.selectors selectors))])
  | .media queries => .tagged "Media" (.obj [("media", .arr (queries.map w.query))])
  | .supports => .str "Supports"
  | .container name => .tagged "Container" (.obj [("name", .ofText? name)])
  | .layer id => .tagged "Layer" (.obj [("id", .ofText? id)])
  | .scope start stop =>
    .tagged "Scope" (.obj [("start", w.optionalSelectors start),
      ("end", w.optionalSelectors stop)])
  | .document functions => .tagged "Document" (.obj [("functions", texts functions)])
  | .fontFace => .str "FontFace"
  | .fontPaletteValues id => .tagged "FontPaletteValues" (.obj [("id", .str id)])
  | .page id pseudo => .tagged "Page" (.obj [("id", .ofText? id), ("pseudo", .ofText? pseudo)])
  | .pageMargin margin => .tagged "PageMargin" (.obj [("margin", .str margin)])
  | .property name => .tagged "Property" (.obj [("name", .str name)])
  | .counterStyle name => .tagged "CounterStyle" (.obj [("name", .str name)])
  | .viewport => .str "Viewport"
  | .keyframes name vendor =>
    .tagged "Keyframes" (.obj [("name", .str name), ("prefix", .ofText? vendor)])
  | .keyframeRule keys => .tagged "KeyframeRule" (.obj [("keys", texts keys)])

/-- What an event reports. -/
def eventKind (w : Wire) : EventKind → Json
  | .startStylesheet => .str "StartStylesheet"
  | .endStylesheet => .str "EndStylesheet"
  | .charset charset => .tagged "Charset" (.obj [("charset", .str charset)])
  | .import_ uri layer queries =>
    .tagged "Import" (.obj [("uri", .str uri), ("layer", .ofText? layer),
      ("media", .arr (queries.map w.query))])
  | .namespace_ name uri =>
    .tagged "Namespace" (.obj [("prefix", .ofText? name), ("uri", .str uri)])
  | .layer ids => .tagged "Layer" (.obj [("ids", texts ids)])
  | .start kind => .tagged "Start" (w.blockKind kind)
  | .stop kind empty =>
    .tagged "End" (.obj [("kind", w.blockKind kind), ("empty", .bool empty)])
  | .supportsSelector selector =>
    .tagged "SupportsSelector" (.obj [("selector", w.selector selector)])
  | .property d => .tagged "Property" (w.declaration d)
  | .error error recoverable =>
    .tagged "Error" (.obj [("error", w.diagnostic error), ("recoverable", .bool recoverable)])
  | .warning message => .tagged "Warning" (.obj [("message", .str message)])

/-- **An event.** -/
def event (w : Wire) (e : Event) : Json :=
  .obj [("kind", w.eventKind e.kind), ("location", w.location e.location)]

end Wire

end Stylesheet
