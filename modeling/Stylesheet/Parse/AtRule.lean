import Stylesheet.Parse.Basic
import Stylesheet.Parse.Condition

/-!
# Reading at-rules

Each at-rule has its own prelude between its name and its body or
semicolon. Most bodies are read as any block is; `@keyframes` holds
rules of its own kind, and the body of `@document` can be passed over.
-/

namespace Stylesheet

namespace Parser

/-- The address of a `url()`, or the content of a string. -/
def addressOf (t : Token) : String :=
  match t.payload with
  | .uri address _ => address
  | _ => t.name

/-- A block of descriptors, which are checked against those of an
at-rule. -/
def descriptorBlock (block : BlockParser) (start : Token) (scope : String) (kind : BlockKind)
    (margins : Bool) : Parser Unit :=
  discard (block start.location
    { event := some kind, declarations := true, margins := margins, scope := some scope })

/-- A block of rules. -/
def ruleBlock (block : BlockParser) (start : Token) (kind : BlockKind) : Parser Unit :=
  discard (block start.location { event := some kind })

/-- The margin box of a page. -/
def marginRule (block : BlockParser) (start : Token) : Parser Unit :=
  descriptorBlock block start "page" (.pageMargin start.name) false

/-- The name that follows an at-rule. -/
def ruleName : Parser String := return (← mustMatchSmart [.ident]).text

/-! ## Statements -/

/-- The at-rule `@charset` and a string. -/
def charsetRule (start : Token) : Parser Unit := do
  let charset ← mustMatchSmart [.string]
  discard (mustMatchSmart [.semicolon])
  fire (.charset charset.name) start.location

/-- The at-rule `@namespace`, perhaps a name, and an address. -/
def namespaceRule (start : Token) : Parser Unit := do
  let name ← matchSmart [.ident]
  let uri ← mustMatchSmart [.string, .uri]
  discard (mustMatchSmart [.semicolon])
  fire (.namespace_ (name.map (·.text)) (addressOf uri)) start.location

/-- One more name of a layer after a dot. -/
def layerNameStep (sofar : String × Option Token) :
    Parser (ForInStep (String × Option Token)) := do
  match sofar with
  | (name, none) => return .done (name, none)
  | (name, some t) =>
    if (← matchKinds [.dot]).isNone then return .done (name ++ t.text, none)
    return .yield (name ++ t.text ++ ".", ← matchKinds [.ident])

/-- **The name of a layer**, with dots between its parts; empty when
there is none. -/
def layerName (first : Option Token) : Parser String := do
  let first ←
    match first with
    | some t => pure (some t)
    | none => matchSmart [.ident]
  let (name, _) ← repeating ("", first) layerNameStep
  return name

/-- The layer of an import, and the token after it. -/
def importLayer : Parser (Option String × Token) := do
  let t ← grab
  if t.kind == .function && t.name == "layer" then
    let name ← layerName none
    discard (mustMatchSmart [.rParen])
    return (some name, ← grab)
  else if t.isKeyword .layer then return (some "", ← grab)
  else return (none, t)

/-- The at-rule `@import` with an address, and perhaps a layer, a
condition and media queries. -/
def importRule (start : Token) : Parser Unit := do
  let uri ← mustMatchSmart [.string, .uri]
  let (layer, t) ← importLayer
  let conditional := t.kind == .function && t.name == "supports"
  if conditional then conditionInParens .supports (some (openParen t))
  let queries ← mediaQueries !conditional
  discard (mustMatchSmart [.semicolon])
  fire (.import_ (addressOf uri) layer queries) start.location

/-! ## Layers and scopes -/

/-- One more name of a list of layers, the names before it the latest
first; an opening brace ends the list with a block. -/
def layerStep (block : BlockParser) (start : Token) (sofar : List String × Bool) :
    Parser (ForInStep (List String × Bool)) := do
  let t ← grab
  let (ids, t) ←
    if t.kind == .ident then
      let name ← layerName (some t)
      pure (name :: sofar.1, ← grab)
    else pure (sofar.1, t)
  if t.kind == .lBrace then
    if ids.length > 1 then warn "@layer block cannot have multiple ids" start.location
    discard (block start.location { event := some (.layer ids.reverse.head?), opened := true })
    return .done (ids, true)
  else if t.kind == .comma then return .yield (ids, false)
  else return .done (ids, false)

/-- The at-rule `@layer` with a list of names or with a block. -/
def layerRule (block : BlockParser) (start : Token) : Parser Unit := do
  let (ids, blockSeen) ← repeating ([], false) (layerStep block start)
  unless blockSeen do
    discard (mustReuse [.semicolon])
    fire (.layer ids.reverse) start.location

/-- A list of selectors in brackets, after the opening bracket. -/
def scopeSelectors : Parser (Option (List Selector)) := do
  let selectors ← selectorGroup none false true
  discard (mustReuse [.rParen])
  return selectors

/-- **What stands between `@scope` and its body**, opening brace
included. -/
def scopePrelude : Parser (Option (List Selector) × Option (List Selector)) := do
  let t ← grab
  let (first, t) ←
    if t.kind == .lParen then
      let first ← scopeSelectors
      pure (first, ← grab)
    else pure (none, t)
  let last ←
    if first.isSome && t.isKeyword .toWord then
      discard (mustMatchSmart [.lParen])
      let last ← scopeSelectors
      discard grab
      pure last
    else pure none
  discard (mustReuse [.lBrace])
  return (first, last)

/-- The at-rule `@scope`. When its prelude is broken the whole rule is
passed over. -/
def scopeRule (block : BlockParser) (start : Token) : Parser Unit := do
  match ← attempt scopePrelude with
  | .error e =>
    seek start.stop
    update fun s => { s with pair := none }
    if (← options).strict then throw e
    recover e false
  | .ok (first, last) =>
    update fun s => { s with inScope := s.inScope + 1 }
    let result ← attempt (block start.location
      { event := some (.scope first last), opened := true })
    update fun s => { s with inScope := s.inScope - 1 }
    discard (ofExcept result)

/-! ## Documents -/

/-- The complaint about anything that selects no document. -/
def unknownDocument (loc : Location) : Parser Unit := warn "Unknown document function" loc

/-- One more function that selects documents, the ones before it the
latest first. -/
def documentStep (start : Token) (functions : List String) :
    Parser (ForInStep (List String)) := do
  let functions ←
    match ← matchSmart [.function, .ident, .uri] with
    | none =>
      unless (← options).emptyDocument do unknownDocument start.location
      pure functions
    | some t =>
      if t.kind == .uri then pure (t.text :: functions)
      else if t.kind == .function then
        let part ← function t false
        if part.functionName? == some "regexp" then pure (part.text :: functions)
        else
          unknownDocument part.location
          pure functions
      else
        unknownDocument t.location
        pure functions
  return if (← matchSmart [.comma]).isNone then .done functions else .yield functions

/-- The body of a document, after its opening brace; it is passed over
when nothing but the documents themselves is asked for. -/
def documentBody (block : BlockParser) (start : Token) : Parser BlockEnd := do
  if (← options).topDocOnly then
    moveStream (·.skipBroken true)
    return ⟨← mustMatchSmart [.rBrace], false⟩
  else block start.location { opened := true }

/-- The at-rule `@document`. -/
def documentRule (block : BlockParser) (start : Token) : Parser Unit := do
  if (← state).depth > 0 then warn "Nested @document produces broken code" start.location
  let functions ← repeating [] (documentStep start)
  discard (mustMatchSmart [.lBrace])
  let kind := BlockKind.document functions.reverse
  fire (.start kind) start.location
  let stop ← documentBody block start
  fire (.stop kind stop.empty) stop.close.location

/-! ## Keyframes -/

/-- **The keys of a keyframe as far as they are read.** -/
structure KeysSoFar where
  /-- The keys, the latest first. -/
  keys : List String
  /-- Where the first one starts. -/
  first : Option Location
  /-- The token read last. -/
  last : Token

/-- One more key, and the token after it. -/
def keyStep (sofar : KeysSoFar) : Parser (ForInStep KeysSoFar) := do
  let t ← grab
  if t.kind == .percentage || t.isKeyword .fromTo then
    let last ← grab
    let sofar : KeysSoFar :=
      ⟨t.text :: sofar.keys, some (sofar.first.getD t.location), last⟩
    return if last.kind == .comma then .yield sofar else .done sofar
  else if sofar.keys.isEmpty then return .done { sofar with last := t }
  else failAt "percentage%, \"from\", \"to\"" t

/-- One more rule of the keyframes. The state tells whether there was
one before, and the token read last. -/
def keyframeStep (block : BlockParser) (sofar : Bool × Token) :
    Parser (ForInStep (Bool × Token)) := do
  let head ← repeating ⟨[], none, sofar.2⟩ keyStep
  match head.first with
  | none => return .done (sofar.1, head.last)
  | some loc =>
    let opened := head.last.kind == .lBrace
    unless opened do unget
    discard (block loc
      { event := some (.keyframeRule head.keys.reverse), opened := opened, declarations := true })
    return .yield (true, head.last)

/-- The at-rule `@keyframes`. -/
def keyframesRule (block : BlockParser) (start : Token) : Parser Unit := do
  let name ← mustMatchSmart [.ident, .string]
  discard (mustMatchSmart [.lBrace])
  let kind := BlockKind.keyframes name.name start.vendor
  fire (.start kind) start.location
  let (any, last) ← repeating (false, start) (keyframeStep block)
  let close ← if last.kind == .rBrace then pure last else mustMatchSmart [.rBrace]
  fire (.stop kind !any) close.location

/-! ## The other at-rules -/

/-- The at-rule `@container`, perhaps with a name. -/
def containerRule (block : BlockParser) (start : Token) : Parser Unit := do
  let name ←
    match ← matchSmart [.ident] with
    | none => pure none
    | some t =>
      if t.isKeyword .not then
        unget
        pure none
      else pure (some t.text)
  condition .container
  ruleBlock block start (.container name)

/-- The at-rule `@page`, perhaps with a name and a pseudo-class. -/
def pageRule (block : BlockParser) (start : Token) : Parser Unit := do
  let id ← matchSmart [.ident]
  if let some t := id then
    if t.isKeyword .auto then failAt "" t
  let pseudo ←
    if (← matchKinds [.colon]).isSome then pure (some (← mustMatch [.ident]).text)
    else pure none
  descriptorBlock block start "page" (.page (id.map (·.text)) pseudo) true

/-- An at-rule that is not known. -/
def unknownRule (start : Token) : Parser Unit := do
  if (← options).strict then throw (.at_ ("Unknown rule: " ++ start.text) start.location)
  warn ("Unknown @ rule: " ++ start.text ++ ".") start.location
  moveStream (·.skipBroken false)

/-- An at-rule by its name. -/
def namedRule (block : BlockParser) (start : Token) : Parser Unit := do
  match start.name with
  | "charset" => charsetRule start
  | "container" => containerRule block start
  | "counter-style" =>
    descriptorBlock block start "counter-style" (.counterStyle (← ruleName)) false
  | "document" => documentRule block start
  | "font-face" => descriptorBlock block start "font-face" .fontFace false
  | "font-palette-values" =>
    descriptorBlock block start "font-palette-values" (.fontPaletteValues (← ruleName)) false
  | "import" => importRule start
  | "keyframes" => keyframesRule block start
  | "layer" => layerRule block start
  | "media" => ruleBlock block start (.media (← mediaQueries false))
  | "namespace" => namespaceRule start
  | "page" => pageRule block start
  | "property" => descriptorBlock block start "property" (.property (← ruleName)) false
  | "scope" => scopeRule block start
  | "viewport" => descriptorBlock block start "viewport" .viewport false
  | "supports" =>
    condition .supports
    ruleBlock block start .supports
  | _ => unknownRule start

/-- **An at-rule** after its name; `top` when it stands in no block. -/
def atRule (block : BlockParser) (start : Token) (top : Bool) : Parser Unit := do
  if top && (← options).topDocOnly && start.name != "document" then
    moveStream (·.skipBroken false)
  else namedRule block start

end Parser

end Stylesheet
