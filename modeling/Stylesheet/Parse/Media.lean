import Stylesheet.Media
import Stylesheet.Parse.Value

/-!
# Reading media queries

A list of media queries may be empty, and a comma at its end is let
through. In a query the features are joined by one word throughout,
`and` or `or`; after a medium it is `and`. At the first word that does
not fit the query is over, and what follows is left to the caller.
-/

namespace Stylesheet

namespace Parser

/-- The tokens a query can start with. -/
def queryStart : List TokenKind := [.ident, .lParen]

/-- The tokens a feature can start with. -/
def featureStart : List TokenKind := [.ident, .number, .dimension, .length]

/-- **A feature in brackets**, whose opening bracket may have been read
already. -/
def mediaFeature (start : Option Token) : Parser MediaFeature := do
  let start ←
    match start with
    | some t => pure t
    | none => grab
  unless start.kind == .lParen do failAt TokenKind.lParen.describe start
  let name ← mustMatchSmart featureStart
  let inside ← expr [.rParen] true
  let close ← mustReuse [.rParen]
  return {
    name
    expr := inside
    text := ← slice start.location.offset close.stop.offset
    location := start.location
    stop := close.stop }

/-- The words that can still join two parts of a condition, once one of
them has been used. -/
def joinersAfter (word : Token) : Keywords :=
  if Keywords.and.has word.text then .and else .or

/-- One more feature, given those before it, the latest first, and the
words that can join it; a word that was used fixes the later ones. -/
def featureStep (sofar : List MediaFeature × Keywords × Bool) :
    Parser (ForInStep (List MediaFeature × Keywords × Bool)) := do
  let (features, joiners, settled) := sofar
  match ← matchKeyword joiners with
  | none => return .done sofar
  | some word =>
    let joiners := if settled then joiners else joinersAfter word
    return .yield ((← mediaFeature none) :: features, joiners, true)

/-- **A media query** after its first token. -/
def mediaQuery (start : Token) : Parser MediaQuery := do
  let modifier := if start.isKeyword .notOnly then some start.lower else none
  let first ← if modifier.isSome then mustMatchSmart queryStart else pure start
  let mediaType := if first.kind == .ident then some first.text else none
  let features ← if mediaType.isSome then pure [] else pure [← mediaFeature (some first)]
  let joiners : Keywords := if mediaType.isSome then .and else .andOr
  let (features, _, _) ← repeating (features, joiners, false) featureStep
  let text ← slice start.location.offset (← current).stop.offset
  return {
    modifier
    mediaType
    features := features.reverse
    text := Text.trimEnd text
    location := start.location }

/-- One more query after its first token, and the first token of the one
after it. -/
def queryStep (sofar : List MediaQuery × Option Token) :
    Parser (ForInStep (List MediaQuery × Option Token)) := do
  match sofar with
  | (queries, none) => return .done (queries, none)
  | (queries, some t) =>
    let queries := (← mediaQuery t) :: queries
    if (← matchSmart [.comma]).isNone then return .done (queries, none)
    return .yield (queries, ← matchSmart queryStart)

/-- **A list of media queries**; with `reuse` its first token is the one
handed out last. -/
def mediaQueries (reuse : Bool) : Parser (List MediaQuery) := do
  let first ← if reuse then matchReuse queryStart else matchSmart queryStart
  let (queries, _) ← repeating ([], first) queryStep
  return queries.reverse

end Parser

end Stylesheet
