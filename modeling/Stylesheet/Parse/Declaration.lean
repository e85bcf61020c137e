import Stylesheet.Parse.Selector

/-!
# Reading declarations

Inside a rule `a:hover` may begin a declaration or a rule, and which of
the two it is shows only at the brace or the semicolon after it. It is
read as a declaration first, and what that reports is held back until
the question is settled. If it was none, the stream goes back to where
it began and nothing has been reported.
-/

namespace Stylesheet

namespace Parser

/-- What ends the value of a custom property. -/
def customEnd : List TokenKind := [.delim, .semicolon, .rBrace, .rBracket, .rParen, .invalid]

/-- What ends a value in brackets. -/
def bracketEnd : List TokenKind := [.delim, .semicolon, .rBrace, .rParen]

/-- What ends any other value. -/
def valueEnd : List TokenKind := [.delim, .semicolon, .rBrace]

/-- **Where a declaration stands.** -/
structure DeclarationSite where
  /-- The colon, if it was read already. -/
  colon : Option Token := none
  /-- Whether it stands in brackets, as part of a condition. -/
  inParens : Bool := false
  /-- The at-rule whose descriptors it is checked against. -/
  scope : Option String := none

/-- What ends the value of a declaration. -/
def DeclarationSite.ends (site : DeclarationSite) (custom : Bool) : List TokenKind :=
  if custom then customEnd else if site.inParens then bracketEnd else valueEnd

/-- **The name of a property** that a token starts. -/
def propertyName (t : Token) : Parser PropertyName := do
  if t.kind == .star then
    let name ← mustMatch [.ident]
    return { PropertyName.ofText name.text t.location with hack := some '*' }
  else if (← options).underscoreHack && t.kind == .ident && Text.startsWith t.text "_" then
    let bare := (Text.stripStart "_" t.text).getD t.text
    return { PropertyName.ofText bare t.location with hack := some '_' }
  else return .ofText t.text t.location

/-- **What follows the name of a property.** -/
inductive AfterName where
  /-- A colon, and the kind of the token after it. -/
  | value (first : TokenKind)
  /-- Two colons; the token after the name is the first of them, or a
  blank before it. -/
  | pseudo (raw : Token)
  /-- Something else: the token after the name, and the one after it if
  that is a blank. -/
  | other (raw seen : Token)

/-- The tokens after the name of a property. -/
def afterName (colon : Option Token) : Parser AfterName := do
  let (raw, seen) ←
    match colon with
    | some c => pure (c, c)
    | none =>
      let raw ← next false true
      if raw.kind == .whitespace then pure (raw, ← grab) else pure (raw, raw)
  if seen.kind == .colon then
    let first ← next true true
    return if first.kind == .colon then .pseudo raw else .value first.kind
  else return .other raw seen

/-- **Read a value, and hold back what is reported on the way.** -/
def exprHeldBack (ends : List TokenKind) : Parser (Option Value × List Event) := do
  update fun s => { s with deferred := some [] }
  let value ← attempt (expr ends false)
  let held := (← state).deferred.getD []
  update fun s => { s with deferred := none }
  return (← ofExcept value, held.reverse)

/-- What is wrong with a value, if it is to be checked at all. -/
def checked (name : PropertyName) (value : Value) (scope : Option String) :
    Parser (Option Diagnostic) :=
  modifyGet fun s =>
    match s.validator.check name value scope with
    | (.ok _, validator) => (none, { s with validator := validator })
    | (.error e, validator) => (some e, { s with validator := validator })

/-- The token that ends a declaration, given the one after its value. -/
def declarationEnd (site : DeclarationSite) (t : Token) : Parser Token := do
  let kinds : List TokenKind := if site.inParens then [.rParen] else [.semicolon, .rBrace]
  if t.kind == .delim then
    discard (mustMatchKeyword .important)
    mustMatchSmart kinds
  else if t.isEof && !site.inParens then return t
  else mustReuse kinds

/-- **The rest of a declaration**, once its value has been read. -/
def declarationTail (site : DeclarationSite) (t : Token) (property : PropertyName)
    (read : Option Value) : Parser Unit := do
  let custom := t.isCustomIdent
  let after ← current
  if !site.inParens && after.kind == .lBrace then
    update fun s => { s with pair := some .rBrace }
    throw (.at_ ("Unexpected \"\x7b\" in \"" ++ property.display ++ "\" declaration")
      after.location)
  let value ←
    match read with
    | some v => pure v
    | none => if custom then pure (.empty after.location) else failAt "" after
  let invalid ←
    if custom || (← options).noValidation then pure none
    else checked property value site.scope
  if (← options).strict then
    if let some e := invalid then throw e
  let last ← declarationEnd site after
  let important := after.kind == .delim
  fire (.property ⟨property, value, important, site.inParens, site.scope, invalid⟩) t.location
  if last.kind == .rBrace then unget

/-- The value of a declaration and the rest of it, once its colon has
been read; `false` when a brace shows that it was none. -/
def declarationValue (site : DeclarationSite) (t : Token) (property : PropertyName)
    (first : TokenKind) : Parser Bool := do
  let custom := t.isCustomIdent
  unless first == .whitespace do unget
  if !site.inParens && !custom && (first == .ident || first == .function) then
    let (value, held) ← exprHeldBack (site.ends custom)
    if (← current).kind == .lBrace then
      seek t.stop
      return false
    held.forM dispatch
    declarationTail site t property value
    return true
  else
    let value ← expr (site.ends custom) custom
    declarationTail site t property value
    return true

/-- **A declaration** after its first token. It ends with a semicolon or,
in brackets, with the closing bracket; a closing brace is left. The
answer is `false` when it turned out to be none, and then the first
token is again the one handed out last. -/
def declaration (site : DeclarationSite) (t : Token) : Parser Bool := do
  let property ← propertyName t
  match ← afterName site.colon with
  | .value first => declarationValue site t property first
  | .pseudo raw =>
    moveStream (·.rewindTo t)
    if site.inParens then failAt "\":\"" raw
    return false
  | .other raw seen =>
    moveStream (·.rewindTo t)
    if !site.inParens && (startsNestedSelector seen.kind || seen.kind == .lBrace) then return false
    if site.inParens || t.isCustomIdent then failAt "\":\"" raw
    return false

end Parser

end Stylesheet
