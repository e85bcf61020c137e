import Stylesheet.Parse.Basic

/-!
# Reading values

A value is read part by part, up to one of some tokens that end it.
Brackets and functions are read with everything inside them, whatever
ends the value outside. In **raw** reading that is all; otherwise
colors and the word `none` are recognized too.
-/

namespace Stylesheet

namespace Parser

/-- The functions that compute a number. -/
def calcFunctions : List String :=
  ["calc", "clamp", "min", "max", "sin", "cos", "tan", "asin", "acos", "atan", "atan2"]

/-- The bracket that closes an opening one. -/
def closingKind? : TokenKind → Option TokenKind
  | .lParen => some .rParen
  | .lBracket => some .rBracket
  | .lBrace => some .rBrace
  | _ => none

/-- Whether a hash is a color: three, four, six or eight hexadecimal
digits. -/
def isHexColor (text : String) : Bool :=
  [4, 5, 7, 9].contains text.utf8ByteSize && (text.toList.drop 1).all Text.isHexDigit

/-- A hash as a part, with a warning when it is no color. -/
def hashPart (t : Token) : Parser ValuePart := do
  let part := ValuePart.ofToken t
  if isHexColor t.text then return { part with type := .color }
  else
    warn ("Expected a hex color but found \"" ++ Text.clip t.text 30 ++ "\".") t.location
    return part

/-- A name as a part. -/
def wordPart (t : Token) : ValuePart :=
  let part := ValuePart.ofToken t
  if Keywords.none.has t.text then { part with isNone := true }
  else if !Keywords.auto.has t.text && Keywords.colors.has t.text then { part with type := .color }
  else part

/-- **How a value is read**: the tokens that end it, and whether the
reading is raw. -/
abbrev ExprParser := List TokenKind → Bool → Parser (Option Value)

/-- A bracketed block after its opening bracket. -/
def blockPart (inner : ExprParser) (t : Token) (close : TokenKind) (raw : Bool) :
    Parser ValuePart := do
  let inside ← inner [close] raw
  let last ← current
  unless last.kind == close do failAt close.describe last
  return { ValuePart.ofToken t with
    text := ← slice t.location.offset last.stop.offset
    type := .block
    isVar := inside.any (·.isVar)
    stop := last.stop
    expr := inside }

/-- **A function after its name.** -/
def functionPart (inner : ExprParser) (t : Token) (raw : Bool) : Parser ValuePart := do
  let args ← inner [.rParen] raw
  let close ← current
  unless close.kind == .rParen do failAt TokenKind.rParen.describe close
  let part := { ValuePart.ofToken t with
    text := ← slice t.location.offset close.stop.offset
    stop := close.stop
    expr := args }
  match args with
  | none => return part
  | some args =>
    return { part with
      isCalc := calcFunctions.contains t.name
      isVar := args.isVar || t.name == "var" || t.name == "env"
      isAttr := t.name == "attr" &&
        args.parts.head?.any fun p => p.kind == .ident || p.kind == .uvar }

/-- A part that starts with a token other than an opening bracket. -/
def plainPart (inner : ExprParser) (t : Token) (raw : Bool) : Parser ValuePart := do
  if t.kind == .function then
    if t.isFilterFunction && !(← options).ieFilters then failAt "" t
    functionPart inner t raw
  else if raw then return .ofToken t
  else if t.kind == .hash then hashPart t
  else if t.kind == .ident && !t.isCustomIdent then return wordPart t
  else return .ofToken t

/-- One more part, given those before it, the latest first. -/
def exprStep (inner : ExprParser) (ends : List TokenKind) (raw : Bool)
    (parts : List ValuePart) : Parser (ForInStep (List ValuePart)) := do
  let t ← next true false
  if t.isEof || ends.contains t.kind then return .done parts
  match closingKind? t.kind with
  | some close =>
    if !raw && t.kind == .lBrace && !parts.isEmpty then return .done parts
    return .yield ((← blockPart inner t close raw) :: parts)
  | none => return .yield ((← plainPart inner t raw) :: parts)

/-- **Values with brackets nested to a depth.** -/
def exprTo : Nat → ExprParser
  | 0 => fun _ _ => throw tooDeep
  | depth + 1 => fun ends raw => do
    let parts ← repeating [] (exprStep (exprTo depth) ends raw)
    if parts.isEmpty then return none
    return some (.ofParts parts.reverse (← state).stream.source)

/-- **A value up to one of some tokens**, which is read as well, or up
to the end. Nothing at all is no value. -/
def expr : ExprParser := fun ends raw => do exprTo (← budget) ends raw

/-- A function after its name. -/
def function (t : Token) (raw : Bool) : Parser ValuePart := functionPart expr t raw

/-- **Pass over what is broken and report the error.** -/
def recover (error : Diagnostic) (inBlock : Bool) : Parser Unit := do
  match (← state).pair with
  | some close =>
    update fun s => { s with pair := none }
    discard (attempt (expr [close] true))
  | none => pure ()
  moveStream (·.skipBroken inBlock)
  report error

end Parser

end Stylesheet
