import Stylesheet.Token.Basic

/-!
# Values

The value of a declaration is a list of **parts**. Most parts are a
single token; a function or a bracketed block is one part together with
what stands inside it, which is a value again. A part keeps its own text
and the place after it, and some marks that the checks of values need:
whether it computes a number, whether it stands for a value that is not
known, and so on.
-/

namespace Stylesheet

/-- **What a part of a value is.** -/
inductive PartType where
  /-- A word. -/
  | ident
  /-- A color by name or in hexadecimal digits. -/
  | color
  /-- A number without a unit. -/
  | number
  /-- A length. -/
  | length
  /-- An angle. -/
  | angle
  /-- A time. -/
  | time
  /-- A frequency. -/
  | frequency
  /-- A resolution. -/
  | resolution
  /-- A share of free space. -/
  | flex
  /-- A percentage. -/
  | percentage
  /-- A number with a unit that is not known. -/
  | dimension
  /-- A quoted string. -/
  | string
  /-- An address. -/
  | uri
  /-- A range of code points. -/
  | unicodeRange
  /-- A function with its arguments. -/
  | function
  /-- A bracketed block. -/
  | block
  /-- A name that begins with two dashes. -/
  | customProperty
  /-- A comma, a slash, a sign and the like. -/
  | operator
  /-- A placeholder. -/
  | variable
  /-- Anything else. -/
  | unknown
  deriving DecidableEq, Repr

namespace PartType

/-- The name of a part's type in reports. -/
def label : PartType → String
  | .ident => "Ident"
  | .color => "Color"
  | .number => "Number"
  | .length => "Length"
  | .angle => "Angle"
  | .time => "Time"
  | .frequency => "Frequency"
  | .resolution => "Resolution"
  | .flex => "Flex"
  | .percentage => "Percentage"
  | .dimension => "Dimension"
  | .string => "String"
  | .uri => "Uri"
  | .unicodeRange => "UnicodeRange"
  | .function => "Function"
  | .block => "Block"
  | .customProperty => "CustomProperty"
  | .operator => "Operator"
  | .variable => "Variable"
  | .unknown => "Unknown"

/-- **The type of a token as a part**, before names and hashes are looked
at more closely. -/
def ofToken (t : Token) : PartType :=
  match t.kind with
  | .ident => if t.isCustomIdent then .customProperty else .ident
  | .number => .number
  | .length => .length
  | .angle => .angle
  | .time => .time
  | .frequency => .frequency
  | .resolution => .resolution
  | .flex => .flex
  | .percentage => .percentage
  | .dimension => .dimension
  | .string => .string
  | .uri => .uri
  | .uRange => .unicodeRange
  | .function => .function
  | .lBrace | .lBracket | .lParen => .block
  | .uvar => .variable
  | .comma | .char | .plus | .minus | .star | .equals | .gt | .eqCmp | .colon => .operator
  | _ => .unknown

end PartType

/-- **A value over a type of parts**: the parts and what they span. -/
structure ValueOf (Part : Type) where
  /-- The parts in order. -/
  parts : List Part
  /-- The source text from the first part to the last. -/
  text : String
  /-- Where the first part starts. -/
  location : Location
  /-- The place after the last part. -/
  stop : Location
  /-- Whether some part stands for a value that is not known. -/
  isVar : Bool
  deriving Repr, DecidableEq

/-- **A part of a value.** -/
structure ValuePart where
  /-- Its token: the name of a function, the opening bracket of a block. -/
  token : Token
  /-- Its source text, brackets and arguments included. -/
  text : String
  /-- What it is. -/
  type : PartType
  /-- The arguments of a function or the inside of a block. -/
  expr : Option (ValueOf ValuePart)
  /-- The place after it. -/
  stop : Location
  /-- A function that computes a number. -/
  isCalc : Bool
  /-- A variable or a placeholder, which can stand for anything. -/
  isVar : Bool
  /-- A reference to an attribute. -/
  isAttr : Bool
  /-- The word `none`. -/
  isNone : Bool
  deriving Repr

/-- **The value of a declaration**, or the arguments of a function. -/
abbrev Value := ValueOf ValuePart

namespace ValuePart

/-- A token as a part. -/
def ofToken (t : Token) : ValuePart where
  token := t
  text := t.text
  type := .ofToken t
  expr := none
  stop := t.stop
  isCalc := false
  isVar := t.kind == .uvar
  isAttr := false
  isNone := false

/-- Where the part starts. -/
def location (p : ValuePart) : Location := p.token.location

/-- The kind of the part's token. -/
def kind (p : ValuePart) : TokenKind := p.token.kind

/-- The name of a function. -/
def functionName? (p : ValuePart) : Option String :=
  if p.type = .function then some p.token.name else none

/-- The value of a number. -/
def number (p : ValuePart) : Option Binary64 := p.token.number

/-- A zero without unit. -/
def isZero (p : ValuePart) : Bool := p.token.isZero

/-- The parts inside the part. -/
def inner (p : ValuePart) : List ValuePart := (p.expr.map (·.parts)).getD []

end ValuePart

namespace ValueOf

/-- **A value made of its parts**, with its text cut from the source the
places of the parts refer to. -/
def ofParts (parts : List ValuePart) (source : List Char) : Value :=
  let location := (parts.head?.map (·.location)).getD .start
  let stop := (parts.getLast?.map (·.stop)).getD location
  { parts := parts
    text := String.ofList (Text.slice source location.offset stop.offset)
    location := location
    stop := stop
    isVar := parts.any (·.isVar) }

/-- A value without parts at a place. -/
def empty (loc : Location) : Value := ⟨[], "", loc, loc, false⟩

/-- Whether there are no parts. -/
def isEmpty {Part : Type} (v : ValueOf Part) : Bool := v.parts.isEmpty

end ValueOf

mutual
/-- A part moved by a distance, with everything inside it. -/
def ValuePart.move (δ : Delta) : ValuePart → ValuePart
  | ⟨token, text, type, expr, stop, isCalc, isVar, isAttr, isNone⟩ =>
    ⟨shift δ token, text, type, moveExpr δ expr, shift δ stop, isCalc, isVar, isAttr, isNone⟩

/-- The inside of a part moved by a distance. -/
def ValuePart.moveExpr (δ : Delta) : Option (ValueOf ValuePart) → Option (ValueOf ValuePart)
  | none => none
  | some v => some (moveValue δ v)

/-- A value moved by a distance. -/
def ValuePart.moveValue (δ : Delta) : ValueOf ValuePart → ValueOf ValuePart
  | ⟨parts, text, location, stop, isVar⟩ =>
    ⟨moveAll δ parts, text, shift δ location, shift δ stop, isVar⟩

/-- Parts moved by a distance. -/
def ValuePart.moveAll (δ : Delta) : List ValuePart → List ValuePart
  | [] => []
  | p :: ps => ValuePart.move δ p :: moveAll δ ps
end

mutual
/-- How many brackets deep a part goes, itself included. -/
def ValuePart.nesting : ValuePart → Nat
  | ⟨_, _, _, expr, _, _, _, _, _⟩ => nestingExpr expr + 1

/-- How many brackets deep the inside of a part goes. -/
def ValuePart.nestingExpr : Option (ValueOf ValuePart) → Nat
  | none => 0
  | some v => nestingValue v

/-- How many brackets deep a value goes. -/
def ValuePart.nestingValue : ValueOf ValuePart → Nat
  | ⟨parts, _, _, _, _⟩ => nestingAll parts

/-- **How many brackets deep parts go**: none without parts, one for
parts that are single tokens. -/
def ValuePart.nestingAll : List ValuePart → Nat
  | [] => 0
  | p :: ps => max (ValuePart.nesting p) (nestingAll ps)
end

instance : Shift ValuePart where
  shift := ValuePart.move

instance : Shift (ValueOf ValuePart) where
  shift := ValuePart.moveValue

end Stylesheet
