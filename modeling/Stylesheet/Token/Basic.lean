import Stylesheet.Diagnostic
import Stylesheet.Number
import Stylesheet.Text.Case
import Stylesheet.Token.Keywords
import Stylesheet.Token.Kind

/-!
# Tokens

A token is a piece of the source: its kind, its text as written, the
places where it starts and ends, and what the kind says about it
besides – the unescaped name of an identifier, the value and unit of a
number, and so on. That last part is the token's `Payload`.
-/

namespace Stylesheet

/-- **What a token says besides its text.** -/
inductive Payload where
  /-- Nothing. -/
  | none
  /-- A name: its unescaped form, the byte offset of what follows a
  vendor's mark in it (0 when there is none), and whether it begins with
  two dashes. -/
  | ident (name : String) (vendorPos : Nat) (custom : Bool)
  /-- A function: its name in small letters without the vendor's mark,
  that mark, and whether it is a `progid:` filter. -/
  | function (name : String) (vendor : Option String) (filter : Bool)
  /-- An address, and the function it was written with. -/
  | uri (address : String) (name : String)
  /-- An at-keyword: its name in small letters without the vendor's
  mark, and that mark. -/
  | at (name : String) (vendor : Option String)
  /-- The unescaped name after a `#`. -/
  | hash (name : String)
  /-- The unescaped text between quotes. -/
  | string (value : String)
  /-- A number: its value, its unit in small letters (`%` for
  percentages, empty for none), and whether it is a plain integer. -/
  | number (value : Binary64) (unit : String) (isInt : Bool)
  /-- The name of a placeholder. -/
  | uvar (name : String)
  /-- A star, and whether a name follows it directly. -/
  | star (hack : Bool)
  deriving DecidableEq, Repr

/-- **A token of a stylesheet.** -/
structure Token where
  /-- Its kind. -/
  kind : TokenKind
  /-- What the kind says about it. -/
  payload : Payload
  /-- Its text in the source. -/
  text : String
  /-- Where it starts. -/
  location : Location
  /-- The place right after it. -/
  stop : Location
  deriving DecidableEq, Repr

namespace Token

/-- Whether this is the end of the source. -/
def isEof (t : Token) : Bool := t.kind == .eof

/-- The text in small letters. -/
def lower (t : Token) : String := Text.lower t.text

/-- Whether this is a name that belongs to a keyword set. -/
def isKeyword (t : Token) (set : Keywords) : Bool := t.kind == .ident && set.has t.text

/-- **The name** of an identifier, function, at-keyword, hash or
placeholder, the value of a string, and the text of anything else. -/
def name (t : Token) : String :=
  match t.payload with
  | .ident name _ _ | .function name _ _ | .uri _ name | .at name _ | .hash name
  | .uvar name => name
  | .string value => value
  | _ => t.text

/-- The vendor's mark of a function or an at-keyword. -/
def vendor (t : Token) : Option String :=
  match t.payload with
  | .function _ vendor _ | .at _ vendor => vendor
  | _ => none

/-- The value of a number. -/
def number (t : Token) : Option Binary64 :=
  match t.payload with
  | .number value _ _ => some value
  | _ => none

/-- The unit of a number, empty for anything else. -/
def unit (t : Token) : String :=
  match t.payload with
  | .number _ unit _ => unit
  | _ => ""

/-- A number without unit, fraction and exponent. -/
def isInt (t : Token) : Bool :=
  match t.payload with
  | .number _ _ isInt => isInt
  | _ => false

/-- A zero without unit. -/
def isZero (t : Token) : Bool :=
  match t.payload with
  | .number value unit _ => unit.isEmpty && value.isZero
  | _ => false

/-- A name that begins with two dashes. -/
def isCustomIdent (t : Token) : Bool :=
  match t.payload with
  | .ident _ _ custom => custom
  | _ => false

/-- Where a name goes on after a vendor's mark, 0 without one. -/
def vendorPos (t : Token) : Nat :=
  match t.payload with
  | .ident _ vendorPos _ => vendorPos
  | _ => 0

/-- A `progid:` filter function. -/
def isFilterFunction (t : Token) : Bool :=
  match t.payload with
  | .function _ _ filter => filter
  | _ => false

/-- A star with a name directly after it. -/
def hasStarHack (t : Token) : Bool :=
  match t.payload with
  | .star hack => hack
  | _ => false

instance : Shift Token where
  shift δ t := { t with location := shift δ t.location, stop := shift δ t.stop }

/-- **The complaint about a token** that is not what was expected; with
an empty expectation the token is merely unexpected. -/
def unexpected (expected : String) (t : Token) : Diagnostic :=
  let found := "\"" ++ Text.clip t.text 30 ++ "\"."
  .at_ (if expected.isEmpty then "Unexpected " ++ found
        else "Expected " ++ expected ++ " but found " ++ found) t.location

end Token

end Stylesheet
