import Stylesheet.Token.Lexeme
import Stylesheet.Value

/-!
# Declarations

A declaration gives a property a value. The name may carry a mark in
front that only some old browsers read past, a star or an underscore;
the mark is kept beside the name and is no part of it.
-/

namespace Stylesheet

/-- **The name of a declared property.** -/
structure PropertyName where
  /-- The name as written, without the mark in front. -/
  text : String
  /-- The mark in front, a star or an underscore. -/
  hack : Option Char
  /-- Where it starts, the mark included. -/
  location : Location
  /-- The byte offset of what follows a vendor's mark, 0 without one. -/
  vendorPos : Nat
  deriving DecidableEq, Repr

namespace PropertyName

/-- A name without a mark in front; the vendor's mark is found in the
text. -/
def ofText (text : String) (location : Location) : PropertyName :=
  ⟨text, none, location, Lexeme.atVendorEnd text.toList⟩

/-- Whether the name begins with two dashes. -/
def isCustom (name : PropertyName) : Bool := Text.startsWith name.text "--"

/-- The name with the mark in front. -/
def display (name : PropertyName) : String :=
  match name.hack with
  | some hack => String.singleton hack ++ name.text
  | none => name.text

instance : Shift PropertyName where
  shift δ name := { name with location := shift δ name.location }

end PropertyName

/-- **A declaration.** -/
structure Declaration where
  /-- The property. -/
  property : PropertyName
  /-- Its value. -/
  value : Value
  /-- Whether it is marked as important. -/
  important : Bool
  /-- Whether it stands in brackets, as part of a condition. -/
  inParens : Bool
  /-- The at-rule whose descriptors it was checked against. -/
  scope : Option String
  /-- What is wrong with the value. -/
  invalid : Option Diagnostic
  deriving Repr

instance : Shift Declaration where
  shift δ d :=
    { d with
      property := shift δ d.property
      value := shift δ d.value
      invalid := shift δ d.invalid }

end Stylesheet
