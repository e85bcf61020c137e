import Stylesheet.Location

/-!
# Diagnostics

What is wrong with a stylesheet is said by a `Diagnostic`: which of two
families the problem belongs to, a message, and the place it was found,
when there is one. Problems of the token stream and of the rules'
structure are one family; a declaration whose value does not fit its
property is the other.
-/

namespace Stylesheet

/-- **The two families of problems.** -/
inductive Diagnostic.Kind where
  /-- An unexpected token, or a construct that is broken or not closed. -/
  | malformed
  /-- A declaration that its property does not allow. -/
  | unfit
  deriving DecidableEq, Repr

/-- The family's name in reports. -/
def Diagnostic.Kind.label : Diagnostic.Kind → String
  | .malformed => "Syntax"
  | .unfit => "Validation"

/-- **A problem found in a stylesheet.** -/
structure Diagnostic where
  /-- The family it belongs to. -/
  kind : Diagnostic.Kind
  /-- What is wrong. -/
  message : String
  /-- Where it was found. -/
  location : Option Location
  deriving DecidableEq, Repr

namespace Diagnostic

/-- A malformed construct, found nowhere in particular. -/
def bare (message : String) : Diagnostic := ⟨.malformed, message, none⟩

/-- A malformed construct at a place. -/
def at_ (message : String) (location : Location) : Diagnostic :=
  ⟨.malformed, message, some location⟩

/-- An unfit declaration at a place. -/
def unfitAt (message : String) (location : Location) : Diagnostic :=
  ⟨.unfit, message, some location⟩

/-- Whether the problem is with a declaration's value. -/
def isUnfit (d : Diagnostic) : Bool := d.kind == .unfit

/-- The message, followed by the place in brackets when there is one. -/
def display (d : Diagnostic) : String :=
  match d.location with
  | some loc => d.message ++ " at " ++ loc.bracketed
  | none => d.message

instance : Shift Diagnostic where
  shift δ d := { d with location := shift δ d.location }

end Diagnostic

end Stylesheet
