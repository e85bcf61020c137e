import Stylesheet.Value

/-!
# Media queries

A media query names a medium and the features it should have, such as
`only screen and (color)`.
-/

namespace Stylesheet

/-- **A feature in brackets.** -/
structure MediaFeature where
  /-- Its name, or the number a range starts with. -/
  name : Token
  /-- What stands after the name. -/
  expr : Option Value
  /-- Its text. -/
  text : String
  /-- Where it starts. -/
  location : Location
  /-- The place after it. -/
  stop : Location
  deriving Repr

/-- **A media query.** -/
structure MediaQuery where
  /-- The word `only` or `not`. -/
  modifier : Option String
  /-- The medium. -/
  mediaType : Option String
  /-- The features in order. -/
  features : List MediaFeature
  /-- Its text. -/
  text : String
  /-- Where it starts. -/
  location : Location
  deriving Repr

instance : Shift MediaFeature where
  shift δ f :=
    { f with
      name := shift δ f.name
      expr := shift δ f.expr
      location := shift δ f.location
      stop := shift δ f.stop }

instance : Shift MediaQuery where
  shift δ q := { q with features := shift δ q.features, location := shift δ q.location }

end Stylesheet
