/-!
# Terms of the value definition language

What a property takes is written in a small language. Its terms are
words, references to types in angle brackets and functions; they are
combined by writing them one after another (in this order), with `&&`
(all, in any order), with `||` (at least one, in any order) and with `|`
(exactly one); and a term can be repeated.
-/

namespace Stylesheet.Grammar

/-- **The marks of repetition** that a term can carry. -/
inductive Marker where
  /-- Written `?`: at most once. -/
  | optional
  /-- Written `*`: any number of times. -/
  | star
  /-- Written `+`: at least once. -/
  | plus
  /-- Written `#`: at least once, with commas between. -/
  | hash
  deriving DecidableEq, Repr

/-- A mark as it is written. -/
def Marker.char : Marker → Char
  | .optional => '?'
  | .star => '*'
  | .plus => '+'
  | .hash => '#'

/-- **How often a term is repeated.** -/
structure Multiplier where
  /-- The least number of times. -/
  min : Nat
  /-- The greatest number of times, if there is one. -/
  max : Option Nat
  /-- The mark it was written with. -/
  marker : Option Marker
  /-- Whether commas stand between the repetitions. -/
  comma : Bool
  deriving DecidableEq, Repr

/-- The greatest number that can be written in a multiplier; as an upper
bound it is no bound. -/
def Multiplier.unbounded : Nat := Nat.pow 2 64 - 1

/-- The multiplier of a mark that stands alone. -/
def Multiplier.ofMarker : Marker → Multiplier
  | .optional => ⟨0, some 1, some .optional, false⟩
  | .star => ⟨0, none, some .star, false⟩
  | .plus => ⟨1, none, some .plus, false⟩
  | .hash => ⟨1, none, some .hash, true⟩

/-- **A term.** -/
inductive Term where
  /-- Words with bars between them, or any literal text, in small
  letters. -/
  | words (text : String)
  /-- A reference to a type, with its angle brackets. -/
  | reference (name : String)
  /-- A function; without a body it takes any arguments. -/
  | function (name : String) (body : Option Term)
  /-- Written `a | b`: exactly one. -/
  | oneOf (members : List Term)
  /-- Written `a || b`: at least one, in any order. -/
  | someOf (members : List Term)
  /-- Written `a && b`: all, in any order. -/
  | allOf (members : List Term)
  /-- Written `a b`: all, in this order. -/
  | sequence (members : List Term)
  /-- A repeated term. -/
  | repeated (term : Term) (multiplier : Multiplier)
  /-- A block in square brackets whose inside is described by the term. -/
  | bracketed (term : Term)
  deriving Repr

/-- Several terms under a combinator; a single one needs none. -/
def Term.combine (wrap : List Term → Term) : List Term → Term
  | [term] => term
  | members => wrap members

end Stylesheet.Grammar
