import Stylesheet.Grammar.BasicType
import Stylesheet.Grammar.Term
import Stylesheet.Property.Definition

/-!
# Matchers

A matcher is a grammar made ready to be run: references are followed,
words with bars between them are sets, and alternatives that are all
words are one set. It can be written as a grammar again, with brackets
where the surroundings bind more tightly.
-/

namespace Stylesheet.Grammar

/-- **A grammar made ready to be run.** -/
inductive Matcher where
  /-- A set of words, and the text it is written as. -/
  | words (words : List String) (text : String)
  /-- A basic type. -/
  | basic (type : BasicType)
  /-- A function; without a body it takes any arguments. -/
  | function (name : String) (body : Option Matcher)
  /-- Any function of a group. -/
  | group (functions : FunctionGroup)
  /-- The first of some matchers that matches. -/
  | oneOf (members : List Matcher)
  /-- All of some matchers, in this order. -/
  | sequence (members : List Matcher)
  /-- Some matchers in any order. With a mark for each, those marked are
  required; without marks any of them will do. -/
  | anyOrder (members : List Matcher) (required : Option (List Bool))
  /-- A repeated matcher. The separator, if there is one, takes the
  place of the matcher from the second time on. -/
  | repeated (inner : Matcher) (multiplier : Multiplier) (separator : Option Matcher)
  /-- A matcher that is written by a name. -/
  | alias (name : String) (inner : Matcher)
  /-- A block in square brackets whose inside matches. -/
  | bracketed (inner : Matcher)
  deriving Repr

namespace Matcher

/-- Whether a matcher combines others and may take several parts. -/
def isCombinator : Matcher → Bool
  | .oneOf _ | .sequence _ | .anyOrder _ _ | .repeated _ _ _ | .alias _ _ => true
  | _ => false

/-- Whether a matcher was marked with `?`. -/
def isOptional : Matcher → Bool
  | .repeated _ m _ => m.marker == some .optional
  | _ => false

/-- Whether a matcher is a set of words. -/
def isWords : Matcher → Bool
  | .words _ _ => true
  | _ => false

/-- Whether the `i`-th member of a group in any order is required. -/
def isRequired (required : Option (List Bool)) (i : Nat) : Bool :=
  match required with
  | none => true
  | some marks => marks[i]?.getD true

/-! ## Writing matchers

Each combinator binds with a strength; a matcher stands in brackets when
what surrounds it binds more strongly. -/

/-- The strength of `|`. -/
def strengthOneOf : Nat := 1

/-- The strength of `||`. -/
def strengthSomeOf : Nat := 2

/-- The strength of `&&`. -/
def strengthAllOf : Nat := 3

/-- The strength of writing one after another. -/
def strengthSequence : Nat := 4

/-- The strength of a multiplier. -/
def strengthMultiplier : Nat := 5

/-- A text in brackets if need be. -/
def bracket (needed : Bool) (s : String) : String := if needed then "[ " ++ s ++ " ]" else s

/-- **A multiplier as it is written**: its mark, and its range where the
mark alone does not say it. -/
def writeMultiplier (m : Multiplier) : String :=
  let mark := (m.marker.map fun marker => String.singleton marker.char).getD ""
  let explicit :=
    match m.marker with
    | none => true
    | some .hash => !(m.min == 1 || m.max.isNone)
    | some _ => false
  let range :=
    if m.max.getD Multiplier.unbounded == m.min then "\x7b" ++ toString m.min ++ "\x7d"
    else
      match m.max with
      | none => "\x7b" ++ toString m.min ++ ",\x7d"
      | some n => "\x7b" ++ toString m.min ++ "," ++ toString n ++ "\x7d"
  if explicit then mark ++ range else mark

mutual
/-- **A matcher as a grammar**, in surroundings that bind with a
strength. -/
def write (strength : Nat) : Matcher → String
  | .words _ text => bracket (strength > strengthOneOf && text.toList.contains ' ') text
  | .basic type => type.name
  | .function name body => writeFunction name body
  | .group functions =>
    bracket (strength > strengthOneOf)
      (" | ".intercalate (functions.functions.map fun entry => entry.1 ++ "()"))
  | .oneOf members =>
    bracket (strength > strengthOneOf) (" | ".intercalate (writeAll strengthOneOf members))
  | .sequence members =>
    bracket (strength > strengthSequence) (" ".intercalate (writeAll strengthSequence members))
  | .anyOrder members required =>
    match required with
    | none =>
      bracket (strength > strengthSomeOf) (" || ".intercalate (writeAll strengthSomeOf members))
    | some marks =>
      bracket (strength > strengthAllOf) (" && ".intercalate (writeMarked members marks))
  | .repeated inner m _ => write strengthMultiplier inner ++ writeMultiplier m
  | .alias name _ => name
  | .bracketed inner => "\"[\" " ++ write strengthSequence inner ++ " \"]\""

/-- A function as a grammar. -/
def writeFunction (name : String) : Option Matcher → String
  | none => name ++ "()"
  | some body => name ++ "( " ++ write 0 body ++ " )"

/-- Several matchers as grammars. -/
def writeAll (strength : Nat) : List Matcher → List String
  | [] => []
  | m :: ms => write strength m :: writeAll strength ms

/-- The members of an `&&` group; those not required carry a `?`. -/
def writeMarked : List Matcher → List Bool → List String
  | [], _ => []
  | m :: ms, marks =>
    (if marks.headD true then write strengthAllOf m
     else
       let s := write strengthMultiplier m
       if s.toList.getLast? == some '?' then s else s ++ "?") :: writeMarked ms (marks.drop 1)
end

/-- A matcher as a grammar on its own. -/
def display (m : Matcher) : String := m.write 0

end Matcher

end Stylesheet.Grammar
