/-!
# Definitions of properties

What a property takes is defined by a grammar in the value definition
syntax, a small language of its own that `Stylesheet.Grammar` reads.
Beside the usual references in angle brackets the tables use

* numeric types with a range, such as `<len0+>` and `<num0-1>`, and
* `<fn:group>`, any function of a group.
-/

namespace Stylesheet

/-- **How the value of a property is checked.** -/
inductive Definition where
  /-- Against a grammar. -/
  | grammar (text : String)
  /-- Not at all. -/
  | any
  deriving DecidableEq, Repr

/-- The grammar of a definition that has one. -/
def Definition.grammar? : Definition → Option String
  | .grammar text => some text
  | .any => none

/-- **An at-rule with descriptors of its own.** -/
structure Scope where
  /-- The name of the at-rule. -/
  name : String
  /-- Whether all properties are allowed beside the descriptors. -/
  allProperties : Bool
  /-- The descriptors. -/
  descriptors : List (String × Definition)
  deriving Repr

/-- The definition of a descriptor. -/
def Scope.descriptor? (scope : Scope) (name : String) : Option Definition :=
  scope.descriptors.lookup name

/-- **Functions that a grammar can ask for together.** -/
structure FunctionGroup where
  /-- The name of the group. -/
  name : String
  /-- The functions and the grammars of their arguments. -/
  functions : List (String × String)
  deriving Repr

end Stylesheet
