import Stylesheet.Token.Nth
import Stylesheet.Value

/-!
# Selectors

A selector is a list of **compounds** with combinators between them. A
compound is an element name with an optional namespace, followed by
modifiers: ids, classes, attribute tests, pseudo-classes and
pseudo-elements, and the nesting mark `&`. The argument of a
pseudo-class can hold selectors again.

The types of the pieces take the type of those inner selectors as a
parameter; `Selector` ties them together.
-/

namespace Stylesheet

/-- **How two compounds are related.** -/
inductive CombinatorKind where
  /-- Inside of it, written as a blank. -/
  | descendant
  /-- Right inside of it, written `>`. -/
  | child
  /-- Right after it, written `+`. -/
  | adjacentSibling
  /-- Somewhere after it, written `~`. -/
  | sibling
  /-- In the column of it, written `||`. -/
  | column
  deriving DecidableEq, Repr

namespace CombinatorKind

/-- The name of a relation in reports. -/
def label : CombinatorKind → String
  | .descendant => "Descendant"
  | .child => "Child"
  | .adjacentSibling => "AdjacentSibling"
  | .sibling => "Sibling"
  | .column => "Column"

/-- The relation a text stands for. -/
def ofText : String → CombinatorKind
  | ">" => .child
  | "+" => .adjacentSibling
  | "~" => .sibling
  | "||" => .column
  | _ => .descendant

end CombinatorKind

/-- **A combinator.** -/
structure Combinator where
  /-- The relation. -/
  kind : CombinatorKind
  /-- Its text. -/
  text : String
  /-- Where it starts. -/
  location : Location
  deriving DecidableEq, Repr

/-- **A test of an attribute.** -/
structure AttributeTest where
  /-- The namespace; empty for none, `*` for any. -/
  ns : Option String
  /-- The name. -/
  name : String
  /-- How the value is compared. -/
  op : Option String
  /-- The value. -/
  value : Option String
  /-- The letter that sets how case is compared. -/
  flag : Option String
  deriving DecidableEq, Repr

/-- **The argument of a pseudo-class.** -/
inductive PseudoArgs (Inner : Type) where
  /-- A list of selectors. -/
  | selectors (list : List Inner)
  /-- A count, and the selectors it counts among. -/
  | nth (count : Nth) (among : List Inner)
  /-- Anything else. -/
  | value (value : Option Value)
  deriving Repr

/-- **What a modifier asks for.** -/
inductive ModifierKind (Inner : Type) where
  /-- The selector of the rule around, written `&`. -/
  | amp
  /-- An id, written `#name`. -/
  | id
  /-- A class, written `.name`. -/
  | className
  /-- A test of an attribute, written `[name]` or longer. -/
  | attribute (test : AttributeTest)
  /-- A pseudo-class or pseudo-element, written `:name`, `::name` or
  `:name(…)`: the name in small letters, the number of colons, and the
  argument. -/
  | pseudo (name : String) (colons : Nat) (args : Option (PseudoArgs Inner))
  deriving Repr

/-- **A modifier of a compound.** -/
structure Modifier (Inner : Type) where
  /-- What it asks for. -/
  kind : ModifierKind Inner
  /-- Its text. -/
  text : String
  /-- Where it starts. -/
  location : Location
  deriving Repr

/-- **An element name with its modifiers.** -/
structure Compound (Inner : Type) where
  /-- The namespace; empty for none, `*` for any. -/
  ns : Option String
  /-- The element name. -/
  elementName : Option String
  /-- The modifiers in order. -/
  modifiers : List (Modifier Inner)
  /-- Its text. -/
  text : String
  /-- Where it starts. -/
  location : Location
  deriving Repr

/-- **A piece of a selector.** -/
inductive SelectorItem (Inner : Type) where
  /-- A compound. -/
  | compound (compound : Compound Inner)
  /-- A combinator. -/
  | combinator (combinator : Combinator)
  deriving Repr

/-- **A selector.** -/
structure Selector where
  /-- Its pieces in order. -/
  items : List (SelectorItem Selector)
  /-- Its text. -/
  text : String
  /-- Where it starts. -/
  location : Location
  /-- The place after it. -/
  stop : Location
  deriving Repr

/-- The pseudo-elements that can be written with one colon. -/
def singleColonElements : List String := ["before", "after", "first-line", "first-letter"]

/-- Whether a modifier names a pseudo-element: with two colons, or one of
the four that can do with one and take no argument. -/
def Modifier.isPseudoElement {Inner : Type} (m : Modifier Inner) : Bool :=
  match m.kind with
  | .pseudo name colons args =>
    colons == 2 || (args.isNone && singleColonElements.contains name)
  | _ => false

/-- Where a piece of a selector starts. -/
def SelectorItem.location {Inner : Type} : SelectorItem Inner → Location
  | .compound c => c.location
  | .combinator c => c.location

namespace Selector

/-- The compounds of a selector. -/
def compounds (s : Selector) : List (Compound Selector) :=
  s.items.filterMap fun
    | .compound c => some c
    | .combinator _ => none

/-- Whether a selector starts with a combinator. -/
def isRelative (s : Selector) : Bool :=
  match s.items with
  | .combinator _ :: _ => true
  | _ => false

/-! ## Moving -/

mutual
/-- A selector moved by a distance. -/
def move (δ : Delta) : Selector → Selector
  | ⟨items, text, location, stop⟩ =>
    ⟨moveItems δ items, text, shift δ location, shift δ stop⟩

/-- Pieces moved by a distance. -/
def moveItems (δ : Delta) : List (SelectorItem Selector) → List (SelectorItem Selector)
  | [] => []
  | item :: items => moveItem δ item :: moveItems δ items

/-- A piece moved by a distance. -/
def moveItem (δ : Delta) : SelectorItem Selector → SelectorItem Selector
  | .compound c => .compound (moveCompound δ c)
  | .combinator ⟨kind, text, location⟩ => .combinator ⟨kind, text, shift δ location⟩

/-- A compound moved by a distance. -/
def moveCompound (δ : Delta) : Compound Selector → Compound Selector
  | ⟨ns, elementName, modifiers, text, location⟩ =>
    ⟨ns, elementName, moveModifiers δ modifiers, text, shift δ location⟩

/-- Modifiers moved by a distance. -/
def moveModifiers (δ : Delta) : List (Modifier Selector) → List (Modifier Selector)
  | [] => []
  | m :: ms => moveModifier δ m :: moveModifiers δ ms

/-- A modifier moved by a distance. -/
def moveModifier (δ : Delta) : Modifier Selector → Modifier Selector
  | ⟨kind, text, location⟩ => ⟨moveKind δ kind, text, shift δ location⟩

/-- What a modifier asks for, moved by a distance. -/
def moveKind (δ : Delta) : ModifierKind Selector → ModifierKind Selector
  | .amp => .amp
  | .id => .id
  | .className => .className
  | .attribute test => .attribute test
  | .pseudo name colons args => .pseudo name colons (moveArgs? δ args)

/-- An argument that may be missing, moved by a distance. -/
def moveArgs? (δ : Delta) : Option (PseudoArgs Selector) → Option (PseudoArgs Selector)
  | none => none
  | some args => some (moveArgs δ args)

/-- An argument moved by a distance. -/
def moveArgs (δ : Delta) : PseudoArgs Selector → PseudoArgs Selector
  | .selectors list => .selectors (moveAll δ list)
  | .nth count among => .nth count (moveAll δ among)
  | .value v => .value (shift δ v)

/-- Selectors moved by a distance. -/
def moveAll (δ : Delta) : List Selector → List Selector
  | [] => []
  | s :: ss => move δ s :: moveAll δ ss
end

instance : Shift Selector where
  shift := move

/-! ## The nesting mark -/

mutual
/-- **Whether a selector uses `&`**, also inside arguments. -/
def usesAmp : Selector → Bool
  | ⟨items, _, _, _⟩ => ampInItems items

/-- Whether some piece uses `&`. -/
def ampInItems : List (SelectorItem Selector) → Bool
  | [] => false
  | item :: items => ampInItem item || ampInItems items

/-- Whether a piece uses `&`. -/
def ampInItem : SelectorItem Selector → Bool
  | .compound c => ampInCompound c
  | .combinator _ => false

/-- Whether a compound uses `&`. -/
def ampInCompound : Compound Selector → Bool
  | ⟨_, _, modifiers, _, _⟩ => ampInModifiers modifiers

/-- Whether some modifier uses `&`. -/
def ampInModifiers : List (Modifier Selector) → Bool
  | [] => false
  | m :: ms => ampInModifier m || ampInModifiers ms

/-- Whether a modifier uses `&`. -/
def ampInModifier : Modifier Selector → Bool
  | ⟨kind, _, _⟩ => ampInKind kind

/-- Whether what a modifier asks for uses `&`. -/
def ampInKind : ModifierKind Selector → Bool
  | .amp => true
  | .pseudo _ _ args => ampInArgs? args
  | _ => false

/-- Whether an argument that may be missing uses `&`. -/
def ampInArgs? : Option (PseudoArgs Selector) → Bool
  | none => false
  | some args => ampInArgs args

/-- Whether an argument uses `&`. -/
def ampInArgs : PseudoArgs Selector → Bool
  | .selectors list => ampInAny list
  | .nth _ among => ampInAny among
  | .value _ => false

/-- Whether some selector uses `&`. -/
def ampInAny : List Selector → Bool
  | [] => false
  | s :: ss => usesAmp s || ampInAny ss
end

end Selector

end Stylesheet
