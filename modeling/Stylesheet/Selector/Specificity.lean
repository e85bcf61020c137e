import Stylesheet.Selector.Basic

/-!
# Specificity

How much a selector weighs against others: ids first, then classes,
attribute tests and pseudo-classes, then element names and
pseudo-elements. `:is()`, `:not()` and `:has()` weigh as much as the
heaviest of their selectors, a count weighs one class more than the
heaviest it counts among, and `:where()` weighs nothing.
-/

namespace Stylesheet

/-- **The weight of a selector.** -/
structure Specificity where
  /-- The style attribute; no selector has it. -/
  inline : Nat
  /-- Ids. -/
  ids : Nat
  /-- Classes, attribute tests and pseudo-classes. -/
  classes : Nat
  /-- Element names and pseudo-elements. -/
  elements : Nat
  deriving DecidableEq, Repr

namespace Specificity

/-- No weight. -/
def zero : Specificity := ⟨0, 0, 0, 0⟩

/-- The weight of one id. -/
def id : Specificity := ⟨0, 1, 0, 0⟩

/-- The weight of one class. -/
def class_ : Specificity := ⟨0, 0, 1, 0⟩

/-- The weight of one element name. -/
def element : Specificity := ⟨0, 0, 0, 1⟩

/-- Two weights together. -/
def add (s t : Specificity) : Specificity :=
  ⟨s.inline + t.inline, s.ids + t.ids, s.classes + t.classes, s.elements + t.elements⟩

instance : Add Specificity := ⟨add⟩

/-- **Lighter or equally heavy**: the first place in which two weights
differ decides. -/
def le (s t : Specificity) : Bool :=
  s.inline < t.inline || (s.inline == t.inline &&
    (s.ids < t.ids || (s.ids == t.ids &&
      (s.classes < t.classes || (s.classes == t.classes && s.elements ≤ t.elements)))))

/-- The heavier of two weights. -/
def max (s t : Specificity) : Specificity := if s.le t then t else s

/-- The weight as one number. -/
def value (s : Specificity) : Nat :=
  s.inline * 1000 + s.ids * 100 + s.classes * 10 + s.elements

/-- The weight as reports write it. -/
def display (s : Specificity) : String :=
  ",".intercalate ([s.inline, s.ids, s.classes, s.elements].map toString)

end Specificity

namespace Selector

/-- The weight of an element name; the universal one has none. -/
def elementWeight (name : Option String) : Specificity :=
  match name with
  | some name => if Text.endsWith name "*" then .zero else .element
  | none => .zero

/-- The pseudo-class that weighs nothing, whatever it holds. -/
def weightless : String := "where"

mutual
/-- **The weight of a selector.** -/
def specificity : Selector → Specificity
  | ⟨items, _, _, _⟩ => itemsWeight items

/-- The weight of pieces of a selector. -/
def itemsWeight : List (SelectorItem Selector) → Specificity
  | [] => .zero
  | item :: items => itemWeight item + itemsWeight items

/-- The weight of a piece of a selector. -/
def itemWeight : SelectorItem Selector → Specificity
  | .compound c => compoundWeight c
  | .combinator _ => .zero

/-- The weight of a compound. -/
def compoundWeight : Compound Selector → Specificity
  | ⟨_, elementName, modifiers, _, _⟩ => elementWeight elementName + modifiersWeight modifiers

/-- The weight of modifiers. -/
def modifiersWeight : List (Modifier Selector) → Specificity
  | [] => .zero
  | m :: ms => modifierWeight m + modifiersWeight ms

/-- The weight of a modifier. -/
def modifierWeight : Modifier Selector → Specificity
  | ⟨kind, _, _⟩ => kindWeight kind

/-- The weight of what a modifier asks for. -/
def kindWeight : ModifierKind Selector → Specificity
  | .amp => .zero
  | .id => .id
  | .className => .class_
  | .attribute _ => .class_
  | .pseudo name colons args => if name == weightless then .zero else argsWeight? name colons args

/-- The weight of a pseudo-class or pseudo-element by its argument. -/
def argsWeight? (name : String) (colons : Nat) : Option (PseudoArgs Selector) → Specificity
  | none => if colons == 2 || singleColonElements.contains name then .element else .class_
  | some args => argsWeight colons args

/-- The weight of an argument. -/
def argsWeight (colons : Nat) : PseudoArgs Selector → Specificity
  | .selectors list => heaviest list
  | .nth _ among => .class_ + heaviest among
  | .value _ => if colons == 2 then .element else .class_

/-- The weight of the heaviest selector of a list. -/
def heaviest : List Selector → Specificity
  | [] => .zero
  | s :: ss => (specificity s).max (heaviest ss)
end

end Selector

end Stylesheet
