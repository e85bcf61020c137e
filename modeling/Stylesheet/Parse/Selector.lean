import Stylesheet.Parse.Value

/-!
# Reading selectors

Blanks mean something in a selector, so its tokens are read with them.
Every reader here looks one token too far: when it is done, the token
after what it read is the one handed out last.
-/

namespace Stylesheet

/-- The tokens a compound can start with. -/
def selectorStart : List TokenKind :=
  [.amp, .pipe, .ident, .star, .hash, .dot, .lBracket, .colon]

/-- The tokens that are combinators. -/
def combinatorKinds : List TokenKind := [.plus, .gt, .combinator]

/-- Whether a token can start a rule inside a rule. -/
def startsNestedSelector (kind : TokenKind) : Bool :=
  selectorStart.contains kind || combinatorKinds.contains kind

namespace Parser

/-- The pseudo-classes whose argument is a list of selectors. -/
def selectorFunctions : List String := ["not", "is", "where", "any", "has"]

/-- The pseudo-classes whose argument is a count. -/
def countFunctions : List String := ["nth-child", "nth-last-child"]

/-- The pseudo-classes in whose lists empty items are let through. -/
def laxFunctions : List String := ["is", "where", "any"]

/-- **How a list of selectors is read**: its first token if that was
read already, whether selectors may start with a combinator, and whether
empty items are let through. -/
abbrev GroupParser := Option Token → Bool → Bool → Parser (Option (List Selector))

/-- A token as a combinator. -/
def combinatorOf (t : Token) : Combinator := ⟨.ofText t.text, t.text, t.location⟩

/-! ## Modifiers -/

/-- **An attribute test as far as its first name is read.** -/
structure AttributeHead where
  /-- The namespace. -/
  ns : Option String
  /-- The name, when it has been read. -/
  name : Option String
  /-- The comparison, when it has been read. -/
  op : Option String
  /-- The closing bracket, when it has been read. -/
  close : Option Token

/-- The start of an attribute test after its first token. -/
def attributeHead (t : Token) : Parser AttributeHead := do
  match t.kind with
  | .pipe => return ⟨some "", none, none, none⟩
  | .star =>
    discard (mustMatch [.pipe])
    return ⟨some "*", none, none, none⟩
  | _ =>
    let after ← next false true
    match after.kind with
    | .pipe => return ⟨some t.text, none, none, none⟩
    | .attrEq | .equals => return ⟨none, some t.text, some after.text, none⟩
    | .whitespace => return ⟨none, some t.text, none, none⟩
    | .rBracket => return ⟨none, some t.text, none, some after⟩
    | _ => failAt "\"]\"" after

/-- The comparison of an attribute test, or its end. -/
def attributeOp (head : AttributeHead) : Parser AttributeHead := do
  if head.op.isNone && head.close.isNone then
    let t ← mustMatchSmart [.attrEq, .equals, .rBracket]
    if t.kind == .rBracket then return { head with close := some t }
    else return { head with op := some t.text }
  else return head

/-- The value of an attribute test, the letter after it, and its end if
that comes next. -/
def attributeValue : Parser (String × Option String × Option Token) := do
  let value ← mustMatchSmart [.ident, .string]
  let t ← grab
  if t.kind == .rBracket then return (value.text, none, some t)
  else if t.isKeyword .attrFlags then return (value.text, some t.lower, none)
  else failAt Keywords.attrFlags.describe t

/-- **An attribute test** after its opening bracket. -/
def attributeTest (start : Token) : Parser (Modifier Selector) := do
  let first ← mustMatchSmart [.pipe, .ident, .star]
  update fun s => { s with pair := some .rBracket }
  let head ← attributeHead first
  let name ←
    match head.name with
    | some name => pure name
    | none => pure (← mustMatch [.ident]).text
  let head ← attributeOp head
  let (value, flag, close) ←
    if head.op.isSome then
      let (value, flag, close) ← attributeValue
      pure (some value, flag, close)
    else pure (none, none, head.close)
  let close ←
    match close with
    | some t => pure t
    | none => mustMatchSmart [.rBracket]
  update fun s => { s with pair := none }
  return ⟨.attribute ⟨head.ns, name, head.op, value, flag⟩,
    ← slice start.location.offset close.stop.offset, start.location⟩

/-- The list of selectors in an argument. -/
def selectorArgs (group : GroupParser) (name : String) : Parser (List Selector) := do
  match ← group none (name == "has") (laxFunctions.contains name) with
  | none => failHere "a selector"
  | some list =>
    discard (mustReuse [.rParen])
    return list

/-- A count in an argument, and the selectors it counts among. -/
def countArgs (group : GroupParser) (name : String) : Parser (PseudoArgs Selector) := do
  let count ← ask (·.readNth)
  let first ← next false true
  let t ← if first.kind == .whitespace then grab else pure first
  match count with
  | some count =>
    if t.isKeyword .of then return .nth count (← selectorArgs group name)
    else if t.kind == .rParen then return .nth count []
    else failAt "" first
  | none => if t.kind == .rParen then return .value none else failAt "" first

/-- **The argument of a pseudo-class** up to and including the closing
bracket. -/
def pseudoArgs (group : GroupParser) (name : String) : Parser (PseudoArgs Selector) := do
  if countFunctions.contains name then countArgs group name
  else if selectorFunctions.contains name then return .selectors (← selectorArgs group name)
  else
    let value ← expr [.rParen] true
    let close ← current
    unless close.kind == .rParen do failAt TokenKind.rParen.describe close
    return .value value

/-- **A pseudo-class or pseudo-element** after its first colon. -/
def pseudo (group : GroupParser) (colon : Token) : Parser (Modifier Selector) := do
  let colons := if (← matchKinds [.colon]).isSome then 2 else 1
  let t ← mustMatch [.function, .ident]
  let (name, args) ←
    if t.kind == .ident then pure (t.lower, none)
    else
      update fun s => { s with pair := some .rParen }
      let args ← pseudoArgs group t.name
      update fun s => { s with pair := none }
      pure (t.name, some args)
  return ⟨.pseudo name colons args,
    ← slice colon.location.offset (← current).stop.offset, colon.location⟩

/-- A modifier that a token starts, and the place after it; `none` when
the token starts none. -/
def modifier? (group : GroupParser) (t : Token) :
    Parser (Option (Modifier Selector × Location)) := do
  match t.kind with
  | .amp => return some (⟨.amp, t.text, t.location⟩, t.stop)
  | .hash => return some (⟨.id, t.text, t.location⟩, t.stop)
  | .dot =>
    let name ← mustMatch [.ident]
    return some (⟨.className, "." ++ name.text, t.location⟩, (← current).stop)
  | .lBracket =>
    let m ← attributeTest t
    return some (m, (← current).stop)
  | .colon =>
    let m ← pseudo group t
    return some (m, (← current).stop)
  | _ => return none

/-! ## Compounds -/

/-- **A compound as far as it is read**: its modifiers, the latest first,
and the place after it. -/
structure CompoundSoFar where
  /-- The modifiers. -/
  modifiers : List (Modifier Selector)
  /-- The place after what is read. -/
  stop : Location
  /-- A token that was read too far. -/
  pending : Option Token

/-- One more `&` before the element name; the token after it is read. -/
def ampStep (sofar : CompoundSoFar × Token) : Parser (ForInStep (CompoundSoFar × Token)) := do
  let (c, t) := sofar
  if t.kind == .amp then
    let c := { c with modifiers := ⟨.amp, t.text, t.location⟩ :: c.modifiers, stop := t.stop }
    return .yield (c, ← next false true)
  else return .done (c, t)

/-- One more modifier. -/
def modifierStep (group : GroupParser) (c : CompoundSoFar) : Parser (ForInStep CompoundSoFar) := do
  let t ←
    match c.pending with
    | some t => pure t
    | none => next false true
  match ← modifier? group t with
  | some (m, stop) => return .yield ⟨m :: c.modifiers, stop, none⟩
  | none => return .done { c with pending := none }

/-- **The element name of a compound**, as far as it is read. -/
structure ElementName where
  /-- The namespace. -/
  ns : Option String
  /-- The name. -/
  name : Option String
  /-- The place after it. -/
  stop : Location
  /-- A token that was read too far. -/
  pending : Option Token

/-- An element name after a namespace; without one there is no compound,
and the bar is taken back unless the compound starts with it. -/
def nameInNamespace (ns : String) (t : Token) : Parser (Option ElementName) := do
  match ← matchKinds [.ident, .star] with
  | some name => return some ⟨some ns, some name.text, name.stop, none⟩
  | none =>
    unless t.kind == .pipe do unget
    return none

/-- The namespace and element name that a token starts, if it starts
any. -/
def elementName (t : Token) (stop : Location) : Parser (Option ElementName) := do
  if t.kind == .pipe then nameInNamespace "" t
  else if t.kind == .star || t.kind == .ident then
    let after ← next false true
    if after.kind == .pipe then nameInNamespace t.text t
    else return some ⟨none, some t.text, t.stop, some after⟩
  else return some ⟨none, none, stop, some t⟩

/-- **A compound**, and the place after it. The token may be one that was
read already; without a compound nothing more is read. -/
def compound (group : GroupParser) (start : Option Token) :
    Parser (Option (Compound Selector × Location)) := do
  let start ←
    match start with
    | some t => pure t
    | none => grab
  if start.isCustomIdent || !selectorStart.contains start.kind then return none
  let (sofar, t) ← repeating (⟨[], start.stop, none⟩, start) ampStep
  match ← elementName t sofar.stop with
  | none => return none
  | some element =>
    let sofar ← repeating ⟨sofar.modifiers, element.stop, element.pending⟩ (modifierStep group)
    let c : Compound Selector :=
      { ns := element.ns
        elementName := element.name
        modifiers := sofar.modifiers.reverse
        text := ← slice start.location.offset sofar.stop.offset
        location := start.location }
    return some (c, sofar.stop)

/-! ## Selectors -/

/-- **A selector as far as it is read**: its pieces, the latest first,
and the place after it. -/
structure SelectorSoFar where
  /-- The pieces. -/
  items : List (SelectorItem Selector)
  /-- The place after what is read. -/
  stop : Location
  /-- A combinator that was read already. -/
  pending : Option Token

/-- A selector with one more combinator and compound. -/
def SelectorSoFar.push (sofar : SelectorSoFar) (comb : Combinator) (c : Compound Selector)
    (stop : Location) : SelectorSoFar :=
  ⟨.compound c :: .combinator comb :: sofar.items, stop, none⟩

/-- What follows a blank: a brace or nothing that belongs to the selector
ends it, a combinator makes the blank meaningless, and a compound makes
it a combinator. -/
def afterBlank (group : GroupParser) (blank : Token) (sofar : SelectorSoFar) :
    Parser (ForInStep SelectorSoFar) := do
  let t ← grab
  if t.kind == .lBrace then return .done sofar
  else if combinatorKinds.contains t.kind then
    match ← compound group none with
    | some (c, stop) => return .yield (sofar.push (combinatorOf t) c stop)
    | none => failHere ""
  else
    match ← compound group (some t) with
    | some (c, stop) =>
      return .yield (sofar.push ⟨.descendant, blank.text, blank.location⟩ c stop)
    | none => return .yield sofar

/-- One more combinator and compound. -/
def selectorStep (group : GroupParser) (sofar : SelectorSoFar) :
    Parser (ForInStep SelectorSoFar) := do
  let t ←
    match sofar.pending with
    | some t => pure t
    | none => current
  let sofar := { sofar with pending := none }
  if combinatorKinds.contains t.kind then
    match ← compound group none with
    | some (c, stop) => return .yield (sofar.push (combinatorOf t) c stop)
    | none => failHere ""
  else
    let t ← if t.kind == .uvar then next false true else pure t
    if t.kind == .whitespace then afterBlank group t sofar else return .done sofar

/-- **A selector**, given the reader of the lists inside it. -/
def selectorWith (group : GroupParser) (first : Option Token) (relative : Bool) :
    Parser (Option Selector) := do
  let t ←
    match first with
    | some t => if t.kind == .uvar then grab else pure t
    | none => grab
  let head ←
    if relative && combinatorKinds.contains t.kind then pure (some ⟨[], t.stop, some t⟩)
    else
      match ← compound group (some t) with
      | some (c, stop) => pure (some ⟨[.compound c], stop, none⟩)
      | none => pure none
  match head with
  | none => return none
  | some head =>
    let sofar ← repeating head (selectorStep group)
    return some
      { items := sofar.items.reverse
        text := ← slice t.location.offset sofar.stop.offset
        location := t.location
        stop := sofar.stop }

/-- **A list of selectors as far as it is read.** -/
structure GroupSoFar where
  /-- The selectors, the latest first. -/
  selectors : List Selector
  /-- The first token, if that was read already. -/
  first : Option Token
  /-- Whether a comma was read last. -/
  comma : Bool

/-- One more selector, and the comma after it. -/
def groupStep (group : GroupParser) (relative lax : Bool) (sofar : GroupSoFar) :
    Parser (ForInStep GroupSoFar) := do
  let selector ← selectorWith group sofar.first relative
  if selector.isNone && !lax then return .done { sofar with first := none }
  let selectors := selector.toList ++ sofar.selectors
  let t ← current
  let t ← if t.kind == .uvar then grab else pure t
  if t.kind == .comma then return .yield ⟨selectors, none, true⟩
  else return .done ⟨selectors, none, false⟩

/-- **Lists of selectors nested to a depth.** -/
def groupTo : Nat → GroupParser
  | 0 => fun _ _ _ => throw tooDeep
  | depth + 1 => fun first relative lax => do
    let sofar ← repeating ⟨[], first, false⟩ (groupStep (groupTo depth) relative lax)
    if sofar.comma then failHere ""
    return if sofar.selectors.isEmpty then none else some sofar.selectors.reverse

/-- **A list of selectors** with commas between them. -/
def selectorGroup : GroupParser := fun first relative lax => do
  groupTo (← budget) first relative lax

/-- **A selector.** -/
def selector (first : Option Token) (relative : Bool) : Parser (Option Selector) := do
  selectorWith (groupTo (← budget)) first relative

end Parser

end Stylesheet
