import Stylesheet.Parse.Declaration
import Stylesheet.Parse.Media

/-!
# Reading conditions

The conditions of `@supports` and `@container` are tests in brackets,
joined by `and` or by `or` but never by both, or one test after `not`.
A test is a declaration, a function, or a condition again. The two
at-rules add tests of their own, at the outermost level only.
-/

namespace Stylesheet

/-- **Where a condition belongs**, which decides what it can test. -/
inductive ConditionKind where
  /-- Nowhere in particular. -/
  | plain
  /-- To `@supports`, or to `supports()` in an import: selectors can be
  tested. -/
  | supports
  /-- To `@container`: sizes and styles can be tested. -/
  | container
  deriving DecidableEq, Repr

namespace Parser

/-- The tokens a test can start with. -/
def conditionStart : List TokenKind := [.function, .ident, .lParen]

/-- The opening bracket that is part of the name of a function. -/
def openParen (t : Token) : Token := ⟨.lParen, .none, "(", t.location, t.stop⟩

/-- The bracket that closes a test. -/
def closeTest : Parser Unit := discard (mustMatchSmart [.rParen])

/-- **How a test in brackets is read**; its first token may have been
read already. -/
abbrev TestParser := ConditionKind → Option Token → Parser Unit

/-- One more test, and the word that joins the next one. -/
def joinedStep (test : TestParser) (kind : ConditionKind)
    (sofar : Option Token × Keywords × Bool) :
    Parser (ForInStep (Option Token × Keywords × Bool)) := do
  let (first, joiners, settled) := sofar
  test kind first
  match ← matchKeyword joiners with
  | none => return .done sofar
  | some word =>
    return .yield (none, if settled then joiners else joinersAfter word, true)

/-- **A condition**, given the reader of its tests. -/
def conditionWith (test : TestParser) (kind : ConditionKind) (first : Option Token) :
    Parser Unit := do
  let t ←
    match first with
    | some t => pure t
    | none => grab
  if t.isKeyword .not then test kind none
  else discard (repeating (some t, Keywords.andOr, false) (joinedStep test kind))

/-- **A test that only one at-rule has.** When the token starts one it is
read up to the bracket that closes it. -/
def ownTest (test : TestParser) (kind : ConditionKind) (t : Token) (bracket : Option Token) :
    Parser Bool := do
  match kind, bracket with
  | .supports, none =>
    unless t.kind == .function && t.name == "selector" do return false
    match ← selector none false with
    | none => failHere "a selector"
    | some s =>
      unget
      fire (.supportsSelector s) s.location
      return true
  | .container, some bracket =>
    unless t.kind == .ident do return false
    unget
    discard (mediaFeature (some bracket))
    unget
    return true
  | .container, none =>
    unless t.kind == .function && t.name == "style" do return false
    conditionWith test .plain (some (openParen t))
    unget
    return true
  | _, _ => return false

/-- A declaration in brackets, or a name alone or with an argument. -/
def nameTest (t : Token) : Parser Unit := do
  match ← matchSmart [.colon, .lParen] with
  | none => closeTest
  | some after =>
    if after.kind == .colon then
      discard (declaration { colon := some after, inParens := true } t)
    else
      discard (expr [.rParen] true)
      discard (mustReuse [.rParen])

/-- What stands in the brackets of a test. -/
def bracketTest (test : TestParser) (kind : ConditionKind) (bracket : Token) : Parser Unit := do
  match ← matchSmart conditionStart with
  | none => closeTest
  | some t =>
    if ← ownTest test kind t (some bracket) then closeTest
    else if t.kind != .ident then
      conditionWith test .plain (some t)
      closeTest
    else if t.isKeyword .not then
      test .plain none
      closeTest
    else nameTest t

/-- **Tests nested to a depth.** -/
def testTo : Nat → TestParser
  | 0 => fun _ _ => throw tooDeep
  | depth + 1 => fun kind first => do
    let t ←
      match first with
      | some t => pure t
      | none => mustMatchSmart conditionStart
    if ← ownTest (testTo depth) kind t none then closeTest
    else if t.kind == .function then discard (function t false)
    else if t.kind == .lParen then bracketTest (testTo depth) kind t
    else closeTest

/-- **A test in brackets**, closing bracket included. -/
def conditionInParens : TestParser := fun kind first => do testTo (← budget) kind first

/-- **A condition.** -/
def condition (kind : ConditionKind) : Parser Unit := do
  conditionWith (testTo (← budget)) kind none

end Parser

end Stylesheet
