import Stylesheet.Parse.AtRule
import Stylesheet.Parse.Rule

/-!
# Reading blocks

A block is a run of declarations, rules and at-rules between braces. An
item that is broken is reported and passed over, unless the parse is
strict; if the same item comes up again after that, the whole block is
given up.
-/

namespace Stylesheet

namespace Parser

/-- **One item of a block** after its first token. The answer is whether
it is content. -/
def blockItem (block : BlockParser) (shape : BlockShape) (t : Token) : Parser Bool := do
  let inStyle := (← state).inStyle > 0
  if t.kind == .at then
    if shape.margins && Keywords.margins.has t.name then marginRule block t
    else atRule block t false
    return true
  let starred := (← options).starHack && t.kind == .star && t.hasStarHack
  let declared ←
    if inStyle && (t.kind == .ident || starred) then declaration { scope := shape.scope } t
    else pure false
  if declared then return true
  if shape.scope.isNone && !t.isCustomIdent && (!inStyle || startsNestedSelector t.kind) then
    return (← styleRule block t) == .parsed
  failAt "" t

/-- **A block as far as it is read.** -/
structure BlockSoFar where
  /-- Whether it has content. -/
  child : Bool
  /-- The offset and the kind of the token the last item started
  with. -/
  previous : Option (Nat × TokenKind)
  /-- The token that ends the block, once it is read. -/
  close : Option Token

/-- One item that starts with a token, with recovery when it is broken. -/
def blockItemStep (block : BlockParser) (shape : BlockShape) (sofar : BlockSoFar) (t : Token) :
    Parser (ForInStep BlockSoFar) := do
  let key := (t.location.offset, t.kind)
  if sofar.previous == some key then failAt "" t
  let sofar := { sofar with previous := some key }
  match ← attempt (blockItem block shape t) with
  | .ok content => return .yield { sofar with child := sofar.child || content }
  | .error e =>
    if (← options).strict then throw e
    recover e false
    return .yield sofar

/-- One more item of a block, which ends with a brace, or at the end of
the source if `toEnd`. -/
def blockStep (block : BlockParser) (shape : BlockShape) (toEnd : Bool) (sofar : BlockSoFar) :
    Parser (ForInStep BlockSoFar) := do
  let t ← next true false
  match t.kind with
  | .eof =>
    if toEnd then return .done { sofar with close := some t }
    else failAt TokenKind.rBrace.describe t
  | .semicolon => return .yield sofar
  | .uvar => return .yield { sofar with child := true }
  | kind =>
    if kind == .rBrace && !toEnd then return .done { sofar with close := some t }
    else blockItemStep block shape sofar t

/-- **The items of a block** up to and including what ends it. -/
def blockItems (block : BlockParser) (shape : BlockShape) (toEnd : Bool) : Parser BlockEnd := do
  let styles := if shape.declarations then 1 else 0
  update fun s => { s with depth := s.depth + 1, inStyle := s.inStyle + styles }
  let result ← attempt (repeating ⟨false, none, none⟩ (blockStep block shape toEnd))
  update fun s => { s with depth := s.depth - 1, inStyle := s.inStyle - styles }
  let sofar ← ofExcept result
  return ⟨sofar.close.getD (← current), !sofar.child⟩

/-- A block and its events, given the reader of the blocks inside it. -/
def blockWith (inner : BlockParser) : BlockParser := fun start shape => do
  unless shape.opened do discard (mustMatchSmart [.lBrace])
  if let some kind := shape.event then fire (.start kind) start
  let stop ← blockItems inner shape false
  if let some kind := shape.event then fire (.stop kind stop.empty) stop.close.location
  return stop

/-- **Blocks nested to a depth.** -/
def blockTo : Nat → BlockParser
  | 0 => fun _ _ => throw tooDeep
  | depth + 1 => blockWith (blockTo depth)

/-- **A block.** -/
def block : BlockParser := fun start shape => do blockTo (← budget) start shape

end Parser

end Stylesheet
