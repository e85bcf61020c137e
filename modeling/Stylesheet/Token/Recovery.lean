import Stylesheet.Token.Stream

/-!
# Passing over what cannot be read

When a declaration or a block is broken, reading goes on after it.
Where it ends is decided on the characters, because the tokens of broken
text mean little: brackets are paired, and whatever stands in a string,
a comment or an escape does not count.

The walk has a **level**: the bracket that must close next, or the
declaration's own level, where both a semicolon and a closing brace end
the walk. The levels outside it wait on a stack.
-/

namespace Stylesheet.Recovery

/-- The bracket that closes an opening one. -/
def closing? : Char → Option Char
  | '\x7b' => some '\x7d'
  | '(' => some ')'
  | '[' => some ']'
  | _ => none

/-- The size of what is passed over in one go: a string, a comment, an
escape, or a single character. -/
def unitSize : List Char → Nat
  | [] => 0
  | c :: rest =>
    if c = '"' || c = '\'' then
      let s := Lexeme.scanString c 0 rest
      if rest[s.size]? == some c then s.size + 2 else s.size + 1
    else if c = '/' && rest.head? == some '*' then 2 + Lexeme.commentTail (rest.drop 1)
    else if c = '\\' && !rest.isEmpty then 2
    else 1

/-- Whether a character closes a level; `none` is the declaration's. -/
def closes (level : Option Char) (c : Char) : Bool :=
  match level with
  | some closer => c == closer
  | none => c == ';' || c == '\x7d'

/-- **The number of characters to pass over**, at a level and with the
levels outside it, after `pass` characters that are settled. A semicolon
that ends a declaration is passed over; a brace that closes the block
around it is not. -/
def extent (stack : List (Option Char)) (level : Option Char) (pass : Nat) : List Char → Nat
  | [] => 0
  | c :: cs =>
    match pass with
    | pass + 1 => extent stack level pass cs + 1
    | 0 =>
      let go (stack : List (Option Char)) (level : Option Char) : Nat :=
        extent stack level (unitSize (c :: cs) - 1) cs + 1
      if closes level c then
        match stack with
        | [] => if c = ';' then 1 else 0
        | outer :: stack =>
          if outer.isNone && c = '\x7d' then 1 else go stack outer
      else if c = '\x7d' || c = ')' || c = ']' then 0
      else
        match closing? c with
        | some closer => go (level :: stack) (some closer)
        | none => go stack level

end Stylesheet.Recovery

namespace Stylesheet.Stream

/-- **Pass over the rest of a broken declaration**, or with `inBlock` the
rest of a broken block up to the brace that closes it. -/
def skipBroken (s : Stream) (inBlock : Bool) : Stream :=
  let next := s.peekCached.map (·.kind)
  if next == some .rBrace then s
  else if next == some .semicolon && !inBlock then s.grab.2
  else
    let s := s.rewind
    let level := if inBlock then some '\x7d' else none
    { s with reader := s.reader.advance (Recovery.extent [] level 0 s.reader.rest) }

end Stylesheet.Stream
