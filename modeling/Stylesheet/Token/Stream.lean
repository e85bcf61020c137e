import Stylesheet.Reader
import Stylesheet.Token.Lexeme

/-!
# The token stream

A `Stream` hands out the tokens of a source one at a time, and takes a
few of them back. It is a reader together with a short window of
tokens: those **behind** have been handed out, the latest first, and
those **ahead** were cut from the source but taken back. The window
never holds more than `Stream.capacity` tokens; when a new token is cut
the oldest one behind is forgotten.

Blanks, placeholders and comments are handed out only on request, which
is what a `Mode` says. A caller that takes tokens back and then asks in
another mode sees the window through the new mode.
-/

namespace Stylesheet

/-- **Which of the hidden tokens are handed out.** -/
structure Mode where
  /-- Runs of blanks. -/
  blanks : Bool
  /-- Placeholder comments. -/
  placeholders : Bool
  /-- All other comments. -/
  comments : Bool
  deriving DecidableEq, Repr

namespace Mode

/-- Every token, so that their texts add up to the source. -/
def everything : Mode := ⟨true, true, true⟩

/-- Only the tokens that are not hidden. -/
def visible : Mode := ⟨false, false, false⟩

/-- **A blank or comment as a mode hands it out**; a placeholder that is
not asked for is a comment like any other. -/
def keeps (mode : Mode) (lx : Lexeme) : Option Lexeme :=
  match lx.kind with
  | .whitespace => if mode.blanks then some lx else none
  | .uvar =>
    if mode.placeholders then some lx
    else if mode.comments then some ⟨.comment, .none, lx.size⟩
    else none
  | _ => if mode.comments then some lx else none

/-- **The size of what is passed over** before the next token of a mode,
beginning with `pass` characters of a blank or comment. -/
def skipped (mode : Mode) (pass : Nat) : List Char → Nat
  | [] => 0
  | c :: cs =>
    match pass with
    | pass + 1 => mode.skipped pass cs + 1
    | 0 =>
      match Lexeme.trivia? (c :: cs) with
      | some lx => if (mode.keeps lx).isNone then mode.skipped (lx.size - 1) cs + 1 else 0
      | none => 0

/-- The token of a mode at the start of a text that has nothing to pass
over. -/
def firstOf (mode : Mode) (cs : List Char) : Lexeme :=
  match Lexeme.trivia? cs with
  | some lx => (mode.keeps lx).getD lx
  | none => Lexeme.significant cs

/-- Whether a token of the window is passed over by a request for
blanks and placeholders. -/
def hides (mode : Mode) (t : Token) : Bool :=
  t.kind == .comment || (!mode.blanks && t.kind == .whitespace) ||
    (!mode.placeholders && t.kind == .uvar)

end Mode

namespace Reader

/-- **Cut the next token of a mode** from the source. -/
def lex (r : Reader) (mode : Mode) : Token × Reader :=
  let r := r.advance (mode.skipped 0 r.rest)
  let lx := mode.firstOf r.rest
  (lx.place r.location r.rest, r.advance lx.size)

end Reader

/-- **All tokens of a text**, hidden ones included, after `pass`
characters of a token already cut. -/
def tokensOf (pass : Nat) (loc : Location) : List Char → List Token
  | [] => []
  | c :: cs =>
    match pass with
    | pass + 1 => tokensOf pass loc cs
    | 0 =>
      let lx := Mode.everything.firstOf (c :: cs)
      let t := lx.place loc (c :: cs)
      t :: tokensOf (lx.size - 1) t.stop cs

/-- **A source handed out token by token.** -/
structure Stream where
  /-- The source, read as far as tokens have been cut. -/
  reader : Reader
  /-- The tokens handed out, the latest first. -/
  behind : List Token
  /-- The tokens taken back, the next first. -/
  ahead : List Token

namespace Stream

/-- The most tokens the window holds. -/
def capacity : Nat := 5

/-- **The stream of a source text.** -/
def ofString (text : String) : Stream := ⟨.ofString text, [], []⟩

/-- The token handed out last. -/
def current? (s : Stream) : Option Token := s.behind.head?

/-- The end of the source as a token at a place. -/
def eofAt (loc : Location) : Token := ⟨.eof, .none, "", loc, loc⟩

/-- The token handed out last, or the end of the source at the reader's
place when none has been. -/
def current (s : Stream) : Token := s.current?.getD (eofAt s.reader.location)

/-- The next token of the window. -/
def peekCached (s : Stream) : Option Token := s.ahead.head?

/-- Whether nothing but the end of the source is left. -/
def atEnd (s : Stream) : Bool := s.reader.atEnd && s.peekCached.all Token.isEof

/-- Forget the window. -/
def forget (s : Stream) : Stream := { s with behind := [], ahead := [] }

/-- Go on at another place of the source. -/
def seek (s : Stream) (loc : Location) : Stream := forget { s with reader := s.reader.seek loc }

/-- Take the reader back to the first token of the window that has not
been handed out, and forget the window. -/
def rewind (s : Stream) : Stream :=
  match s.ahead with
  | t :: _ => s.seek t.location
  | [] => s.forget

/-- **The next token of a mode from the window alone**: the tokens it
passes over are behind it afterwards. -/
def takeAhead (mode : Mode) (behind : List Token) :
    List Token → Option Token × List Token × List Token
  | [] => (none, behind, [])
  | t :: ahead =>
    if mode.hides t then takeAhead mode (t :: behind) ahead
    else (some t, t :: behind, ahead)

/-- **Hand out the next token.** Comments are always passed over. -/
def get (s : Stream) (placeholders blanks : Bool) : Token × Stream :=
  let mode : Mode := ⟨blanks, placeholders, false⟩
  match takeAhead mode s.behind s.ahead with
  | (some t, behind, ahead) => (t, ⟨s.reader, behind, ahead⟩)
  | (none, behind, _) =>
    let (t, reader) := s.reader.lex mode
    (t, ⟨reader, (t :: behind).take capacity, []⟩)

/-- Hand out the next token that is not hidden. -/
def grab (s : Stream) : Token × Stream := s.get false false

/-- **Take the last token back**; with nothing behind there is nothing to
take. -/
def back (s : Stream) : Stream :=
  match s.behind with
  | t :: behind => ⟨s.reader, behind, t :: s.ahead⟩
  | [] => s

/-- Take the last token back, or complain that there is none. -/
def unget (s : Stream) : Except Diagnostic Stream :=
  if s.behind.isEmpty then .error (.bare "Too much lookahead.") else .ok s.back

/-- The window taken back until a token that starts at a place is the one
handed out last, if there is one. -/
def backTo? (loc : Location) : List Token → List Token → Option (List Token × List Token)
  | [], _ => none
  | t :: behind, ahead =>
    if t.location = loc then some (t :: behind, ahead) else backTo? loc behind (t :: ahead)

/-- **Take tokens back until a given one was handed out last**; when the
window no longer reaches it, go on right after it. -/
def rewindTo (s : Stream) (t : Token) : Stream :=
  match backTo? t.location s.behind s.ahead with
  | some (behind, ahead) => ⟨s.reader, behind, ahead⟩
  | none => s.seek t.stop

/-- Hand out `n` tokens that are not hidden, and keep the last. -/
def grabMany (s : Stream) : Nat → Token × Stream
  | 0 => (s.current, s)
  | 1 => s.grab
  | n + 1 => (s.grab.2).grabMany n

/-- Take `n` tokens back. -/
def backMany (s : Stream) : Nat → Stream
  | 0 => s
  | n + 1 => s.back.backMany n

/-- **The `k`-th token to come** that is not hidden, counted from 1. The
window bounds how far one can look. -/
def lookahead (s : Stream) (k : Nat) : Token × Stream :=
  let k := min (max k 1) (capacity - 1)
  let (t, s) := s.grabMany k
  (t, s.backMany k)

/-- Hand out the token if it passes a test; otherwise take it back. -/
def accept (result : Token × Stream) (p : Token → Bool) : Option Token × Stream :=
  if p result.1 then (some result.1, result.2) else (none, result.2.back)

/-- **Hand out the next token**, blanks included, if it is of one of the
kinds. -/
def matchKinds (s : Stream) (kinds : List TokenKind) : Option Token × Stream :=
  accept (s.get false true) (kinds.contains ·.kind)

/-- **Hand out the next token that is not hidden**, if it is of one of
the kinds; blanks are passed over unless they are one of them. -/
def matchSmart (s : Stream) (kinds : List TokenKind) : Option Token × Stream :=
  accept (s.get false (kinds.contains .whitespace)) (kinds.contains ·.kind)

/-- Hand out the next token that is not hidden, if it is of a kind and
its text is a word of a set. -/
def matchKeyword (s : Stream) (kind : TokenKind) (set : Keywords) : Option Token × Stream :=
  accept s.grab fun t => t.kind == kind && set.has t.text

/-- The complaint that the next token is none of the kinds. -/
def complain (s : Stream) (expected : String) : Except Diagnostic Token × Stream :=
  let (t, s) := s.lookahead 1
  (.error (t.unexpected expected), s)

/-- As `matchSmart`, with a complaint when it fails. -/
def mustMatchSmart (s : Stream) (kinds : List TokenKind) : Except Diagnostic Token × Stream :=
  match s.matchSmart kinds with
  | (some t, s) => (.ok t, s)
  | (none, s) => s.complain (TokenKind.describeAll kinds)

/-- As `matchKinds`, with a complaint when it fails. -/
def mustMatch (s : Stream) (kinds : List TokenKind) : Except Diagnostic Token × Stream :=
  match s.matchKinds kinds with
  | (some t, s) => (.ok t, s)
  | (none, s) => s.complain (TokenKind.describeAll kinds)

/-- As `matchKeyword`, with a complaint when it fails. -/
def mustMatchKeyword (s : Stream) (kind : TokenKind) (set : Keywords) :
    Except Diagnostic Token × Stream :=
  match s.matchKeyword kind set with
  | (some t, s) => (.ok t, s)
  | (none, s) => s.complain set.describe

/-- **Look at the token handed out last** instead of a new one; if it is
of none of the kinds it is taken back. -/
def matchReuse (s : Stream) (kinds : List TokenKind) : Option Token × Stream :=
  if kinds.contains s.current.kind then (some s.current, s) else (none, s.back)

/-- As `matchReuse`, with a complaint when it fails. -/
def mustReuse (s : Stream) (kinds : List TokenKind) : Except Diagnostic Token × Stream :=
  match s.matchReuse kinds with
  | (some t, s) => (.ok t, s)
  | (none, after) => (.error (s.current.unexpected (TokenKind.describeAll kinds)), after)

/-- **All tokens that are left**, hidden ones included; the stream is at
its end afterwards. -/
def allTokens (s : Stream) : List Token × Stream :=
  let s := s.rewind
  (tokensOf 0 s.reader.location s.reader.rest,
    { s with reader := s.reader.advance s.reader.rest.length })

/-- The normalized source. -/
def source (s : Stream) : List Char := s.reader.source

/-- The source between two byte offsets. -/
def slice (s : Stream) (start stop : Nat) : String := String.ofList (s.reader.slice start stop)

end Stream

end Stylesheet
