import Stylesheet.Token.Stream

/-!
# The count of `:nth-child()`

The argument of `:nth-child()` and its relatives is a step and an
offset, as in `2n+1`, or one of the words `even` and `odd`. Its spelling
does not follow the tokens of the language – `2n+1` would be a dimension
and a number – so it is read from the characters.
-/

namespace Stylesheet

/-- **A step and an offset as written**, in small letters and without
blanks; either may be empty. -/
structure Nth where
  /-- The step, such as `2n`, `-n` or `even`. -/
  step : String
  /-- The signed offset. -/
  offset : String
  deriving DecidableEq, Repr

namespace Nth

/-- One of the two words, when no name goes on after it. -/
def word? (cs : List Char) : Option (Nth × Nat) :=
  Keywords.evenOdd.words.findSome? fun word =>
    if word.toList.isPrefixOf (cs.map Char.toLower) &&
        !(cs[word.length]?).any (fun c => Lexeme.isNameChar c.toLower) then
      some (⟨word, ""⟩, word.length)
    else none

/-- **The count a text starts with**, and its size. After a step, a sign
must be followed by digits. -/
def scan (cs : List Char) : Option (Nth × Nat) :=
  match word? cs with
  | some found => some found
  | none =>
    let sign := Lexeme.signSize cs.head?
    let digits := ((cs.drop sign).takeWhile Char.isDigit).length
    let size := sign + digits
    if cs[size]? == some 'n' || cs[size]? == some 'N' then
      let step := Text.asciiLower (String.ofList (cs.take (size + 1)))
      let after := cs.drop (size + 1)
      let lead := Lexeme.runSize Text.isSpace after
      match after[lead]? with
      | some mark =>
        if mark == '+' || mark == '-' then
          let afterMark := after.drop (lead + 1)
          let gap := Lexeme.runSize Text.isSpace afterMark
          let offset := (afterMark.drop gap).takeWhile Char.isDigit
          if offset.isEmpty then none
          else some (⟨step, String.ofList (mark :: offset)⟩,
            size + 1 + lead + 1 + gap + offset.length)
        else some (⟨step, ""⟩, size + 1)
      | none => some (⟨step, ""⟩, size + 1)
    else if digits = 0 then none
    else some (⟨"", String.ofList (cs.take size)⟩, size)

/-- What must follow a count: a blank, a comment or the closing bracket. -/
def endsBefore (rest : List Char) : Bool :=
  rest.head?.any (fun c => Text.isSpace c || c == ')') || "/*".toList.isPrefixOf rest

end Nth

/-- **Read a count** straight from the source; what follows it is left to
the tokens. Without a count the stream stands before the text that
should have been one. -/
def Stream.readNth (s : Stream) : Option Nth × Stream :=
  let s := s.rewind
  let reader := s.reader.advance (Mode.visible.skipped 0 s.reader.rest)
  match Nth.scan reader.rest with
  | some (nth, size) =>
    if Nth.endsBefore (reader.rest.drop size) then
      (some nth, { s with reader := reader.advance size })
    else (none, { s with reader := reader })
  | none => (none, { s with reader := reader })

end Stylesheet
