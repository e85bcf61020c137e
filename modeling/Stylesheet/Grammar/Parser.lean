import Stylesheet.Diagnostic
import Stylesheet.Grammar.Term
import Stylesheet.Text.Basic
import Stylesheet.Text.Case

/-!
# Reading the value definition language

```text
alternatives:  choice [ "|" choice ]*       exactly one
choice:        run of words, or any order
any order:     all of [ "||" all of ]*      at least one
all of:        sequence [ "&&" sequence ]*  all
sequence:      item [ blank item ]*         all, in this order
item:          [ type | literal | [ alternatives ] | f() | f( alternatives ) ] multiplier?
multiplier:    ? | * | + | # | {m} | {m,} | {m,n} | #{m,n}
```

Words with single bars between them are kept together as one term, as
long as the run ends where an alternative may end: in `a | b || c` only
`a` is a run.

A reader either takes a beginning of the text and leaves the rest, or
fails and takes nothing; a text that fails, or of which something is
left, is complained about at the place where reading stopped.
-/

namespace Stylesheet.Grammar

/-- **A reader of a beginning of a text.** -/
abbrev Parser (α : Type) := List Char → Option (α × List Char)

namespace Parser

/-- The blanks of the notation. -/
def isGap (c : Char) : Bool := c == ' ' || c == '\t' || c == '\r' || c == '\n'

/-- The text after the blanks at its start. -/
def skipGap (cs : List Char) : List Char := cs.dropWhile isGap

/-- The text after a character, if it starts with it. -/
def expect (c : Char) (cs : List Char) : Option (List Char) :=
  if cs.head? == some c then some (cs.drop 1) else none

/-- The text after a text, if it starts with it, and the blanks on both
sides. -/
def expectSpaced (text : String) (cs : List Char) : Option (List Char) :=
  (text.toList.isPrefixOf? (skipGap cs)).map skipGap

/-- At least one character of a class, as many as there are. -/
def run (p : Char → Bool) : Parser (List Char) := fun cs =>
  let taken := cs.takeWhile p
  if taken.isEmpty then none else some (taken, cs.drop taken.length)

/-- More items, each after a separator. What follows the last item is
left, the separator included when no item comes after it. -/
def more {α : Type} (separator : List Char → Option (List Char)) (item : Parser α) :
    Nat → List Char → List α × List Char
  | 0, cs => ([], cs)
  | fuel + 1, cs =>
    match separator cs with
    | none => ([], cs)
    | some afterSeparator =>
      match item afterSeparator with
      | none => ([], cs)
      | some (a, rest) =>
        let (as, rest) := more separator item fuel rest
        (a :: as, rest)

/-- **Items with separators between them**, at least one. -/
def separated {α : Type} (separator : List Char → Option (List Char)) (item : Parser α) :
    Parser (List α) := fun cs => do
  let (a, rest) ← item cs
  let (as, rest) := more separator item rest.length rest
  return (a :: as, rest)

/-! ## Words -/

/-- The characters of words. -/
def isWordChar (c : Char) : Bool := c.isAlphanum || c == '-' || c == '_'

/-- A word. -/
def word : Parser (List Char) := run isWordChar

/-- A bar that stands alone, and the blanks around it. -/
def singleBar (cs : List Char) : Option (List Char) := do
  let rest ← expect '|' (skipGap cs)
  if rest.head? == some '|' then none else some (skipGap rest)

/-- A bar before a word, whatever comes before the word. -/
def anyBar (cs : List Char) : Option (List Char) := expectSpaced "|" cs

/-- Whether a run of words may end before a text: at its end, before a
bar or a closing square bracket, or before a round one after a blank. -/
def runMayEnd (rest : List Char) : Bool :=
  let trimmed := rest.dropWhile Text.isBlank
  trimmed.isEmpty || (singleBar rest).isSome || trimmed.head? == some ']' ||
    (trimmed.head? == some ')' && trimmed.length < rest.length)

/-- The words of a run, each with what follows it. -/
def wordsFrom : Nat → List Char → List (List Char × List Char)
  | 0, _ => []
  | fuel + 1, cs =>
    match word cs with
    | none => []
    | some (w, rest) =>
      (w, rest) ::
        match anyBar rest with
        | none => []
        | some next => wordsFrom fuel next

/-- **The longest run of words** that may end where it ends; the words
are given with the last first. -/
def longestRun : List (List Char × List Char) → Option (List (List Char) × List Char)
  | [] => none
  | (w, rest) :: earlier =>
    if runMayEnd rest then some ((w :: earlier.map (·.1)).reverse, rest)
    else longestRun earlier

/-- A run of words as one term. -/
def wordRun : Parser Term := fun cs => do
  let (ws, rest) ← longestRun (wordsFrom (cs.length + 1) cs).reverse
  return (.words (" | ".intercalate (ws.map fun w => Text.lower (String.ofList w))), rest)

/-! ## Multipliers -/

/-- A number with the blanks around it. -/
def number : Parser Nat := fun cs => do
  let (digits, rest) ← run Char.isDigit (skipGap cs)
  let n := Text.decimalValue digits
  if n ≤ Multiplier.unbounded then some (n, skipGap rest) else none

/-- An upper bound. -/
def bound (n : Nat) : Option Nat := if n = Multiplier.unbounded then none else some n

/-- A range in braces. -/
def range : Parser (Nat × Option Nat) := fun cs => do
  let rest ← expect '\x7b' cs
  let (least, rest) ← number rest
  let (greatest, rest) :=
    match expectSpaced "," rest with
    | none => (bound least, rest)
    | some rest =>
      match number rest with
      | some (n, rest) => (bound n, rest)
      | none => (none, rest)
  let rest ← expect '\x7d' rest
  return ((least, greatest), rest)

/-- The mark a character stands for. -/
def marker? : Char → Option Marker
  | '?' => some .optional
  | '*' => some .star
  | '+' => some .plus
  | '#' => some .hash
  | _ => none

/-- **A multiplier**: a range, a `#` with a range, or a mark alone. -/
def multiplier : Parser Multiplier := fun cs =>
  match range cs with
  | some ((least, greatest), rest) => some (⟨least, greatest, none, false⟩, rest)
  | none =>
    match cs with
    | [] => none
    | c :: rest =>
      match marker? c with
      | none => none
      | some marker =>
        match if marker = .hash then range rest else none with
        | some ((least, greatest), rest) => some (⟨least, greatest, some .hash, true⟩, rest)
        | none => some (.ofMarker marker, rest)

/-! ## Items -/

/-- A text between two marks with no mark inside, the marks included. -/
def quotedBy (quote : Char) : Parser (List Char) := fun cs => do
  let rest ← expect quote cs
  let inside := rest.takeWhile (· != quote)
  let rest ← expect quote (rest.drop inside.length)
  return (quote :: inside ++ [quote], rest)

/-- The characters that end a literal without quotes. -/
def endsLiteral (c : Char) : Bool := " \t\n?*+#\x7b\x7d()[]|&".toList.contains c

/-- A reference to a type. -/
def reference : Parser Term := fun cs => do
  let rest ← expect '<' cs
  let (inside, rest) ← run (fun c => !(c == '>' || c == '\t' || c == '\n' || c == ' ')) rest
  let rest ← expect '>' rest
  return (.reference (Text.lower (String.ofList ('<' :: inside ++ ['>']))), rest)

/-- A literal, in quotes or not. -/
def literal : Parser Term := fun cs => do
  let (text, rest) ←
    (quotedBy '"' cs).or ((quotedBy '\'' cs).or (run (fun c => !endsLiteral c) cs))
  return (.words (Text.lower (String.ofList text)), rest)

/-- A group in square brackets. -/
def group (inside : Parser Term) : Parser Term := fun cs => do
  let rest ← expect '[' cs
  let (term, rest) ← inside (skipGap rest)
  let rest ← expect ']' (skipGap rest)
  return (term, rest)

/-- A function, with or without a body. -/
def function (inside : Parser Term) : Parser Term := fun cs => do
  let (name, rest) ← word cs
  let rest ← expect '(' rest
  let rest := skipGap rest
  let name := Text.lower (String.ofList name)
  match expect ')' rest with
  | some rest => return (.function name none, rest)
  | none =>
    let (body, rest) ← inside rest
    let rest ← expect ')' (skipGap rest)
    return (.function name (some body), rest)

/-- **An item and its multiplier.** -/
def item (inside : Parser Term) : Parser Term := fun cs => do
  let (term, rest) ← (group inside cs).or ((function inside cs).or
    ((reference cs).or (literal cs)))
  match multiplier rest with
  | some (m, rest) => return (.repeated term m, rest)
  | none => return (term, rest)

/-! ## Combinations -/

/-- The blanks between the items of a sequence, when an item can follow. -/
def gapBetween (cs : List Char) : Option (List Char) :=
  let rest := skipGap cs
  if rest.length < cs.length &&
      !(rest.head?.any fun c => c == '&' || c == '|' || c == ')' || c == ']') then
    some rest
  else none

/-- A sequence as a term: a term between the two bracket literals
describes the inside of a block. -/
def ofSequence : List Term → Term
  | [.words "\"[\"", term, .words "\"]\""] => .bracketed term
  | members => Term.combine .sequence members

/-- Items in order. -/
def sequence (inside : Parser Term) : Parser Term := fun cs =>
  (separated gapBetween (item inside) cs).map fun (members, rest) => (ofSequence members, rest)

/-- Sequences with `&&` between them. -/
def allOf (inside : Parser Term) : Parser Term := fun cs =>
  (separated (expectSpaced "&&") (sequence inside) cs).map fun (members, rest) =>
    (Term.combine .allOf members, rest)

/-- Those with `||` between them. -/
def someOf (inside : Parser Term) : Parser Term := fun cs =>
  (separated (expectSpaced "||") (allOf inside) cs).map fun (members, rest) =>
    (Term.combine .someOf members, rest)

/-- **Alternatives**, given the reader of what stands in brackets. -/
def oneOf (inside : Parser Term) : Parser Term := fun cs =>
  (separated singleBar (fun cs => (wordRun cs).or (someOf inside cs)) cs).map
    fun (members, rest) => (Term.combine .oneOf members, rest)

/-- Alternatives with brackets nested to a depth. -/
def nested : Nat → Parser Term
  | 0 => fun _ => none
  | depth + 1 => oneOf (nested depth)

/-- The complaint that a grammar cannot be read beyond a place. -/
def complaint (text : String) (rest : List Char) : Diagnostic :=
  let place := text.utf8ByteSize - Text.byteLength rest
  .bare ("Internal grammar error. Unexpected \"" ++ String.ofList (rest.take 30) ++
    "\" at position " ++ toString place ++ " in \"" ++ text ++ "\".")

end Parser

/-- **The term a grammar is written for.** -/
def Term.ofString (text : String) : Except Diagnostic Term :=
  let cs := text.toList
  match Parser.nested (cs.length + 1) cs with
  | some (term, rest) =>
    match Parser.skipGap rest with
    | [] => .ok term
    | rest => .error (Parser.complaint text rest)
  | none => .error (Parser.complaint text cs)

end Stylesheet.Grammar
