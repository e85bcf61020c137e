import Stylesheet.Text.Alphanumeric
import Stylesheet.Token.Basic
import Stylesheet.Token.Kind

/-!
# Cutting the first token off a text

`Lexeme.first` decides which token a text begins with. It looks at
characters only and knows nothing of places: a lexeme is a kind, a
payload and a **size**, the number of characters it takes. Where a
token stands is settled by whoever places the lexeme
(`Lexeme.place`), so what a text is cut into does not depend on where
the text stands.

The scanners below all have one shape. They walk along the text and
answer how many characters belong to them, together with what those
characters say once escapes are decoded. An escape takes several
characters at once; the walk then has a number of characters to pass
over before it looks at the text again, which is the first argument of
the recursive scanners.
-/

namespace Stylesheet

/-- **A token without its place.** -/
structure Lexeme where
  /-- The kind. -/
  kind : TokenKind
  /-- What the kind says about it. -/
  payload : Payload
  /-- The number of characters it takes. -/
  size : Nat
  deriving DecidableEq, Repr

namespace Lexeme

/-! ## Character classes -/

/-- The characters of names, other than escapes. -/
def isNameChar (c : Char) : Bool :=
  c.isAlphanum || c == '-' || c == '_' || 0xA0 ≤ c.toNat

/-- Whether a character can go on with a name, given the one before it. -/
def continuesName (c previous : Option Char) : Bool :=
  match c with
  | none => false
  | some c => isNameChar c || c == '\\' || (previous == some '\\' && c != '\n')

/-- Whether a name starts with the character `a`, which is not a dash,
when `b` follows it. -/
def startsPlainName (a b : Option Char) : Bool :=
  match a with
  | none => false
  | some '\\' => continuesName b a
  | some c => c.isAlpha || c == '_' || 0xA0 ≤ c.toNat

/-- **Whether three characters start a name**: a letter does, an escape
does, and so does a dash before either. -/
def startsName (a b c : Option Char) : Bool :=
  if a == some '-' then b != some '-' && startsPlainName b c else startsPlainName a b

/-- Whether a text starts with a name. -/
def nameComesNext (cs : List Char) : Bool := startsName cs[0]? cs[1]? cs[2]?

/-- Whether a character is there and is a digit. -/
def isDigit (c : Option Char) : Bool := c.any Char.isDigit

/-- The characters of an address written without quotes. -/
def isAddressChar (c : Char) : Bool :=
  c == '!' || ('#' ≤ c && c ≤ '&') || ('*' ≤ c && c ≤ '[') || (']' ≤ c && c ≤ '~') ||
    0xA0 ≤ c.toNat

/-! ## Escapes, names and strings -/

/-- The character that stands for one that cannot be read. -/
def replacement : Char := Char.ofNat 0xFFFD

/-- The character with a given code, or the replacement. -/
def charOfCode (code : Nat) : Char :=
  if code ≠ 0 && code.isValidChar then Char.ofNat code else replacement

/-- **An escape**, read after its backslash: up to six hexadecimal
digits and one blank after them, or any one character. -/
def readEscape (cs : List Char) : Char × Nat :=
  match (cs.take 6).takeWhile Text.isHexDigit with
  | [] =>
    match cs with
    | [] => (replacement, 0)
    | c :: _ => (c, 1)
  | digits =>
    let size := digits.length
    let blank := (cs[size]?).any fun c => c == ' ' || c == '\t'
    (charOfCode (Text.hexValue digits), if blank then size + 1 else size)

/-- What a scanner found: the decoded text and its size in the source. -/
structure Scanned where
  /-- The text with escapes decoded. -/
  value : List Char
  /-- The number of characters it takes. -/
  size : Nat
  deriving DecidableEq, Repr

namespace Scanned

/-- Nothing, of no size. -/
def empty : Scanned := ⟨[], 0⟩

/-- One more character of source that says nothing. -/
def skip (s : Scanned) : Scanned := { s with size := s.size + 1 }

/-- One more character of source that says a character. -/
def push (c : Char) (s : Scanned) : Scanned := ⟨c :: s.value, s.size + 1⟩

end Scanned

/-- **The name a text starts with**, after `pass` characters of an
escape. A backslash at the end of the text reads as the replacement
character; one before a newline ends the name. -/
def scanName (pass : Nat) : List Char → Scanned
  | [] => .empty
  | c :: cs =>
    match pass with
    | pass + 1 => (scanName pass cs).skip
    | 0 =>
      if c = '\\' then
        match cs with
        | [] => ⟨[replacement], 1⟩
        | next :: _ =>
          if next = '\n' then .empty
          else
            let (decoded, size) := readEscape cs
            (scanName size cs).push decoded
      else if isNameChar c then (scanName 0 cs).push c
      else .empty

/-- **The inside of a string**, up to its closing quote, a newline or the
end. A backslash before a newline joins two lines. -/
def scanString (quote : Char) (pass : Nat) : List Char → Scanned
  | [] => .empty
  | c :: cs =>
    match pass with
    | pass + 1 => (scanString quote pass cs).skip
    | 0 =>
      if c = '\n' || c = quote then .empty
      else if c = '\\' then
        match cs with
        | [] => ⟨[], 1⟩
        | next :: _ =>
          if next = '\n' then (scanString quote 1 cs).skip
          else
            let (decoded, size) := readEscape cs
            (scanString quote size cs).push decoded
      else (scanString quote 0 cs).push c

/-- The characters of an address written without quotes. -/
def scanAddress (pass : Nat) : List Char → Scanned
  | [] => .empty
  | c :: cs =>
    match pass with
    | pass + 1 => (scanAddress pass cs).skip
    | 0 =>
      if c = '\\' then
        match cs with
        | [] => .empty
        | next :: _ =>
          if next = '\n' then .empty
          else
            let (decoded, size) := readEscape cs
            (scanAddress size cs).push decoded
      else if isAddressChar c then (scanAddress 0 cs).push c
      else .empty

/-- The size of the longest run of characters of a class. -/
def runSize (p : Char → Bool) (cs : List Char) : Nat := (cs.takeWhile p).length

/-! ## Blanks and comments -/

/-- The size of what is left of a comment, its end included. -/
def commentTail : List Char → Nat
  | [] => 0
  | c :: cs =>
    if c = '*' && cs.head? == some '/' then 2 else commentTail cs + 1

/-- The name in a placeholder comment. -/
def placeholderName? (comment : List Char) : Option String := do
  let inner ← "/*[[".toList.isPrefixOf? comment
  let name ← "]]*/".toList.isSuffixOf? inner
  if !name.isEmpty && name.all fun c => Text.isAlphanumeric c || c == '-' || c == '_' then
    some (String.ofList name)
  else none

/-- **The blanks or the comment a text starts with**, if it does; a
placeholder is a comment of its own kind. -/
def trivia? (cs : List Char) : Option Lexeme :=
  match cs with
  | [] => none
  | c :: rest =>
    if Text.isSpace c then some ⟨.whitespace, .none, runSize Text.isSpace cs⟩
    else if c = '/' && rest.head? == some '*' then
      let size := 2 + commentTail (cs.drop 2)
      match placeholderName? (cs.take size) with
      | some name => some ⟨.uvar, .uvar name, size⟩
      | none => some ⟨.comment, .none, size⟩
    else none

/-! ## Names, functions and addresses -/

/-- **A name without its vendor's mark**, and the mark, when the mark
ends at a byte offset of the name. -/
def splitVendor (name : String) (vendorPos : Nat) : String × Option String :=
  if vendorPos = 0 then (name, none)
  else
    match Text.fromByte? name vendorPos, Text.uptoByte? name vendorPos with
    | some rest, some mark => (rest, some mark)
    | _, _ => (name, none)

/-- The byte offset after the first dash beyond the first two
characters, 0 without such a dash. -/
def vendorEnd (name : List Char) : Nat :=
  match Text.indexOf? ['-'] (name.drop 2) with
  | some n => Text.byteLength (name.take (2 + n)) + 1
  | none => 0

/-- The byte offset after the second dash of an at-keyword that begins
with a dash, 0 without one or with nothing between the two. -/
def atVendorEnd (name : List Char) : Nat :=
  match name with
  | '-' :: rest =>
    match Text.indexOf? ['-'] rest with
    | some (n + 1) => Text.byteLength (rest.take (n + 1)) + 2
    | _ => 0
  | _ => 0

/-- **The address between the brackets of `url(`**, and its size with
the closing bracket; `none` when what stands there is no plain
address. -/
def scanUri? (cs : List Char) : Option Scanned := do
  let lead := runSize Text.isSpace cs
  let body := cs.drop lead
  let value ←
    match body with
    | [] => none
    | c :: inner =>
      if c = '"' || c = '\'' then
        let s := scanString c 0 inner
        if inner[s.size]? == some c then some ⟨s.value, s.size + 2⟩ else none
      else
        let s := scanAddress 0 body
        if s.value.isEmpty then none else some s
  let after := body.drop value.size
  let trail := runSize Text.isSpace after
  if after[trail]? == some ')' then
    some ⟨value.value, lead + value.size + trail + 1⟩
  else none

/-- The functions whose argument is an address. -/
def uriFunctions : List String := ["url", "url-prefix", "domain"]

/-- **A name, or a function when a bracket follows it.** -/
def identLike (cs : List Char) : Lexeme :=
  let scanned := scanName 0 cs
  let after := cs.drop scanned.size
  let name := String.ofList scanned.value
  let vendorPos :=
    if cs.head? == some '-' && cs[1]? != some '-' then vendorEnd scanned.value else 0
  if after.head? == some '(' then
    let small := Text.lower name
    let uri? := if uriFunctions.contains small then scanUri? (after.drop 1) else none
    match uri? with
    | some uri => ⟨.uri, .uri (String.ofList uri.value) small, scanned.size + 1 + uri.size⟩
    | none =>
      let (bare, vendor) := splitVendor small vendorPos
      ⟨.function, .function bare vendor false, scanned.size + 1⟩
  else
    let plain : Lexeme :=
      ⟨.ident, .ident name vendorPos (Text.startsWith name "--"), scanned.size⟩
    if name == "progid" && after.head? == some ':' then
      match Text.indexOf? ['('] (after.takeWhile (· != '\n')) with
      | some n =>
        let small := Text.lower (name ++ String.ofList (after.take n))
        ⟨.function, .function small none true, scanned.size + n + 1⟩
      | none => plain
    else plain

/-! ## Numbers and code points -/

/-- The size of an optional sign. -/
def signSize (c : Option Char) : Nat := if c == some '+' || c == some '-' then 1 else 0

/-- **A number**: an optional sign, digits, a fraction, an exponent, and
then a percent sign or a unit. -/
def numeric (cs : List Char) : Lexeme :=
  let sign := signSize cs.head?
  let whole := (cs.drop sign).takeWhile Char.isDigit
  let afterWhole := cs.drop (sign + whole.length)
  let fraction :=
    if afterWhole.head? == some '.' && isDigit afterWhole[1]? then
      (afterWhole.drop 1).takeWhile Char.isDigit
    else []
  let fractionSize := if fraction.isEmpty then 0 else fraction.length + 1
  let afterFraction := afterWhole.drop fractionSize
  let exponentSign := signSize afterFraction[1]?
  let hasExponent :=
    (afterFraction.head? == some 'e' || afterFraction.head? == some 'E') &&
      isDigit afterFraction[1 + exponentSign]?
  let exponentDigits :=
    if hasExponent then (afterFraction.drop (1 + exponentSign)).takeWhile Char.isDigit else []
  let exponentSize := if hasExponent then 1 + exponentSign + exponentDigits.length else 0
  let exponentValue : Int :=
    if hasExponent && afterFraction[1]? == some '-' then -(Text.decimalValue exponentDigits : Int)
    else Text.decimalValue exponentDigits
  let value := Binary64.ofDecimal (cs.head? == some '-')
    (Text.decimalValue (whole ++ fraction)) (exponentValue - fraction.length)
  let size := sign + whole.length + fractionSize + exponentSize
  let after := cs.drop size
  let isFloat := !fraction.isEmpty || hasExponent
  if after.head? == some '%' then
    ⟨.percentage, .number value "%" false, size + 1⟩
  else if nameComesNext after then
    let scanned := scanName 0 after
    let unit := Text.lower (String.ofList scanned.value)
    ⟨(Unit.kind? unit).getD .dimension,
      .number value unit (unit.isEmpty && (!isFloat || value.isZero)), size + scanned.size⟩
  else
    ⟨.number, .number value "" (!isFloat || value.isZero), size⟩

/-- Whether a number starts a text: digits, or a sign or a point before
them. -/
def numberComesNext (cs : List Char) : Bool :=
  match cs with
  | [] => false
  | c :: rest =>
    c.isDigit ||
      ((c == '-' || c == '+' || c == '.') &&
        (isDigit rest.head? || (c != '.' && rest.head? == some '.' && isDigit rest[1]?)))

/-- The greatest code point. -/
def lastCode : Nat := 0x10FFFF

/-- The hexadecimal digits a text starts with, six at most. -/
def hexRun (cs : List Char) : List Char := (cs.take 6).takeWhile Text.isHexDigit

/-- **A range of code points**, read after `U+`: one code point, one
whose last digits are question marks, or two with a dash between them.
A range that leaves the code points is invalid; without a digit there is
no range. -/
def codeRange? (cs : List Char) : Option Lexeme :=
  let first := hexRun (cs.drop 2)
  if first.isEmpty then none
  else
    let size := 2 + first.length
    let after := cs.drop size
    let firstOk := Text.hexValue first ≤ lastCode
    let (size, ok) :=
      if after.head? == some '?' then
        let marks := ((after.take 6).takeWhile (· == '?')).length
        (size + marks, firstOk && first.length + marks ≤ 6)
      else if after.head? == some '-' && after[1]?.any Text.isHexDigit then
        let last := hexRun (after.drop 1)
        (size + 1 + last.length, firstOk && Text.hexValue last ≤ lastCode)
      else (size, firstOk)
    some ⟨if ok then .uRange else .invalid, .none, size⟩

/-! ## The first token -/

/-- A token that starts with a dash and is no number. -/
def dashed (cs : List Char) : Lexeme :=
  if cs[1]? == some '-' then
    if continuesName cs[2]? cs[1]? then identLike cs
    else if cs[2]? == some '>' then ⟨.cdco, .none, 3⟩
    else ⟨.minus, .none, 1⟩
  else if nameComesNext cs then identLike cs
  else ⟨.minus, .none, 1⟩

/-- A quoted string, invalid when it is not closed on its line. -/
def quoted (quote : Char) (rest : List Char) : Lexeme :=
  let s := scanString quote 0 rest
  if rest[s.size]? == some quote then
    ⟨.string, .string (String.ofList s.value), s.size + 2⟩
  else ⟨.invalid, .none, s.size + 1⟩

/-- A token that starts with a character no name or number starts with. -/
def punctuation (c : Char) (rest : List Char) : Lexeme :=
  let next := rest.head?
  if next == some '=' && (c == '<' || c == '>') then ⟨.eqCmp, .none, 2⟩
  else if next == some '=' && (c == '$' || c == '*' || c == '^' || c == '|' || c == '~') then
    ⟨.attrEq, .none, 2⟩
  else if c == '|' && next == some '|' then ⟨.combinator, .none, 2⟩
  else if c == '#' && continuesName next (some c) then
    let name := scanName 0 rest
    ⟨.hash, .hash (String.ofList name.value), name.size + 1⟩
  else if c == '*' then ⟨.star, .star (startsName next rest[1]? none), 1⟩
  else if c == '"' || c == '\'' then quoted c rest
  else if c == '\\' then
    if next == some '\n' then ⟨.whitespace, .none, 1 + runSize Text.isSpace rest⟩
    else ⟨.char, .none, 1⟩
  else if c == '@' && nameComesNext rest then
    let name := scanName 0 rest
    let small := Text.lower (String.ofList name.value)
    let (bare, vendor) := splitVendor small (atVendorEnd small.toList)
    ⟨.at, .at bare vendor, name.size + 1⟩
  else if c == '<' && "!--".toList.isPrefixOf rest then ⟨.cdco, .none, 4⟩
  else ⟨(TokenKind.ofChar? c).getD .char, .none, 1⟩

/-- **The token a text starts with**, when it starts neither with a blank
nor with a comment. -/
def significant (cs : List Char) : Lexeme :=
  match cs with
  | [] => ⟨.eof, .none, 0⟩
  | c :: rest =>
    if numberComesNext cs then numeric cs
    else if c = '-' then dashed cs
    else if (c = 'U' || c = 'u') && rest.head? == some '+' then
      (codeRange? cs).getD ⟨.ident, .ident (String.singleton c) 0 false, 1⟩
    else if nameComesNext cs then identLike cs
    else punctuation c rest

/-- **The first token of a text**, blanks and comments included. -/
def first (cs : List Char) : Lexeme := (trivia? cs).getD (significant cs)

/-- **A lexeme as the token at a place**, where the text it starts is
given. -/
def place (lx : Lexeme) (loc : Location) (cs : List Char) : Token where
  kind := lx.kind
  payload := lx.payload
  text := String.ofList (cs.take lx.size)
  location := loc
  stop := loc.advance (cs.take lx.size)

end Lexeme

end Stylesheet
