import Stylesheet.Text.Basic

/-!
# The tokens of JSON, and the members of a text

JSON text is cut into its tokens, with the blanks between them passed
over. A string is kept as its **pieces**, because an escape gives a
UTF-16 unit and half of a pair of them is no character. Whether that
matters is for the reader of the string to say.

Some readers want nothing of a JSON text but the outermost members:
the items of the array or the fields of the object it is. One pass over
the tokens checks that the whole text is JSON and collects those. It
keeps a stack of the brackets that are open and what can come next.
-/

namespace Stylesheet

namespace Json

/-- **A piece of a string**: a character, or a UTF-16 unit from an
escape. -/
inductive Piece where
  /-- A character. -/
  | char (c : Char)
  /-- A unit. -/
  | unit (n : Nat)
  deriving DecidableEq, Repr

/-- **A token of JSON.** -/
inductive Tok where
  /-- An opening bracket or, for an object, an opening brace. -/
  | opening (object : Bool)
  /-- A closing bracket or, for an object, a closing brace. -/
  | closing (object : Bool)
  /-- A comma. -/
  | comma
  /-- A colon. -/
  | colon
  /-- A string. -/
  | string (pieces : List Piece)
  /-- A truth value. -/
  | bool (value : Bool)
  /-- A number, or the null value. -/
  | other
  deriving DecidableEq, Repr

/-! ## Strings -/

/-- Whether a unit is the first of a pair. -/
def isHighSurrogate (n : Nat) : Bool := 0xD800 ≤ n && n ≤ 0xDBFF

/-- Whether a unit is the second of a pair. -/
def isLowSurrogate (n : Nat) : Bool := 0xDC00 ≤ n && n ≤ 0xDFFF

/-- **The characters of a string**, if every unit that is half of a pair
has its other half. -/
def decode? : List Piece → Option (List Char)
  | [] => some []
  | .char c :: rest => (decode? rest).map (c :: ·)
  | .unit h :: .unit l :: rest =>
    if isHighSurrogate h then
      if isLowSurrogate l then
        (decode? rest).map (Char.ofNat (0x10000 + (h - 0xD800) * 0x400 + (l - 0xDC00)) :: ·)
      else none
    else if isLowSurrogate h then none
    else (decode? (.unit l :: rest)).map (Char.ofNat h :: ·)
  | .unit n :: rest =>
    if isHighSurrogate n || isLowSurrogate n then none
    else (decode? rest).map (Char.ofNat n :: ·)

/-- What a letter after a backslash stands for. -/
def shortEscape? : Char → Option Char
  | '"' => some '"'
  | '\\' => some '\\'
  | '/' => some '/'
  | 'b' => some '\x08'
  | 'f' => some '\x0c'
  | 'n' => some '\n'
  | 'r' => some '\r'
  | 't' => some '\t'
  | _ => none

/-- **The pieces of a string** after its opening quote, and the number of
characters up to and including the closing one. -/
def scanString : List Char → Option (List Piece × Nat)
  | [] => none
  | '"' :: _ => some ([], 1)
  | '\\' :: 'u' :: a :: b :: c :: d :: rest =>
    if [a, b, c, d].all Text.isHexDigit then
      (scanString rest).map fun (pieces, n) => (.unit (Text.hexValue [a, b, c, d]) :: pieces, n + 6)
    else none
  | '\\' :: e :: rest =>
    (shortEscape? e).bind fun c =>
      (scanString rest).map fun (pieces, n) => (.char c :: pieces, n + 2)
  | c :: rest =>
    if c = '\\' || c.toNat < 0x20 then none
    else (scanString rest).map fun (pieces, n) => (.char c :: pieces, n + 1)

/-! ## Numbers -/

/-- The number of digits at the start. -/
def digitCount (cs : List Char) : Nat := (cs.takeWhile Char.isDigit).length

/-- The size of the digits at the start, of which there must be one. -/
def digits? (cs : List Char) : Option Nat :=
  if digitCount cs = 0 then none else some (digitCount cs)

/-- The size of the whole part of a number: a zero, or digits that do not
start with one. -/
def wholeSize? (cs : List Char) : Option Nat :=
  if cs.head? = some '0' then some 1 else digits? cs

/-- The size of a fraction, with its point. -/
def fractionSize? : List Char → Option Nat
  | '.' :: rest => (digits? rest).map (· + 1)
  | _ => some 0

/-- The size of an exponent, with its letter. -/
def exponentSize? : List Char → Option Nat
  | e :: rest =>
    if e = 'e' || e = 'E' then
      match rest with
      | s :: digits =>
        if s = '+' || s = '-' then (digits? digits).map (· + 2) else (digits? rest).map (· + 1)
      | [] => none
    else some 0
  | [] => some 0

/-- **The size of a number** without its sign. -/
def numberSize? (cs : List Char) : Option Nat := do
  let whole ← wholeSize? cs
  let cs := cs.drop whole
  let fraction ← fractionSize? cs
  let exponent ← exponentSize? (cs.drop fraction)
  return whole + fraction + exponent

/-! ## All tokens -/

/-- Whether a character can stand between tokens. -/
def isBlank (c : Char) : Bool := c == ' ' || c == '\n' || c == '\t' || c == '\r'

/-- A word with a meaning of its own. -/
def word? (cs : List Char) : Option (Tok × Nat) :=
  if "true".toList.isPrefixOf cs then some (.bool true, 4)
  else if "false".toList.isPrefixOf cs then some (.bool false, 5)
  else if "null".toList.isPrefixOf cs then some (.other, 4)
  else none

/-- **The first token** of a text that starts with no blank, and its
size. -/
def firstToken? : List Char → Option (Tok × Nat)
  | [] => none
  | c :: rest =>
    match c with
    | '[' => some (.opening false, 1)
    | ']' => some (.closing false, 1)
    | '\x7b' => some (.opening true, 1)
    | '\x7d' => some (.closing true, 1)
    | ',' => some (.comma, 1)
    | ':' => some (.colon, 1)
    | '"' => (scanString rest).map fun (pieces, n) => (.string pieces, n + 1)
    | '-' => (numberSize? rest).map fun n => (.other, n + 1)
    | _ => if c.isDigit then (numberSize? (c :: rest)).map (.other, ·) else word? (c :: rest)

/-- **The tokens of a text**, after `pass` characters of a token already
cut. -/
def tokens? (pass : Nat) : List Char → Option (List Tok)
  | [] => some []
  | c :: cs =>
    match pass with
    | pass + 1 => tokens? pass cs
    | 0 =>
      if isBlank c then tokens? 0 cs
      else
        (firstToken? (c :: cs)).bind fun (t, size) => (tokens? (size - 1) cs).map (t :: ·)

/-! ## Members -/

/-- **An outermost member.** -/
structure Member where
  /-- The name of a field. -/
  name : Option (List Piece)
  /-- The value, if it is a truth value. -/
  flag : Option Bool
  deriving DecidableEq, Repr

/-- **What can come next.** -/
inductive Expected where
  /-- A value. -/
  | value
  /-- A value, or the end of the array that was just opened. -/
  | firstValue
  /-- A name. -/
  | name
  /-- A name, or the end of the object that was just opened. -/
  | firstName
  /-- The colon after a name. -/
  | colon
  /-- A comma or the end of what is open. -/
  | separator
  /-- Nothing. -/
  | nothing
  deriving DecidableEq, Repr

/-- **A text as far as it is checked.** -/
structure Progress where
  /-- What is open, the innermost first; `true` for an object. -/
  stack : List Bool
  /-- What can come next. -/
  expected : Expected
  /-- The name of the outermost field that is being read. -/
  name : Option (List Piece)
  /-- Whether the text is an object, once that is known, or an array. -/
  isObject : Option Bool
  /-- The outermost members, the latest first. -/
  members : List Member

namespace Progress

/-- Nothing is read. -/
def start : Progress := ⟨[], .value, none, none, []⟩

/-- A value may come next. -/
def wantsValue (p : Progress) : Bool := p.expected == .value || p.expected == .firstValue

/-- A name may come next. -/
def wantsName (p : Progress) : Bool := p.expected == .name || p.expected == .firstName

/-- After a value. -/
def afterValue (p : Progress) : Progress :=
  { p with expected := if p.stack.isEmpty then .nothing else .separator }

/-- An outermost member is recorded when its value begins. -/
def record (p : Progress) (flag : Option Bool) : Progress :=
  if p.stack.length = 1 then { p with members := ⟨p.name, flag⟩ :: p.members } else p

/-- **Read a token**; `none` when it cannot stand there. -/
def step (p : Progress) : Tok → Option Progress
  | .opening object =>
    if p.wantsValue then
      let p := p.record none
      some { p with
        stack := object :: p.stack
        expected := if object then .firstName else .firstValue
        isObject := p.isObject.or (some object) }
    else none
  | .closing object =>
    match p.stack with
    | [] => none
    | top :: stack =>
      let fits := p.expected == .separator ||
        p.expected == if object then Expected.firstName else .firstValue
      if top == object && fits then some (afterValue { p with stack := stack }) else none
  | .comma =>
    match p.expected, p.stack with
    | .separator, object :: _ =>
      some { p with expected := if object then .name else .value }
    | _, _ => none
  | .colon => if p.expected == .colon then some { p with expected := .value } else none
  | .string pieces =>
    if p.wantsName then
      some { p with
        expected := .colon
        name := if p.stack.length = 1 then some pieces else p.name }
    else if p.wantsValue then some (p.record none).afterValue
    else none
  | .bool value => if p.wantsValue then some (p.record (some value)).afterValue else none
  | .other => if p.wantsValue then some (p.record none).afterValue else none

end Progress

/-- **The outermost members of a text** that is an array or an object as
a whole, and whether it is an object. -/
def members? (text : String) : Option (Bool × List Member) := do
  let tokens ← tokens? 0 text.toList
  let p ← tokens.foldlM Progress.step Progress.start
  guard (p.expected = .nothing)
  return (← p.isObject, p.members.reverse)

end Json

end Stylesheet
