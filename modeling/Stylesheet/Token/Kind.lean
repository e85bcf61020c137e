/-!
# Kinds of tokens

The classes into which the text of a stylesheet is cut. Every kind has
an upper-case name used in messages, and the kinds that always look the
same are described there by their text instead.

A number token with a unit is of the unit's kind; a unit that is not
listed makes a plain dimension.
-/

namespace Stylesheet

/-- **The kinds of tokens.** -/
inductive TokenKind where
  /-- The end of the source. -/
  | eof
  /-- Written `&`. -/
  | amp
  /-- Written `@name`. -/
  | at
  /-- Written `|=`, `~=`, `^=`, `*=` or `$=`. -/
  | attrEq
  /-- Written `<!--` or `-->`. -/
  | cdco
  /-- A character that has no token of its own. -/
  | char
  /-- Written `:`. -/
  | colon
  /-- Written `~` or `||`; `+` and `>` are also operators and have kinds of their own. -/
  | combinator
  /-- Written `,`. -/
  | comma
  /-- Written `/* … */`. -/
  | comment
  /-- Written `!`. -/
  | delim
  /-- Written `.`. -/
  | dot
  /-- Written `=`. -/
  | equals
  /-- Written `>=` or `<=`. -/
  | eqCmp
  /-- Written `name(`. -/
  | function
  /-- Written `>`. -/
  | gt
  /-- Written `#name`. -/
  | hash
  /-- A name. -/
  | ident
  /-- A string that is not closed, or a broken range of code points. -/
  | invalid
  /-- Written `{`. -/
  | lBrace
  /-- Written `[`. -/
  | lBracket
  /-- Written `(`. -/
  | lParen
  /-- Written `-`. -/
  | minus
  /-- Written `|`. -/
  | pipe
  /-- Written `+`. -/
  | plus
  /-- Written `}`. -/
  | rBrace
  /-- Written `]`. -/
  | rBracket
  /-- Written `)`. -/
  | rParen
  /-- Written `;`. -/
  | semicolon
  /-- Written `*`. -/
  | star
  /-- A quoted string. -/
  | string
  /-- A range of code points, such as `U+26` or `U+0-7F`. -/
  | uRange
  /-- Written `url(…)` with a plain address. -/
  | uri
  /-- A placeholder, written as the comment `/*[[name]]*/`. -/
  | uvar
  /-- A run of blanks. -/
  | whitespace
  /-- A number with a unit of angle. -/
  | angle
  /-- A number with a unit that is not known. -/
  | dimension
  /-- A number with a unit of flexible size. -/
  | flex
  /-- A number with a unit of frequency. -/
  | frequency
  /-- A number with a unit of length. -/
  | length
  /-- A number without a unit. -/
  | number
  /-- A number with a percent sign. -/
  | percentage
  /-- A number with a unit of resolution. -/
  | resolution
  /-- A number with a unit of time. -/
  | time
  deriving DecidableEq, Repr

namespace TokenKind

/-- The name of a kind in messages. -/
def name : TokenKind → String
  | .eof => "EOF"
  | .amp => "AMP"
  | .at => "AT"
  | .attrEq => "ATTR_EQ"
  | .cdco => "CDCO"
  | .char => "CHAR"
  | .colon => "COLON"
  | .combinator => "COMBINATOR"
  | .comma => "COMMA"
  | .comment => "COMMENT"
  | .delim => "DELIM"
  | .dot => "DOT"
  | .equals => "EQUALS"
  | .eqCmp => "EQ_CMP"
  | .function => "FUNCTION"
  | .gt => "GT"
  | .hash => "HASH"
  | .ident => "IDENT"
  | .invalid => "INVALID"
  | .lBrace => "LBRACE"
  | .lBracket => "LBRACKET"
  | .lParen => "LPAREN"
  | .minus => "MINUS"
  | .pipe => "PIPE"
  | .plus => "PLUS"
  | .rBrace => "RBRACE"
  | .rBracket => "RBRACKET"
  | .rParen => "RPAREN"
  | .semicolon => "SEMICOLON"
  | .star => "STAR"
  | .string => "STRING"
  | .uRange => "URANGE"
  | .uri => "URI"
  | .uvar => "UVAR"
  | .whitespace => "WS"
  | .angle => "ANGLE"
  | .dimension => "DIMENSION"
  | .flex => "FLEX"
  | .frequency => "FREQUENCY"
  | .length => "LENGTH"
  | .number => "NUMBER"
  | .percentage => "PCT"
  | .resolution => "RESOLUTION"
  | .time => "TIME"

/-- The name of a kind in dumps and event lines. -/
def label : TokenKind → String
  | .eof => "Eof"
  | .amp => "Amp"
  | .at => "At"
  | .attrEq => "AttrEq"
  | .cdco => "Cdco"
  | .char => "Char"
  | .colon => "Colon"
  | .combinator => "Combinator"
  | .comma => "Comma"
  | .comment => "Comment"
  | .delim => "Delim"
  | .dot => "Dot"
  | .equals => "Equals"
  | .eqCmp => "EqCmp"
  | .function => "Function"
  | .gt => "Gt"
  | .hash => "Hash"
  | .ident => "Ident"
  | .invalid => "Invalid"
  | .lBrace => "LBrace"
  | .lBracket => "LBracket"
  | .lParen => "LParen"
  | .minus => "Minus"
  | .pipe => "Pipe"
  | .plus => "Plus"
  | .rBrace => "RBrace"
  | .rBracket => "RBracket"
  | .rParen => "RParen"
  | .semicolon => "Semicolon"
  | .star => "Star"
  | .string => "String"
  | .uRange => "URange"
  | .uri => "Uri"
  | .uvar => "Uvar"
  | .whitespace => "Whitespace"
  | .angle => "Angle"
  | .dimension => "Dimension"
  | .flex => "Flex"
  | .frequency => "Frequency"
  | .length => "Length"
  | .number => "Number"
  | .percentage => "Percentage"
  | .resolution => "Resolution"
  | .time => "Time"

/-- All kinds. -/
def all : List TokenKind := [
  .eof, .amp, .at, .attrEq, .cdco, .char, .colon, .combinator, .comma, .comment, .delim,
  .dot, .equals, .eqCmp, .function, .gt, .hash, .ident, .invalid, .lBrace, .lBracket,
  .lParen, .minus, .pipe, .plus, .rBrace, .rBracket, .rParen, .semicolon, .star, .string,
  .uRange, .uri, .uvar, .whitespace, .angle, .dimension, .flex, .frequency, .length,
  .number, .percentage, .resolution, .time]

/-- The kind with a given name. -/
def ofName? (name : String) : Option TokenKind := all.find? (·.name == name)

/-- The texts of a kind whose tokens always look the same. -/
def texts : TokenKind → List String
  | .amp => ["&"]
  | .attrEq => ["|=", "~=", "^=", "*=", "$="]
  | .colon => [":"]
  | .combinator => ["~", "||"]
  | .comma => [","]
  | .delim => ["!"]
  | .dot => ["."]
  | .equals => ["="]
  | .eqCmp => [">=", "<="]
  | .gt => [">"]
  | .hash => ["#"]
  | .lBrace => ["\x7b"]
  | .lBracket => ["["]
  | .lParen => ["("]
  | .minus => ["-"]
  | .pipe => ["|"]
  | .plus => ["+"]
  | .rBrace => ["\x7d"]
  | .rBracket => ["]"]
  | .rParen => [")"]
  | .semicolon => [";"]
  | .star => ["*"]
  | _ => []

/-- **A kind as a message expects it**: its texts in quotes, or its name
when it has none. -/
def describe (kind : TokenKind) : String :=
  match kind.texts with
  | [] => kind.name
  | texts => "\"" ++ ",".intercalate texts ++ "\""

/-- Several kinds as a message expects them. -/
def describeAll (kinds : List TokenKind) : String := ", ".intercalate (kinds.map describe)

/-- The kind of a character that is a token by itself. -/
def ofChar? : Char → Option TokenKind
  | '&' => some .amp
  | ':' => some .colon
  | '~' => some .combinator
  | ',' => some .comma
  | '!' => some .delim
  | '.' => some .dot
  | '=' => some .equals
  | '>' => some .gt
  | '\x7b' => some .lBrace
  | '[' => some .lBracket
  | '(' => some .lParen
  | '-' => some .minus
  | '|' => some .pipe
  | '+' => some .plus
  | '\x7d' => some .rBrace
  | ']' => some .rBracket
  | ')' => some .rParen
  | ';' => some .semicolon
  | '*' => some .star
  | _ => none

/-- Numbers, with or without a unit. -/
def isNumeric : TokenKind → Bool
  | .angle | .dimension | .flex | .frequency | .length | .number | .percentage
  | .resolution | .time => true
  | _ => false

/-- Tokens that are passed over unless asked for. -/
def isHidden : TokenKind → Bool
  | .comment | .whitespace | .uvar => true
  | _ => false

end TokenKind

end Stylesheet

namespace Stylesheet.Unit

/-! ## Units -/

/-- Units of length. -/
def lengths : List String := [
  "cap", "ch", "em", "ex", "ic", "lh", "rcap", "rch", "rem", "rex", "ric", "rlh", "cm",
  "mm", "in", "pc", "pt", "px", "q", "cqw", "cqh", "cqi", "cqb", "cqmin", "cqmax", "vb",
  "vi", "vh", "vw", "vmin", "vmax", "dvb", "dvi", "dvh", "dvw", "dvmin", "dvmax", "lvb",
  "lvi", "lvh", "lvw", "lvmin", "lvmax", "svb", "svi", "svh", "svw", "svmin", "svmax"]

/-- **The known units**: for each measure, the kind of token it makes
and its units, all in small letters. -/
def known : List (TokenKind × List String) := [
  (.length, lengths),
  (.angle, ["deg", "grad", "rad", "turn"]),
  (.flex, ["fr"]),
  (.frequency, ["hz", "khz"]),
  (.resolution, ["dpcm", "dpi", "dppx", "x"]),
  (.time, ["ms", "s"])]

/-- The kind of number a unit makes, if the unit is known. -/
def kind? (unit : String) : Option TokenKind :=
  (known.find? fun entry => entry.2.contains unit).map (·.1)

end Stylesheet.Unit
