import Stylesheet.Value

/-!
# Basic types

The types of a grammar that a single part of a value either has or has
not. Where a number is asked for, a function that computes one will do,
and where a length or a percentage is asked for, a zero without unit
will do as well.
-/

namespace Stylesheet.Grammar

/-- **The models of relative colors**, by the letters of their channels. -/
inductive ColorModel where
  /-- Hue, saturation, lightness. -/
  | hsl
  /-- Hue, whiteness, blackness. -/
  | hwb
  /-- Lightness and two axes. -/
  | lab
  /-- Lightness, chroma, hue. -/
  | lch
  /-- Red, green, blue. -/
  | rgb
  deriving DecidableEq, Repr

/-- The letters of a model, which are also its name. -/
def ColorModel.letters : ColorModel → String
  | .hsl => "hsl"
  | .hwb => "hwb"
  | .lab => "lab"
  | .lch => "lch"
  | .rgb => "rgb"

/-- **The basic types.** -/
inductive BasicType where
  /-- A name of something that can change. -/
  | animatableName
  /-- An angle. -/
  | angle
  /-- An angle or zero. -/
  | angleOrZero
  /-- A string of four visible ASCII characters. -/
  | ascii4
  /-- A reference to an attribute. -/
  | attr
  /-- A name that is not one of the global words. -/
  | customIdent
  /-- A name that begins with two dashes. -/
  | customProp
  /-- A share of free space. -/
  | flex
  /-- Any function. -/
  | func
  /-- A hue, as a number or an angle. -/
  | hue
  /-- A name. -/
  | ident
  /-- A name of a grid line. -/
  | identForGrid
  /-- A name other than `none`. -/
  | identNotNone
  /-- A `progid:` filter. -/
  | ieFunction
  /-- An integer. -/
  | int
  /-- Zero or one. -/
  | int01
  /-- An integer that is not negative. -/
  | int0
  /-- A positive integer. -/
  | int1
  /-- An integer from two to four. -/
  | int24
  /-- A length. -/
  | len
  /-- A length that is not negative. -/
  | len0
  /-- A length or a percentage. -/
  | lenPct
  /-- A length or a percentage that is not negative. -/
  | lenPct0
  /-- A color by name or in hexadecimal digits. -/
  | plainColor
  /-- A number. -/
  | num
  /-- A number that is not negative. -/
  | num0
  /-- A number from zero to one. -/
  | num01
  /-- A number from one to a thousand. -/
  | num1000
  /-- A number or a percentage. -/
  | numPct
  /-- A number or a percentage that is not negative. -/
  | numPct0
  /-- A number, a percentage or `none`. -/
  | numPctNone
  /-- A percentage. -/
  | pct
  /-- A percentage that is not negative. -/
  | pct0
  /-- A percentage from zero to a hundred. -/
  | pct100
  /-- The name of an animation. -/
  | keyframesName
  /-- A resolution. -/
  | resolution
  /-- A quoted string. -/
  | string
  /-- A time. -/
  | time
  /-- A time that is not negative. -/
  | time0
  /-- A range of code points. -/
  | unicodeRange
  /-- An address. -/
  | uri
  /-- A channel of a color model, or `none`. -/
  | channel (model : ColorModel)
  /-- A channel of a color model, a number, a percentage or `none`. -/
  | channelOrNumber (model : ColorModel)
  deriving DecidableEq, Repr

namespace BasicType

/-- **The name of a type**, in angle brackets. -/
def name : BasicType → String
  | .animatableName => "<animateable-feature-name>"
  | .angle => "<angle>"
  | .angleOrZero => "<angle-or-0>"
  | .ascii4 => "<ascii4>"
  | .attr => "<attr>"
  | .customIdent => "<custom-ident>"
  | .customProp => "<custom-prop>"
  | .flex => "<flex>"
  | .func => "<func>"
  | .hue => "<hue>"
  | .ident => "<ident>"
  | .identForGrid => "<ident-for-grid>"
  | .identNotNone => "<ident-not-none>"
  | .ieFunction => "<ie-function>"
  | .int => "<int>"
  | .int01 => "<int0-1>"
  | .int0 => "<int0+>"
  | .int1 => "<int1+>"
  | .int24 => "<int2-4>"
  | .len => "<len>"
  | .len0 => "<len0+>"
  | .lenPct => "<len-pct>"
  | .lenPct0 => "<len-pct0+>"
  | .plainColor => "<named-or-hex-color>"
  | .num => "<num>"
  | .num0 => "<num0+>"
  | .num01 => "<num0-1>"
  | .num1000 => "<num1-1000>"
  | .numPct => "<num-pct>"
  | .numPct0 => "<num-pct0+>"
  | .numPctNone => "<num-pct-none>"
  | .pct => "<pct>"
  | .pct0 => "<pct0+>"
  | .pct100 => "<pct0-100>"
  | .keyframesName => "<keyframes-name>"
  | .resolution => "<resolution>"
  | .string => "<string>"
  | .time => "<time>"
  | .time0 => "<time0+>"
  | .unicodeRange => "<unicode-range>"
  | .uri => "<uri>"
  | .channel model => "<rel-" ++ model.letters ++ ">"
  | .channelOrNumber model => "<rel-" ++ model.letters ++ "-num-pct>"

/-- All basic types. -/
def all : List BasicType := [
  .animatableName, .angle, .angleOrZero, .ascii4, .attr, .customIdent, .customProp, .flex,
  .func, .hue, .ident, .identForGrid, .identNotNone, .ieFunction, .int, .int01, .int0,
  .int1, .int24, .len, .len0, .lenPct, .lenPct0, .plainColor, .num, .num0, .num01, .num1000,
  .numPct, .numPct0, .numPctNone, .pct, .pct0, .pct100, .keyframesName, .resolution,
  .string, .time, .time0, .unicodeRange, .uri, .channel .hsl, .channel .hwb, .channel .lab,
  .channel .lch, .channel .rgb, .channelOrNumber .hsl, .channelOrNumber .hwb,
  .channelOrNumber .lab, .channelOrNumber .lch, .channelOrNumber .rgb]

/-- The basic type of a name. -/
def ofName? (name : String) : Option BasicType := all.find? (·.name == name)

/-! ## Tests -/

/-- A name that is not one of the global words. -/
def isCustomIdent (p : ValuePart) : Bool :=
  p.kind == .ident && !Keywords.global.has p.token.text

/-- A name that is neither a global word nor one of some others. -/
def isCustomIdentExcept (excluded : List String) (p : ValuePart) : Bool :=
  isCustomIdent p && !excluded.any (Text.eqIgnoreCase · p.token.text)

/-- Four characters from the space to the tilde. -/
def isAscii4 (s : String) : Bool :=
  s.toList.length == 4 && s.toList.all fun c => ' ' ≤ c && c ≤ '~'

/-- The value of an integer without unit. -/
def integer (p : ValuePart) : Option Binary64 :=
  if p.kind == .number && p.token.isInt then p.number else none

/-- The value of a number of one of some kinds. -/
def numberOf (kinds : List TokenKind) (p : ValuePart) : Option Binary64 :=
  if kinds.contains p.kind then p.number else none

/-- A number that is there and is not negative. -/
def atLeastZero (n : Option Binary64) : Bool := n.any (Binary64.zero.le ·)

/-- A number that is there and lies between two bounds. -/
def inRange (n : Option Binary64) (low high : Nat) : Bool :=
  n.any fun n => (Binary64.ofNat low).le n && n.le (.ofNat high)

/-- A letter of a color model, or `alpha`. -/
def isChannel (model : ColorModel) (p : ValuePart) : Bool :=
  p.kind == .ident &&
    match (Text.asciiLower p.token.text).toList with
    | [c] => model.letters.toList.contains c
    | text => text == "alpha".toList

/-- **Whether a part of a value is of a type.** -/
def holds (type : BasicType) (p : ValuePart) : Bool :=
  match type with
  | .animatableName => isCustomIdentExcept ["will-change", "auto", "scroll-position", "contents"] p
  | .angle => p.isCalc || p.kind == .angle
  | .angleOrZero => p.isCalc || p.isZero || p.kind == .angle
  | .ascii4 => p.kind == .string && isAscii4 p.token.name
  | .attr => p.isAttr
  | .customIdent => isCustomIdent p
  | .customProp => p.type == .customProperty
  | .flex => p.isCalc || atLeastZero (numberOf [.flex] p)
  | .func => p.type == .function
  | .hue => p.isCalc || p.kind == .number || p.kind == .angle
  | .ident => p.kind == .ident
  | .identForGrid => isCustomIdentExcept ["span", "auto"] p
  | .identNotNone => p.kind == .ident && !p.isNone
  | .ieFunction => p.token.isFilterFunction
  | .int => p.isCalc || (integer p).isSome
  | .int01 => p.isCalc || p.isZero || (integer p).any (·.same (.ofNat 1))
  | .int0 => p.isCalc || atLeastZero (integer p)
  | .int1 => p.isCalc || (integer p).any (Binary64.zero.lt ·)
  | .int24 => p.isCalc || inRange (integer p) 2 4
  | .len => p.isCalc || p.isZero || p.kind == .length
  | .len0 => p.isCalc || p.isZero || atLeastZero (numberOf [.length] p)
  | .lenPct => p.isCalc || p.isZero || p.kind == .length || p.kind == .percentage
  | .lenPct0 => p.isCalc || p.isZero || atLeastZero (numberOf [.length, .percentage] p)
  | .plainColor => p.type == .color
  | .num => p.isCalc || p.kind == .number
  | .num0 => p.isCalc || atLeastZero (numberOf [.number] p)
  | .num01 => p.isCalc || inRange (numberOf [.number] p) 0 1
  | .num1000 => p.isCalc || inRange (numberOf [.number] p) 1 1000
  | .numPct => p.isCalc || p.kind == .number || p.kind == .percentage
  | .numPct0 => p.isCalc || atLeastZero (numberOf [.number, .percentage] p)
  | .numPctNone => p.isCalc || p.isNone || p.kind == .number || p.kind == .percentage
  | .pct => p.isCalc || p.isZero || p.kind == .percentage
  | .pct0 => p.isCalc || p.isZero || atLeastZero (numberOf [.percentage] p)
  | .pct100 => p.isCalc || p.isZero || inRange (numberOf [.percentage] p) 0 100
  | .keyframesName => isCustomIdent p || p.kind == .string
  | .resolution => p.kind == .resolution
  | .string => p.kind == .string
  | .time => p.isCalc || p.kind == .time
  | .time0 => p.isCalc || atLeastZero (numberOf [.time] p)
  | .unicodeRange => p.kind == .uRange
  | .uri => p.type == .uri
  | .channel model => p.isNone || isChannel model p
  | .channelOrNumber model =>
    p.isNone || p.isCalc || p.kind == .number || p.kind == .percentage || isChannel model p

end BasicType

end Stylesheet.Grammar
