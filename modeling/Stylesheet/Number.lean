/-!
# Double-precision numbers

The numbers of a stylesheet are held as IEEE 754 doubles: a sign and a
**magnitude word**, the 63 bits below the sign. Of two words the greater
is the greater magnitude, so numbers are compared by their words, and
the word of infinity is the least that no finite number has.

A decimal is read by rounding it once, to the nearest double and to the
even one of two equally near (`ofDecimal`); the arithmetic is exact
throughout, on natural numbers.

A double is written with **the fewest digits that read back** to it, and
of those with the digits nearest to its value. For one digit, two
digits and so on up to seventeen, the two decimals of that many digits
around the value are read back; the first length at which one of them
returns the double is the one taken.

Where the point goes is decided by a `Layout`: how far from the digits
a point may stand before an exponent is written instead, how the
exponent is signed, and what infinity is called. Each kind of report
has its own layout.
-/

namespace Stylesheet

/-- **A double that is a number**: no word of a NaN is ever built. -/
structure Binary64 where
  /-- Whether the sign bit is set; a zero can have it too. -/
  negative : Bool
  /-- The 63 bits below the sign. -/
  magnitude : Nat
  deriving DecidableEq, Repr

namespace Binary64

/-- The magnitude word of infinity. -/
def infiniteWord : Nat := 0x7FF * Nat.pow 2 52

/-- The positive zero. -/
def zero : Binary64 := ⟨false, 0⟩

/-- A zero of either sign. -/
def isZero (x : Binary64) : Bool := x.magnitude == 0

/-- An infinity of either sign. -/
def isInfinite (x : Binary64) : Bool := x.magnitude == infiniteWord

/-- The 64 bits, sign first. -/
def word (x : Binary64) : Nat := (if x.negative then Nat.pow 2 63 else 0) + x.magnitude

/-- **The order key**: the two zeros share one, and every other key is
the magnitude word with the sign of the number. -/
def key (x : Binary64) : Int := if x.negative then -(x.magnitude : Int) else x.magnitude

/-- The order of the numbers. -/
def le (x y : Binary64) : Bool := x.key ≤ y.key

/-- The strict order of the numbers. -/
def lt (x y : Binary64) : Bool := x.key < y.key

/-- Equality of the numbers, which takes the two zeros for one. -/
def same (x y : Binary64) : Bool := x.key == y.key

/-! ## Reading -/

/-- The exponent of the greatest power of two that is not above a
quotient of positive numbers. -/
def binaryOrder (num den : Nat) : Int :=
  let k : Int := (num.log2 : Int) - den.log2
  if den * Nat.pow 2 k.toNat ≤ num * Nat.pow 2 (-k).toNat then k else k - 1

/-- A quotient rounded to the nearest natural number, a tie to the even
one. -/
def roundQuotient (num den : Nat) : Nat :=
  let q := num / den
  let twice := 2 * (num % den)
  if twice < den then q
  else if den < twice then q + 1
  else q + q % 2

/-- **The magnitude word nearest to a quotient** of positive numbers.
The last place kept is worth 2 to the power `place`; a significand that
rounds up to the next power of two carries into the exponent by itself,
because the word counts significands. -/
def nearestWord (num den : Nat) : Nat :=
  let place := max (binaryOrder num den - 52) (-1074)
  let significand := roundQuotient (num * Nat.pow 2 (-place).toNat) (den * Nat.pow 2 place.toNat)
  min ((place + 1074).toNat * Nat.pow 2 52 + significand) infiniteWord

/-- **The double nearest to a decimal** `±digits · 10 ^ exponent`.
Exponents that put the number far outside the range of doubles are
settled without computing the power. -/
def ofDecimal (negative : Bool) (digits : Nat) (exponent : Int) : Binary64 :=
  let size : Int := (Nat.toDigits 10 digits).length
  if digits = 0 then ⟨negative, 0⟩
  else if 310 < size + exponent then ⟨negative, infiniteWord⟩
  else if size + exponent < -330 then ⟨negative, 0⟩
  else ⟨negative, nearestWord (digits * Nat.pow 10 exponent.toNat) (Nat.pow 10 (-exponent).toNat)⟩

/-- The double nearest to a natural number. -/
def ofNat (n : Nat) : Binary64 := ofDecimal false n 0

/-- **The double nearest to a quotient** of natural numbers. -/
def ofQuotient (num den : Nat) : Binary64 :=
  if num = 0 then zero else ⟨false, nearestWord num den⟩

/-! ## Exact values -/

/-- The significand and the exponent of two whose product is the
magnitude. -/
def significandExponent (x : Binary64) : Nat × Int :=
  let field : Nat := x.magnitude / Nat.pow 2 52
  let fraction := x.magnitude % Nat.pow 2 52
  if field = 0 then (fraction, -1074) else (fraction + Nat.pow 2 52, (field : Int) - 1075)

/-- The magnitude as an exact quotient. -/
def quotient (x : Binary64) : Nat × Nat :=
  let (m, e) := x.significandExponent
  (m * Nat.pow 2 e.toNat, Nat.pow 2 (-e).toNat)

/-- The sum of two numbers that are not negative, rounded once. -/
def addPositive (x y : Binary64) : Binary64 :=
  let (n, d) := x.quotient
  let (m, e) := y.quotient
  ofQuotient (n * e + m * d) (d * e)

end Binary64

/-! ## Writing doubles in decimal -/

/-- **A positive decimal**: the number `digits · 10 ^ exponent`. -/
structure Decimal where
  /-- The digits, as one number. -/
  digits : Nat
  /-- The power of ten they count. -/
  exponent : Int
  deriving DecidableEq, Repr

namespace Decimal

/-- The digits as a text. -/
def digitText (d : Decimal) : List Char := Nat.toDigits 10 d.digits

/-- The place of the point, counted from the front of the digits. -/
def point (d : Decimal) : Int := d.digitText.length + d.exponent

/-- The same number without zeros at the end of its digits. -/
def trimZeros : Nat → Decimal → Decimal
  | 0, d => d
  | fuel + 1, d =>
    if d.digits ≠ 0 && d.digits % 10 == 0 then
      trimZeros fuel ⟨d.digits / 10, d.exponent + 1⟩
    else d

/-- The exponent of ten of the leading digit of a quotient: the least
power of ten above the quotient, less one. -/
def decimalOrder (num den : Nat) : Int :=
  let guess : Int := ((Nat.toDigits 10 num).length : Int) - (Nat.toDigits 10 den).length
  if den * Nat.pow 10 guess.toNat ≤ num * Nat.pow 10 (-guess).toNat then guess else guess - 1

/-- **The decimals of `count` digits around a quotient**, the nearer
first; the even one when both are equally near. -/
def neighbours (num den count : Nat) : List Decimal :=
  let exponent := decimalOrder num den - (count : Int) + 1
  let n := num * Nat.pow 10 (-exponent).toNat
  let d := den * Nat.pow 10 exponent.toNat
  let q := n / d
  let twice := 2 * (n % d)
  let below : Decimal := ⟨q, exponent⟩
  let above : Decimal := ⟨q + 1, exponent⟩
  if twice < d || (twice == d && q % 2 == 0) then [below, above] else [above, below]

/-- **The shortest decimal that reads back** to a positive finite double. -/
def shortest (x : Binary64) : Decimal :=
  let (num, den) := x.quotient
  let candidates := (List.range 17).flatMap fun i => neighbours num den (i + 1)
  let reads (d : Decimal) : Bool :=
    (Binary64.ofDecimal false d.digits d.exponent).magnitude == x.magnitude
  trimZeros 20 ((candidates.find? reads).getD ⟨0, 0⟩)

end Decimal

/-- **How a kind of report lays out numbers.** -/
structure Layout where
  /-- The lowest place of the point that is written without an
  exponent. -/
  lowestPoint : Int
  /-- The highest place of the point that is written without an
  exponent. -/
  highestPoint : Int
  /-- What is written before an exponent that is not negative. -/
  exponentSign : String
  /-- The name of positive infinity. -/
  infinity : String

namespace Layout

/-- Digits with the point at a place, and a zero where it would stand at
the edge. -/
def positional (digits : List Char) (point : Int) : List Char :=
  if point ≤ 0 then
    ['0', '.'] ++ List.replicate (-point).toNat '0' ++ digits
  else if digits.length ≤ point.toNat then
    digits ++ List.replicate (point.toNat - digits.length) '0' ++ ['.', '0']
  else digits.take point.toNat ++ '.' :: digits.drop point.toNat

/-- Digits with the point after the first, and an exponent. -/
def scientific (layout : Layout) (digits : List Char) (point : Int) : List Char :=
  let exponent := point - 1
  let sign := if exponent < 0 then "-" else layout.exponentSign
  let fraction := digits.drop 1
  digits.take 1 ++ (if fraction.isEmpty then [] else '.' :: fraction) ++
    'e' :: sign.toList ++ Nat.toDigits 10 exponent.natAbs

/-- **The text of a double in a layout.** -/
def write (layout : Layout) (x : Binary64) : String :=
  let sign := if x.negative then "-" else ""
  if x.isInfinite then sign ++ layout.infinity
  else if x.isZero then sign ++ "0.0"
  else
    let d := Decimal.shortest x
    let text :=
      if layout.lowestPoint ≤ d.point && d.point ≤ layout.highestPoint then
        positional d.digitText d.point
      else layout.scientific d.digitText d.point
    sign ++ String.ofList text

end Layout

end Stylesheet
