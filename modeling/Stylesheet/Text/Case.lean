import Stylesheet.Text.Basic
import Stylesheet.Text.CaseTable

/-!
# Making letters small

The full lowercase mapping of Unicode. Every character has a small form
of its own, with two exceptions: the dotted capital I becomes two
characters, and a capital sigma becomes the final sigma at the end of a
word. A sigma is at the end of a word when a character with case comes
before it and none comes after it, not counting characters such as
apostrophes and accents that stand inside words.
-/

namespace Stylesheet.Text

/-- Whether a code point is one of the capitals of a run. -/
def CapitalRun.holds (run : CapitalRun) (code : Nat) : Bool :=
  run.first ≤ code && code ≤ run.last && (code - run.first) % run.step == 0

/-- **The small letter of a character**, where there is exactly one. -/
def lowerChar (c : Char) : Char :=
  if c.toNat < 0x80 then c.toLower
  else
    match capitalRuns.find? (·.holds c.toNat) with
    | some run => Char.ofNat ((c.toNat : Int) + run.offset).toNat
    | none => c

/-- Whether the first character that is not passed over has case. -/
def casedComesFirst (cs : List Char) : Bool :=
  match cs.dropWhile (inRanges caseIgnorableRanges) with
  | c :: _ => inRanges casedRanges c
  | [] => false

/-- **The small form of a text**, given the characters before it, the
nearest first. -/
def lowerAfter (before : List Char) : List Char → List Char
  | [] => []
  | c :: cs =>
    let small :=
      if c = 'Σ' then
        [if casedComesFirst before && !casedComesFirst cs then 'ς' else 'σ']
      else if c = 'İ' then ['i', Char.ofNat 0x307]
      else [lowerChar c]
    small ++ lowerAfter (c :: before) cs

/-- **The small form of a text.** -/
def lower (s : String) : String :=
  if s.toList.all (·.toNat < 0x80) then asciiLower s
  else String.ofList (lowerAfter [] s.toList)

end Stylesheet.Text
