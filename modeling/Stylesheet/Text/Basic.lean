/-!
# Characters, bytes and letter case

Texts are lists of characters wherever the library reasons about them,
and `String`s where they are only carried along. A place in a text is
a **byte offset** into its UTF-8 form, so this module fixes once how
many bytes a list of characters takes, and what stands before and
after a byte offset. An offset inside a character, or beyond the end,
divides no text, and the cutting functions answer `none` there.

ASCII letter case is a matter of single characters and is settled here
too; the full case mapping is in `Stylesheet.Text.Case`.

A property of characters that follows no rule is a list of ranges of
code points, both ends included; the tables of the larger ones are in the
modules named for the properties. The white space of Unicode is a small
one, and stands here with the texts without it at their ends.
-/

namespace Stylesheet.Text

/-- **The length in bytes** of the UTF-8 form of a text. -/
def byteLength : List Char → Nat
  | [] => 0
  | c :: cs => c.utf8Size + byteLength cs

@[simp]
theorem byteLength_nil : byteLength [] = 0 := rfl

@[simp]
theorem byteLength_cons (c : Char) (cs : List Char) :
    byteLength (c :: cs) = c.utf8Size + byteLength cs := rfl

/-- The byte lengths of two texts written one after the other add up. -/
@[simp]
theorem byteLength_append (cs ds : List Char) :
    byteLength (cs ++ ds) = byteLength cs + byteLength ds := by
  induction cs with
  | nil => simp
  | cons c cs ih => simp [ih, Nat.add_assoc]

/-- **What follows a byte offset**; `none` when the offset does not lie
on the boundary of a character of the text. -/
def dropBytes? : List Char → Nat → Option (List Char)
  | cs, 0 => some cs
  | [], _ + 1 => none
  | c :: cs, n + 1 =>
    if c.utf8Size ≤ n + 1 then dropBytes? cs (n + 1 - c.utf8Size) else none

/-- **What precedes a byte offset**; `none` when the offset does not lie
on the boundary of a character of the text. -/
def takeBytes? : List Char → Nat → Option (List Char)
  | _, 0 => some []
  | [], _ + 1 => none
  | c :: cs, n + 1 =>
    if c.utf8Size ≤ n + 1 then
      (takeBytes? cs (n + 1 - c.utf8Size)).map (c :: ·)
    else none

/-- **The text from a byte offset on**, empty when nothing starts there. -/
def suffixAt (cs : List Char) (offset : Nat) : List Char :=
  (dropBytes? cs offset).getD []

/-- **The text between two byte offsets**, empty when they are out of
order or do not both lie on boundaries of characters. -/
def slice (cs : List Char) (start stop : Nat) : List Char :=
  if start ≤ stop then
    (do takeBytes? (← dropBytes? cs start) (stop - start)).getD []
  else []

theorem dropBytes?_zero (cs : List Char) : dropBytes? cs 0 = some cs := by
  cases cs <;> rfl

/-- **Dropping the bytes of a text that comes first leaves the rest.** -/
theorem dropBytes?_append (cs ds : List Char) :
    dropBytes? (cs ++ ds) (byteLength cs) = some ds := by
  induction cs with
  | nil => exact dropBytes?_zero ds
  | cons c cs ih =>
    obtain ⟨n, hn⟩ : ∃ n, c.utf8Size + byteLength cs = n + 1 :=
      ⟨c.utf8Size + byteLength cs - 1, by have := c.utf8Size_pos; omega⟩
    rw [List.cons_append, byteLength_cons, hn, dropBytes?, if_pos (by omega), ← hn,
      Nat.add_sub_cancel_left]
    exact ih

/-- **Offsets add up along a text**: what follows the text `p` found at
an offset stands `p`'s bytes further on. -/
theorem dropBytes?_add {cs p s : List Char} {n : Nat}
    (h : dropBytes? cs n = some (p ++ s)) :
    dropBytes? cs (n + byteLength p) = some s := by
  induction cs generalizing n with
  | nil =>
    cases n with
    | zero =>
      obtain ⟨rfl, rfl⟩ : p = [] ∧ s = [] := by
        simpa [dropBytes?, eq_comm] using h
      simp [dropBytes?]
    | succ n => simp [dropBytes?] at h
  | cons c cs ih =>
    cases n with
    | zero =>
      rw [dropBytes?_zero, Option.some.injEq] at h
      rw [h, Nat.zero_add]
      exact dropBytes?_append p s
    | succ n =>
      rw [dropBytes?] at h
      split at h
      · next hc =>
        rw [show n + 1 + byteLength p = n + byteLength p + 1 by omega, dropBytes?,
          if_pos (by omega)]
        rw [show n + byteLength p + 1 - c.utf8Size = n + 1 - c.utf8Size + byteLength p by omega]
        exact ih h
      · simp at h

/-- The same for the text from an offset on. -/
theorem suffixAt_add {cs p s : List Char} {n : Nat} (h : suffixAt cs n = p ++ s) :
    suffixAt cs (n + byteLength p) = s := by
  unfold suffixAt at h ⊢
  cases hd : dropBytes? cs n with
  | some t =>
    rw [hd, Option.getD_some] at h
    rw [dropBytes?_add (h ▸ hd), Option.getD_some]
  | none =>
    rw [hd, Option.getD_none] at h
    obtain ⟨rfl, rfl⟩ : p = [] ∧ s = [] := by simpa [eq_comm] using h
    simp [hd]

theorem suffixAt_zero (cs : List Char) : suffixAt cs 0 = cs := by
  simp [suffixAt, dropBytes?_zero]

/-! ## Character classes -/

/-- Space, tab and newline, the blanks of a stylesheet whose line ends
have been normalized. -/
def isSpace (c : Char) : Bool := c == ' ' || c == '\t' || c == '\n'

/-- The digits of hexadecimal numbers, in either letter case. -/
def isHexDigit (c : Char) : Bool :=
  c.isDigit || ('a' ≤ c && c ≤ 'f') || ('A' ≤ c && c ≤ 'F')

/-- The value of a hexadecimal digit. -/
def hexDigitValue (c : Char) : Nat :=
  if c.isDigit then c.toNat - '0'.toNat
  else if 'a' ≤ c then c.toNat - 'a'.toNat + 10
  else c.toNat - 'A'.toNat + 10

/-- The number a run of hexadecimal digits stands for. -/
def hexValue (cs : List Char) : Nat :=
  cs.foldl (fun n c => n * 16 + hexDigitValue c) 0

/-- The number a run of decimal digits stands for. -/
def decimalValue (cs : List Char) : Nat :=
  cs.foldl (fun n c => n * 10 + (c.toNat - '0'.toNat)) 0

/-! ## ASCII letter case

`Char.toLower` changes the ASCII capitals and nothing else. -/

/-- A text with its ASCII capitals made small. -/
def asciiLower (s : String) : String := s.map Char.toLower

/-- **Equality up to the case of ASCII letters.** -/
def eqIgnoreCase (s t : String) : Bool :=
  s.toList.map Char.toLower == t.toList.map Char.toLower

/-! ## Shapes of texts -/

/-- A text cut to its first `limit` characters, with three dots where
something was cut off. -/
def clip (s : String) (limit : Nat) : String :=
  if s.toList.length > limit then String.ofList (s.toList.take limit) ++ "..." else s

/-- The text after a given beginning, if it begins so. -/
def stripStart (lead : String) (s : String) : Option String :=
  (lead.toList.isPrefixOf? s.toList).map String.ofList

/-- The text before a given ending, if it ends so. -/
def stripEnd (tail : String) (s : String) : Option String :=
  (tail.toList.isSuffixOf? s.toList).map String.ofList

/-- Whether a text begins with another. -/
def startsWith (s lead : String) : Bool := lead.toList.isPrefixOf s.toList

/-- Whether a text ends with another. -/
def endsWith (s tail : String) : Bool := tail.toList.isSuffixOf s.toList

/-- The number of characters before the first occurrence of a text. -/
def indexOf? (needle : List Char) : List Char → Option Nat
  | [] => if needle.isEmpty then some 0 else none
  | c :: cs =>
    if needle.isPrefixOf (c :: cs) then some 0
    else (indexOf? needle cs).map (· + 1)

/-- A text from a byte offset on, if the offset divides it. -/
def fromByte? (s : String) (offset : Nat) : Option String :=
  (dropBytes? s.toList offset).map String.ofList

/-- A text up to a byte offset, if the offset divides it. -/
def uptoByte? (s : String) (offset : Nat) : Option String :=
  (takeBytes? s.toList offset).map String.ofList

/-! ## Ranges of characters, and blanks -/

/-- **Membership in a list of ranges** of code points. -/
def inRanges (ranges : List (Nat × Nat)) (c : Char) : Bool :=
  ranges.any fun (first, last) => first ≤ c.toNat && c.toNat ≤ last

/-- The ranges of white space. -/
def blankRanges : List (Nat × Nat) := [
  (0x9, 0xD), (0x20, 0x20), (0x85, 0x85), (0xA0, 0xA0), (0x1680, 0x1680), (0x2000, 0x200A),
  (0x2028, 0x2029), (0x202F, 0x202F), (0x205F, 0x205F), (0x3000, 0x3000)]

/-- **White space.** -/
def isBlank (c : Char) : Bool := inRanges blankRanges c

/-- A text without the blanks at its start. -/
def trimStart (s : String) : String := String.ofList (s.toList.dropWhile isBlank)

/-- A text without the blanks at its end. -/
def trimEnd (s : String) : String :=
  String.ofList (s.toList.reverse.dropWhile isBlank).reverse

/-- **A text without the blanks at its ends.** -/
def trim (s : String) : String := trimEnd (trimStart s)

end Stylesheet.Text
