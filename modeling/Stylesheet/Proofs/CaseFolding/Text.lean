import Mathlib.Data.List.TakeWhile
import Mathlib.Tactic.SplitIfs
import Stylesheet.Proofs.LetterCase
import Stylesheet.Reader
import Stylesheet.Token.Keywords

/-!
# Texts with their capitals made small

Making the ASCII capitals of a text small changes no class of characters
that the language knows: digits stay digits, letters stay letters, and a
mark stays the mark it is. So whatever looks at a text through such classes
only finds the same in the small text (`Text.IgnoresCase`), and every
character stays in its place, to the byte.
-/

namespace Stylesheet.Text

/-- **A function that does not tell capitals from small letters.** -/
def IgnoresCase {α : Type} (f : Char → α) : Prop := ∀ c : Char, f c.toLower = f c

/-! ## Characters -/

/-- **What becomes of a character**: it stays, or it is one of the capitals
of ASCII. -/
theorem toLower_cases (c : Char) : c.toLower = c ∨ ∃ n < 26, c = Char.ofNat (0x41 + n) := by
  unfold Char.toLower
  split
  · next h =>
    obtain ⟨hlow, hhigh⟩ := h
    rw [ge_iff_le, UInt32.le_iff_toNat_le] at hlow
    rw [UInt32.le_iff_toNat_le] at hhigh
    have hlow : 0x41 ≤ c.toNat := hlow
    have hhigh : c.toNat ≤ 0x5A := hhigh
    right
    refine ⟨c.toNat - 0x41, by omega, ?_⟩
    rw [Nat.add_sub_cancel' hlow, Char.ofNat_toNat]
  · exact .inl rfl

/-- Only the capitals have to be looked at. -/
theorem ignoresCase_of_capitals {α : Type} {f : Char → α}
    (h : ∀ n < 26, f (Char.ofNat (0x41 + n)).toLower = f (Char.ofNat (0x41 + n))) :
    IgnoresCase f := by
  intro c
  rcases toLower_cases c with hsame | ⟨n, hn, rfl⟩
  · rw [hsame]
  · exact h n hn

/-- **Small letters stay small.** -/
theorem toLower_ignoresCase : IgnoresCase Char.toLower :=
  ignoresCase_of_capitals (by decide)

/-- **A mark** is made by itself only. -/
theorem toLower_eq_mark {x : Char} (hx : IsMark x) (c : Char) : c.toLower = x ↔ c = x := by
  rcases toLower_cases c with hsame | ⟨n, hn, rfl⟩
  · rw [hsame]
  · have hletters : ∀ n < 26, (Char.ofNat (0x41 + n)).isAlpha = true ∧
        (Char.ofNat (0x41 + n)).toLower.isAlpha = true := by decide
    obtain ⟨hcapital, hsmall⟩ := hletters n hn
    constructor
    · rintro rfl
      exact absurd (hsmall.symm.trans hx.2) (by decide)
    · rintro rfl
      exact absurd (hcapital.symm.trans hx.2) (by decide)

/-- Whether a character is a given mark. -/
theorem beq_mark_toLower {x : Char} (hx : IsMark x) (c : Char) : (c.toLower == x) = (c == x) := by
  rw [Bool.eq_iff_iff, beq_iff_eq, beq_iff_eq]
  exact toLower_eq_mark hx c

theorem toLower_mark {x : Char} (hx : IsMark x) : x.toLower = x := (toLower_eq_mark hx x).mpr rfl

theorem utf8Size_ignoresCase : IgnoresCase Char.utf8Size :=
  ignoresCase_of_capitals (by decide)

theorem isSpace_ignoresCase : IgnoresCase isSpace := ignoresCase_of_capitals (by decide)

theorem isBlank_ignoresCase : IgnoresCase isBlank := ignoresCase_of_capitals (by decide)

theorem isHexDigit_ignoresCase : IgnoresCase isHexDigit :=
  ignoresCase_of_capitals (by decide)

theorem isDigit_ignoresCase : IgnoresCase Char.isDigit :=
  ignoresCase_of_capitals (by decide)

/-- Digits are no letters. -/
theorem toLower_digit {c : Char} (h : c.isDigit = true) : c.toLower = c := by
  rcases toLower_cases c with hsame | ⟨n, hn, rfl⟩
  · exact hsame
  · have hnone : ∀ n < 26, (Char.ofNat (0x41 + n)).isDigit = false := by decide
    rw [hnone n hn] at h
    cases h

/-- A hexadecimal digit has its value in either letter case. -/
theorem hexDigitValue_toLower {c : Char} (h : isHexDigit c = true) :
    hexDigitValue c.toLower = hexDigitValue c := by
  rcases toLower_cases c with hsame | ⟨n, hn, rfl⟩
  · rw [hsame]
  · have hletters : ∀ n < 26, isHexDigit (Char.ofNat (0x41 + n)) = true →
        hexDigitValue (Char.ofNat (0x41 + n)).toLower = hexDigitValue (Char.ofNat (0x41 + n)) := by
      decide
    exact hletters n hn h

/-! ## Lists of characters -/

theorem IgnoresCase.comp {α : Type} {f : Char → α} (h : IgnoresCase f) : f ∘ Char.toLower = f :=
  funext h

theorem takeWhile_toLower {p : Char → Bool} (hp : IgnoresCase p) (cs : List Char) :
    (cs.map Char.toLower).takeWhile p = (cs.takeWhile p).map Char.toLower := by
  rw [List.takeWhile_map, hp.comp]

theorem dropWhile_toLower {p : Char → Bool} (hp : IgnoresCase p) (cs : List Char) :
    (cs.map Char.toLower).dropWhile p = (cs.dropWhile p).map Char.toLower := by
  rw [List.dropWhile_map, hp.comp]

theorem all_toLower {p : Char → Bool} (hp : IgnoresCase p) (cs : List Char) :
    (cs.map Char.toLower).all p = cs.all p := by
  rw [List.all_map, hp.comp]

/-- Digits stay the digits they are. -/
theorem takeWhile_digits (cs : List Char) :
    (cs.map Char.toLower).takeWhile Char.isDigit = cs.takeWhile Char.isDigit := by
  rw [takeWhile_toLower isDigit_ignoresCase]
  have hdigits : ∀ c ∈ cs.takeWhile Char.isDigit, c.toLower = id c := fun c hc =>
    toLower_digit (List.mem_takeWhile_imp hc)
  rw [List.map_congr_left hdigits, List.map_id]

/-- **Hexadecimal digits** have their value in either letter case. -/
theorem hexValue_toLower {cs : List Char} (h : ∀ c ∈ cs, isHexDigit c = true) :
    hexValue (cs.map Char.toLower) = hexValue cs := by
  unfold hexValue
  generalize 0 = n
  induction cs generalizing n with
  | nil => rfl
  | cons c cs ih =>
    rw [List.map_cons, List.foldl_cons, List.foldl_cons,
      hexDigitValue_toLower (h c List.mem_cons_self)]
    exact ih (fun d hd => h d (List.mem_cons_of_mem _ hd)) _

/-- A text of marks begins the small text where it begins the text. -/
theorem isPrefixOf?_toLower {lead : List Char} (hlead : lead.all (IsMark ·) = true)
    (cs : List Char) :
    lead.isPrefixOf? (cs.map Char.toLower) = (lead.isPrefixOf? cs).map (·.map Char.toLower) := by
  induction lead generalizing cs with
  | nil => cases cs <;> rfl
  | cons x lead ih =>
    cases cs with
    | nil => rfl
    | cons c cs =>
      rw [List.all_cons, Bool.and_eq_true, decide_eq_true_eq] at hlead
      obtain ⟨hx, hlead⟩ := hlead
      have hsame : (x == c.toLower) = (x == c) := by
        rw [Bool.beq_comm, Bool.beq_comm (a := x)]
        exact beq_mark_toLower hx c
      rw [List.map_cons, List.isPrefixOf?, List.isPrefixOf?, hsame, ih hlead]
      split_ifs <;> rfl

theorem isSuffixOf?_toLower {tail : List Char} (htail : tail.all (IsMark ·) = true)
    (cs : List Char) :
    tail.isSuffixOf? (cs.map Char.toLower) = (tail.isSuffixOf? cs).map (·.map Char.toLower) := by
  unfold List.isSuffixOf?
  rw [← List.map_reverse, isPrefixOf?_toLower (by rw [List.all_reverse]; exact htail),
    Option.map_map, Option.map_map]
  congr 1
  funext ds
  exact List.map_reverse.symm

theorem isPrefixOf_toLower {lead : List Char} (hlead : lead.all (IsMark ·) = true)
    (cs : List Char) : lead.isPrefixOf (cs.map Char.toLower) = lead.isPrefixOf cs := by
  rw [← List.isSome_isPrefixOf?_eq_isPrefixOf, ← List.isSome_isPrefixOf?_eq_isPrefixOf,
    isPrefixOf?_toLower hlead, Option.isSome_map]

theorem indexOf?_toLower {needle : List Char} (hneedle : needle.all (IsMark ·) = true)
    (cs : List Char) : indexOf? needle (cs.map Char.toLower) = indexOf? needle cs := by
  induction cs with
  | nil => rfl
  | cons c cs ih =>
    have hprefix := isPrefixOf_toLower hneedle (c :: cs)
    rw [List.map_cons] at hprefix ⊢
    rw [indexOf?, indexOf?, hprefix, ih]

/-! ## Bytes -/

theorem byteLength_toLower (cs : List Char) : byteLength (cs.map Char.toLower) = byteLength cs := by
  induction cs with
  | nil => rfl
  | cons c cs ih => rw [List.map_cons, byteLength_cons, byteLength_cons, ih, utf8Size_ignoresCase]

/-- **Every character stays at its offset.** -/
theorem dropBytes?_toLower (cs : List Char) (n : Nat) :
    dropBytes? (cs.map Char.toLower) n = (dropBytes? cs n).map (·.map Char.toLower) := by
  induction cs generalizing n with
  | nil => cases n <;> rfl
  | cons c cs ih =>
    cases n with
    | zero => rfl
    | succ n =>
      rw [List.map_cons, dropBytes?, dropBytes?, utf8Size_ignoresCase, ih]
      split_ifs <;> rfl

theorem takeBytes?_toLower (cs : List Char) (n : Nat) :
    takeBytes? (cs.map Char.toLower) n = (takeBytes? cs n).map (·.map Char.toLower) := by
  induction cs generalizing n with
  | nil => cases n <;> rfl
  | cons c cs ih =>
    cases n with
    | zero => rfl
    | succ n =>
      rw [List.map_cons, takeBytes?, takeBytes?, utf8Size_ignoresCase, ih]
      split_ifs
      · rw [Option.map_map, Option.map_map]
        rfl
      · rfl

theorem suffixAt_toLower (cs : List Char) (n : Nat) :
    suffixAt (cs.map Char.toLower) n = (suffixAt cs n).map Char.toLower := by
  unfold suffixAt
  rw [dropBytes?_toLower]
  cases dropBytes? cs n <;> rfl

theorem slice_toLower (cs : List Char) (start stop : Nat) :
    slice (cs.map Char.toLower) start stop = (slice cs start stop).map Char.toLower := by
  unfold slice
  rw [dropBytes?_toLower]
  split_ifs
  · cases dropBytes? cs start with
    | none => rfl
    | some ds =>
      show (takeBytes? (ds.map Char.toLower) (stop - start)).getD [] =
        ((takeBytes? ds (stop - start)).getD []).map Char.toLower
      rw [takeBytes?_toLower]
      cases takeBytes? ds (stop - start) <;> rfl
  · rfl

/-! ## Strings -/

/-- **The bytes of a string** are those of its characters. -/
theorem utf8ByteSize_eq (s : String) : s.utf8ByteSize = byteLength s.toList := by
  rw [← String.ofList_toList (s := s)]
  generalize s.toList = cs
  rw [String.toList_ofList]
  induction cs with
  | nil => rfl
  | cons c cs ih =>
    rw [byteLength_cons, ← ih, String.ofList_cons, String.utf8ByteSize_append,
      String.utf8ByteSize_singleton]

theorem asciiLower_ofList (cs : List Char) :
    asciiLower (String.ofList cs) = String.ofList (cs.map Char.toLower) := by
  rw [asciiLower, ← String.toList_inj, String.toList_map, String.toList_ofList,
    String.toList_ofList]

theorem toList_asciiLower (s : String) : (asciiLower s).toList = s.toList.map Char.toLower :=
  String.toList_map

theorem asciiLower_asciiLower (s : String) : asciiLower (asciiLower s) = asciiLower s := by
  rw [← String.toList_inj, toList_asciiLower, toList_asciiLower, List.map_map,
    toLower_ignoresCase.comp]

/-- **Equality up to the case of letters** is equality of the small texts. -/
theorem eqIgnoreCase_iff {s t : String} : eqIgnoreCase s t = true ↔ asciiLower s = asciiLower t := by
  rw [eqIgnoreCase, beq_iff_eq, ← String.toList_inj, toList_asciiLower, toList_asciiLower]

theorem eqIgnoreCase_asciiLower (s t : String) : eqIgnoreCase s (asciiLower t) = eqIgnoreCase s t := by
  rw [Bool.eq_iff_iff, eqIgnoreCase_iff, eqIgnoreCase_iff, asciiLower_asciiLower]

/-- A set of words has a word in any letter case. -/
theorem has_asciiLower (set : Keywords) (s : String) : set.has (asciiLower s) = set.has s := by
  unfold Keywords.has
  simp only [eqIgnoreCase_asciiLower]

theorem lowerChar_ignoresCase : IgnoresCase lowerChar := ignoresCase_of_capitals (by decide)

theorem casedComesFirst_toLower (cs : List Char) :
    casedComesFirst (cs.map Char.toLower) = casedComesFirst cs := by
  have hignorable : IgnoresCase (inRanges caseIgnorableRanges) :=
    ignoresCase_of_capitals (by decide +kernel)
  have hcased : IgnoresCase (inRanges casedRanges) := ignoresCase_of_capitals (by decide)
  unfold casedComesFirst
  rw [dropWhile_toLower hignorable]
  cases cs.dropWhile (inRanges caseIgnorableRanges) with
  | nil => rfl
  | cons c cs => exact hcased c

theorem lowerAfter_toLower (before cs : List Char) :
    lowerAfter (before.map Char.toLower) (cs.map Char.toLower) = lowerAfter before cs := by
  have hbeyond : ∀ x : Char, 0x80 ≤ x.toNat → ∀ c : Char, c.toLower = x ↔ c = x := by
    intro x hx c
    rcases toLower_cases c with hsame | ⟨n, hn, rfl⟩
    · rw [hsame]
    · have hascii : ∀ n < 26, (Char.ofNat (0x41 + n)).toNat < 0x80 ∧
          (Char.ofNat (0x41 + n)).toLower.toNat < 0x80 := by decide
      obtain ⟨hcapital, hsmall⟩ := hascii n hn
      constructor
      · rintro rfl
        omega
      · rintro rfl
        omega
  induction cs generalizing before with
  | nil => rfl
  | cons c cs ih =>
    have hrest := ih (c :: before)
    rw [List.map_cons] at hrest
    rw [List.map_cons, lowerAfter_cons, lowerAfter_cons, hrest]
    congr 1
    unfold smallForm
    rw [casedComesFirst_toLower, casedComesFirst_toLower, lowerChar_ignoresCase]
    simp only [hbeyond 'Σ' (by decide), hbeyond 'İ' (by decide)]

/-- **The small form of a text** does not depend on the case of its ASCII
letters. -/
theorem lower_asciiLower (s : String) : lower (asciiLower s) = lower s := by
  rw [← String.toList_inj, toList_lower, toList_lower, toList_asciiLower]
  exact lowerAfter_toLower [] s.toList

theorem trim_asciiLower (s : String) : trim (asciiLower s) = asciiLower (trim s) := by
  unfold trim trimEnd trimStart
  rw [asciiLower_ofList, String.toList_ofList, String.toList_ofList, toList_asciiLower,
    dropWhile_toLower isBlank_ignoresCase, ← List.map_reverse,
    dropWhile_toLower isBlank_ignoresCase, ← List.map_reverse]

/-- Line ends are no letters. -/
theorem normalizeNewlines_toLower (cs : List Char) :
    normalizeNewlines (cs.map Char.toLower) = (normalizeNewlines cs).map Char.toLower := by
  have hreturn := toLower_eq_mark (x := '\r') (by decide)
  have hnewline := toLower_eq_mark (x := '\n') (by decide)
  have hfeed := toLower_eq_mark (x := '\x0c') (by decide)
  induction hn : cs.length using Nat.strongRecOn generalizing cs with
  | ind n ih =>
    cases cs with
    | nil => rfl
    | cons c cs =>
      rw [List.length_cons] at hn
      by_cases hpair : c = '\r' ∧ cs.head? = some '\n'
      · obtain ⟨rfl, hhead⟩ := hpair
        obtain ⟨ds, rfl⟩ := List.head?_eq_some_iff.mp hhead
        rw [List.length_cons] at hn
        exact congrArg ('\n' :: ·) (ih ds.length (by omega) ds rfl)
      · have hhead : c = '\r' → cs.head? ≠ some '\n' := fun hc hd => hpair ⟨hc, hd⟩
        have hhead' : c.toLower = '\r' → (cs.map Char.toLower).head? ≠ some '\n' := by
          intro hc hd
          rw [List.head?_map, Option.map_eq_some_iff] at hd
          obtain ⟨d, hd, hlower⟩ := hd
          exact hhead ((hreturn c).mp hc) (by rw [hd, (hnewline d).mp hlower])
        rw [List.map_cons, normalizeNewlines_cons hhead', normalizeNewlines_cons hhead,
          List.map_cons, ih cs.length (by omega) cs rfl]
        simp only [hreturn, hfeed]
        split_ifs <;> rfl

end Stylesheet.Text
