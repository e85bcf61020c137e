import Stylesheet.Proofs.Matching.Surrounded

/-!
# Multipliers that are written and read again

A multiplier is written as its mark, as a range, or as both, and what is
written is read as the multiplier (`Multiplier.Proper.restores`). There
is one exception: where commas stand between the repetitions, a range with
just one of the two bounds that the sign alone stands for is left out, and so
the other bound is lost (`Multiplier.IsLossless`).
-/

namespace Stylesheet.Grammar

open Text

/-! ## Numbers and multipliers -/

namespace Parser

variable {cs rest : List Char}

theorem toList_toString (n : Nat) : (toString n).toList = Nat.toDigits 10 n := Nat.toList_repr

theorem isDigit_toString (n : Nat) : ∀ c ∈ (toString n).toList, c.isDigit = true := by
  rw [toList_toString]
  exact fun c hc => Nat.isDigit_of_mem_toDigits (by decide) (by decide) hc

theorem toString_ne_nil (n : Nat) : (toString n).toList ≠ [] := by
  rw [toList_toString]
  exact Nat.toDigits_ne_nil

theorem decimalValue_toString (n : Nat) : decimalValue (toString n).toList = n := by
  have hstep : (fun (n : Nat) (c : Char) => n * 10 + (c.toNat - '0'.toNat)) =
      fun n c => 10 * n + (c.toNat - '0'.toNat) := by
    funext n c
    rw [Nat.mul_comm]
  unfold decimalValue
  rw [toList_toString, hstep]
  exact Nat.ofDigitChars_ten_toDigits

/-- No blanks stand before a number. -/
theorem skipGap_toString (n : Nat) (cs : List Char) :
    skipGap ((toString n).toList ++ cs) = (toString n).toList ++ cs := by
  obtain ⟨c, ds, hds⟩ := List.exists_cons_of_ne_nil (toString_ne_nil n)
  have hc := isDigit_toString n c (hds ▸ List.mem_cons_self)
  have hgap : isGap c = false := by
    by_contra hgap
    have hgap : isGap c = true := by simpa using hgap
    unfold isGap at hgap
    simp only [Bool.or_eq_true, beq_iff_eq] at hgap
    rcases hgap with ((rfl | rfl) | rfl) | rfl <;> cases hc
  rw [hds, List.cons_append, skipGap, List.dropWhile_cons, hgap, if_neg (by decide)]

/-- **A number** is read as itself. -/
theorem number_toString {n : Nat} (hn : n ≤ Multiplier.unbounded)
    (hrest : ∀ c, rest.head? = some c → c.isDigit = false) :
    number ((toString n).toList ++ rest) = some (n, skipGap rest) := by
  unfold number
  rw [skipGap_toString, run_append (toString_ne_nil n) (isDigit_toString n) hrest]
  simp only [Option.bind_eq_bind, Option.bind_some, decimalValue_toString, if_pos hn]

/-- A range as it is written. -/
def rangeText (least : Nat) (greatest : Option Nat) : String :=
  if greatest.getD Multiplier.unbounded == least then "\x7b" ++ toString least ++ "\x7d"
  else
    match greatest with
    | none => "\x7b" ++ toString least ++ ",\x7d"
    | some n => "\x7b" ++ toString least ++ "," ++ toString n ++ "\x7d"

theorem bound_of_lt {n : Nat} (h : n < Multiplier.unbounded) : bound n = some n := by
  unfold bound
  rw [if_neg h.ne]

/-- **A range** is read as itself. -/
theorem range_rangeText {least : Nat} {greatest : Option Nat} (h : Bounded least greatest)
    (rest : List Char) :
    range ((rangeText least greatest).toList ++ rest) = some ((least, greatest), rest) := by
  have hopen : ∀ cs, expect '\x7b' ('\x7b' :: cs) = some cs := fun _ => rfl
  have hclose : ∀ cs, expect '\x7d' ('\x7d' :: cs) = some cs := fun _ => rfl
  have hskip : ∀ cs, skipGap ('\x7d' :: cs) = '\x7d' :: cs := fun _ => rfl
  have hskip' : ∀ cs, skipGap (',' :: cs) = ',' :: cs := fun _ => rfl
  have hbrace : ∀ cs c, ('\x7d' :: cs).head? = some c → c.isDigit = false := by
    rintro cs c ⟨⟩
    rfl
  have hcomma : ∀ cs c, (',' :: cs).head? = some c → c.isDigit = false := by
    rintro cs c ⟨⟩
    rfl
  have hnone : ∀ cs, expectSpaced "," ('\x7d' :: cs) = none := fun _ => rfl
  have hnext : ∀ cs, expectSpaced "," (',' :: cs) = some (skipGap cs) := fun _ => rfl
  unfold rangeText
  split_ifs with hsame
  · have hbound : bound least = greatest := by
      cases greatest with
      | none =>
        obtain rfl : Multiplier.unbounded = least := by simpa using hsame
        rfl
      | some n =>
        obtain rfl : n = least := by simpa using hsame
        exact bound_of_lt (h.greatest n rfl)
    have hcs : ("\x7b" ++ toString least ++ "\x7d").toList ++ rest =
        '\x7b' :: ((toString least).toList ++ '\x7d' :: rest) := by simp
    unfold range
    rw [hcs, hopen]
    simp only [Option.bind_eq_bind, Option.bind_some, number_toString h.least (hbrace rest), hskip,
      hnone, hclose, hbound]
    rfl
  · cases greatest with
    | none =>
      have hcs : ("\x7b" ++ toString least ++ ",\x7d").toList ++ rest =
          '\x7b' :: ((toString least).toList ++ ',' :: '\x7d' :: rest) := by simp
      have hnumber : number ('\x7d' :: rest) = none := rfl
      unfold range
      dsimp only
      rw [hcs, hopen]
      simp only [Option.bind_eq_bind, Option.bind_some, number_toString h.least (hcomma _), hskip',
        hnext, hskip, hnumber, hclose]
      rfl
    | some n =>
      have hn := h.greatest n rfl
      have hcs : ("\x7b" ++ toString least ++ "," ++ toString n ++ "\x7d").toList ++ rest =
          '\x7b' :: ((toString least).toList ++ ',' :: ((toString n).toList ++ '\x7d' :: rest)) := by
        simp
      unfold range
      dsimp only
      rw [hcs, hopen]
      simp only [Option.bind_eq_bind, Option.bind_some, number_toString h.least (hcomma _), hskip',
        hnext, skipGap_toString, number_toString hn.le (hbrace rest), hskip, hclose, bound_of_lt hn]
      rfl

end Parser

/-! ## Multipliers -/

/-- **A multiplier that is written without loss**: where commas stand between
the repetitions, either both bounds are those that the sign alone stands for,
or none is. -/
def Multiplier.IsLossless (m : Multiplier) : Prop := m.comma = true → (m.min = 1 ↔ m.max = none)

namespace Parser

variable {rest : List Char}

/-- **What is written for a multiplier**, as characters. -/
structure Restores (marks : List Char) (m : Multiplier) : Prop where
  /-- It begins with the mark of a multiplier. -/
  head : ∃ c cs, marks = c :: cs ∧ c ∈ "?*+#\x7b".toList
  /-- It is read as the multiplier. -/
  reads : ∀ rest, Ends 4 rest → multiplier (marks ++ rest) = some (m, rest)

theorem range_of_head_ne (h : rest.head? ≠ some '\x7b') : range rest = none := by
  unfold range
  rw [expect_eq_none h]
  rfl

theorem rangeText_head (least : Nat) (greatest : Option Nat) :
    ∃ cs, (rangeText least greatest).toList = '\x7b' :: cs := by
  unfold rangeText
  split_ifs
  · exact ⟨_, by simp; rfl⟩
  · cases greatest with
    | none => exact ⟨_, by simp; rfl⟩
    | some n => exact ⟨_, by simp; rfl⟩

/-- **A mark alone** is read as its multiplier. -/
theorem restores_mark (marker : Marker) :
    Restores (Matcher.writeMultiplier (.ofMarker marker)).toList (.ofMarker marker) := by
  have hmark : (Matcher.writeMultiplier (.ofMarker marker)).toList = [marker.char] := by
    cases marker <;> rfl
  rw [hmark]
  refine ⟨⟨_, _, rfl, by cases marker <;> decide⟩, fun rest hrest => ?_⟩
  have hrange : range rest = none := range_of_head_ne fun hhead => by
    cases hrest with
    | mark hle => exact absurd hle (by decide)
    | _ => cases hhead
  have hchar : marker.char ≠ '\x7b' := by cases marker <;> decide
  have hmarker : marker? marker.char = some marker := by cases marker <;> rfl
  have hnone : range ([marker.char] ++ rest) = none := range_of_head_ne (by simpa using hchar)
  unfold multiplier
  rw [hnone]
  simp only [List.cons_append, List.nil_append, hmarker, hrange, ite_self]

/-- **A range alone** is read as itself. -/
theorem restores_range {least : Nat} {greatest : Option Nat} (h : Bounded least greatest) :
    Restores (Matcher.writeMultiplier ⟨least, greatest, none, false⟩).toList
      ⟨least, greatest, none, false⟩ := by
  have htext : (Matcher.writeMultiplier ⟨least, greatest, none, false⟩).toList =
      (rangeText least greatest).toList := by
    cases greatest <;> rfl
  rw [htext]
  obtain ⟨cs, hcs⟩ := rangeText_head least greatest
  refine ⟨⟨_, cs, hcs, by decide⟩, fun rest _ => ?_⟩
  unfold multiplier
  rw [range_rangeText h]

/-- **A range after a sign** is read as itself, with commas in between. -/
theorem restores_hashRange {least : Nat} {greatest : Option Nat} (h : Bounded least greatest)
    (hleast : least ≠ 1) (hgreatest : greatest ≠ none) :
    Restores (Matcher.writeMultiplier ⟨least, greatest, some .hash, true⟩).toList
      ⟨least, greatest, some .hash, true⟩ := by
  have hexplicit : (!(least == 1 || greatest.isNone)) = true := by
    simp [hleast, Option.isSome_iff_ne_none, hgreatest]
  have htext : (Matcher.writeMultiplier ⟨least, greatest, some .hash, true⟩).toList =
      '#' :: (rangeText least greatest).toList := by
    unfold Matcher.writeMultiplier rangeText
    dsimp only
    rw [hexplicit, if_pos rfl, String.toList_append]
    rfl
  rw [htext]
  refine ⟨⟨_, _, rfl, by decide⟩, fun rest _ => ?_⟩
  have hnone : range ('#' :: (rangeText least greatest).toList ++ rest) = none :=
    range_of_head_ne (by simp)
  unfold multiplier
  rw [hnone]
  simp only [List.cons_append, marker?, if_true, range_rangeText h]

end Parser

/-- **A multiplier is read as it was written**, if it was written without
loss. -/
theorem Multiplier.Proper.restores {m : Multiplier} (h : m.Proper) (hm : m.IsLossless) :
    Parser.Restores (Matcher.writeMultiplier m).toList m := by
  cases h with
  | mark marker => exact Parser.restores_mark marker
  | range hbounded => exact Parser.restores_range hbounded
  | @hashRange least greatest hbounded =>
    by_cases hleast : least = 1
    · obtain rfl : greatest = none := (hm rfl).mp hleast
      subst hleast
      exact Parser.restores_mark .hash
    · exact Parser.restores_hashRange hbounded hleast fun hgreatest =>
        hleast ((hm rfl).mpr hgreatest)

end Stylesheet.Grammar
