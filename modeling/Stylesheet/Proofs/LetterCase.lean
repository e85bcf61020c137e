import Mathlib.Data.List.Basic
import Stylesheet.Text.Case

/-!
# Small letters stay small

Making a text small a second time changes nothing, as no small letter is
a capital itself (`lower_lower`). And it leaves alone whatever is no
letter: a blank, a bar or a quote stands in the small form as often as in
the text, and in the same places at its ends.
-/

namespace Stylesheet.Text

variable {x c : Char} {s : String} {cs : List Char}

/-- **A character that is small already.** -/
def IsSmall (c : Char) : Prop := c ≠ 'İ' ∧ lowerChar c = c

/-- **A mark**: a character of ASCII that is no letter. -/
def IsMark (c : Char) : Prop := c.toNat < 0x80 ∧ c.isAlpha = false

instance (c : Char) : Decidable (IsMark c) := inferInstanceAs (Decidable (_ ∧ _))

/-! ## The table -/

/-- The small letter of the first capital of a run. -/
def CapitalRun.low (run : CapitalRun) : Nat := ((run.first : Int) + run.offset).toNat

/-- The small letter of the last capital of a run. -/
def CapitalRun.high (run : CapitalRun) : Nat := ((run.last : Int) + run.offset).toNat

/-- Whether the small letters of a run are clear of the capitals of
another: they lie apart, or they take turns. -/
def CapitalRun.isClearOf (run other : CapitalRun) : Bool :=
  Nat.blt run.high other.first || Nat.blt other.last run.low ||
    ((Nat.beq run.step 2 || Nat.beq run.first run.last) && Nat.beq other.step 2 &&
      Nat.beq ((run.low + other.first) % 2) 1)

/-- Whether a run is one of capitals beyond ASCII, with small letters
that are characters, and in ASCII letters. -/
def CapitalRun.isSound (run : CapitalRun) : Bool :=
  Nat.ble 0x80 run.first && decide (0 ≤ (run.first : Int) + run.offset) &&
    (Nat.blt run.high 0xD800 || (Nat.blt 0xDFFF run.low && Nat.blt run.high 0x110000)) &&
    (Nat.ble 0x80 run.low || (Nat.ble 0x61 run.low && Nat.ble run.high 0x7A))

/-- The capital that becomes two characters, as a run. -/
def dottedCapital : CapitalRun := ⟨0x130, 0x130, 1, 0⟩

theorem capitalRuns_sound : capitalRuns.all CapitalRun.isSound = true := by decide

theorem capitalRuns_clear : (capitalRuns.all fun run =>
    (dottedCapital :: capitalRuns).all run.isClearOf) = true := by decide +kernel

/-- The small letter of a capital of a run. -/
def CapitalRun.image (run : CapitalRun) (code : Nat) : Nat := ((code : Int) + run.offset).toNat

/-- **The small letter of a capital** is none of the capitals of another
run. -/
theorem CapitalRun.not_holds_image {run other : CapitalRun} {code : Nat}
    (hsound : run.isSound = true) (hclear : run.isClearOf other = true)
    (hcode : run.holds code = true) : other.holds (run.image code) = false := by
  refine Bool.eq_false_iff.mpr fun hholds => ?_
  simp only [CapitalRun.isSound, CapitalRun.isClearOf, CapitalRun.holds, Bool.and_eq_true,
    Bool.or_eq_true, Nat.blt_eq, Nat.ble_eq, Nat.beq_eq, decide_eq_true_eq, beq_iff_eq]
    at hsound hclear hcode hholds
  unfold CapitalRun.low CapitalRun.high at hclear
  unfold CapitalRun.image at hholds
  obtain ⟨⟨⟨-, hpos⟩, -⟩, -⟩ := hsound
  obtain ⟨⟨hfirst, hlast⟩, hstep⟩ := hcode
  obtain ⟨⟨hfirst', hlast'⟩, hstep'⟩ := hholds
  rcases hclear with (happart | happart) | ⟨⟨hturns | hsame, hother⟩, hodd⟩
  · omega
  · omega
  · rw [hturns] at hstep
    rw [hother] at hstep'
    omega
  · rw [hother] at hstep'
    omega

/-- The small letter of a capital is a character beyond ASCII, or a small
letter of ASCII. -/
theorem CapitalRun.toNat_image {run : CapitalRun} {code : Nat} (hsound : run.isSound = true)
    (hcode : run.holds code = true) :
    (Char.ofNat (run.image code)).toNat = run.image code ∧
      (0x80 ≤ run.image code ∨ 0x61 ≤ run.image code ∧ run.image code ≤ 0x7A) := by
  simp only [CapitalRun.isSound, CapitalRun.holds, Bool.and_eq_true, Bool.or_eq_true, Nat.blt_eq,
    Nat.ble_eq, decide_eq_true_eq, beq_iff_eq] at hsound hcode
  unfold CapitalRun.low CapitalRun.high at hsound
  obtain ⟨⟨⟨-, hpos⟩, hvalid⟩, hascii⟩ := hsound
  obtain ⟨⟨hfirst, hlast⟩, -⟩ := hcode
  unfold CapitalRun.image
  refine ⟨?_, by omega⟩
  rw [Char.ofNat, dif_pos]
  · rfl
  · unfold Nat.isValidChar
    omega

/-! ## Characters -/

/-- **What becomes of a character**: in ASCII the table has no say, and
beyond it a capital becomes what its run says. -/
theorem lowerChar_cases (c : Char) :
    (c.toNat < 0x80 ∧ lowerChar c = c.toLower) ∨
      (∃ run ∈ capitalRuns, run.holds c.toNat = true ∧
        lowerChar c = Char.ofNat (run.image c.toNat)) ∨
      (lowerChar c = c ∧ 0x80 ≤ c.toNat) := by
  unfold lowerChar
  split_ifs with hascii
  · exact .inl ⟨hascii, rfl⟩
  · right
    cases hfind : capitalRuns.find? (·.holds c.toNat) with
    | some run =>
      have hholds := List.find?_some hfind
      exact .inl ⟨run, List.mem_of_find?_eq_some hfind, hholds, rfl⟩
    | none => exact .inr ⟨rfl, Nat.le_of_not_lt hascii⟩

theorem toLower_lowered : ∀ n < 0x80, (Char.ofNat n).toLower.toLower = (Char.ofNat n).toLower ∧
    (Char.ofNat n).toLower.toNat < 0x80 := by decide

theorem toLower_letter : ∀ n < 0x80, (Char.ofNat n).toLower = Char.ofNat n ∨
    (Char.ofNat n).isAlpha = true ∧ (Char.ofNat n).toLower.isAlpha = true := by decide

theorem isSmall_toLower (h : c.toNat < 0x80) : IsSmall c.toLower := by
  obtain ⟨hidem, hascii⟩ := toLower_lowered c.toNat h
  rw [Char.ofNat_toNat] at hidem hascii
  refine ⟨?_, ?_⟩
  · intro hc
    rw [hc] at hascii
    exact absurd hascii (by decide)
  · rw [lowerChar, if_pos hascii]
    exact hidem

/-- **Small letters stay small**, character by character. -/
theorem isSmall_lowerChar (h : c ≠ 'İ') : IsSmall (lowerChar c) := by
  rcases lowerChar_cases c with ⟨hascii, hc⟩ | ⟨run, hrun, hholds, hc⟩ | ⟨hc, -⟩
  · rw [hc]
    exact isSmall_toLower hascii
  · have hsound := List.all_eq_true.mp capitalRuns_sound run hrun
    have hclear := List.all_eq_true.mp (List.all_eq_true.mp capitalRuns_clear run hrun)
    obtain ⟨himage, hletter⟩ := CapitalRun.toNat_image hsound hholds
    rw [hc]
    refine ⟨?_, ?_⟩
    · intro hdotted
      have hnot := CapitalRun.not_holds_image hsound (hclear _ List.mem_cons_self) hholds
      rw [← himage, hdotted] at hnot
      exact absurd hnot (by decide)
    · rcases hletter with hbeyond | ⟨hlow, hhigh⟩
      · rw [lowerChar, if_neg (by omega)]
        have hnone : capitalRuns.find? (·.holds (Char.ofNat (run.image c.toNat)).toNat) = none := by
          refine List.find?_eq_none.mpr fun other hother => ?_
          rw [himage, CapitalRun.not_holds_image hsound
            (hclear _ (List.mem_cons_of_mem _ hother)) hholds]
          decide
        rw [hnone]
      · have hsame : ∀ n < 0x7B, 0x61 ≤ n → lowerChar (Char.ofNat n) = Char.ofNat n := by
          decide
        exact hsame _ (by omega) hlow
  · rw [hc]
    exact ⟨h, hc⟩

/-- **A mark** is made by itself only. -/
theorem lowerChar_eq_mark (hx : IsMark x) : lowerChar c = x ↔ c = x := by
  obtain ⟨hascii', halpha⟩ := hx
  have hmark : ∀ c : Char, c.toNat < 0x80 → (c.toLower = x ↔ c = x) := by
    intro c hc
    have hletter := toLower_letter c.toNat hc
    rw [Char.ofNat_toNat] at hletter
    rcases hletter with hsame | ⟨hletter, hletter'⟩
    · rw [hsame]
    · constructor
      · rintro rfl
        exact absurd (hletter'.symm.trans halpha) (by decide)
      · rintro rfl
        exact absurd (hletter.symm.trans halpha) (by decide)
  rcases lowerChar_cases c with ⟨hascii, hc⟩ | ⟨run, hrun, hholds, hc⟩ | ⟨hc, -⟩
  · rw [hc]
    exact hmark c hascii
  · have hsound := List.all_eq_true.mp capitalRuns_sound run hrun
    obtain ⟨himage, hletter⟩ := CapitalRun.toNat_image hsound hholds
    have hfirst : 0x80 ≤ c.toNat := by
      simp only [CapitalRun.isSound, CapitalRun.holds, Bool.and_eq_true, Nat.ble_eq,
        decide_eq_true_eq] at hsound hholds
      omega
    rw [hc]
    refine ⟨fun h => ?_, fun h => ?_⟩
    · rw [h] at himage
      rcases hletter with hbeyond | ⟨hlow, hhigh⟩
      · omega
      · have hletters : ∀ n < 0x7B, 0x61 ≤ n → (Char.ofNat n).isAlpha = true := by decide
        have hcontra := hletters x.toNat (by omega) (by omega)
        rw [Char.ofNat_toNat, halpha] at hcontra
        cases hcontra
    · rw [h] at hfirst
      omega
  · rw [hc]

/-! ## Texts -/

/-- What a character becomes, where it stands. -/
def smallForm (before : List Char) (c : Char) (cs : List Char) : List Char :=
  if c = 'Σ' then [if casedComesFirst before && !casedComesFirst cs then 'ς' else 'σ']
  else if c = 'İ' then ['i', Char.ofNat 0x307]
  else [lowerChar c]

theorem lowerAfter_cons (before : List Char) (c : Char) (cs : List Char) :
    lowerAfter before (c :: cs) = smallForm before c cs ++ lowerAfter (c :: before) cs := rfl

theorem smallForm_ne_nil (before : List Char) (c : Char) (cs : List Char) :
    smallForm before c cs ≠ [] := by
  unfold smallForm
  split_ifs <;> exact List.cons_ne_nil _ _

theorem isSmall_smallForm {before : List Char} {d : Char} (h : d ∈ smallForm before c cs) :
    IsSmall d := by
  unfold smallForm at h
  split_ifs at h with hsigma hfinal hdotted
  · obtain rfl := List.mem_singleton.mp h
    exact ⟨by decide, by decide⟩
  · obtain rfl := List.mem_singleton.mp h
    exact ⟨by decide, by decide⟩
  · rcases List.mem_cons.mp h with rfl | h
    · exact ⟨by decide, by decide⟩
    · obtain rfl := List.mem_singleton.mp h
      exact ⟨by decide, by decide⟩
  · obtain rfl := List.mem_singleton.mp h
    exact isSmall_lowerChar hdotted

theorem smallForm_of_isSmall {before : List Char} (h : IsSmall c) :
    smallForm before c cs = [c] := by
  have hsigma : c ≠ 'Σ' := by
    rintro rfl
    exact absurd h.2 (by decide)
  rw [smallForm, if_neg hsigma, if_neg h.1, h.2]

/-- A mark makes up its small form, and stands in no other. -/
theorem count_smallForm (before : List Char) (c : Char) (cs : List Char) (hx : IsMark x) :
    (smallForm before c cs).count x = [c].count x := by
  have hne : ∀ d : Char, d.isAlpha = true ∨ 0x80 ≤ d.toNat → d ≠ x := by
    rintro d hd rfl
    rcases hd with hd | hd
    · rw [hx.2] at hd
      cases hd
    · exact absurd hx.1 (Nat.not_lt.mpr hd)
  unfold smallForm
  split_ifs with hsigma hfinal hdotted
  · subst hsigma
    rw [List.count_singleton, List.count_singleton, beq_eq_false_iff_ne.mpr (hne _ (by decide)),
      beq_eq_false_iff_ne.mpr (hne _ (by decide))]
  · subst hsigma
    rw [List.count_singleton, List.count_singleton, beq_eq_false_iff_ne.mpr (hne _ (by decide)),
      beq_eq_false_iff_ne.mpr (hne _ (by decide))]
  · subst hdotted
    rw [List.count_cons, List.count_singleton, List.count_singleton,
      beq_eq_false_iff_ne.mpr (hne _ (by decide)), beq_eq_false_iff_ne.mpr (hne _ (by decide)),
      beq_eq_false_iff_ne.mpr (hne _ (by decide))]
    rfl
  · rw [List.count_singleton, List.count_singleton]
    simp only [beq_iff_eq, lowerChar_eq_mark hx]

/-- **The small form of a text**, whether it is in ASCII or not. -/
theorem toList_lower (s : String) : (lower s).toList = lowerAfter [] s.toList := by
  unfold lower
  split_ifs with hascii
  · rw [asciiLower, String.toList_map]
    have hmap : ∀ (before cs : List Char), cs.all (·.toNat < 0x80) = true →
        lowerAfter before cs = cs.map Char.toLower := by
      intro before cs hcs
      induction cs generalizing before with
      | nil => rfl
      | cons c cs ih =>
        rw [List.all_cons, Bool.and_eq_true, decide_eq_true_eq] at hcs
        have hsigma : c ≠ 'Σ' := by
          rintro rfl
          exact absurd hcs.1 (by decide)
        have hdotted : c ≠ 'İ' := by
          rintro rfl
          exact absurd hcs.1 (by decide)
        rw [lowerAfter_cons, ih _ hcs.2, smallForm, if_neg hsigma, if_neg hdotted, lowerChar,
          if_pos hcs.1, List.map_cons, List.singleton_append]
    exact (hmap [] s.toList hascii).symm
  · exact String.toList_ofList

/-- All characters of a small form are small. -/
theorem isSmall_of_mem_lower (h : c ∈ (lower s).toList) : IsSmall c := by
  rw [toList_lower] at h
  generalize [] = before, s.toList = cs at h
  induction cs generalizing before with
  | nil => cases h
  | cons d cs ih =>
    rw [lowerAfter_cons, List.mem_append] at h
    rcases h with h | h
    · exact isSmall_smallForm h
    · exact ih _ h

/-- **A text of small characters** is its own small form. -/
theorem lower_eq_self (h : ∀ c ∈ s.toList, IsSmall c) : lower s = s := by
  have hafter : ∀ (before cs : List Char), (∀ c ∈ cs, IsSmall c) → lowerAfter before cs = cs := by
    intro before cs hcs
    induction cs generalizing before with
    | nil => rfl
    | cons c cs ih =>
      rw [lowerAfter_cons, smallForm_of_isSmall (hcs c List.mem_cons_self),
        ih _ fun d hd => hcs d (List.mem_cons_of_mem _ hd), List.singleton_append]
  rw [← String.toList_inj, toList_lower]
  exact hafter [] s.toList h

/-- **Marks are kept**: a mark stands in a small form as often as in the
text. -/
theorem count_lowerAfter (before cs : List Char) (hx : IsMark x) :
    (lowerAfter before cs).count x = cs.count x := by
  induction cs generalizing before with
  | nil => rfl
  | cons c cs ih =>
    rw [lowerAfter_cons, List.count_append, ih, count_smallForm _ _ _ hx, ← List.count_append,
      List.singleton_append]

theorem count_lower (s : String) (hx : IsMark x) : (lower s).toList.count x = s.toList.count x := by
  rw [toList_lower]
  exact count_lowerAfter [] s.toList hx

/-- A mark stands in the small form if it stands in the text. -/
theorem mem_lower_mark (hx : IsMark x) : x ∈ (lower s).toList ↔ x ∈ s.toList := by
  rw [← List.count_pos_iff, ← List.count_pos_iff, count_lower s hx]

/-- A mark is small. -/
theorem isSmall_of_mark (hx : IsMark x) : IsSmall x := by
  refine ⟨?_, (lowerChar_eq_mark hx).mpr rfl⟩
  rintro rfl
  exact absurd hx.1 (by decide)

/-- A small form begins with a mark if the text does. -/
theorem head?_lowerAfter_mark (before : List Char) (hx : IsMark x) :
    (lowerAfter before cs).head? = some x ↔ cs.head? = some x := by
  cases cs with
  | nil => exact Iff.rfl
  | cons c cs =>
    have hcount := count_smallForm before c cs hx
    rw [lowerAfter_cons]
    by_cases hc : c = x
    · subst hc
      rw [smallForm_of_isSmall (isSmall_of_mark hx)]
      exact Iff.rfl
    · have hnot : x ∉ smallForm before c cs := by
        rw [← List.count_eq_zero, hcount, List.count_singleton, beq_eq_false_iff_ne.mpr hc]
        rfl
      obtain ⟨d, ds, hds⟩ := List.exists_cons_of_ne_nil (smallForm_ne_nil before c cs)
      rw [hds] at hnot ⊢
      have hd : d ≠ x := fun h => hnot (h ▸ List.mem_cons_self)
      simp [hc, hd]

theorem head?_lower_mark (hx : IsMark x) :
    (lower s).toList.head? = some x ↔ s.toList.head? = some x := by
  rw [toList_lower]
  exact head?_lowerAfter_mark [] hx

/-- The small form of a text with a mark at its end. -/
theorem lowerAfter_append_mark (before cs : List Char) (hx : IsMark x) :
    ∃ small, lowerAfter before (cs ++ [x]) = small ++ [x] ∧ (cs ≠ [] → small ≠ []) ∧
      ∀ y, IsMark y → small.count y = cs.count y := by
  induction cs generalizing before with
  | nil =>
    refine ⟨[], ?_, fun h => absurd rfl h, fun _ _ => rfl⟩
    rw [List.nil_append, lowerAfter_cons, smallForm_of_isSmall (isSmall_of_mark hx)]
    rfl
  | cons c cs ih =>
    obtain ⟨small, hsmall, -, hcount⟩ := ih (c :: before)
    refine ⟨smallForm before c (cs ++ [x]) ++ small, ?_, fun _ => ?_, fun y hy => ?_⟩
    · rw [List.cons_append, lowerAfter_cons, hsmall, List.append_assoc]
    · exact List.append_ne_nil_of_left_ne_nil (smallForm_ne_nil _ _ _) _
    · rw [List.count_append, count_smallForm _ _ _ hy, hcount y hy, ← List.count_append,
        List.singleton_append]

/-- **The small form of a text between marks** stands between them too. -/
theorem toList_lower_between {y : Char} (hx : IsMark x) (hy : IsMark y) (hcs : cs ≠ []) :
    ∃ small, (lower (String.ofList (x :: cs ++ [y]))).toList = x :: small ++ [y] ∧
      small ≠ [] ∧ ∀ z, IsMark z → small.count z = cs.count z := by
  obtain ⟨small, hsmall, hne, hcount⟩ := lowerAfter_append_mark [x] cs hy
  refine ⟨small, ?_, hne hcs, hcount⟩
  rw [toList_lower, String.toList_ofList, List.cons_append, lowerAfter_cons,
    smallForm_of_isSmall (isSmall_of_mark hx), hsmall]
  rfl

/-- The small form of a text that begins with a mark. -/
theorem toList_lower_cons (hx : IsMark x) (cs : List Char) :
    (lower (String.ofList (x :: cs))).toList = x :: lowerAfter [x] cs := by
  rw [toList_lower, String.toList_ofList, lowerAfter_cons, smallForm_of_isSmall (isSmall_of_mark hx)]
  rfl

/-! ## Blanks -/

/-- Whether a small letter of a run may be a blank. -/
def CapitalRun.meetsBlanks (run : CapitalRun) : Bool :=
  blankRanges.any fun (first, last) => Nat.ble first run.high && Nat.ble run.low last

theorem capitalRuns_no_blank : (capitalRuns.all fun run => !run.meetsBlanks) = true := by
  decide

/-- **A blank** is made by itself only. -/
theorem eq_of_isBlank_lowerChar (h : isBlank (lowerChar c) = true) : lowerChar c = c := by
  rcases lowerChar_cases c with ⟨hascii, hc⟩ | ⟨run, hrun, hholds, hc⟩ | ⟨hc, -⟩
  · have hletter : ∀ n < 0x80, isBlank (Char.ofNat n).toLower = true →
        (Char.ofNat n).toLower = Char.ofNat n := by decide
    have hsame := hletter c.toNat hascii
    rw [Char.ofNat_toNat, ← hc] at hsame
    exact hsame h
  · have hsound := List.all_eq_true.mp capitalRuns_sound run hrun
    have hclear := List.all_eq_true.mp capitalRuns_no_blank run hrun
    obtain ⟨himage, -⟩ := CapitalRun.toNat_image hsound hholds
    rw [hc] at h
    obtain ⟨⟨first, last⟩, hrange, hbetween⟩ := List.any_eq_true.mp h
    rw [himage] at hbetween
    simp only [CapitalRun.holds, Bool.and_eq_true, decide_eq_true_eq] at hholds hbetween
    unfold CapitalRun.image at hbetween
    have hmeets : run.meetsBlanks = true := by
      refine List.any_eq_true.mpr ⟨(first, last), hrange, ?_⟩
      simp only [CapitalRun.low, CapitalRun.high, Bool.and_eq_true, Nat.ble_eq]
      omega
    rw [hmeets] at hclear
    cases hclear
  · exact hc

/-- A blank stands in the small form only if it stands in the text. -/
theorem mem_of_isBlank_lower (h : c ∈ (lower s).toList) (hblank : isBlank c = true) :
    c ∈ s.toList := by
  rw [toList_lower] at h
  generalize [] = before, s.toList = cs at h
  induction cs generalizing before with
  | nil => cases h
  | cons d cs ih =>
    rw [lowerAfter_cons, List.mem_append] at h
    rcases h with h | h
    · have hd : c = d := by
        have hnone : isBlank 'ς' = false ∧ isBlank 'σ' = false ∧ isBlank 'i' = false ∧
            isBlank (Char.ofNat 0x307) = false := by decide
        unfold smallForm at h
        split_ifs at h with hsigma hfinal hdotted
        · rw [List.mem_singleton.mp h, hnone.1] at hblank
          cases hblank
        · rw [List.mem_singleton.mp h, hnone.2.1] at hblank
          cases hblank
        · rcases List.mem_cons.mp h with rfl | h
          · rw [hnone.2.2.1] at hblank
            cases hblank
          · rw [List.mem_singleton.mp h, hnone.2.2.2] at hblank
            cases hblank
        · obtain rfl := List.mem_singleton.mp h
          exact eq_of_isBlank_lowerChar hblank
      exact hd ▸ List.mem_cons_self
    · exact List.mem_cons_of_mem _ (ih _ h)

theorem lower_ne_empty (h : s.toList ≠ []) : (lower s).toList ≠ [] := by
  rw [toList_lower]
  obtain ⟨c, cs, hcs⟩ := List.exists_cons_of_ne_nil h
  rw [hcs, lowerAfter_cons]
  exact List.append_ne_nil_of_left_ne_nil (smallForm_ne_nil _ _ _) _

end Stylesheet.Text
