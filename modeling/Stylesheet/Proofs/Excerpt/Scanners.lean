import Stylesheet.Proofs.LexemeParts

/-!
# Scanning an excerpt

An **excerpt** is a text without what followed it where it was taken from.
A scanner that came to its end within the excerpt finds the same there,
although it may have looked at what followed: that the text ends is as good
a reason to stop as the character that stopped it.

A scanner that came to its end before the end of a text finds the same if
anything is written after it, for then it has seen what stopped it.

There is one exception to the first. A backslash before a newline ends a name, while a
backslash at the end of the text belongs to it. So the two must not be
parted where a name ends before them.
-/

namespace Stylesheet

namespace Lexeme

variable {x a : List Char} {pass : Nat} {p : Char → Bool}

/-- **A newline that is escaped is parted** from its backslash: that is all
that is left of an excerpt. -/
def Parted (x a : List Char) : Prop := x = ['\\'] ∧ a.head? = some '\n'

/-! ## Runs -/

/-- **A run that ends within an excerpt.** -/
theorem takeWhile_excerpt (h : ((x ++ a).takeWhile p).length ≤ x.length) :
    x.takeWhile p = (x ++ a).takeWhile p := by
  induction x with
  | nil => exact (List.eq_nil_of_length_eq_zero (Nat.le_zero.mp h)).symm
  | cons c x ih =>
    rw [List.cons_append] at h ⊢
    by_cases hc : p c = true
    · rw [List.takeWhile_cons_of_pos hc] at h ⊢
      rw [List.takeWhile_cons_of_pos hc, ih (Nat.le_of_succ_le_succ h)]
    · rw [List.takeWhile_cons_of_neg hc, List.takeWhile_cons_of_neg hc]

theorem runSize_excerpt (h : runSize p (x ++ a) ≤ x.length) : runSize p x = runSize p (x ++ a) := by
  unfold runSize at h ⊢
  rw [takeWhile_excerpt h]

/-- **A run that ends before the text does.** -/
theorem takeWhile_extend (h : (x.takeWhile p).length < x.length) :
    (x ++ a).takeWhile p = x.takeWhile p := by
  induction x with
  | nil => cases h
  | cons c x ih =>
    rw [List.cons_append]
    by_cases hc : p c = true
    · rw [List.takeWhile_cons_of_pos hc] at h ⊢
      rw [List.takeWhile_cons_of_pos hc, ih (Nat.lt_of_succ_lt_succ h)]
    · rw [List.takeWhile_cons_of_neg hc, List.takeWhile_cons_of_neg hc]

theorem runSize_extend (h : runSize p x < x.length) : runSize p (x ++ a) = runSize p x := by
  unfold runSize at h ⊢
  rw [takeWhile_extend h]

/-- A character of the text that lies in the excerpt. -/
theorem getElem?_excerpt {n : Nat} (h : n < x.length) : (x ++ a)[n]? = x[n]? :=
  List.getElem?_append_left h

/-! ## Escapes -/

/-- **An escape that ends within an excerpt.** -/
theorem readEscape_excerpt (hx : x ≠ [])
    (h : min (readEscape (x ++ a)).2 (x ++ a).length ≤ x.length) :
    readEscape x = readEscape (x ++ a) := by
  by_cases ha : a = []
  · rw [ha, List.append_nil]
  have hlength := List.length_pos_iff.mpr ha
  replace h : (readEscape (x ++ a)).2 ≤ x.length := by
    rw [List.length_append] at h
    omega
  obtain ⟨c, x, rfl⟩ := List.exists_cons_of_ne_nil hx
  have htake : ((c :: x) ++ a).take 6 =
      (c :: x).take 6 ++ a.take (6 - (c :: x).length) := List.take_append
  have hle : ∀ digits, (((c :: x) ++ a).take 6).takeWhile Text.isHexDigit = digits →
      digits.length ≤ (c :: x).length →
      ((c :: x).take 6).takeWhile Text.isHexDigit = digits := by
    rintro digits rfl hlength
    rw [htake] at hlength ⊢
    refine takeWhile_excerpt ?_
    rw [List.length_take]
    have hsix := (List.takeWhile_sublist (l := ((c :: x) ++ a).take 6) Text.isHexDigit).length_le
    rw [List.length_take, htake] at hsix
    omega
  unfold readEscape at h ⊢
  rcases hdigits : (((c :: x) ++ a).take 6).takeWhile Text.isHexDigit with _ | ⟨d, digits⟩ <;>
    rw [hdigits] at h
  · rw [hle _ hdigits (Nat.zero_le _)]
    rfl
  · dsimp only at h ⊢
    have hin : (d :: digits).length ≤ (c :: x).length := by
      split_ifs at h <;> omega
    rw [hle _ hdigits hin]
    dsimp only
    -- whether a blank belongs to it
    rcases Nat.lt_or_ge (d :: digits).length (c :: x).length with hlt | hge
    · rw [getElem?_excerpt hlt]
    · have hend : (c :: x)[(d :: digits).length]? = none := List.getElem?_eq_none hge
      split_ifs at h with hblank
      · omega
      · rw [hend, if_neg hblank, if_neg (by simp)]

/-- **An escape that ends before the text does.** -/
theorem readEscape_extend (h : (readEscape x).2 < x.length) :
    readEscape (x ++ a) = readEscape x := by
  have hdigits : ((x.take 6).takeWhile Text.isHexDigit).length < x.length →
      ((x ++ a).take 6).takeWhile Text.isHexDigit = (x.take 6).takeWhile Text.isHexDigit := by
    intro hlength
    rw [List.take_append]
    rcases Nat.le_total 6 x.length with hle | hle
    · rw [Nat.sub_eq_zero_of_le hle, List.take_zero, List.append_nil]
    · refine takeWhile_extend ?_
      rwa [List.length_take, Nat.min_eq_right hle]
  unfold readEscape at h ⊢
  split at h
  · next hnil =>
    cases x with
    | nil => cases h
    | cons c x =>
      rw [hdigits (by rw [hnil]; exact Nat.succ_pos _), hnil]
      rfl
  · next digits hne =>
    have hin : ((x.take 6).takeWhile Text.isHexDigit).length < x.length := by
      dsimp only at h
      split_ifs at h <;> omega
    rw [hdigits hin]
    split
    · next hnil => exact absurd hnil hne
    · dsimp only
      rw [getElem?_excerpt hin]

/-- An escape takes a character. -/
theorem readEscape_size_pos (c : Char) (cs : List Char) : 0 < (readEscape (c :: cs)).2 := by
  unfold readEscape
  split
  · exact Nat.one_pos
  · next hdigits =>
    have hpos := List.length_pos_iff.mpr hdigits
    dsimp only
    split_ifs
    · exact Nat.succ_pos _
    · exact hpos

/-! ## Names -/

section Names

variable {c : Char} {cs : List Char} {pass : Nat}

/-- **An escape in a name.** -/
theorem scanName_escape (h : c ≠ '\n') : scanName 0 ('\\' :: c :: cs) =
    (scanName (readEscape (c :: cs)).2 (c :: cs)).push (readEscape (c :: cs)).1 := by
  rw [scanName.eq_def]
  dsimp only
  rw [if_pos rfl, if_neg h]

/-- **A character of a name.** -/
theorem scanName_char (h : isNameChar c = true) :
    scanName 0 (c :: cs) = (scanName 0 cs).push c := by
  have hc : c ≠ '\\' := by
    rintro rfl
    exact absurd h (by decide)
  rw [scanName.eq_def]
  dsimp only
  rw [if_neg hc, if_pos h]

/-- **The end of a name.** -/
theorem scanName_end (hc : c ≠ '\\') (h : ¬isNameChar c = true) :
    scanName 0 (c :: cs) = .empty := by
  rw [scanName.eq_def]
  dsimp only
  rw [if_neg hc, if_neg h]

theorem scanName_pass_le (pass : Nat) (cs : List Char) :
    min pass cs.length ≤ (scanName pass cs).size :=
  scanName_eq ▸ Scanner.pass_le _ pass cs

end Names

/-! ## Scanners -/

namespace Scanner

variable {sc : Scanner} {c : Char} {said : List Char} {n pass : Nat}

/-- **A character that says the same in an excerpt**, which holds what belongs
to it. -/
theorem says?_excerpt (h : sc.says? c (x ++ a) = some (said, n))
    (hin : min n (x ++ a).length ≤ x.length) : sc.says? c x = some (said, n) := by
  unfold says? at h ⊢
  split_ifs at h ⊢
  · cases x with
    | nil =>
      cases a with
      | nil => exact h
      | cons next a =>
        -- the character after the backslash belongs to it
        have hn : 0 < n := by
          rw [List.nil_append] at h
          dsimp only at h
          unfold newline? at h
          split_ifs at h <;> cases h
          · exact Nat.one_pos
          · exact readEscape_size_pos next a
        rw [List.nil_append, List.length_cons, List.length_nil] at hin
        omega
    | cons next x =>
      rw [List.cons_append] at h hin
      dsimp only at h ⊢
      split_ifs at h ⊢
      · exact h
      · obtain ⟨rfl, rfl⟩ := Prod.mk.inj (Option.some.inj h)
        rw [← List.cons_append] at hin ⊢
        rw [readEscape_excerpt (List.cons_ne_nil next x) hin]
  · exact h

/-- A character that ends what is scanned. -/
theorem says?_excerpt_none (h : sc.says? c (x ++ a) = none)
    (hparted : sc.joins = true ∨ sc.last? = none ∨ ¬Parted (c :: x) a) :
    sc.says? c x = none := by
  unfold says? at h ⊢
  split_ifs at h ⊢ with hend hescape
  · rfl
  · subst hescape
    cases x with
    | nil =>
      cases a with
      | nil => exact h
      | cons next a =>
        rw [List.nil_append] at h
        dsimp only at h ⊢
        split_ifs at h with hnewline
        rcases hparted with hjoins | hlast | hparted
        · rw [newline?, if_pos hjoins] at h
          cases h
        · rw [hlast]
          rfl
        · exact absurd ⟨rfl, congrArg some hnewline⟩ hparted
    | cons next x =>
      rw [List.cons_append] at h
      dsimp only at h ⊢
      split_ifs at h ⊢
      exact h

/-- **What is scanned ends within an excerpt.** -/
theorem scan_excerpt (h : (sc.scan pass (x ++ a)).size ≤ x.length)
    (hparted : sc.joins = true ∨ sc.last? = none ∨
      ¬Parted (x.drop (sc.scan pass (x ++ a)).size) a) :
    sc.scan pass x = sc.scan pass (x ++ a) := by
  induction x generalizing pass with
  | nil => exact (scan_eq_empty (Nat.le_zero.mp h)).symm
  | cons c x ih =>
    rw [List.cons_append] at h hparted ⊢
    cases pass with
    | succ pass =>
      rw [scan] at h hparted ⊢
      rw [scan, ih (Nat.le_of_succ_le_succ h) hparted]
    | zero =>
      rcases hsays : sc.says? c (x ++ a) with _ | ⟨said, n⟩
      · rw [scan_of_none hsays] at hparted ⊢
        exact scan_of_none (says?_excerpt_none hsays hparted)
      · rw [scan_of_some hsays] at h hparted ⊢
        have hrest := Nat.le_of_succ_le_succ h
        have hin := Nat.le_trans (pass_le sc n (x ++ a)) hrest
        rw [scan_of_some (says?_excerpt hsays hin), ih hrest hparted]

/-- **A character that says the same before another text**, where what belongs
to it ends before. -/
theorem says?_extend (h : sc.says? c x = some (said, n)) (hin : n < x.length) :
    sc.says? c (x ++ a) = some (said, n) := by
  unfold says? at h ⊢
  split_ifs at h ⊢
  · cases x with
    | nil => cases hin
    | cons next x =>
      rw [List.cons_append]
      dsimp only at h ⊢
      split_ifs at h ⊢
      · exact h
      · obtain ⟨rfl, rfl⟩ := Prod.mk.inj (Option.some.inj h)
        rw [← List.cons_append, readEscape_extend hin]
  · exact h

/-- **What is scanned ends before the text does**, and not before a last
backslash. -/
theorem scan_extend (h : (sc.scan pass x).size < x.length)
    (hlast : sc.last? ≠ none ∨ x.drop (sc.scan pass x).size ≠ ['\\']) :
    sc.scan pass (x ++ a) = sc.scan pass x := by
  induction x generalizing pass with
  | nil => cases h
  | cons c x ih =>
    rw [List.cons_append]
    cases pass with
    | succ pass =>
      rw [scan] at h hlast ⊢
      rw [scan, ih (Nat.lt_of_succ_lt_succ h) hlast]
    | zero =>
      rcases hsays : sc.says? c x with _ | ⟨said, n⟩
      · rw [scan_of_none hsays] at hlast ⊢
        refine scan_of_none ?_
        unfold says? at hsays ⊢
        split_ifs at hsays ⊢ with hend hescape
        · rfl
        · subst hescape
          cases x with
          | nil =>
            exact (hlast.elim (fun hlast => hlast (Option.map_eq_none_iff.mp hsays)) fun hlast =>
              hlast rfl).elim
          | cons next x =>
            rw [List.cons_append]
            dsimp only at hsays ⊢
            split_ifs at hsays ⊢
            exact hsays
      · rw [scan_of_some hsays] at h hlast ⊢
        have hrest := Nat.lt_of_succ_lt_succ h
        have hpass := pass_le sc n x
        rw [scan_of_some (says?_extend hsays (by omega)), ih hrest hlast]

end Scanner

open Scanner (scan_excerpt scan_extend)

/-- **A name that ends within an excerpt.** -/
theorem scanName_excerpt (h : (scanName pass (x ++ a)).size ≤ x.length)
    (hparted : ¬Parted (x.drop (scanName pass (x ++ a)).size) a) :
    scanName pass x = scanName pass (x ++ a) := by
  rw [scanName_eq] at h hparted ⊢
  exact scan_excerpt h (Or.inr (Or.inr hparted))

/-- **The inside of a string that ends within an excerpt.** -/
theorem scanString_excerpt {quote : Char} (h : (scanString quote pass (x ++ a)).size ≤ x.length) :
    scanString quote pass x = scanString quote pass (x ++ a) := by
  rw [scanString_eq] at h ⊢
  exact scan_excerpt h (Or.inl rfl)

/-- **The inside of a string that ends before the text does.** -/
theorem scanString_extend {quote : Char} (h : (scanString quote pass x).size < x.length) :
    scanString quote pass (x ++ a) = scanString quote pass x := by
  rw [scanString_eq] at h ⊢
  exact scan_extend h (Or.inl (Option.some_ne_none _))

/-- **An address that ends within an excerpt.** -/
theorem scanAddress_excerpt (h : (scanAddress pass (x ++ a)).size ≤ x.length) :
    scanAddress pass x = scanAddress pass (x ++ a) := by
  rw [scanAddress_eq] at h ⊢
  exact scan_excerpt h (Or.inr (Or.inl rfl))

/-- **An address that ends before the text does**, and not before a last
backslash. -/
theorem scanAddress_extend (h : (scanAddress pass x).size < x.length)
    (hlast : x.drop (scanAddress pass x).size ≠ ['\\']) :
    scanAddress pass (x ++ a) = scanAddress pass x := by
  rw [scanAddress_eq] at h hlast ⊢
  exact scan_extend h (Or.inr hlast)

/-!
## Addresses in an excerpt

Whether `url(` starts an address or is a function shows only at the closing
bracket. An address that is closed within an excerpt is one there, and what
is an address in the excerpt is one in the text: so a function stays a
function.
-/

/-- **What is written for an address, within an excerpt.** -/
theorem addressOf?_excerpt {value : Scanned} (h : addressOf? (x ++ a) = some value)
    (hsize : value.size ≤ x.length) (hx : x ≠ []) : addressOf? x = some value := by
  obtain ⟨c, x, rfl⟩ := List.exists_cons_of_ne_nil hx
  rw [List.cons_append] at h
  unfold addressOf? at h ⊢
  dsimp only at h ⊢
  by_cases hquote : (decide (c = '"') || decide (c = '\'')) = true
  · rw [if_pos hquote] at h ⊢
    split_ifs at h with hclosed
    obtain rfl := Option.some.inj h
    have hin : (scanString c 0 (x ++ a)).size < x.length := Nat.le_of_succ_le_succ hsize
    rw [scanString_excerpt (Nat.le_of_lt hin), ← getElem?_excerpt hin, if_pos hclosed]
  · rw [if_neg hquote] at h ⊢
    split_ifs at h with hempty
    obtain rfl := Option.some.inj h
    have hscan := scanAddress_excerpt (x := c :: x) (a := a) hsize
    rw [List.cons_append] at hscan
    rw [hscan, if_neg hempty]

/-- **An address that is closed, within an excerpt.** -/
theorem scanUri?_excerpt {uri : Scanned} (h : scanUri? (x ++ a) = some uri)
    (hsize : uri.size ≤ x.length) : scanUri? x = some uri := by
  rw [scanUri?_eq] at h ⊢
  obtain ⟨value, hvalue, hclosed⟩ := Option.bind_eq_some_iff.mp h
  unfold closed? at hclosed
  dsimp only at hclosed
  split_ifs at hclosed with hbracket
  obtain rfl := Option.some.inj hclosed
  dsimp only at hsize
  have hlead : runSize Text.isSpace x = runSize Text.isSpace (x ++ a) :=
    runSize_excerpt (by omega)
  rw [← hlead] at hvalue hbracket hsize ⊢
  rw [List.drop_append_of_le_length (by omega)] at hvalue hbracket hsize ⊢
  generalize hbody : x.drop (runSize Text.isSpace x) = body at hvalue hbracket hsize ⊢
  have hlength : body.length = x.length - runSize Text.isSpace x := by
    rw [← hbody, List.length_drop]
  rw [List.drop_append_of_le_length (by omega)] at hbracket hsize ⊢
  have htrail : runSize Text.isSpace (body.drop value.size) =
      runSize Text.isSpace (body.drop value.size ++ a) :=
    runSize_excerpt (by rw [List.length_drop]; omega)
  rw [← htrail] at hbracket hsize ⊢
  rw [getElem?_excerpt (by rw [List.length_drop]; omega)] at hbracket
  have hbody : body ≠ [] := by
    rintro rfl
    simp only [List.length_nil] at hlength
    omega
  rw [addressOf?_excerpt hvalue (by omega) hbody, Option.bind_some]
  unfold closed?
  dsimp only
  rw [if_pos hbracket]

/-- **What is written for an address, before the text ends.** -/
theorem addressOf?_extend {value : Scanned} (h : addressOf? x = some value)
    (hsize : value.size < x.length) (hlast : x.drop value.size ≠ ['\\']) :
    addressOf? (x ++ a) = some value := by
  cases x with
  | nil => cases h
  | cons c x =>
    rw [List.cons_append]
    unfold addressOf? at h ⊢
    dsimp only at h ⊢
    by_cases hquote : (decide (c = '"') || decide (c = '\'')) = true
    · rw [if_pos hquote] at h ⊢
      split_ifs at h with hclosed
      obtain rfl := Option.some.inj h
      have hin : (scanString c 0 x).size < x.length :=
        Nat.lt_of_succ_lt (Nat.lt_of_succ_lt_succ hsize)
      rw [scanString_extend hin, getElem?_excerpt hin, if_pos hclosed]
    · rw [if_neg hquote] at h ⊢
      split_ifs at h with hempty
      obtain rfl := Option.some.inj h
      have hscan := scanAddress_extend (a := a) hsize hlast
      rw [List.cons_append] at hscan
      rw [hscan, if_neg hempty]

/-- **An address that is closed** stays one whatever is written after it. -/
theorem scanUri?_extend {uri : Scanned} (h : scanUri? x = some uri) :
    scanUri? (x ++ a) = some uri := by
  rw [scanUri?_eq] at h ⊢
  obtain ⟨value, hvalue, hclosed⟩ := Option.bind_eq_some_iff.mp h
  unfold closed? at hclosed
  dsimp only at hclosed
  split_ifs at hclosed with hbracket
  obtain rfl := Option.some.inj hclosed
  obtain ⟨hin, -⟩ := List.getElem?_eq_some_iff.mp (beq_iff_eq.mp hbracket)
  rw [List.length_drop, List.length_drop] at hin
  rw [runSize_extend (by omega)]
  rw [List.drop_append_of_le_length (by omega)]
  generalize hbody : x.drop (runSize Text.isSpace x) = body at hvalue hbracket hin ⊢
  have hlength : body.length = x.length - runSize Text.isSpace x := by
    rw [← hbody, List.length_drop]
  have hlast : body.drop value.size ≠ ['\\'] := by
    intro hlast
    rw [hlast] at hbracket
    exact absurd hbracket (by decide)
  rw [addressOf?_extend hvalue (by omega) hlast, Option.bind_some]
  have htrail : runSize Text.isSpace (body.drop value.size) < (body.drop value.size).length := by
    rw [List.length_drop]
    omega
  unfold closed?
  dsimp only
  rw [List.drop_append_of_le_length (by omega), runSize_extend htrail, getElem?_excerpt htrail,
    if_pos hbracket]

end Lexeme

end Stylesheet
