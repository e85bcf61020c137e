import Stylesheet.Proofs.Excerpt.Scanners
import Stylesheet.Proofs.TokenCut

/-!
# The first token of an excerpt

What ends a token is often not part of it: another character that cannot go
on with it, or the end of the text. Blanks, comments, semicolons, commas,
exclamation marks, braces and closing brackets end every token. If one of
them follows an excerpt, the first token of the text is that of the excerpt,
provided that it ends there (`Lexeme.first_excerpt`).
-/

namespace Stylesheet

namespace Lexeme

variable {x a : List Char}

variable {n : Nat} {c : Char} {p : Char → Bool} {w : List Char}

/-! ## What ends every token -/

/-- **The characters that end every token.** -/
def isFence (c : Char) : Bool :=
  [' ', '\t', '\n', '/', '!', ',', ';', '\x7b', '\x7d', ')'].contains c

/-- **A text that ends every token before it**: it is empty, or starts with
a character that does. -/
def Fenced (a : List Char) : Prop := ∀ c ∈ a.head?, isFence c = true

/-- **A token that ends within an excerpt**, and not right before a newline
that is escaped and parted from its backslash. -/
structure Fits (x a : List Char) (lx : Lexeme) : Prop where
  /-- It ends within the excerpt. -/
  size_le : lx.size ≤ x.length
  /-- No escaped newline is parted after it. -/
  whole : ¬Parted (x.drop lx.size) a

/-- A test that no character passes that ends every token. -/
def Inner (p : Char → Bool) : Prop := ∀ c, isFence c = true → p c = false

/-- What is so of the characters that end every token. -/
theorem inner_of_all
    (h : [' ', '\t', '\n', '/', '!', ',', ';', '\x7b', '\x7d', ')'].all (fun c => !p c) = true) :
    Inner p := by
  intro c hc
  have := List.all_eq_true.mp h c (List.contains_iff_mem.mp hc)
  simpa using this

/-- **A test of a character within or right after the excerpt.** -/
theorem any_excerpt (hp : Inner p) (ha : Fenced a) (hn : n ≤ x.length) :
    x[n]?.any p = (x ++ a)[n]?.any p := by
  rcases Nat.lt_or_eq_of_le hn with hlt | rfl
  · rw [getElem?_excerpt hlt]
  · rw [List.getElem?_eq_none (Nat.le_refl _), List.getElem?_append_right (Nat.le_refl _),
      Nat.sub_self, ← List.head?_eq_getElem?]
    cases hhead : a.head? with
    | none => rfl
    | some c => exact (hp c (ha c hhead)).symm

/-- A mark within or right after the excerpt. -/
theorem beq_excerpt {m : Char} (hm : isFence m = false) (ha : Fenced a) (hn : n ≤ x.length) :
    (x[n]? == some m) = ((x ++ a)[n]? == some m) := by
  have hany : ∀ c : Option Char, (c == some m) = c.any (· == m) := by
    rintro (_ | c) <;> rfl
  rw [hany, hany]
  refine any_excerpt (fun c hc => ?_) ha hn
  refine Bool.eq_false_iff.mpr fun heq => ?_
  rw [← beq_iff_eq.mp heq, hc] at hm
  cases hm

theorem isDigit_excerpt (ha : Fenced a) (hn : n ≤ x.length) :
    isDigit x[n]? = isDigit (x ++ a)[n]? :=
  any_excerpt (inner_of_all (by decide)) ha hn

/-- **A run that a fence ends.** -/
theorem takeWhile_fenced (hp : Inner p) (ha : Fenced a) : x.takeWhile p = (x ++ a).takeWhile p := by
  induction x with
  | nil =>
    cases a with
    | nil => rfl
    | cons c a =>
      rw [List.nil_append, List.takeWhile_cons_of_neg (by rw [hp c (ha c rfl)]; simp)]
      rfl
  | cons c x ih =>
    rw [List.cons_append]
    by_cases hc : p c = true
    · rw [List.takeWhile_cons_of_pos hc, List.takeWhile_cons_of_pos hc, ih]
    · rw [List.takeWhile_cons_of_neg hc, List.takeWhile_cons_of_neg hc]

/-! ## Where a name starts -/

theorem continuesName_excerpt {previous : Option Char} (hprevious : previous ≠ some '\\')
    (ha : Fenced a) (hn : n ≤ x.length) :
    continuesName x[n]? previous = continuesName (x ++ a)[n]? previous := by
  have hany : ∀ c : Option Char,
      continuesName c previous = c.any fun c => isNameChar c || c == '\\' := by
    have hne : (previous == some '\\') = false := beq_eq_false_iff_ne.mpr hprevious
    rintro (_ | c)
    · rfl
    · show (isNameChar c || c == '\\' || (previous == some '\\' && c != '\n')) = _
      rw [hne, Bool.false_and, Bool.or_false]
      rfl
  rw [hany, hany]
  exact any_excerpt (inner_of_all (by decide)) ha hn

/-- A character other than a backslash starts a name whatever follows it. -/
theorem startsPlainName_of_ne (hc : c ≠ '\\') (b b' : Option Char) :
    startsPlainName (some c) b = startsPlainName (some c) b' := by
  unfold startsPlainName
  split
  · next heq => cases heq
  · next heq => exact absurd (Option.some.inj heq) hc
  · next heq => rfl

/-- No name starts with what ends every token. -/
theorem startsPlainName_fenced (ha : Fenced a) (b : Option Char) :
    startsPlainName a[0]? b = false := by
  have hfalse : Inner fun c => c.isAlpha || c == '_' || decide (0xA0 ≤ c.toNat) || c == '\\' :=
    inner_of_all (by decide)
  cases a with
  | nil => rfl
  | cons c a =>
    have hc := hfalse c (ha c rfl)
    simp only [Bool.or_eq_false_iff, beq_eq_false_iff_ne] at hc
    rw [List.getElem?_cons_zero, startsPlainName_of_ne hc.2 b none]
    unfold startsPlainName
    split
    · rfl
    · next heq => exact absurd (Option.some.inj heq) hc.2
    · next heq =>
      obtain rfl := Option.some.inj heq
      simp [hc.1]

/-- A backslash at the end of an excerpt starts no name that ends there. -/
theorem startsPlainName_backslash (h : (scanName 0 ('\\' :: a)).size ≤ 1) :
    startsPlainName (some '\\') a[0]? = false := by
  cases a with
  | nil => rfl
  | cons next a =>
    by_cases hnewline : next = '\n'
    · subst hnewline
      rfl
    · rw [scanName_escape hnewline] at h
      have hpass := scanName_pass_le (readEscape (next :: a)).2 (next :: a)
      have hpos := readEscape_size_pos next a
      simp only [Scanned.push, List.length_cons] at h hpass
      omega

/-- What starts a name by its first two characters. -/
theorem startsPlainName_excerpt {x : List Char}
    (h : startsPlainName (some c) (x ++ a)[0]? = true →
      (scanName 0 (c :: (x ++ a))).size ≤ (c :: x).length) :
    startsPlainName (some c) x[0]? = startsPlainName (some c) (x ++ a)[0]? := by
  cases x with
  | cons d x => rfl
  | nil =>
    by_cases hc : c = '\\'
    · subst hc
      refine ((Bool.eq_false_or_eq_true _).resolve_left fun htrue => ?_).symm
      rw [startsPlainName_backslash (h htrue)] at htrue
      cases htrue
    · exact startsPlainName_of_ne hc _ _

/-- **Whether a name comes next**, if it ends within the excerpt. -/
theorem nameComesNext_excerpt (ha : Fenced a)
    (h : nameComesNext (x ++ a) = true → (scanName 0 (x ++ a)).size ≤ x.length) :
    nameComesNext x = nameComesNext (x ++ a) := by
  unfold nameComesNext startsName at h ⊢
  cases x with
  | nil =>
    rw [List.nil_append] at h ⊢
    have hdash := beq_excerpt (x := []) (m := '-') rfl ha (Nat.le_refl 0)
    rw [List.nil_append] at hdash
    rw [← hdash, startsPlainName_fenced ha]
    rfl
  | cons c x =>
    simp only [List.cons_append, List.getElem?_cons_zero, List.getElem?_cons_succ] at h ⊢
    by_cases hc : (some c == some '-') = true
    · rw [if_pos hc] at h ⊢
      obtain rfl : c = '-' := Option.some.inj (beq_iff_eq.mp hc)
      unfold bne at h ⊢
      rw [if_pos hc, beq_excerpt rfl ha (Nat.zero_le _)]
      cases x with
      | nil =>
        rw [List.nil_append, startsPlainName_fenced ha]
        rfl
      | cons d x =>
        simp only [List.cons_append, List.getElem?_cons_zero, List.getElem?_cons_succ] at h ⊢
        cases hdash : (some d == some '-') with
        | true => rfl
        | false =>
          rw [hdash] at h
          refine congrArg (!false && ·) (startsPlainName_excerpt fun htrue => ?_)
          have hsize := h htrue
          rw [scanName_char (by decide)] at hsize
          exact Nat.le_of_succ_le_succ hsize
    · rw [if_neg hc] at h ⊢
      rw [if_neg hc]
      exact startsPlainName_excerpt h

/-! ## Names and functions -/

theorem scanName_size_le_identLike (cs : List Char) :
    (scanName 0 cs).size ≤ (identLike cs).size := by
  cases hcalled : isCalled cs with
  | true =>
    rw [identLike_of_called hcalled]
    unfold callOf
    split
    · exact Nat.le_trans (Nat.le_succ _) (Nat.le_add_right _ _)
    · exact Nat.le_succ _
  | false =>
    rw [identLike_of_name hcalled]
    unfold filterOf?
    split_ifs
    · cases Text.indexOf? ['('] ((cs.drop (scanName 0 cs).size).takeWhile (· != '\n')) with
      | none => exact Nat.le_refl _
      | some n => exact Nat.le_trans (Nat.le_add_right _ n) (Nat.le_succ _)
    · exact Nat.le_refl _

/-- A character that is found in a text is found in a longer one. -/
theorem indexOf?_append (v : List Char) (h : Text.indexOf? [c] w = some n) :
    Text.indexOf? [c] (w ++ v) = some n := by
  induction w generalizing n with
  | nil => cases h
  | cons d w ih =>
    rw [List.cons_append]
    unfold Text.indexOf? at h ⊢
    have hstarts : [c].isPrefixOf (d :: (w ++ v)) = [c].isPrefixOf (d :: w) := by
      simp [List.isPrefixOf]
    rw [hstarts]
    split_ifs at h ⊢
    · exact h
    · obtain ⟨m, hm, rfl⟩ := Option.map_eq_some_iff.mp h
      rw [ih hm]
      rfl

/-- A character that is found in a text is one of it. -/
theorem indexOf?_lt (h : Text.indexOf? [c] w = some n) : n < w.length := by
  induction w generalizing n with
  | nil => cases h
  | cons d w ih =>
    unfold Text.indexOf? at h
    split_ifs at h
    · obtain rfl := Option.some.inj h
      exact Nat.succ_pos _
    · obtain ⟨m, hm, rfl⟩ := Option.map_eq_some_iff.mp h
      exact Nat.succ_lt_succ (ih hm)

/-- A character that is found early enough is found in the beginning of the
text. -/
theorem indexOf?_excerpt {v : List Char} (h : Text.indexOf? [c] (w ++ v) = some n)
    (hn : n < w.length) : Text.indexOf? [c] w = some n := by
  induction w generalizing n with
  | nil => cases hn
  | cons d w ih =>
    rw [List.cons_append] at h
    unfold Text.indexOf? at h ⊢
    have hstarts : [c].isPrefixOf (d :: (w ++ v)) = [c].isPrefixOf (d :: w) := by
      simp [List.isPrefixOf]
    rw [hstarts] at h
    split_ifs at h ⊢
    · exact h
    · obtain ⟨m, hm, rfl⟩ := Option.map_eq_some_iff.mp h
      rw [ih hm (Nat.lt_of_succ_lt_succ hn)]
      rfl

/-- **The filter that a name begins, within an excerpt.** -/
theorem filterOf?_excerpt {name : String} {size : Nat} (ha : Fenced a)
    (h : ∀ lx, filterOf? name size (x ++ a) = some lx → lx.size ≤ size + x.length) :
    filterOf? name size x = filterOf? name size (x ++ a) := by
  have hcolon : (x.head? == some ':') = ((x ++ a).head? == some ':') := by
    rw [List.head?_eq_getElem?, List.head?_eq_getElem?]
    exact beq_excerpt rfl ha (Nat.zero_le _)
  unfold filterOf? at h ⊢
  rw [hcolon]
  by_cases hfilter : (name == "progid" && (x ++ a).head? == some ':') = true
  · rw [if_pos hfilter] at h ⊢
    rw [if_pos hfilter]
    -- the line of the excerpt is a beginning of that of the text
    obtain ⟨v, hline⟩ : ∃ v, (x ++ a).takeWhile (· != '\n') = x.takeWhile (· != '\n') ++ v ∧
        (v ≠ [] → x.takeWhile (· != '\n') = x) := by
      rw [List.takeWhile_append]
      split_ifs with hall
      · have hx : x.takeWhile (· != '\n') = x :=
          (List.takeWhile_sublist _).eq_of_length hall
        exact ⟨a.takeWhile (· != '\n'), by rw [hx], fun _ => hx⟩
      · exact ⟨[], (List.append_nil _).symm, fun hv => absurd rfl hv⟩
    rw [hline.1] at h ⊢
    cases hfound : Text.indexOf? ['('] (x.takeWhile (· != '\n') ++ v) with
    | some n =>
      rw [hfound] at h
      have hsize : size + n + 1 ≤ size + x.length := h _ rfl
      have hn : n < (x.takeWhile (· != '\n')).length := by
        by_cases hv : v = []
        · rw [hv, List.append_nil] at hfound
          exact indexOf?_lt hfound
        · rw [hline.2 hv]
          omega
      rw [indexOf?_excerpt hfound hn, Option.map_some, Option.map_some,
        List.take_append_of_le_length (by omega)]
    | none =>
      cases hfound' : Text.indexOf? ['('] (x.takeWhile (· != '\n')) with
      | none => rfl
      | some n =>
        rw [indexOf?_append v hfound'] at hfound
        cases hfound
  · rw [if_neg hfilter, if_neg hfilter]

/-- **A name or a function within an excerpt.** -/
theorem identLike_excerpt (ha : Fenced a) (hx : x ≠ [])
    (h : Fits x a (identLike (x ++ a))) : identLike x = identLike (x ++ a) := by
  obtain ⟨hsize, hparted⟩ := h
  have hlength := List.length_pos_iff.mpr hx
  have hscanned := Nat.le_trans (scanName_size_le_identLike (x ++ a)) hsize
  have hrest : (x ++ a).drop (scanName 0 (x ++ a)).size =
      x.drop (scanName 0 (x ++ a)).size ++ a := List.drop_append_of_le_length hscanned
  -- a character after the name is not the backslash of an escaped newline
  have hmark : ∀ m, m ≠ '\\' → isFence m = false →
      (x.drop (scanName 0 (x ++ a)).size ++ a).head? = some m →
      ¬Parted (x.drop (scanName 0 (x ++ a)).size) a := by
    rintro m hm - hhead ⟨hdrop, -⟩
    rw [hdrop] at hhead
    exact hm (Option.some.inj hhead).symm
  have hvendor : (scanName 0 x = scanName 0 (x ++ a)) → vendorPosOf x = vendorPosOf (x ++ a) := by
    intro hscan
    unfold vendorPosOf bne
    rw [hscan, List.head?_eq_getElem?, List.head?_eq_getElem?,
      beq_excerpt rfl ha (Nat.zero_le _), beq_excerpt rfl ha hlength]
  cases hcalled : isCalled (x ++ a) with
  | true =>
    have hhead := hcalled
    unfold isCalled at hhead
    rw [hrest] at hhead
    have hscan := scanName_excerpt hscanned (hmark '(' (by decide) rfl (beq_iff_eq.mp hhead))
    have hcalled' : isCalled x = true := by
      unfold isCalled
      rw [hscan, List.head?_eq_getElem?, beq_excerpt rfl ha (Nat.zero_le _),
        ← List.head?_eq_getElem?]
      exact hhead
    rw [identLike_of_called hcalled] at hsize ⊢
    rw [identLike_of_called hcalled', hscan, hvendor hscan]
    rw [hrest] at hsize ⊢
    have hpos : 1 ≤ (x.drop (scanName 0 (x ++ a)).size).length := by
      unfold callOf at hsize
      rw [List.length_drop]
      split at hsize <;> dsimp only at hsize <;> omega
    rw [List.drop_append_of_le_length hpos] at hsize ⊢
    generalize hargs : (x.drop (scanName 0 (x ++ a)).size).drop 1 = args at hsize ⊢
    have hlast : args.length = x.length - (scanName 0 (x ++ a)).size - 1 := by
      rw [← hargs, List.length_drop, List.length_drop]
    rw [List.length_drop] at hpos
    unfold callOf at hsize ⊢
    by_cases huri : uriFunctions.contains (Text.lower (String.ofList (scanName 0 (x ++ a)).value)) =
        true
    · rw [if_pos huri] at hsize ⊢
      rw [if_pos huri]
      cases hfound : scanUri? (args ++ a) with
      | some uri =>
        rw [hfound] at hsize
        dsimp only at hsize
        rw [scanUri?_excerpt hfound (by omega)]
      | none =>
        cases hfound' : scanUri? args with
        | none => rfl
        | some uri =>
          rw [scanUri?_extend hfound'] at hfound
          cases hfound
    · rw [if_neg huri, if_neg huri]
  | false =>
    have hhead := hcalled
    unfold isCalled at hhead
    rw [hrest] at hhead
    rw [identLike_of_name hcalled] at hsize hparted ⊢
    rw [hrest] at hsize hparted ⊢
    have hparted' : ¬Parted (x.drop (scanName 0 (x ++ a)).size) a := by
      cases hfilter : filterOf? (String.ofList (scanName 0 (x ++ a)).value)
          (scanName 0 (x ++ a)).size (x.drop (scanName 0 (x ++ a)).size ++ a) with
      | none =>
        rw [hfilter] at hparted
        exact hparted
      | some lx =>
        refine hmark ':' (by decide) rfl ?_
        unfold filterOf? at hfilter
        split_ifs at hfilter with hcolon
        exact beq_iff_eq.mp (Bool.and_eq_true_iff.mp hcolon).2
    have hscan := scanName_excerpt hscanned hparted'
    have hcalled' : isCalled x = false := by
      unfold isCalled
      rw [hscan, List.head?_eq_getElem?, beq_excerpt rfl ha (Nat.zero_le _),
        ← List.head?_eq_getElem?]
      exact hhead
    rw [identLike_of_name hcalled', hscan, hvendor hscan]
    rw [filterOf?_excerpt ha fun lx hlx => ?_]
    rw [hlx] at hsize
    rw [List.length_drop]
    exact Nat.le_trans hsize (by omega)

/-! ## Numbers and code points -/

theorem head?_beq_excerpt {m : Char} (hm : isFence m = false) (ha : Fenced a) (x : List Char) :
    (x.head? == some m) = ((x ++ a).head? == some m) := by
  rw [List.head?_eq_getElem?, List.head?_eq_getElem?]
  exact beq_excerpt hm ha (Nat.zero_le _)

theorem numberComesNext_excerpt (ha : Fenced a) (hx : x ≠ []) :
    numberComesNext x = numberComesNext (x ++ a) := by
  obtain ⟨c, x, rfl⟩ := List.exists_cons_of_ne_nil hx
  rw [List.cons_append]
  unfold numberComesNext
  dsimp only
  rw [List.head?_eq_getElem?, List.head?_eq_getElem?, isDigit_excerpt ha (Nat.zero_le _),
    beq_excerpt rfl ha (Nat.zero_le _)]
  cases x with
  | nil =>
    have hpoint := beq_excerpt (x := []) (m := '.') rfl ha (Nat.le_refl 0)
    rw [← hpoint]
    simp
  | cons d x =>
    have hone : 1 ≤ (d :: x).length := Nat.succ_le_succ (Nat.zero_le _)
    rw [isDigit_excerpt ha hone]

theorem takeWhile_isDigit_excerpt (ha : Fenced a) (x : List Char) :
    x.takeWhile Char.isDigit = (x ++ a).takeWhile Char.isDigit :=
  takeWhile_fenced (inner_of_all (by decide)) ha

theorem fractionOf_excerpt (ha : Fenced a) (x : List Char) :
    fractionOf x = fractionOf (x ++ a) ∧ fractionSizeOf (fractionOf x) ≤ x.length := by
  unfold fractionOf
  rw [head?_beq_excerpt rfl ha]
  cases hpoint : (x ++ a).head? == some '.' with
  | false => exact ⟨rfl, Nat.zero_le _⟩
  | true =>
    rw [← head?_beq_excerpt rfl ha] at hpoint
    obtain ⟨x, rfl⟩ := List.head?_eq_some_iff.mp (beq_iff_eq.mp hpoint)
    rw [isDigit_excerpt ha (by rw [List.length_cons]; exact Nat.succ_le_succ (Nat.zero_le _))]
    split_ifs
    · refine ⟨takeWhile_isDigit_excerpt ha x, ?_⟩
      have hle := (List.takeWhile_sublist (l := x) Char.isDigit).length_le
      unfold fractionSizeOf
      show (if (x.takeWhile Char.isDigit).isEmpty then 0 else _) ≤ x.length + 1
      split_ifs
      · exact Nat.zero_le _
      · exact Nat.succ_le_succ hle
    · exact ⟨rfl, Nat.zero_le _⟩

theorem signSize_excerpt (ha : Fenced a) (hn : n ≤ x.length) :
    signSize x[n]? = signSize (x ++ a)[n]? := by
  unfold signSize
  rw [beq_excerpt rfl ha hn, beq_excerpt rfl ha hn]

/-- **An exponent within an excerpt.** -/
theorem exponent_excerpt (ha : Fenced a) (x : List Char) :
    hasExponent x = hasExponent (x ++ a) ∧ exponentValueOf x = exponentValueOf (x ++ a) ∧
      exponentSizeOf x = exponentSizeOf (x ++ a) ∧ exponentSizeOf x ≤ x.length := by
  cases x with
  | nil =>
    have hhas : hasExponent ([] ++ a) = false := by
      unfold hasExponent
      rw [← head?_beq_excerpt rfl ha, ← head?_beq_excerpt rfl ha]
      rfl
    unfold exponentValueOf exponentSizeOf exponentOf
    rw [hhas]
    exact ⟨rfl, rfl, rfl, Nat.le_refl 0⟩
  | cons c x =>
    have hone : 1 ≤ (c :: x).length := Nat.succ_le_succ (Nat.zero_le _)
    have hsign : signSize (c :: x)[1]? = signSize (c :: x ++ a)[1]? := signSize_excerpt ha hone
    have hlength : 1 + signSize (c :: x)[1]? ≤ (c :: x).length := by
      cases x with
      | nil => exact Nat.le_refl 1
      | cons d x =>
        have : signSize (some d) ≤ 1 := by
          unfold signSize
          split_ifs <;> simp
        show 1 + signSize (some d) ≤ x.length + 1 + 1
        omega
    have hhas : hasExponent (c :: x) = hasExponent (c :: x ++ a) := by
      unfold hasExponent
      rw [← hsign, isDigit_excerpt ha hlength]
      rfl
    have hdigits : exponentOf (c :: x) = exponentOf (c :: x ++ a) := by
      unfold exponentOf
      rw [hhas, ← hsign, List.drop_append_of_le_length hlength, ← takeWhile_isDigit_excerpt ha]
    refine ⟨hhas, ?_, ?_, ?_⟩
    · unfold exponentValueOf
      rw [hhas, hdigits, beq_excerpt rfl ha hone]
    · unfold exponentSizeOf
      rw [hhas, hdigits, hsign]
    · have hle := (List.takeWhile_sublist (l := (c :: x).drop (1 + signSize (c :: x)[1]?))
        Char.isDigit).length_le
      rw [List.length_drop] at hle
      unfold exponentSizeOf exponentOf
      split_ifs <;> omega

/-- **The figures of a number within an excerpt.** -/
theorem figuresOf_excerpt (ha : Fenced a) (hx : x ≠ []) :
    figuresOf x = figuresOf (x ++ a) ∧ (figuresOf x).size ≤ x.length := by
  have hpos := List.length_pos_iff.mpr hx
  have hhead : x.head? = (x ++ a).head? := by
    obtain ⟨c, x, rfl⟩ := List.exists_cons_of_ne_nil hx
    rfl
  have hsign : signSize x.head? ≤ x.length := by
    have : signSize x.head? ≤ 1 := by
      unfold signSize
      split_ifs <;> simp
    omega
  have hwhole := (List.takeWhile_sublist (l := x.drop (signSize x.head?)) Char.isDigit).length_le
  rw [List.length_drop] at hwhole
  unfold figuresOf
  dsimp only
  rw [← hhead, List.drop_append_of_le_length hsign, ← takeWhile_isDigit_excerpt ha,
    List.drop_append_of_le_length (by omega)]
  generalize hafter : x.drop (signSize x.head? +
    ((x.drop (signSize x.head?)).takeWhile Char.isDigit).length) = after
  have hlength := congrArg List.length hafter
  rw [List.length_drop] at hlength
  obtain ⟨hfraction, hfractionSize⟩ := fractionOf_excerpt ha after
  obtain ⟨hhas, hvalue, hexponent, hexponentSize⟩ :=
    exponent_excerpt ha (after.drop (fractionSizeOf (fractionOf after)))
  rw [List.length_drop] at hexponentSize
  unfold Figures.of
  dsimp only
  rw [← hfraction, List.drop_append_of_le_length hfractionSize, ← hhas, ← hvalue, ← hexponent]
  exact ⟨rfl, by omega⟩

/-- **A number within an excerpt.** -/
theorem numeric_excerpt (ha : Fenced a) (hx : x ≠ []) (h : Fits x a (numeric (x ++ a))) :
    numeric x = numeric (x ++ a) := by
  obtain ⟨hsize, hparted⟩ := h
  obtain ⟨hfigures, hle⟩ := figuresOf_excerpt ha hx
  have hnumeric : numeric (x ++ a) =
      (figuresOf x).withUnit (x.drop (figuresOf x).size ++ a) := by
    rw [numeric_eq, ← hfigures, List.drop_append_of_le_length hle]
  rw [hnumeric] at hsize hparted ⊢
  rw [numeric_eq]
  generalize hafter : x.drop (figuresOf x).size = after at hsize hparted ⊢
  have hlength := congrArg List.length hafter
  rw [List.length_drop] at hlength
  unfold Figures.withUnit at hsize hparted ⊢
  rw [head?_beq_excerpt rfl ha]
  by_cases hpercent : ((after ++ a).head? == some '%') = true
  · rw [if_pos hpercent, if_pos hpercent]
  · rw [if_neg hpercent] at hsize hparted ⊢
    rw [if_neg hpercent]
    have hname : nameComesNext (after ++ a) = true →
        (scanName 0 (after ++ a)).size ≤ after.length := by
      intro hname
      rw [if_pos hname] at hsize
      dsimp only at hsize
      omega
    rw [nameComesNext_excerpt ha hname]
    by_cases hunit : nameComesNext (after ++ a) = true
    · rw [if_pos hunit] at hparted ⊢
      rw [if_pos hunit]
      dsimp only at hparted ⊢
      rw [← List.drop_drop, hafter] at hparted
      rw [scanName_excerpt (hname hunit) hparted]
    · rw [if_neg hunit, if_neg hunit]

theorem hexRun_excerpt (ha : Fenced a) (x : List Char) : hexRun x = hexRun (x ++ a) := by
  unfold hexRun
  rw [List.take_append]
  refine takeWhile_fenced (inner_of_all (by decide)) ?_
  intro c hc
  refine ha c ?_
  rw [List.head?_take] at hc
  split_ifs at hc
  · cases hc
  · exact hc

/-- **A range of code points within an excerpt.** -/
theorem codeRange?_excerpt (ha : Fenced a) (hx : 2 ≤ x.length) :
    codeRange? x = codeRange? (x ++ a) := by
  have hlength : (hexRun (x.drop 2)).length ≤ x.length - 2 := by
    have hle := (List.takeWhile_sublist (l := (x.drop 2).take 6) Text.isHexDigit).length_le
    rw [List.length_take, List.length_drop] at hle
    exact Nat.le_trans hle (Nat.min_le_right _ _)
  have hmarks : ∀ y : List Char, (y.take 6).takeWhile (· == '?') =
      ((y ++ a).take 6).takeWhile (· == '?') := by
    intro y
    rw [List.take_append]
    refine takeWhile_fenced (inner_of_all (by decide)) fun c hc => ha c ?_
    rw [List.head?_take] at hc
    split_ifs at hc
    · cases hc
    · exact hc
  unfold codeRange?
  dsimp only
  rw [List.drop_append_of_le_length hx, ← hexRun_excerpt ha]
  by_cases hnone : (hexRun (x.drop 2)).isEmpty = true
  · rw [if_pos hnone, if_pos hnone]
  · rw [if_neg hnone, if_neg hnone]
    rw [List.drop_append_of_le_length (by omega)]
    generalize x.drop (2 + (hexRun (x.drop 2)).length) = after
    rw [← head?_beq_excerpt rfl ha, ← head?_beq_excerpt rfl ha, ← hmarks]
    cases after with
    | nil => rfl
    | cons c after =>
      have hone : 1 ≤ (c :: after).length := Nat.succ_le_succ (Nat.zero_le _)
      rw [← any_excerpt (inner_of_all (by decide)) ha hone,
        List.drop_append_of_le_length hone, ← hexRun_excerpt ha]

/-! ## The first token -/

/-- **A token that starts with a dash, within an excerpt.** -/
theorem dashed_excerpt (ha : Fenced a) (hx : x ≠ []) (h : Fits x a (dashed (x ++ a))) :
    dashed x = dashed (x ++ a) := by
  obtain ⟨hsize, hparted⟩ := h
  have hone := List.length_pos_iff.mpr hx
  unfold dashed at hsize hparted ⊢
  rw [beq_excerpt rfl ha hone]
  by_cases hdash : ((x ++ a)[1]? == some '-') = true
  · rw [if_pos hdash] at hsize hparted ⊢
    rw [if_pos hdash]
    have htwo : 2 ≤ x.length := by
      rw [← beq_excerpt rfl ha hone] at hdash
      obtain ⟨hlt, -⟩ := List.getElem?_eq_some_iff.mp (beq_iff_eq.mp hdash)
      exact hlt
    rw [beq_iff_eq.mp (show (x[1]? == some '-') = true by rwa [beq_excerpt rfl ha hone]),
      continuesName_excerpt (by decide) ha htwo, beq_excerpt rfl ha htwo]
    rw [beq_iff_eq.mp hdash] at hsize hparted ⊢
    split_ifs at hsize hparted ⊢
    · exact identLike_excerpt ha hx ⟨hsize, hparted⟩
    · rfl
    · rfl
  · rw [if_neg hdash] at hsize hparted ⊢
    rw [if_neg hdash]
    rw [nameComesNext_excerpt ha fun hname => ?_]
    · split_ifs at hsize hparted ⊢
      · exact identLike_excerpt ha hx ⟨hsize, hparted⟩
      · rfl
    · rw [if_pos hname] at hsize
      exact Nat.le_trans (scanName_size_le_identLike _) hsize

/-- **A string within an excerpt.** -/
theorem quoted_excerpt {quote : Char} (hquote : isFence quote = false) (ha : Fenced a)
    (hsize : (quoted quote (x ++ a)).size ≤ x.length + 1) :
    quoted quote x = quoted quote (x ++ a) := by
  have hscan : (scanString quote 0 (x ++ a)).size ≤ x.length := by
    unfold quoted at hsize
    dsimp only at hsize
    split_ifs at hsize <;> dsimp only at hsize <;> omega
  unfold quoted
  dsimp only
  rw [scanString_excerpt hscan, beq_excerpt hquote ha hscan]

/-- **A choice that is made alike** comes to the same if what is chosen
does. -/
theorem ite_excerpt {c : Prop} [Decidable c] {P : Lexeme → Prop} {lx lx' kx kx' : Lexeme}
    (hpos : c → P lx' → lx = lx') (hneg : ¬c → P kx' → kx = kx')
    (h : P (if c then lx' else kx')) : (if c then lx else kx) = if c then lx' else kx' := by
  by_cases hc : c
  · rw [if_pos hc] at h ⊢
    rw [if_pos hc, hpos hc h]
  · rw [if_neg hc] at h ⊢
    rw [if_neg hc, hneg hc h]

/-- A name that ends within the rest of an excerpt. -/
theorem scanName_excerpt_of_lt {x : List Char}
    (hsize : (scanName 0 (x ++ a)).size + 1 ≤ (c :: x).length)
    (hparted : ¬Parted ((c :: x).drop ((scanName 0 (x ++ a)).size + 1)) a) :
    scanName 0 x = scanName 0 (x ++ a) :=
  scanName_excerpt (Nat.le_of_succ_le_succ hsize) hparted

/-- **A token that is neither a name nor a number, within an excerpt.** A
star also says whether a name follows it. -/
theorem punctuation_excerpt {x : List Char} (ha : Fenced a)
    (h : Fits (c :: x) a (punctuation c (x ++ a)))
    (hstar : (punctuation c (x ++ a)).kind = .star → (punctuation c (x ++ a)).size = 1 →
      startsName x.head? x[1]? none = startsName (x ++ a).head? (x ++ a)[1]? none) :
    punctuation c x = punctuation c (x ++ a) := by
  have hhash : (c == '#' && continuesName x.head? (some c)) =
      (c == '#' && continuesName (x ++ a).head? (some c)) := by
    cases hc : c == '#' with
    | false => rfl
    | true =>
      rw [eq_of_beq hc, List.head?_eq_getElem?, List.head?_eq_getElem?,
        continuesName_excerpt (by decide) ha (Nat.zero_le _)]
  have hat : (c == '@' && nameComesNext x) = (c == '@' && nameComesNext (x ++ a)) := by
    cases hc : c == '@' with
    | false => rfl
    | true =>
      rw [nameComesNext_excerpt ha fun hname => ?_]
      obtain rfl := eq_of_beq hc
      have hrun : (punctuation '@' (x ++ a)).size = (scanName 0 (x ++ a)).size + 1 := by
        unfold punctuation
        simp [hname]
      have hsize := h.size_le
      rw [hrun] at hsize
      exact Nat.le_of_succ_le_succ hsize
  have hcdco : (c == '<' && "!--".toList.isPrefixOf x) =
      (c == '<' && "!--".toList.isPrefixOf (x ++ a)) := by
    cases hc : c == '<' with
    | false => rfl
    | true =>
      rw [Bool.true_and, Bool.true_and, Bool.eq_iff_iff, List.isPrefixOf_iff_prefix,
        List.isPrefixOf_iff_prefix]
      refine ⟨fun hstarts => hstarts.trans (List.prefix_append x a), fun hstarts => ?_⟩
      obtain rfl := eq_of_beq hc
      have hrun : punctuation '<' (x ++ a) = ⟨.cdco, .none, 4⟩ := by
        obtain ⟨rest, hrest⟩ := hstarts
        rw [← hrest]
        rfl
      have hsize := h.size_le
      rw [hrun] at hsize
      exact List.prefix_of_prefix_length_le hstarts (List.prefix_append x a)
        (Nat.le_of_succ_le_succ hsize)
  -- what is so of the token is so of the one that is chosen
  obtain ⟨P, hP, hfits⟩ : ∃ P : Lexeme → Prop, (∀ lx, P lx → Fits (c :: x) a lx ∧
      (lx.kind = .star → lx.size = 1 →
        startsName x.head? x[1]? none = startsName (x ++ a).head? (x ++ a)[1]? none)) ∧
      P (punctuation c (x ++ a)) := ⟨_, fun _ h => h, h, hstar⟩
  unfold punctuation at hfits ⊢
  dsimp only at hfits ⊢
  rw [hhash, hat, hcdco, head?_beq_excerpt (m := '=') rfl ha x,
    head?_beq_excerpt (m := '|') rfl ha x]
  refine ite_excerpt (fun _ _ => rfl) (fun _ => ite_excerpt (fun _ _ => rfl) fun _ =>
    ite_excerpt (fun _ _ => rfl) fun _ => ite_excerpt (fun _ h => ?_) fun _ =>
    ite_excerpt (fun _ h => ?_) fun _ => ite_excerpt (fun hquote h => ?_) fun _ =>
    ite_excerpt (fun _ h => ?_) fun _ => ite_excerpt (fun _ h => ?_) fun _ =>
    ite_excerpt (fun _ _ => rfl) fun _ _ => rfl) hfits
  · rw [scanName_excerpt_of_lt (hP _ h).1.size_le (hP _ h).1.whole]
  · rw [(hP _ h).2 rfl rfl]
  · refine quoted_excerpt ?_ ha (hP _ h).1.size_le
    rcases (Bool.or_eq_true _ _).mp hquote with hc | hc <;>
      · rw [eq_of_beq hc]
        rfl
  · -- a newline after the backslash belongs to the token
    cases x with
    | nil =>
      rw [List.nil_append] at h ⊢
      have hnewline : (a.head? == some '\n') = false := by
        refine Bool.eq_false_iff.mpr fun hnewline => ?_
        rw [if_pos hnewline] at h
        obtain ⟨a, rfl⟩ := List.head?_eq_some_iff.mp (eq_of_beq hnewline)
        have hpos := runSize_pos (p := Text.isSpace) (c := '\n') rfl a
        have hle : 1 + runSize Text.isSpace ('\n' :: a) ≤ 1 := (hP _ h).1.size_le
        omega
      rw [hnewline]
      rfl
    | cons d x =>
      refine ite_excerpt (c := (some d == some '\n') = true) (fun _ h => ?_) (fun _ _ => rfl) h
      have hle : 1 + runSize Text.isSpace (d :: x ++ a) ≤ (d :: x).length + 1 :=
        (hP _ h).1.size_le
      rw [runSize_excerpt (a := a) (by omega)]
  · rw [scanName_excerpt_of_lt (hP _ h).1.size_le (hP _ h).1.whole]

/-- **The token an excerpt starts with**, when it starts neither with a blank
nor with a comment. -/
theorem significant_excerpt (ha : Fenced a) (hx : x ≠ []) (h : Fits x a (significant (x ++ a)))
    (hstar : (significant (x ++ a)).kind = .star → (significant (x ++ a)).size = 1 →
      startsName x[1]? x[2]? none = startsName (x ++ a)[1]? (x ++ a)[2]? none) :
    significant x = significant (x ++ a) := by
  have hnumber := numberComesNext_excerpt ha hx
  obtain ⟨c, x, rfl⟩ := List.exists_cons_of_ne_nil hx
  obtain ⟨P, hP, hfits⟩ : ∃ P : Lexeme → Prop, (∀ lx, P lx → Fits (c :: x) a lx ∧
      (lx.kind = .star → lx.size = 1 →
        startsName x.head? x[1]? none = startsName (x ++ a).head? (x ++ a)[1]? none)) ∧
      P (significant (c :: x ++ a)) := by
    refine ⟨_, fun _ h => h, h, ?_⟩
    rw [List.head?_eq_getElem?, List.head?_eq_getElem?]
    exact hstar
  have hrun : ∀ y : List Char, significant (c :: y) =
      if numberComesNext (c :: y) then numeric (c :: y)
      else if c = '-' then dashed (c :: y)
      else if (c = 'U' || c = 'u') && y.head? == some '+' then
        (codeRange? (c :: y)).getD ⟨.ident, .ident (String.singleton c) 0 false, 1⟩
      else if nameComesNext (c :: y) then identLike (c :: y)
      else punctuation c y := fun _ => rfl
  rw [List.cons_append] at hfits hnumber ⊢
  rw [hrun] at hfits ⊢
  rw [hrun, hnumber, head?_beq_excerpt (m := '+') rfl ha x]
  refine ite_excerpt (fun _ h => numeric_excerpt ha hx (hP _ h).1) (fun _ =>
    ite_excerpt (fun _ h => dashed_excerpt ha hx (hP _ h).1) fun _ =>
    ite_excerpt (fun hplus _ => ?_) fun _ h => ?_) hfits
  · have htwo : 2 ≤ (c :: x).length := by
      rw [← head?_beq_excerpt rfl ha] at hplus
      obtain ⟨x, rfl⟩ := List.head?_eq_some_iff.mp (eq_of_beq (Bool.and_eq_true_iff.mp hplus).2)
      exact Nat.le_add_left 2 _
    rw [codeRange?_excerpt ha htwo]
    rfl
  · rw [nameComesNext_excerpt ha fun hname => ?_]
    · refine ite_excerpt (fun _ h => identLike_excerpt ha hx (hP _ h).1)
        (fun _ h => punctuation_excerpt ha (hP _ h).1 (hP _ h).2) h
    · rw [List.cons_append] at hname
      rw [if_pos hname] at h
      exact Nat.le_trans (scanName_size_le_identLike _) (hP _ h).1.size_le

end Lexeme

end Stylesheet
