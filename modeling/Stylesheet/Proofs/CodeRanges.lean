import Mathlib.Data.List.Induction
import Mathlib.Data.List.TakeWhile
import Mathlib.Tactic.Ring
import Mathlib.Tactic.SplitIfs
import Stylesheet.Token.Stream

/-!
# Ranges of code points

A range is written as one code point in hexadecimal digits, as one whose last
digits are question marks, or as two with a dash between them. `CodeRange.Denotes`
says which code points are meant: a question mark stands for any digit, so the
range goes from the number with zeros in their place to the one with the greatest
digits.

A token is taken for a range whenever the digits that are written are those of
code points (`Reader.lex_codeRange`). So every real range is one, and there are
two kinds of others: the question marks may lead beyond the last code point, and
the two ends may stand in the wrong order.
-/

namespace Stylesheet

namespace Text

/-! ## Hexadecimal numbers -/

theorem hexDigitValue_lt {c : Char} (h : isHexDigit c = true) : hexDigitValue c < 16 := by
  have hvalue : c.toNat = c.val.toNat := rfl
  simp only [isHexDigit, Char.isDigit, Bool.or_eq_true, Bool.and_eq_true, decide_eq_true_eq,
    Char.le_def, UInt32.le_iff_toNat_le, ge_iff_le] at h
  simp only [hexDigitValue, Char.isDigit, Bool.and_eq_true, decide_eq_true_eq, Char.le_def,
    UInt32.le_iff_toNat_le, ge_iff_le]
  have h0 : ('0' : Char).val.toNat = 48 := rfl
  have h9 : ('9' : Char).val.toNat = 57 := rfl
  have ha : ('a' : Char).val.toNat = 97 := rfl
  have hf : ('f' : Char).val.toNat = 102 := rfl
  have hA : ('A' : Char).val.toNat = 65 := rfl
  have hF : ('F' : Char).val.toNat = 70 := rfl
  rw [show ('0' : Char).toNat = 48 from rfl, show ('a' : Char).toNat = 97 from rfl,
    show ('A' : Char).toNat = 65 from rfl]
  split_ifs <;> omega

/-- **A number in two pieces.** -/
theorem hexValue_append (cs ds : List Char) :
    hexValue (cs ++ ds) = hexValue cs * 16 ^ ds.length + hexValue ds := by
  have hfold : ∀ n, ds.foldl (fun n c => n * 16 + hexDigitValue c) n =
      n * 16 ^ ds.length + hexValue ds := by
    intro n
    unfold hexValue
    induction ds generalizing n with
    | nil => simp
    | cons d ds ih =>
      rw [List.foldl_cons, List.foldl_cons, ih, ih (0 * 16 + hexDigitValue d), List.length_cons,
        Nat.pow_succ]
      ring
  rw [hexValue, List.foldl_append, hfold]
  rfl

/-- A number is less than the power of sixteen with as many digits. -/
theorem hexValue_lt {cs : List Char} (h : ∀ c ∈ cs, isHexDigit c = true) :
    hexValue cs < 16 ^ cs.length := by
  induction cs using List.reverseRecOn with
  | nil => exact Nat.one_pos
  | append_singleton cs c ih =>
    have hc := hexDigitValue_lt (h c (by simp))
    have hcs := ih fun d hd => h d (by simp [hd])
    rw [hexValue_append, List.length_append, List.length_singleton, Nat.pow_succ 16 cs.length]
    show _ * 16 + (0 * 16 + hexDigitValue c) < _
    omega

theorem hexValue_zeros (n : Nat) : hexValue (List.replicate n '0') = 0 := by
  unfold hexValue
  induction n with
  | zero => rfl
  | succ n ih => exact ih

end Text

namespace CodeRange

open Text

/-- **The digits of a code point**: one to six hexadecimal digits. -/
structure IsBound (digits : List Char) : Prop where
  /-- There are some. -/
  ne_nil : digits ≠ []
  /-- There are six at most. -/
  length_le : digits.length ≤ 6
  /-- They are digits. -/
  isHexDigit : ∀ c ∈ digits, isHexDigit c = true

/-- **The range that a text denotes after its first digits**, from the first
code point to the last. -/
inductive Continues (digits : List Char) : List Char → Nat → Nat → Prop
  /-- Nothing follows: one code point. -/
  | alone : Continues digits [] (hexValue digits) (hexValue digits)
  /-- Question marks, which stand for any digits. -/
  | marks {n : Nat} (pos : 0 < n) (length_le : digits.length + n ≤ 6) :
      Continues digits (List.replicate n '?') (hexValue (digits ++ List.replicate n '0'))
        (hexValue (digits ++ List.replicate n 'F'))
  /-- A dash, and the last code point. -/
  | upTo {last : List Char} (bound : IsBound last) :
      Continues digits ('-' :: last) (hexValue digits) (hexValue last)

/-- **The range of code points that a text denotes**: `U+` and digits, and what
follows them. -/
inductive Denotes : List Char → Nat → Nat → Prop
  /-- A text with its first digits. -/
  | intro {u : Char} {digits rest : List Char} {low high : Nat} (letter : u = 'U' ∨ u = 'u')
      (bound : IsBound digits) (continues : Continues digits rest low high) :
      Denotes (u :: '+' :: (digits ++ rest)) low high

/-- **A real range**: its ends are in order, and it does not go beyond the last
code point. -/
def IsReal (text : List Char) : Prop :=
  ∃ low high, Denotes text low high ∧ low ≤ high ∧ high ≤ Lexeme.lastCode

/-- **Question marks that lead beyond the last code point.** -/
def Overshoots (text : List Char) : Prop :=
  '?' ∈ text ∧ ∃ low high, Denotes text low high ∧ Lexeme.lastCode < high

/-- **Two code points in the wrong order.** -/
def IsReversed (text : List Char) : Prop :=
  ∃ low high, Denotes text low high ∧ high < low ∧ low ≤ Lexeme.lastCode

variable {text digits rest : List Char} {low high : Nat}

/-- What follows the digits does not start with one. -/
theorem Continues.head (h : Continues digits rest low high) :
    ∀ c ∈ rest.head?, isHexDigit c = false := by
  intro c hc
  cases h with
  | alone => cases hc
  | @marks n hn =>
    obtain ⟨n, rfl⟩ := Nat.exists_eq_add_of_lt hn
    rw [Nat.zero_add, List.replicate_succ] at hc
    obtain rfl : '?' = c := Option.some.inj hc
    rfl
  | upTo =>
    obtain rfl : '-' = c := Option.some.inj hc
    rfl

/-- The digits that a text starts with. -/
theorem takeWhile_digits (h : ∀ c ∈ digits, isHexDigit c = true)
    (hrest : ∀ c ∈ rest.head?, isHexDigit c = false) :
    (digits ++ rest).takeWhile isHexDigit = digits := by
  rw [List.takeWhile_append_of_pos h]
  cases rest with
  | nil => rw [List.takeWhile_nil, List.append_nil]
  | cons c rest =>
    rw [List.takeWhile_cons_of_neg (by rw [hrest c rfl]; exact Bool.false_ne_true),
      List.append_nil]

/-- **A text is divided in one way** into its digits and what follows them. -/
theorem denotes_iff {u : Char} (letter : u = 'U' ∨ u = 'u') (bound : IsBound digits)
    (hrest : ∀ c ∈ rest.head?, isHexDigit c = false) :
    Denotes (u :: '+' :: (digits ++ rest)) low high ↔ Continues digits rest low high := by
  refine ⟨fun h => ?_, .intro letter bound⟩
  generalize htext : u :: '+' :: (digits ++ rest) = text at h
  cases h with
  | @intro u' digits' rest' _ _ letter' bound' continues =>
    have hsame : digits ++ rest = digits' ++ rest' := by
      rw [List.cons.injEq, List.cons.injEq] at htext
      exact htext.2.2
    have hdigits : digits = digits' := by
      rw [← takeWhile_digits bound.isHexDigit hrest, hsame,
        takeWhile_digits bound'.isHexDigit continues.head]
    subst hdigits
    rw [List.append_cancel_left hsame]
    exact continues

theorem continues_nil :
    Continues digits [] low high ↔ low = hexValue digits ∧ high = hexValue digits := by
  constructor
  · generalize hrest : ([] : List Char) = rest
    intro h
    cases h with
    | alone => exact ⟨rfl, rfl⟩
    | @marks n hn => exact absurd ((List.replicate_eq_nil_iff '?').mp hrest.symm) (Nat.ne_of_gt hn)
    | upTo => cases hrest
  · rintro ⟨rfl, rfl⟩
    exact .alone

theorem continues_marks {n : Nat} (hn : 0 < n) :
    Continues digits (List.replicate n '?') low high ↔ digits.length + n ≤ 6 ∧
      low = hexValue (digits ++ List.replicate n '0') ∧
      high = hexValue (digits ++ List.replicate n 'F') := by
  constructor
  · generalize hrest : List.replicate n '?' = rest
    intro h
    cases h with
    | alone => exact absurd ((List.replicate_eq_nil_iff '?').mp hrest) (Nat.ne_of_gt hn)
    | marks hm hle =>
      obtain rfl := (List.replicate_inj.mp hrest).1
      exact ⟨hle, rfl, rfl⟩
    | upTo =>
      have hdash : '-' ∈ List.replicate n '?' := hrest ▸ List.mem_cons_self
      exact absurd (List.eq_of_mem_replicate hdash) (by decide)
  · rintro ⟨hle, rfl, rfl⟩
    exact .marks hn hle

theorem continues_upTo {last : List Char} (hlast : IsBound last) :
    Continues digits ('-' :: last) low high ↔ low = hexValue digits ∧ high = hexValue last := by
  constructor
  · generalize hrest : '-' :: last = rest
    intro h
    cases h with
    | alone => cases hrest
    | @marks n hn =>
      have hdash : '-' ∈ List.replicate n '?' := hrest ▸ List.mem_cons_self
      exact absurd (List.eq_of_mem_replicate hdash) (by decide)
    | upTo =>
      obtain rfl := (List.cons.inj hrest).2
      exact ⟨rfl, rfl⟩
  · rintro ⟨rfl, rfl⟩
    exact .upTo hlast

/-- The numbers that question marks stand for: from zeros to the greatest
digits. -/
theorem hexValue_marks (digits : List Char) (n : Nat) :
    hexValue (digits ++ List.replicate n '0') ≤ hexValue (digits ++ List.replicate n 'F') := by
  rw [hexValue_append, hexValue_append, hexValue_zeros, List.length_replicate,
    List.length_replicate]
  omega

/-- Digits before a question mark are those of a code point. -/
theorem IsBound.hexValue_le (h : IsBound digits) {n : Nat} (hn : 0 < n)
    (hle : digits.length + n ≤ 6) : hexValue digits ≤ Lexeme.lastCode := by
  have hlt := hexValue_lt h.isHexDigit
  have hpow : 16 ^ digits.length ≤ 16 ^ 5 := Nat.pow_le_pow_right (by decide) (by omega)
  have hlast : 16 ^ 5 ≤ Lexeme.lastCode := by decide
  omega

/-! ## What is taken for a range -/

/-- **What is taken for a range**: a real one, and two kinds of others. -/
def IsTaken (text : List Char) : Prop := IsReal text ∨ Overshoots text ∨ IsReversed text

section Taken

variable {u : Char} (letter : u = 'U' ∨ u = 'u') (bound : IsBound digits)

include letter bound

/-- No question mark stands in the digits. -/
theorem not_mem_digits : '?' ∉ u :: '+' :: digits := by
  simp only [List.mem_cons, not_or]
  refine ⟨?_, by decide, fun hmem => absurd (bound.isHexDigit _ hmem) (by decide)⟩
  rcases letter with rfl | rfl <;> decide

/-- **One code point** is taken for a range if it is one. -/
theorem isTaken_alone :
    IsTaken (u :: '+' :: (digits ++ [])) ↔ hexValue digits ≤ Lexeme.lastCode := by
  have hdenotes : ∀ low high, Denotes (u :: '+' :: (digits ++ [])) low high ↔
      low = hexValue digits ∧ high = hexValue digits := fun low high =>
    (denotes_iff letter bound fun _ hc => by cases hc).trans continues_nil
  constructor
  · rintro (⟨low, high, h, -, hhigh⟩ | ⟨hmark, -⟩ | ⟨low, high, h, hlt, -⟩)
    · exact ((hdenotes low high).mp h).2 ▸ hhigh
    · rw [List.append_nil] at hmark
      exact absurd hmark (not_mem_digits letter bound)
    · obtain ⟨rfl, rfl⟩ := (hdenotes low high).mp h
      exact absurd hlt (Nat.lt_irrefl _)
  · intro hle
    exact .inl ⟨_, _, (hdenotes _ _).mpr ⟨rfl, rfl⟩, Nat.le_refl _, hle⟩

/-- **Question marks** are taken for those of a range if there is room for them. -/
theorem isTaken_marks {n : Nat} (hn : 0 < n) :
    IsTaken (u :: '+' :: (digits ++ List.replicate n '?')) ↔ digits.length + n ≤ 6 := by
  have hdenotes : ∀ low high, Denotes (u :: '+' :: (digits ++ List.replicate n '?')) low high ↔
      digits.length + n ≤ 6 ∧ low = hexValue (digits ++ List.replicate n '0') ∧
        high = hexValue (digits ++ List.replicate n 'F') := fun low high =>
    (denotes_iff letter bound (fun c hc => by
      rw [List.head?_replicate, if_neg (Nat.ne_of_gt hn)] at hc
      obtain rfl : '?' = c := Option.some.inj hc
      rfl)).trans (continues_marks hn)
  constructor
  · rintro (⟨low, high, h, -⟩ | ⟨-, low, high, h, -⟩ | ⟨low, high, h, -⟩) <;>
      exact ((hdenotes low high).mp h).1
  · intro hle
    have hrange := (hdenotes _ _).mpr ⟨hle, rfl, rfl⟩
    rcases Nat.lt_or_ge Lexeme.lastCode (hexValue (digits ++ List.replicate n 'F')) with hlt | hge
    · refine .inr (.inl ⟨?_, _, _, hrange, hlt⟩)
      have hmark : '?' ∈ List.replicate n '?' := List.mem_replicate.mpr ⟨Nat.ne_of_gt hn, rfl⟩
      simp [hmark]
    · exact .inl ⟨_, _, hrange, hexValue_marks digits n, hge⟩

/-- **Two code points** are taken for a range in either order. -/
theorem isTaken_upTo {last : List Char} (hlast : IsBound last) :
    IsTaken (u :: '+' :: (digits ++ '-' :: last)) ↔
      hexValue digits ≤ Lexeme.lastCode ∧ hexValue last ≤ Lexeme.lastCode := by
  have hdenotes : ∀ low high, Denotes (u :: '+' :: (digits ++ '-' :: last)) low high ↔
      low = hexValue digits ∧ high = hexValue last := fun low high =>
    (denotes_iff letter bound (fun c hc => by
      obtain rfl : '-' = c := Option.some.inj hc
      rfl)).trans (continues_upTo hlast)
  constructor
  · rintro (⟨low, high, h, hle, hhigh⟩ | ⟨hmark, -⟩ | ⟨low, high, h, hlt, hlow⟩)
    · obtain ⟨rfl, rfl⟩ := (hdenotes low high).mp h
      exact ⟨Nat.le_trans hle hhigh, hhigh⟩
    · have hfirst := not_mem_digits letter bound
      have hsecond := not_mem_digits letter hlast
      simp only [List.mem_cons, List.mem_append, not_or] at hmark hfirst hsecond
      rcases hmark with h | h | h | h | h
      · exact absurd h hfirst.1
      · exact absurd h hfirst.2.1
      · exact absurd h hfirst.2.2
      · exact absurd h (by decide)
      · exact absurd h hsecond.2.2
    · obtain ⟨rfl, rfl⟩ := (hdenotes low high).mp h
      exact ⟨hlow, Nat.le_trans (Nat.le_of_lt hlt) hlow⟩
  · rintro ⟨hlow, hhigh⟩
    have hrange := (hdenotes _ _).mpr ⟨rfl, rfl⟩
    rcases Nat.lt_or_ge (hexValue last) (hexValue digits) with hlt | hge
    · exact .inr (.inr ⟨_, _, hrange, hlt, hlow⟩)
    · exact .inl ⟨_, _, hrange, hge, hhigh⟩

end Taken

end CodeRange

namespace Lexeme

open Text CodeRange

variable {cs : List Char} {lx : Lexeme}

/-- The digits that a text starts with, as far as they belong to a range. -/
theorem isBound_hexRun {c : Char} (hc : Text.isHexDigit c = true) (cs : List Char) :
    IsBound (hexRun (c :: cs)) where
  ne_nil := by
    unfold hexRun
    rw [List.take_succ_cons, List.takeWhile_cons_of_pos hc]
    exact List.cons_ne_nil _ _
  length_le := by
    have h := (List.takeWhile_sublist (l := (c :: cs).take 6) Text.isHexDigit).length_le
    rw [List.length_take] at h
    exact Nat.le_trans h (Nat.min_le_left _ _)
  isHexDigit d hd := List.mem_takeWhile_imp hd

theorem hexRun_starts (cs : List Char) : hexRun cs <+: cs :=
  (List.takeWhile_prefix _).trans (List.take_prefix 6 cs)

/-- The question marks that follow the digits. -/
theorem take_marks (cs : List Char) :
    cs.take ((cs.take 6).takeWhile (· == '?')).length =
      List.replicate ((cs.take 6).takeWhile (· == '?')).length '?' := by
  have hread : (cs.take 6).takeWhile (· == '?') <+: cs :=
    (List.takeWhile_prefix _).trans (List.take_prefix 6 cs)
  rw [← List.prefix_iff_eq_take.mp hread, List.eq_replicate_iff]
  exact ⟨rfl, fun c hc => eq_of_beq (List.mem_takeWhile_imp (p := (· == '?')) hc)⟩

/-- **A range that is cut**: its text is what is taken for a range if it is
valid. -/
theorem codeRange?_isTaken {u c : Char} (hu : u = 'U' ∨ u = 'u')
    (hc : Text.isHexDigit c = true) (rest : List Char) :
    ∃ lx, codeRange? (u :: '+' :: c :: rest) = some lx ∧
      (lx.kind = .uRange ∨ lx.kind = .invalid) ∧
      (lx.kind = .uRange ↔ IsTaken ((u :: '+' :: c :: rest).take lx.size)) := by
  have hbound := isBound_hexRun hc rest
  obtain ⟨after, hafter⟩ := hexRun_starts (c :: rest)
  unfold codeRange?
  rw [show (u :: '+' :: c :: rest).drop 2 = c :: rest from rfl]
  generalize hexRun (c :: rest) = digits at hbound hafter
  rw [← hafter]
  have hdrop : (u :: '+' :: (digits ++ after)).drop (2 + digits.length) = after := by
    rw [Nat.add_comm, List.drop_succ_cons, List.drop_succ_cons, List.drop_left]
  have htake : ∀ n, (u :: '+' :: (digits ++ after)).take (2 + digits.length + n) =
      u :: '+' :: (digits ++ after.take n) := by
    intro n
    rw [Nat.add_assoc, Nat.add_comm, List.take_succ_cons, List.take_succ_cons,
      List.take_length_add_append]
  -- whether the range is valid is all that its kind says
  have hkind : ∀ (b : Bool) (size : Nat) (p : Prop), (b = true ↔ p) →
      ((⟨if b then .uRange else .invalid, .none, size⟩ : Lexeme).kind = .uRange ∨
        (⟨if b then .uRange else .invalid, .none, size⟩ : Lexeme).kind = .invalid) ∧
      ((⟨if b then .uRange else .invalid, .none, size⟩ : Lexeme).kind = .uRange ↔ p) := by
    intro b size p hp
    rw [← hp]
    cases b <;> simp
  dsimp only
  rw [hdrop, if_neg (by simpa using hbound.ne_nil)]
  by_cases hmark : (after.head? == some '?') = true
  · rw [if_pos hmark]
    set n := ((after.take 6).takeWhile (· == '?')).length with hn
    have hpos : 0 < n := by
      obtain ⟨more, rfl⟩ := List.head?_eq_some_iff.mp (eq_of_beq hmark)
      rw [hn, List.take_succ_cons, List.takeWhile_cons_of_pos rfl]
      exact Nat.succ_pos _
    refine ⟨_, rfl, hkind _ _ _ ?_⟩
    dsimp only
    rw [htake, take_marks, isTaken_marks hu hbound hpos, Bool.and_eq_true, decide_eq_true_eq,
      decide_eq_true_eq]
    exact ⟨And.right, fun hle => ⟨hbound.hexValue_le hpos hle, hle⟩⟩
  rw [if_neg hmark]
  by_cases hdash : (after.head? == some '-' && after[1]?.any Text.isHexDigit) = true
  · rw [if_pos hdash]
    obtain ⟨hhead, hnext⟩ := (Bool.and_eq_true _ _).mp hdash
    obtain ⟨more, rfl⟩ := List.head?_eq_some_iff.mp (eq_of_beq hhead)
    obtain ⟨e, he, hhex⟩ := (Option.any_eq_true _ _).mp hnext
    obtain ⟨more, rfl⟩ : ∃ ds, more = e :: ds := by
      rw [List.getElem?_cons_succ, ← List.head?_eq_getElem?] at he
      exact List.head?_eq_some_iff.mp he
    refine ⟨_, rfl, hkind _ _ _ ?_⟩
    have htext : (u :: '+' :: (digits ++ '-' :: e :: more)).take
        (2 + digits.length + 1 + (hexRun (e :: more)).length) =
          u :: '+' :: (digits ++ '-' :: hexRun (e :: more)) := by
      rw [Nat.add_assoc (2 + _), htake, Nat.add_comm 1, List.take_succ_cons,
        ← List.prefix_iff_eq_take.mp (hexRun_starts (e :: more))]
    show _ ↔ IsTaken ((u :: '+' :: (digits ++ '-' :: e :: more)).take
      (2 + digits.length + 1 + (hexRun (e :: more)).length))
    rw [htext, isTaken_upTo hu hbound (isBound_hexRun hhex more), Bool.and_eq_true,
      decide_eq_true_eq, decide_eq_true_eq]
    rfl
  · rw [if_neg hdash]
    refine ⟨_, rfl, hkind _ _ _ ?_⟩
    dsimp only
    rw [show 2 + digits.length = 2 + digits.length + 0 from rfl, htake, List.take_zero,
      isTaken_alone hu hbound, decide_eq_true_eq]

end Lexeme

open CodeRange

/-- **Ranges of code points.** Where a `U` stands before a plus sign and a
hexadecimal digit, a range is cut, valid or not. It is valid exactly if its text
denotes a real range, or one that only question marks lead beyond the last code
point, or one of two code points in the wrong order. -/
theorem Reader.lex_codeRange (r : Reader) (mode : Mode) {u c : Char} {rest : List Char}
    (hu : u = 'U' ∨ u = 'u') (hc : Text.isHexDigit c = true)
    (hrest : r.rest = u :: '+' :: c :: rest) :
    let t := (r.lex mode).1
    (t.kind = .uRange ∨ t.kind = .invalid) ∧
      (t.kind = .uRange ↔
        IsReal t.text.toList ∨ Overshoots t.text.toList ∨ IsReversed t.text.toList) := by
  have htrivia : Lexeme.trivia? (u :: '+' :: c :: rest) = none := by
    rcases hu with rfl | rfl <;> rfl
  have hskipped : mode.skipped 0 r.rest = 0 := by
    rw [hrest, Mode.skipped, htrivia]
  have hfirst : mode.firstOf (u :: '+' :: c :: rest) =
      (Lexeme.codeRange? (u :: '+' :: c :: rest)).getD
        ⟨.ident, .ident (String.singleton u) 0 false, 1⟩ := by
    unfold Mode.firstOf
    rw [htrivia]
    rcases hu with rfl | rfl <;> rfl
  obtain ⟨lx, hcode, hkind, htaken⟩ := Lexeme.codeRange?_isTaken hu hc rest
  intro t
  have ht : t = lx.place r.location (u :: '+' :: c :: rest) := by
    unfold t lex
    rw [hskipped, show r.advance 0 = r from rfl]
    dsimp only
    rw [hrest, hfirst, hcode, Option.getD_some]
  have hsame : t.kind = lx.kind := ht ▸ rfl
  have htext : t.text.toList = (u :: '+' :: c :: rest).take lx.size := by
    rw [ht]
    exact String.toList_ofList
  rw [hsame, htext]
  exact ⟨hkind, htaken⟩

/-- A small letter, a wildcard, and a range that is real. -/
theorem Reader.lex_codeRange_wildcard :
    let r := Reader.ofString "u+4?? x"
    let t := (r.lex .visible).1
    ('u' = 'U' ∨ 'u' = 'u') ∧ Text.isHexDigit '4' = true ∧
      r.rest = 'u' :: '+' :: '4' :: "?? x".toList ∧
      (t.kind = .uRange ∨ t.kind = .invalid) ∧
      (t.kind = .uRange ↔
        IsReal t.text.toList ∨ Overshoots t.text.toList ∨ IsReversed t.text.toList) :=
  ⟨.inr rfl, rfl, rfl, Reader.lex_codeRange (Reader.ofString "u+4?? x") .visible (.inr rfl) rfl rfl⟩

/-- Question marks after `11` go up to `11FFFF`, and a range that goes down is no
range; both are taken for valid ones. -/
theorem Reader.lex_codeRange_unreal :
    (((Reader.ofString "U+11????").lex .visible).1.kind = .uRange ∧
      ¬IsReal "U+11????".toList) ∧
    ((Reader.ofString "U+5-1").lex .visible).1.kind = .uRange ∧ ¬IsReal "U+5-1".toList := by
  have hbound : IsBound ['1', '1'] := ⟨by decide, by decide, List.all_eq_true.mp rfl⟩
  have hfive : IsBound ['5'] := ⟨by decide, by decide, List.all_eq_true.mp rfl⟩
  have hone : IsBound ['1'] := ⟨by decide, by decide, List.all_eq_true.mp rfl⟩
  have hmark : ∀ c ∈ (List.replicate 4 '?').head?, Text.isHexDigit c = false := by
    rintro c ⟨⟩
    rfl
  have hdash : ∀ c ∈ ['-', '1'].head?, Text.isHexDigit c = false := by
    rintro c ⟨⟩
    rfl
  refine ⟨⟨by decide, ?_⟩, by decide, ?_⟩
  · rintro ⟨low, high, h, -, hle⟩
    have hmarks : Continues ['1', '1'] (List.replicate 4 '?') low high :=
      (denotes_iff (.inl rfl) hbound hmark).mp h
    obtain ⟨-, -, rfl⟩ := (continues_marks (by decide)).mp hmarks
    exact absurd hle (by decide)
  · rintro ⟨low, high, h, hle, -⟩
    have hupTo : Continues ['5'] ['-', '1'] low high :=
      (denotes_iff (.inl rfl) hfive hdash).mp h
    obtain ⟨rfl, rfl⟩ := (continues_upTo hone).mp hupTo
    exact absurd hle (by decide)

end Stylesheet
