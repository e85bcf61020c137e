import Mathlib.Data.List.TakeWhile
import Stylesheet.Proofs.Places.Basic
import Stylesheet.Proofs.Window

/-!
# Passing over balanced text

What cannot be read is passed over by its characters alone. That ends where
it should on **balanced** text, in which every bracket is closed by one of
its kind, strings and comments are closed, and a backslash is followed by
the character it escapes: a walk that begins at its start comes out at its
end, at the level it had (`BalancedText.extent`). What stands in a string or a
comment or is escaped does not matter for that.

Text that is **flat** has, moreover, no semicolon and no braces outside of
brackets. That is what a walk at the level of a declaration gets past,
because there a semicolon and a closing brace are the end of it.
-/

namespace Stylesheet

/-- **The inside of a closed string**: characters other than the quote, a
newline and a backslash, and escapes. -/
inductive Quoted (q : Char) : List Char → Prop where
  /-- Nothing. -/
  | nil : Quoted q []
  /-- One more character. -/
  | char {c : Char} {cs : List Char} :
      c ≠ q → c ≠ '\n' → c ≠ '\\' → Quoted q cs → Quoted q (c :: cs)
  /-- One more escape. -/
  | escape (c : Char) {cs : List Char} : Quoted q cs → Quoted q ('\\' :: c :: cs)

/-- **The inside of a closed comment** does not end it. -/
inductive Remark : List Char → Prop where
  /-- Nothing. -/
  | nil : Remark []
  /-- One more character. -/
  | char {c : Char} {cs : List Char} :
      (c = '*' → cs.head? ≠ some '/') → Remark cs → Remark (c :: cs)

/-- Whether a character closes brackets. -/
def isClosing (c : Char) : Bool := [')', ']', '\x7d'].contains c

/-- Whether a character is a bracket. -/
def isBracket (c : Char) : Bool := ['(', '[', '\x7b'].contains c || isClosing c

/-- Whether a character stands for itself: it is no bracket, no quote and
no backslash. -/
def isPlain (c : Char) : Bool := !isBracket c && c != '"' && c != '\'' && c != '\\'

/-- **Balanced text**, and whether it has to be flat. -/
inductive BalancedText : Bool → List Char → Prop where
  /-- Nothing. -/
  | nil {flat : Bool} : BalancedText flat []
  /-- A character that stands for itself, and starts no comment. -/
  | plain {flat : Bool} {c : Char} {cs : List Char} :
      isPlain c = true → (flat = true → c ≠ ';') → (c = '/' → cs.head? ≠ some '*') →
      BalancedText flat cs → BalancedText flat (c :: cs)
  /-- An escape. -/
  | escape {flat : Bool} (c : Char) {cs : List Char} :
      BalancedText flat cs → BalancedText flat ('\\' :: c :: cs)
  /-- A closed string. -/
  | string {flat : Bool} {q : Char} {inside cs : List Char} :
      q = '"' ∨ q = '\'' → Quoted q inside → BalancedText flat cs →
      BalancedText flat (q :: (inside ++ q :: cs))
  /-- A closed comment. -/
  | comment {flat : Bool} {inside cs : List Char} :
      Remark inside → BalancedText flat cs →
      BalancedText flat ('/' :: '*' :: (inside ++ '*' :: '/' :: cs))
  /-- Balanced text in brackets. -/
  | group {flat : Bool} {o c : Char} {inside cs : List Char} :
      Recovery.closing? o = some c → (flat = true → o ≠ '\x7b') → BalancedText false inside →
      BalancedText flat cs → BalancedText flat (o :: (inside ++ c :: cs))

variable {flat : Bool} {q c o : Char} {cs inside rest : List Char}

namespace BalancedText

/-- Two balanced texts are one, unless a comment starts where they meet. -/
theorem append (h : BalancedText flat cs) (hrest : BalancedText flat rest)
    (hstar : rest.head? ≠ some '*') : BalancedText flat (cs ++ rest) := by
  induction h with
  | nil => exact hrest
  | @plain _ c cs hc hflat hslash _ ih =>
    refine .plain hc hflat (fun heq => ?_) (ih hrest)
    cases cs with
    | nil => exact hstar
    | cons d cs => exact hslash heq
  | escape c _ ih => exact .escape c (ih hrest)
  | string hq hinside _ ih =>
    rw [List.cons_append, List.append_assoc]
    exact .string hq hinside (ih hrest)
  | comment hinside _ ih =>
    rw [List.cons_append, List.cons_append, List.append_assoc]
    exact .comment hinside (ih hrest)
  | group ho hbrace hinside _ _ ih =>
    rw [List.cons_append, List.append_assoc]
    exact .group ho hbrace hinside (ih hrest)

/-- Flat text is balanced. -/
theorem loosen (h : BalancedText flat cs) : BalancedText false cs := by
  induction h with
  | nil => exact .nil
  | plain hc _ hslash _ ih => exact .plain hc nofun hslash ih
  | escape c _ ih => exact .escape c ih
  | string hq hinside _ ih => exact .string hq hinside ih
  | comment hinside _ ih => exact .comment hinside ih
  | group ho _ hinside _ _ ih => exact .group ho nofun hinside ih

/-- Characters that stand for themselves are balanced. -/
theorem of_plain (h : ∀ c ∈ cs, isPlain c = true ∧ c ≠ '/' ∧ (flat = true → c ≠ ';')) :
    BalancedText flat cs := by
  induction cs with
  | nil => exact .nil
  | cons c cs ih =>
    obtain ⟨hplain, hslash, hsemicolon⟩ := h c List.mem_cons_self
    exact .plain hplain hsemicolon (fun heq => absurd heq hslash)
      (ih fun d hd => h d (List.mem_cons_of_mem _ hd))

end BalancedText

/-! ## Strings and comments -/

/-- What an escape takes beyond its first character neither ends a string
nor escapes anything. -/
def isEscaped (c : Char) : Bool := Text.isHexDigit c || c == ' ' || c == '\t'

/-- **An escape takes one character**, and perhaps some digits and a blank
after it. -/
theorem readEscape_cons (c : Char) (cs : List Char) :
    ∃ k, (Lexeme.readEscape (c :: cs)).2 = k + 1 ∧ k ≤ (cs.takeWhile isEscaped).length := by
  unfold Lexeme.readEscape
  split
  · exact ⟨0, rfl, Nat.zero_le _⟩
  · next digits hnone =>
    set digits := ((c :: cs).take 6).takeWhile Text.isHexDigit with hdigits
    rw [List.take_succ_cons, List.takeWhile_cons] at hdigits
    split_ifs at hdigits with hc
    · obtain ⟨after, hcs⟩ := (List.takeWhile_prefix Text.isHexDigit).trans (List.take_prefix 5 cs)
      set more := (cs.take 5).takeWhile Text.isHexDigit
      have hmore : ∀ d ∈ more, isEscaped d = true := fun d hd => by
        simp [isEscaped, List.mem_takeWhile_imp hd]
      have hrun : (cs.takeWhile isEscaped).length =
          more.length + (after.takeWhile isEscaped).length := by
        rw [← hcs, List.takeWhile_append_of_pos hmore, List.length_append]
      have hnext : (c :: cs)[digits.length]? = after.head? := by
        rw [hdigits, ← hcs, List.length_cons, List.getElem?_cons_succ,
          List.getElem?_append_right (Nat.le_refl _), Nat.sub_self, List.head?_eq_getElem?]
      dsimp only
      rw [hnext, hdigits, List.length_cons]
      cases after with
      | nil => exact ⟨more.length, rfl, by omega⟩
      | cons b after =>
        by_cases hb : (b == ' ' || b == '\t') = true
        · refine ⟨more.length + 1, by simp [hb], ?_⟩
          have hblank : isEscaped b = true := by
            unfold isEscaped
            rw [Bool.or_assoc, hb, Bool.or_true]
          rw [hrun, List.takeWhile_cons_of_pos hblank]
          simp
        · exact ⟨more.length, by simp [hb], by omega⟩
    · exact absurd hdigits hnone

/-- **A closed string is scanned to its quote**, after some characters of an
escape. -/
theorem scanString_quoted (hq : q = '"' ∨ q = '\'') (h : Quoted q inside) (cs : List Char) {k : Nat}
    (hk : k ≤ (inside.takeWhile isEscaped).length) :
    (Lexeme.scanString q k (inside ++ q :: cs)).size = inside.length := by
  induction h generalizing k with
  | nil =>
    obtain rfl : k = 0 := Nat.le_zero.mp hk
    unfold Lexeme.scanString
    simp [Lexeme.Scanned.empty]
  | @char c inside hquote hnewline hslash _ ih =>
    rw [List.cons_append, Lexeme.scanString.eq_def]
    cases k with
    | zero =>
      simp [hquote, hnewline, hslash, Lexeme.Scanned.push, ih (Nat.zero_le _)]
    | succ k =>
      have hle : k ≤ (inside.takeWhile isEscaped).length := by
        rw [List.takeWhile_cons] at hk
        split_ifs at hk
        · simpa using hk
        · simp at hk
      simp [Lexeme.Scanned.skip, ih hle]
  | @escape c inside _ ih =>
    have hend : ('\\' : Char) ≠ q := by
      rintro rfl
      obtain hq | hq := hq <;> cases hq
    obtain rfl : k = 0 := Nat.le_zero.mp hk
    rw [List.cons_append, List.cons_append, Lexeme.scanString.eq_def]
    dsimp only
    rw [if_neg (by simp [hend]), if_pos rfl]
    split_ifs with hc
    · rw [Lexeme.scanString.eq_def]
      simp [Lexeme.Scanned.skip, ih (Nat.zero_le _)]
    · obtain ⟨k, hsize, hle⟩ := readEscape_cons c (inside ++ q :: cs)
      have hstop : isEscaped q = false := by obtain rfl | rfl := hq <;> rfl
      have hrun : (inside ++ q :: cs).takeWhile isEscaped = inside.takeWhile isEscaped := by
        rw [List.takeWhile_append, List.takeWhile_cons_of_neg (by simp [hstop]), List.append_nil]
        split_ifs with hall
        · exact ((List.takeWhile_prefix _).eq_of_length hall).symm
        · rfl
      rw [hrun] at hle
      rw [hsize, Lexeme.scanString.eq_def]
      simp [Lexeme.Scanned.push, Lexeme.Scanned.skip, ih hle]

/-- **A closed comment is passed over** to its end. -/
theorem commentTail_remark (h : Remark inside) (cs : List Char) :
    Lexeme.commentTail (inside ++ '*' :: '/' :: cs) = inside.length + 2 := by
  induction h with
  | nil => rfl
  | @char c inside hc _ ih =>
    have hopen : (c = '*' && (inside ++ '*' :: '/' :: cs).head? == some '/') = false := by
      by_cases hstar : c = '*'
      · cases inside with
        | nil => simp
        | cons d inside => simpa [hstar] using hc hstar
      · simp [hstar]
    rw [List.cons_append, Lexeme.commentTail, hopen, if_neg Bool.false_ne_true, ih]
    simp

/-! ## Walks -/

namespace Recovery

variable {stack : List (Option Char)} {level : Option Char}

theorem unitSize_plain (hplain : isPlain c = true) (hslash : c = '/' → cs.head? ≠ some '*') :
    unitSize (c :: cs) = 1 := by
  have hne : ∀ d, isPlain d = false → c ≠ d := by
    rintro d hd rfl
    cases hplain.symm.trans hd
  have hcomment : (c = '/' && cs.head? == some '*') = false := by
    by_cases hc : c = '/'
    · simpa [hc] using hslash hc
    · simp [hc]
  unfold unitSize
  dsimp only
  rw [if_neg (by simp [hne '"' (by decide), hne '\'' (by decide)]), hcomment,
    if_neg Bool.false_ne_true, if_neg (by simp [hne '\\' (by decide)])]

theorem unitSize_string (hq : q = '"' ∨ q = '\'') (h : Quoted q inside) (cs : List Char) :
    unitSize (q :: (inside ++ q :: cs)) = inside.length + 2 := by
  have hscan := scanString_quoted hq h cs (Nat.zero_le _)
  unfold unitSize
  dsimp only
  rw [if_pos (by simpa using hq), hscan, if_pos (by simp)]

theorem unitSize_comment (h : Remark inside) (cs : List Char) :
    unitSize ('/' :: '*' :: (inside ++ '*' :: '/' :: cs)) = inside.length + 4 := by
  have htail := commentTail_remark h cs
  unfold unitSize
  dsimp only
  rw [if_neg (by decide), if_pos (by simp), List.drop_one, List.tail_cons, htail]
  omega

/-- What is settled is passed over. -/
theorem extent_append (before cs : List Char) :
    extent stack level before.length (before ++ cs) =
      before.length + extent stack level 0 cs := by
  induction before with
  | nil => simp
  | cons c before ih =>
    rw [List.length_cons, List.cons_append, extent.eq_def]
    dsimp only
    rw [ih]
    omega

/-- **One unit** that is no bracket and does not end a level. -/
theorem extent_unit (stack : List (Option Char)) (unit cs : List Char)
    (hsize : unitSize (c :: (unit ++ cs)) = unit.length + 1)
    (hbracket : isBracket c = false) (hcloses : closes level c = false) :
    extent stack level 0 (c :: (unit ++ cs)) = unit.length + 1 + extent stack level 0 cs := by
  have hne : ∀ d, isBracket d = true → c ≠ d := by
    rintro d hd rfl
    cases hd.symm.trans hbracket
  have hopen : closing? c = none := by
    simp [closing?, hne '(' rfl, hne '[' rfl, hne '\x7b' rfl]
  rw [extent.eq_def]
  dsimp only
  rw [hcloses, if_neg Bool.false_ne_true,
    if_neg (by simp [hne ')' rfl, hne ']' rfl, hne '\x7d' rfl]), hopen]
  dsimp only
  rw [hsize, Nat.add_sub_cancel, extent_append]
  omega

/-- The brackets, each with the one that closes it. -/
def brackets : List (Char × Char) := [('\x7b', '\x7d'), ('(', ')'), ('[', ']')]

theorem mem_brackets (h : closing? o = some c) : (o, c) ∈ brackets := by
  unfold closing? at h
  split at h <;> simp_all [brackets, eq_comm]

/-- **Into a bracket.** -/
theorem extent_open (stack : List (Option Char)) (cs : List Char) (hopen : closing? o = some c)
    (hcloses : closes level o = false) :
    extent stack level 0 (o :: cs) = 1 + extent (level :: stack) (some c) 0 cs := by
  have hall : ∀ p ∈ brackets,
      (p.1 = '\x7d' || p.1 = ')' || p.1 = ']') = false ∧ ∀ cs, unitSize (p.1 :: cs) = 1 := by
    simp [brackets, unitSize]
  obtain ⟨hclose, hsize⟩ := hall _ (mem_brackets hopen)
  rw [extent.eq_def]
  dsimp only
  rw [hcloses, if_neg Bool.false_ne_true, hclose, if_neg Bool.false_ne_true, hopen]
  dsimp only
  rw [hsize, Nat.sub_self]
  omega

/-- **Out of a bracket**, unless that is the end of a declaration. -/
theorem extent_close (stack : List (Option Char)) (cs : List Char) (hopen : closing? o = some c)
    (hlevel : level = none → c ≠ '\x7d') :
    extent (level :: stack) (some c) 0 (c :: cs) = 1 + extent stack level 0 cs := by
  have hall : ∀ p ∈ brackets, ∀ cs, unitSize (p.2 :: cs) = 1 := by
    simp [brackets, unitSize]
  have hstay : (level.isNone && c = '\x7d') = false := by
    cases level with
    | none => simpa using hlevel rfl
    | some closer => rfl
  rw [extent.eq_def]
  dsimp only
  rw [show closes (some c) c = true from beq_self_eq_true c, if_pos rfl, hstay,
    if_neg Bool.false_ne_true, hall _ (mem_brackets hopen), Nat.sub_self]
  omega

end Recovery

/-- **The levels of balanced text**: inside a bracket, or of a declaration
if the text is flat. -/
def IsLevel (flat : Bool) (level : Option Char) : Prop :=
  match level with
  | some closer => isClosing closer = true
  | none => flat = true

/-- What closes no bracket and is no semicolon ends no level. -/
theorem IsLevel.closes {level : Option Char} (h : IsLevel flat level) (hc : isClosing c = false)
    (hflat : flat = true → c ≠ ';') : Recovery.closes level c = false := by
  cases level with
  | none =>
    have hbrace : c ≠ '\x7d' := by
      rintro rfl
      cases hc
    simp [Recovery.closes, hflat h, hbrace]
  | some closer =>
    refine beq_eq_false_iff_ne.mpr ?_
    rintro rfl
    cases hc.symm.trans h

theorem BalancedText.extent {level : Option Char} (h : BalancedText flat cs)
    (stack : List (Option Char)) (rest : List Char) (hlevel : IsLevel flat level)
    (hstar : rest.head? ≠ some '*') :
    Recovery.extent stack level 0 (cs ++ rest) =
      cs.length + Recovery.extent stack level 0 rest := by
  induction h generalizing stack level rest with
  | nil => simp
  | @plain _ c cs hc hflat hslash _ ih =>
    have hbracket : isBracket c = false := by
      simp only [isPlain, Bool.and_eq_true] at hc
      simpa using hc.1.1.1
    have hslash : c = '/' → (cs ++ rest).head? ≠ some '*' := fun heq => by
      cases cs with
      | nil => exact hstar
      | cons d cs => exact hslash heq
    have hunit := Recovery.extent_unit stack [] (cs ++ rest)
      (Recovery.unitSize_plain hc hslash) hbracket
      (hlevel.closes (Bool.or_eq_false_iff.mp hbracket).2 hflat)
    refine (show _ = _ from hunit).trans ?_
    rw [ih stack rest hlevel hstar, List.length_cons, List.length_nil]
    omega
  | @escape _ c cs _ ih =>
    have hunit := Recovery.extent_unit stack [c] (cs ++ rest)
      (c := '\\') rfl rfl (hlevel.closes rfl fun _ => by decide)
    refine (show _ = _ from hunit).trans ?_
    rw [ih stack rest hlevel hstar]
    simp only [List.length_cons, List.length_nil]
    omega
  | @string _ q inside cs hq hinside _ ih =>
    have hbracket : isBracket q = false := by obtain rfl | rfl := hq <;> rfl
    have hsemicolon : q ≠ ';' := by
      rintro rfl
      obtain hq | hq := hq <;> cases hq
    have hsize := Recovery.unitSize_string hq hinside (cs ++ rest)
    have hunit := Recovery.extent_unit stack (inside ++ [q]) (cs ++ rest)
      (c := q) (by simpa using hsize) hbracket
      (hlevel.closes (Bool.or_eq_false_iff.mp hbracket).2 fun _ => hsemicolon)
    rw [ih stack rest hlevel hstar] at hunit
    simp only [List.append_assoc, List.cons_append, List.nil_append, List.length_append,
      List.length_cons, List.length_nil] at hunit ⊢
    rw [hunit]
    omega
  | @comment _ inside cs hinside _ ih =>
    have hsize := Recovery.unitSize_comment hinside (cs ++ rest)
    have hunit := Recovery.extent_unit stack ('*' :: (inside ++ ['*', '/'])) (cs ++ rest)
      (c := '/') (by simpa using hsize) rfl
      (hlevel.closes rfl fun _ => by decide)
    rw [ih stack rest hlevel hstar] at hunit
    simp only [List.append_assoc, List.cons_append, List.nil_append, List.length_append,
      List.length_cons, List.length_nil] at hunit ⊢
    rw [hunit]
    omega
  | @group _ o c inside cs ho hbrace hinside _ ihinside ih =>
    have hmem := Recovery.mem_brackets ho
    have hall : ∀ p ∈ Recovery.brackets,
        isClosing p.1 = false ∧ isClosing p.2 = true ∧ p.1 ≠ ';' ∧ p.2 ≠ '*' ∧
          (p.2 = '\x7d' → p.1 = '\x7b') := by decide
    obtain ⟨hopen, hclose, hsemicolon, hnostar, hpair⟩ := hall _ hmem
    have hin := Recovery.extent_open stack (inside ++ c :: (cs ++ rest)) ho
      (hlevel.closes hopen fun _ => hsemicolon)
    have hinner := ihinside (level :: stack) (c :: (cs ++ rest))
      (show IsLevel false (some c) from hclose) (by simpa using hnostar)
    have hout := Recovery.extent_close stack (cs ++ rest) ho
      (show level = none → c ≠ '\x7d' from fun hnone hc => by
        subst hnone
        exact hbrace hlevel (hpair hc))
    rw [hinner, hout, ih stack rest hlevel hstar] at hin
    simp only [List.append_assoc, List.cons_append, List.length_append, List.length_cons]
    rw [hin]
    omega

/-!
## Where passing over balanced text ends

What is broken is passed over up to where it should end, if the text up to
there is balanced: a block up to its closing brace, and a declaration up to
its semicolon, to the brace that closes the block around it, or to the end of
a block of its own (`Stream.skipBroken_balanced`). There the line and the
column are the ones of the place reached.
-/

/-- **A stream that was moved** to where a text of its source is unread, with
nothing in its window. -/
structure Stream.Leaves (s t : Stream) (text : List Char) : Prop where
  /-- It is a stream of the same source. -/
  source_eq : t.source = s.source
  /-- The text is unread. -/
  rest_eq : t.reader.rest = text
  /-- Line and column are those of the offset. -/
  agrees : t.reader.location.AgreesWith s.source
  /-- No token waits in the window. -/
  ahead_eq : t.ahead = []
  /-- No token can be taken back. -/
  behind_eq : t.behind = []

namespace Stream

variable {s : Stream} {b c r : List Char}

/-- **A walk from a place** leads as far as it extends. -/
theorem skipBroken_extent (hplace : s.reader.location.AgreesWith s.source)
    (hahead : s.ahead = []) (inBlock : Bool) (hrest : s.reader.rest = b ++ r)
    (h : Recovery.extent [] (if inBlock then some '\x7d' else none) 0 (b ++ r) = b.length) :
    s.Leaves (s.skipBroken inBlock) r := by
  have hskip : s.skipBroken inBlock = ⟨s.reader.advance b.length, [], []⟩ := by
    unfold skipBroken rewind peekCached
    rw [hahead]
    simp [forget, hrest, h]
  obtain ⟨before, hsource, hlocation⟩ := (isPlace_iff.mpr hplace).exists_suffixAt
  have hat : s.reader.IsAt := by
    refine ⟨before, ?_, hlocation⟩
    rw [s.reader.rest_eq]
    exact hsource
  rw [hskip]
  refine ⟨rfl, ?_, isPlace_iff.mp (hat.advance b.length).isPlace, rfl, rfl⟩
  show s.reader.rest.drop b.length = r
  rw [hrest, List.drop_left]

/-- **Passing over ends where balanced text does.** With no token waiting in
the window, the rest of a broken block is passed over up to the brace behind
balanced text, and the rest of a broken declaration behind balanced text
without semicolons and braces outside of brackets: up to and including a
semicolon, up to a closing brace, or up to and including a block. -/
theorem skipBroken_balanced (hplace : s.reader.location.AgreesWith s.source)
    (hahead : s.ahead = []) (b r : List Char) :
    (BalancedText false b → s.reader.rest = b ++ '\x7d' :: r →
      s.Leaves (s.skipBroken true) ('\x7d' :: r)) ∧
    (BalancedText true b →
      (s.reader.rest = b ++ ';' :: r → s.Leaves (s.skipBroken false) r) ∧
      (s.reader.rest = b ++ '\x7d' :: r → s.Leaves (s.skipBroken false) ('\x7d' :: r)) ∧
      ∀ c, BalancedText false c → s.reader.rest = b ++ '\x7b' :: (c ++ '\x7d' :: r) →
        s.Leaves (s.skipBroken false) r) := by
  have hbrace : IsLevel false (some '\x7d') := rfl
  have hflat : IsLevel true none := rfl
  refine ⟨fun hb hrest => ?_, fun hb => ⟨fun hrest => ?_, fun hrest => ?_, fun c hc hrest => ?_⟩⟩
  · refine skipBroken_extent hplace hahead true hrest ?_
    exact hb.extent [] _ hbrace (by simp)
  · refine skipBroken_extent hplace hahead false (b := b ++ [';']) (by simpa using hrest) ?_
    rw [List.append_assoc]
    refine (hb.extent [] _ hflat (by simp)).trans ?_
    rw [List.length_append]
    rfl
  · refine skipBroken_extent hplace hahead false hrest ?_
    exact hb.extent [] _ hflat (by simp)
  · have hopen : Recovery.extent [] none 0 ('\x7b' :: (c ++ '\x7d' :: r)) =
        1 + Recovery.extent [none] (some '\x7d') 0 (c ++ '\x7d' :: r) :=
      Recovery.extent_open [] _ rfl rfl
    have hinside := hc.extent [none] ('\x7d' :: r) hbrace (by simp)
    have hclose : Recovery.extent [none] (some '\x7d') 0 ('\x7d' :: r) = 1 := rfl
    refine skipBroken_extent hplace hahead false (b := b ++ '\x7b' :: (c ++ ['\x7d']))
      (by simpa using hrest) ?_
    rw [show b ++ '\x7b' :: (c ++ ['\x7d']) ++ r = b ++ '\x7b' :: (c ++ '\x7d' :: r) by simp]
    refine (hb.extent [] _ hflat (by simp)).trans ?_
    rw [hopen, hinside, hclose]
    simp only [List.length_append, List.length_cons, List.length_nil]
    omega

/-- A semicolon in brackets and a brace in a string are passed over. -/
theorem skipBroken_balanced_string :
    let s := ofString "(;)\"\x7d\"\n;a"
    BalancedText true "(;)\"\x7d\"\n".toList ∧
      s.reader.rest = "(;)\"\x7d\"\n".toList ++ ';' :: "a".toList ∧
      s.Leaves (s.skipBroken false) "a".toList := by
  have hinside : BalancedText false [';'] := .plain rfl nofun nofun .nil
  have hstring : Quoted '"' ['\x7d'] := .char (by decide) (by decide) (by decide) .nil
  have hb : BalancedText true "(;)\"\x7d\"\n".toList :=
    .group (o := '(') (c := ')') rfl (fun _ => by decide) hinside
      (.string (.inl rfl) hstring (.plain rfl (fun _ => by decide) nofun .nil))
  have hplace : (ofString "(;)\"\x7d\"\n;a").reader.location.AgreesWith
      (ofString "(;)\"\x7d\"\n;a").source := isPlace_iff.mp (.start _)
  exact ⟨hb, rfl, ((skipBroken_balanced hplace rfl _ _).2 hb).1 rfl⟩

end Stream

end Stylesheet
