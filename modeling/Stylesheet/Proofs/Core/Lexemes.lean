import Stylesheet.Proofs.Core.Written
import Stylesheet.Proofs.Passing
import Stylesheet.Proofs.Reads.Basic

/-!
# How the core language is cut into tokens

Words, numbers, blanks and marks are tokens by themselves, whatever follows
them, as long as it is a blank or a mark. There is one exception: a word
before a colon may begin the name of an old filter function, but only if an
opening bracket follows on its line, which the core language does not have.
-/

namespace Stylesheet

namespace Core

open Lexeme (scanName significant trivia? runSize)

/-! ## What ends a word -/

/-- The blanks and the marks. -/
def isBoundary (c : Char) : Bool := [' ', '\n', ',', ':', ';', '\x7b', '\x7d'].contains c

/-- **A word ends before a text**: it is empty, or starts with a blank or a
mark. -/
def Ends (cs : List Char) : Prop := ∀ c ∈ cs.head?, isBoundary c = true

variable {c : Char} {cs : List Char}

theorem Ends.nil : Ends [] := nofun

theorem Ends.cons (h : isBoundary c = true) : Ends (c :: cs) := fun _ hc => Option.some.inj hc ▸ h

/-- **A blank or a mark is no part of a name or number.** -/
theorem isBoundary_excludes (hc : isBoundary c = true) :
    Lexeme.isNameChar c = false ∧ c ≠ '\\' ∧ c ≠ '(' ∧ c ≠ '.' ∧ c ≠ 'e' ∧ c ≠ 'E' ∧ c ≠ '%' ∧
      c ≠ '+' ∧ c ≠ '-' ∧ c.isDigit = false ∧ c.isAlpha = false ∧ c ≠ '_' ∧ ¬0xA0 ≤ c.toNat := by
  have hall : [' ', '\n', ',', ':', ';', '\x7b', '\x7d'].all (fun c => Lexeme.isNameChar c = false ∧
      c ≠ '\\' ∧ c ≠ '(' ∧ c ≠ '.' ∧ c ≠ 'e' ∧ c ≠ 'E' ∧ c ≠ '%' ∧ c ≠ '+' ∧ c ≠ '-' ∧
      c.isDigit = false ∧ c.isAlpha = false ∧ c ≠ '_' ∧ ¬0xA0 ≤ c.toNat) = true := by decide
  exact of_decide_eq_true (List.all_eq_true.mp hall c (List.contains_iff_mem.mp hc))

/-- Blanks after which a word ends, too. -/
theorem Gap.ends (g : Gap) (h : Ends cs) : Ends (g.chars ++ cs) := by
  intro c hc
  cases hchars : g.chars with
  | nil =>
    rw [hchars] at hc
    exact h c hc
  | cons b rest =>
    rw [hchars] at hc
    obtain rfl : b = c := Option.some.inj hc
    obtain rfl | rfl := g.blank b (hchars ▸ List.mem_cons_self) <;> rfl

/-! ## Letters -/

theorem isNameChar_of_isWordChar (h : isWordChar c = true) : Lexeme.isNameChar c = true := by
  unfold isWordChar isLetter at h
  unfold Lexeme.isNameChar Char.isAlphanum
  grind

theorem isWordChar_of_isLetter (h : isLetter c = true) : isWordChar c = true := by
  unfold isWordChar
  rw [h]
  rfl

/-- **What a letter is not.** -/
theorem isLetter_excludes (h : isLetter c = true) :
    c.isDigit = false ∧ c ≠ '-' ∧ c ≠ '+' ∧ c ≠ '.' ∧ c ≠ '\\' ∧ c ≠ '/' ∧
      Text.isSpace c = false := by
  have hne : ∀ d : Char, isLetter d = false → c ≠ d := fun d hd hcd => by
    rw [hcd, hd] at h
    cases h
  refine ⟨?_, hne _ (by decide), hne _ (by decide), hne _ (by decide), hne _ (by decide),
    hne _ (by decide), ?_⟩
  · change (decide (c.val ≥ 65 ∧ c.val ≤ 90) || (decide (c.val ≥ 97) && decide (c.val ≤ 122)) ||
      decide (0xA0 ≤ c.toNat)) = true at h
    simp only [Bool.or_eq_true, Bool.and_eq_true, decide_eq_true_eq, UInt32.le_iff_toNat_le,
      ge_iff_le] at h
    change ((65 ≤ c.toNat ∧ c.toNat ≤ 90) ∨ 97 ≤ c.toNat ∧ c.toNat ≤ 122) ∨ 160 ≤ c.toNat at h
    refine Bool.eq_false_iff.mpr fun hdigit => ?_
    simp only [Char.isDigit, Bool.and_eq_true, decide_eq_true_eq, UInt32.le_iff_toNat_le,
      ge_iff_le] at hdigit
    change 48 ≤ c.toNat ∧ c.toNat ≤ 57 at hdigit
    omega
  · unfold Text.isSpace
    simp [hne ' ' (by decide), hne '\t' (by decide), hne '\n' (by decide)]

/-- The characters of a word can stand in a name. -/
theorem Word.isNameChar (w : Word) : ∀ c ∈ w.chars, Lexeme.isNameChar c = true := by
  intro c hc
  rcases List.mem_cons.mp hc with rfl | hc
  · exact isNameChar_of_isWordChar (isWordChar_of_isLetter w.first_isLetter)
  · exact isNameChar_of_isWordChar (w.rest_isWordChar c hc)

/-! ## Lines -/

/-- No line end, unless it is a newline. -/
def isInLine (c : Char) : Bool := c != '\r' && c != '\x0c'

/-- **What a class of characters leaves out** is in no text of it. -/
theorem all_isInLine_of {p : Char → Bool} (hreturn : p '\r' = false) (hfeed : p '\x0c' = false)
    {cs : List Char} (h : ∀ c ∈ cs, p c = true) : cs.all isInLine = true := by
  refine List.all_eq_true.mpr fun c hc => ?_
  have hne : ∀ d, p d = false → c ≠ d := by
    rintro d hd rfl
    cases hd.symm.trans (h _ hc)
  simp [isInLine, hne _ hreturn, hne _ hfeed]

@[simp]
theorem Gap.all_isInLine (g : Gap) : g.chars.all isInLine = true :=
  List.all_eq_true.mpr fun c hc => by obtain rfl | rfl := g.blank c hc <;> rfl

/-! ## Words -/

/-- A name ends before a text. -/
def NameEnds (cs : List Char) : Prop := ∀ c ∈ cs.head?, Lexeme.isNameChar c = false ∧ c ≠ '\\'

theorem Ends.nameEnds (h : Ends cs) : NameEnds cs := fun c hc =>
  have hexcludes := isBoundary_excludes (h c hc)
  ⟨hexcludes.1, hexcludes.2.1⟩

theorem scanName_of_nameEnds (h : NameEnds cs) : scanName 0 cs = .empty := by
  cases cs with
  | nil => rfl
  | cons c cs =>
    obtain ⟨hname, hslash⟩ := h c rfl
    rw [Lexeme.scanName.eq_def]
    dsimp only
    rw [if_neg hslash, if_neg (by simp [hname])]

/-- **A name goes up to its end.** -/
theorem scanName_append {name : List Char} (hname : ∀ c ∈ name, Lexeme.isNameChar c = true)
    (h : NameEnds cs) : scanName 0 (name ++ cs) = ⟨name, name.length⟩ := by
  induction name with
  | nil => exact scanName_of_nameEnds h
  | cons c name ih =>
    have hc := hname c List.mem_cons_self
    have hslash : c ≠ '\\' := by
      rintro rfl
      exact absurd hc (by decide)
    rw [List.cons_append, Lexeme.scanName.eq_def]
    dsimp only
    rw [if_neg hslash, if_pos hc, ih fun d hd => hname d (List.mem_cons_of_mem _ hd)]
    rfl

/-- What a word is cut into. -/
def Word.lexeme (w : Word) : Lexeme :=
  ⟨.ident, .ident (String.ofList w.chars) 0 false, w.chars.length⟩

/-- **No filter function begins** with a word: the word that such functions
begin with has no colon after it, or no bracket opens further on. -/
def Word.NoFilter (w : Word) (cs : List Char) : Prop :=
  String.ofList w.chars = "progid" → cs.head? = some ':' → '(' ∉ cs

theorem indexOf?_eq_none {cs : List Char} (h : '(' ∉ cs) : Text.indexOf? ['('] cs = none := by
  induction cs with
  | nil => rfl
  | cons c cs ih =>
    have hc : '(' ≠ c := fun hc => h (hc ▸ List.mem_cons_self)
    have hcs : '(' ∉ cs := fun hmem => h (List.mem_cons_of_mem _ hmem)
    unfold Text.indexOf?
    rw [if_neg (by simp [List.isPrefixOf, hc]), ih hcs]
    rfl

/-- **A word is a token**, up to its end. -/
theorem Word.identLike (w : Word) (h : Ends cs) (hfilter : w.NoFilter cs) :
    Lexeme.identLike (w.chars ++ cs) = w.lexeme := by
  have hdash : w.first ≠ '-' := (isLetter_excludes w.first_isLetter).2.1
  have hbracket : cs.head? ≠ some '(' := fun hhead => (isBoundary_excludes (h _ hhead)).2.2.1 rfl
  unfold Lexeme.identLike
  rw [scanName_append w.isNameChar h.nameEnds]
  extract_lets scanned after name vendorPos small uri? plain
  have hafter : after = cs := List.drop_left
  have hvendor : vendorPos = 0 := if_neg (by simp [Word.chars, hdash])
  have hcustom : Text.startsWith name "--" = false := by
    simp [name, scanned, Text.startsWith, Word.chars, List.isPrefixOf, Ne.symm hdash]
  have hplain : plain = w.lexeme := by
    unfold plain Word.lexeme
    rw [hcustom, hvendor]
  rw [hafter, if_neg (by simpa using hbracket)]
  split
  · next hprogid =>
    obtain ⟨hword, hcolon⟩ := Bool.and_eq_true_iff.mp hprogid
    have hnone := hfilter (beq_iff_eq.mp hword) (by simpa using hcolon)
    rw [indexOf?_eq_none fun hmem => hnone ((List.takeWhile_sublist _).subset hmem)]
    exact hplain
  · exact hplain

/-- **A word is the first token** of what it starts. -/
theorem Word.significant (w : Word) (h : Ends cs) (hfilter : w.NoFilter cs) :
    significant (w.chars ++ cs) = w.lexeme := by
  obtain ⟨hdigit, hdash, hplus, hdot, hslash, -⟩ := isLetter_excludes w.first_isLetter
  have hname : Lexeme.nameComesNext (w.chars ++ cs) = true := by
    have hletter := w.first_isLetter
    unfold isLetter at hletter
    have hplain : ∀ d, Lexeme.startsPlainName (some w.first) d = true := by
      intro d
      unfold Lexeme.startsPlainName
      split
      · next hnone => cases hnone
      · next hescape => exact absurd (Option.some.inj hescape) hslash
      · next hsome =>
        obtain rfl := Option.some.inj hsome
        grind
    unfold Lexeme.nameComesNext Lexeme.startsName
    show (if (some w.first == some '-') = true then _ else _) = _
    rw [if_neg (by simpa using hdash)]
    exact hplain _
  have hrange : ∀ c, (w.rest ++ cs).head? = some c → c ≠ '+' := by
    intro c hc
    cases hrest : w.rest with
    | nil =>
      rw [hrest] at hc
      exact (isBoundary_excludes (h c hc)).2.2.2.2.2.2.2.1
    | cons d rest =>
      rw [hrest] at hc
      obtain rfl : d = c := Option.some.inj hc
      have hd := w.rest_isWordChar d (hrest ▸ List.mem_cons_self)
      rintro rfl
      exact absurd hd (by decide)
  unfold Lexeme.significant
  show (if Lexeme.numberComesNext (w.first :: (w.rest ++ cs)) = true then _ else _) = _
  rw [if_neg (by simp [Lexeme.numberComesNext, hdigit, hdash, hplus, hdot]), if_neg hdash, if_neg,
    if_pos hname]
  · exact w.identLike h hfilter
  · intro hu
    exact hrange '+' (by simpa using (Bool.and_eq_true_iff.mp hu).2) rfl

/-! ## Numbers -/

theorem Numeral.isDigit_excludes (h : c.isDigit = true) :
    c ≠ '+' ∧ c ≠ '-' ∧ c ≠ '/' ∧ Text.isSpace c = false := by
  have hne : ∀ d : Char, d.isDigit = false → c ≠ d := fun d hd hcd => by
    rw [hcd, hd] at h
    cases h
  refine ⟨hne _ (by decide), hne _ (by decide), hne _ (by decide), ?_⟩
  unfold Text.isSpace
  simp [hne ' ' (by decide), hne '\t' (by decide), hne '\n' (by decide)]

theorem takeWhile_isDigit {digits : List Char} (hdigits : ∀ c ∈ digits, c.isDigit = true)
    (h : Ends cs) : (digits ++ cs).takeWhile Char.isDigit = digits := by
  rw [List.takeWhile_append_of_pos hdigits]
  cases cs with
  | nil => simp
  | cons c cs =>
    rw [List.takeWhile_cons_of_neg, List.append_nil]
    simp [(isBoundary_excludes (h c rfl)).2.2.2.2.2.2.2.2.2.1]

theorem nameComesNext_of_ends (h : Ends cs) : Lexeme.nameComesNext cs = false := by
  cases cs with
  | nil => rfl
  | cons c cs =>
    obtain ⟨-, hslash, -, -, -, -, -, -, hdash, -, halpha, hlow, hcode⟩ :=
      isBoundary_excludes (h c rfl)
    unfold Lexeme.nameComesNext Lexeme.startsName
    show (if (some c == some '-') = true then _ else _) = _
    rw [if_neg (by simpa using hdash)]
    unfold Lexeme.startsPlainName
    split
    · next hnone => cases hnone
    · next hescape => exact absurd (Option.some.inj hescape) hslash
    · next hsome =>
      obtain rfl := Option.some.inj hsome
      simp [halpha, hlow, hcode]

/-- **A number is cut off** at its end. -/
theorem Numeral.numeric (n : Numeral) (h : Ends cs) :
    (Lexeme.numeric (n.chars ++ cs)).kind = .number ∧
      (Lexeme.numeric (n.chars ++ cs)).size = n.chars.length := by
  obtain ⟨hplus, hdash, -⟩ := Numeral.isDigit_excludes (n.isDigit n.first List.mem_cons_self)
  have hexcludes := fun c hc => isBoundary_excludes (h c hc)
  have hne : ∀ d : Char, (∀ c ∈ cs.head?, c ≠ d) → (cs.head? == some d) = false := fun d hd => by
    cases hcs : cs.head? with
    | none => rfl
    | some c => simpa using hd c hcs
  have hdot := hne '.' fun c hc => (hexcludes c hc).2.2.2.1
  have he := hne 'e' fun c hc => (hexcludes c hc).2.2.2.2.1
  have hE := hne 'E' fun c hc => (hexcludes c hc).2.2.2.2.2.1
  have hpercent := hne '%' fun c hc => (hexcludes c hc).2.2.2.2.2.2.1
  unfold Lexeme.numeric
  extract_lets sign whole afterWhole fraction fractionSize afterFraction exponentSign hasExponent
    exponentDigits exponentSize exponentValue value size after isFloat scanned unit
  have hsign : sign = 0 := by
    simp [sign, Lexeme.signSize, Numeral.chars, hplus, hdash]
  have hwhole : whole = n.chars := by
    unfold whole
    rw [hsign, List.drop_zero]
    exact takeWhile_isDigit n.isDigit h
  have hafterWhole : afterWhole = cs := by
    unfold afterWhole
    rw [hsign, hwhole, Nat.zero_add, List.drop_left]
  have hfraction : fraction = [] := by
    unfold fraction
    rw [hafterWhole, hdot]
    rfl
  have hfractionSize : fractionSize = 0 := by
    unfold fractionSize
    rw [hfraction]
    rfl
  have hafterFraction : afterFraction = cs := by
    unfold afterFraction
    rw [hfractionSize, hafterWhole, List.drop_zero]
  have hhasExponent : hasExponent = false := by
    unfold hasExponent
    rw [hafterFraction, he, hE]
    rfl
  have hexponentSize : exponentSize = 0 := by
    unfold exponentSize
    rw [hhasExponent]
    rfl
  have hsize : size = n.chars.length := by
    unfold size
    rw [hsign, hwhole, hfractionSize, hexponentSize]
    omega
  have hafter : after = cs := by
    unfold after
    rw [hsize, List.drop_left]
  rw [hafter, hpercent, nameComesNext_of_ends h, if_neg Bool.false_ne_true,
    if_neg Bool.false_ne_true]
  exact ⟨rfl, hsize⟩

/-- **A number is the first token** of what it starts. -/
theorem Numeral.significant (n : Numeral) (h : Ends cs) :
    (significant (n.chars ++ cs)).kind = .number ∧
      (significant (n.chars ++ cs)).size = n.chars.length := by
  have hdigit := n.isDigit n.first List.mem_cons_self
  have hnumber : Lexeme.numberComesNext (n.chars ++ cs) = true := by
    simp [Lexeme.numberComesNext, Numeral.chars, hdigit]
  have hcut : Lexeme.significant (n.chars ++ cs) = Lexeme.numeric (n.chars ++ cs) := by
    unfold Lexeme.significant
    show (if Lexeme.numberComesNext (n.chars ++ cs) = true then _ else _) = _
    rw [if_pos hnumber]
  rw [hcut]
  exact n.numeric h

/-! ## Marks -/

/-- **The marks** and the kinds of their tokens. -/
def marks : List (Char × TokenKind) :=
  [(',', .comma), (':', .colon), (';', .semicolon), ('\x7b', .lBrace), ('\x7d', .rBrace)]

/-- **A mark is a token.** -/
theorem significant_mark {kind : TokenKind} (h : (c, kind) ∈ marks) :
    significant (c :: cs) = ⟨kind, .none, 1⟩ := by
  simp only [marks, List.mem_cons, Prod.mk.injEq, List.not_mem_nil, or_false] at h
  rcases h with ⟨rfl, rfl⟩ | ⟨rfl, rfl⟩ | ⟨rfl, rfl⟩ | ⟨rfl, rfl⟩ | ⟨rfl, rfl⟩ <;>
    simp +decide [Lexeme.significant, Lexeme.numberComesNext, Lexeme.nameComesNext,
      Lexeme.startsName, Lexeme.startsPlainName, Lexeme.punctuation, TokenKind.ofChar?]

/-- **A dot before a word** is a token. -/
theorem significant_dot (w : Word) : significant ('.' :: (w.chars ++ cs)) = ⟨.dot, .none, 1⟩ := by
  have hdigit := (isLetter_excludes w.first_isLetter).1
  simp [Lexeme.significant, Lexeme.numberComesNext, Lexeme.nameComesNext, Lexeme.startsName,
    Lexeme.startsPlainName, Lexeme.punctuation, TokenKind.ofChar?, Lexeme.isDigit, Word.chars,
    hdigit]

/-- What a hash before a word is cut into. -/
def Word.hash (w : Word) : Lexeme := ⟨.hash, .hash (String.ofList w.chars), w.chars.length + 1⟩

/-- **A hash before a word** is a token with the word. -/
theorem significant_hash (w : Word) (h : Ends cs) :
    significant ('#' :: (w.chars ++ cs)) = w.hash := by
  have hname := w.isNameChar w.first List.mem_cons_self
  have hscan := scanName_append w.isNameChar h.nameEnds
  simp [Lexeme.significant, Lexeme.numberComesNext, Lexeme.nameComesNext, Lexeme.startsName,
    Lexeme.startsPlainName, Lexeme.punctuation, Lexeme.continuesName, Word.hash,
    hscan]
  rw [show w.chars.head? = some w.first from rfl]
  simp [hname]

/-! ## Blanks -/

/-- **Nothing to pass over** stands at the start of a text. -/
def Solid (cs : List Char) : Prop := ∀ c ∈ cs.head?, Text.isSpace c = false ∧ c ≠ '/'

theorem Solid.nil : Solid [] := nofun

theorem Solid.cons (h : Text.isSpace c = false ∧ c ≠ '/') : Solid (c :: cs) := fun _ hd =>
  Option.some.inj hd ▸ h

theorem Word.solid (w : Word) : Solid (w.chars ++ cs) :=
  have h := isLetter_excludes w.first_isLetter
  .cons ⟨h.2.2.2.2.2.2, h.2.2.2.2.2.1⟩

theorem Numeral.solid (n : Numeral) : Solid (n.chars ++ cs) :=
  have h := Numeral.isDigit_excludes (n.isDigit n.first List.mem_cons_self)
  .cons ⟨h.2.2.2, h.2.2.1⟩

theorem solid_mark {kind : TokenKind} (h : (c, kind) ∈ marks) : Solid (c :: cs) := by
  have hall : ∀ m ∈ marks, Text.isSpace m.1 = false ∧ m.1 ≠ '/' := by decide
  exact .cons (hall _ h)

theorem Solid.trivia? (h : Solid cs) : trivia? cs = none := by
  cases cs with
  | nil => rfl
  | cons c cs =>
    obtain ⟨hspace, hslash⟩ := h c rfl
    unfold Lexeme.trivia?
    dsimp only
    rw [if_neg (by simp [hspace]), if_neg (by simp [hslash])]

theorem Gap.isSpace (g : Gap) : ∀ c ∈ g.chars, Text.isSpace c = true := by
  intro c hc
  obtain rfl | rfl := g.blank c hc <;> rfl

/-- **Blanks are a token** if they are there. -/
theorem Gap.trivia? (g : Gap) (hg : g.chars ≠ []) (h : Solid cs) :
    trivia? (g.chars ++ cs) = some ⟨.whitespace, .none, g.chars.length⟩ := by
  obtain ⟨b, rest, hchars⟩ := List.exists_cons_of_ne_nil hg
  have hrun : runSize Text.isSpace (g.chars ++ cs) = g.chars.length := by
    unfold Lexeme.runSize
    rw [List.takeWhile_append_of_pos g.isSpace]
    cases cs with
    | nil => simp
    | cons c cs => rw [List.takeWhile_cons_of_neg (by simp [(h c rfl).1]), List.append_nil]
  have hb : Text.isSpace b = true := g.isSpace b (hchars ▸ List.mem_cons_self)
  rw [hchars] at hrun ⊢
  unfold Lexeme.trivia?
  dsimp only [List.cons_append]
  rw [if_pos hb, ← hrun]
  rfl

/-- **Blanks that are not asked for** are passed over. -/
theorem Gap.skipped (g : Gap) {mode : Mode} (hmode : mode.blanks = false) (h : Solid cs) :
    mode.skipped 0 (g.chars ++ cs) = g.chars.length := by
  have hnone : mode.skipped 0 cs = 0 := by
    cases cs with
    | nil => rfl
    | cons c cs =>
      unfold Mode.skipped
      rw [h.trivia?]
  cases hchars : g.chars with
  | nil => exact hnone
  | cons b rest =>
    have htrivia := g.trivia? (by simp [hchars]) h
    rw [hchars, List.cons_append] at htrivia
    rw [List.cons_append, Mode.skipped, htrivia]
    have hkeeps : (mode.keeps ⟨.whitespace, .none, (b :: rest).length⟩).isNone = true := by
      simp [Mode.keeps, hmode]
    dsimp only
    rw [if_pos hkeeps, List.length_cons, Nat.add_sub_cancel, Mode.skipped_append, hnone]

end Core

/-!
## Reading a known text

Where the text is known the stream is, too: what has been read, what is
left, and the window between them. `Parse.State.on` puts a state there, and
each way to get a token is one equation between such states. The equations
of larger parsers are put together from them. In all of them `a` is what
has been read already, `z` what is left, and `l` are the tokens that have
been handed out, the latest first.
-/

open Parse (State)
open Stylesheet.Parser

/-- **A reader in the middle of a text.** -/
def Reader.on (before rest : List Char) : Reader where
  source := before ++ rest
  location := Location.start.advance before
  rest := rest
  bookmark := none
  rest_eq := by rw [Location.offset_advance_start, Text.suffixAt_append]

theorem Reader.advance_on (a cs z : List Char) :
    (Reader.on a (cs ++ z)).advance cs.length = Reader.on (a ++ cs) z := by
  unfold Reader.advance Reader.on
  simp [Location.advance_append]

/-- **A state in the middle of a text**, with the tokens of the window that
have been handed out, the latest first, and those that were taken back. -/
def Parse.State.on (s : State) (before rest : List Char) (behind ahead : List Token) : State :=
  { s with stream := ⟨Reader.on before rest, behind, ahead⟩ }

/-- A piece of text after another one, cut as a token. -/
def Lexeme.after (lx : Lexeme) (before cs : List Char) : Token :=
  ⟨lx.kind, lx.payload, String.ofList cs, Location.start.advance before,
    Location.start.advance (before ++ cs)⟩

namespace Core

variable {s : State} {a z cs : List Char} {l : List Token} {t : Token} {lx : Lexeme}
  {mode : Mode} {placeholders blanks : Bool}

/-- No blanks. -/
def noGap : Gap := ⟨[], nofun⟩

/-! ## Cutting tokens -/

/-- **A token is cut** after what is passed over. -/
theorem lex_on (lead : List Char) (hskipped : mode.skipped 0 (lead ++ (cs ++ z)) = lead.length)
    (hfirst : mode.firstOf (cs ++ z) = lx) (hsize : lx.size = cs.length) :
    (Reader.on a (lead ++ (cs ++ z))).lex mode =
      (lx.after (a ++ lead) cs, Reader.on (a ++ lead ++ cs) z) := by
  have hadvance : (Reader.on a (lead ++ (cs ++ z))).advance (mode.skipped 0
      (Reader.on a (lead ++ (cs ++ z))).rest) = Reader.on (a ++ lead) (cs ++ z) := by
    show (Reader.on a (lead ++ (cs ++ z))).advance (mode.skipped 0
      (lead ++ (cs ++ z))) = _
    rw [hskipped, Reader.advance_on]
  unfold Reader.lex
  rw [hadvance]
  show ((mode.firstOf (cs ++ z)).place (Location.start.advance (a ++ lead)) (cs ++ z),
    (Reader.on (a ++ lead) (cs ++ z)).advance (mode.firstOf (cs ++ z)).size) = _
  rw [hfirst, hsize, Reader.advance_on]
  unfold Lexeme.place Lexeme.after
  rw [hsize, List.take_left, ← Location.advance_append]

theorem firstOf_of_solid (h : Solid cs) : mode.firstOf cs = Lexeme.significant cs := by
  unfold Mode.firstOf
  rw [h.trivia?]

/-- The next token is cut when none was taken back. -/
theorem next_of_lex {r : Reader}
    (h : (Reader.on a z).lex ⟨blanks, placeholders, false⟩ = (t, r)) :
    next placeholders blanks (s.on a z l []) =
      (.ok t, { s with stream := ⟨r, t :: l.take 4, []⟩ }) := by
  show (Except.ok (Stream.get ⟨Reader.on a z, l, []⟩ placeholders blanks).1,
    ({ s with stream := (Stream.get ⟨Reader.on a z, l, []⟩ placeholders blanks).2 } :
      State)) = _
  unfold Stream.get Stream.takeAhead
  dsimp only
  rw [h]
  rfl

/-- **The next token after blanks.** -/
theorem next_on (g : Gap) (hsolid : Solid (cs ++ z))
    (hfirst : Lexeme.significant (cs ++ z) = lx) (hsize : lx.size = cs.length) :
    next placeholders false (s.on a (g.chars ++ (cs ++ z)) l []) =
      (.ok (lx.after (a ++ g.chars) cs), s.on (a ++ g.chars ++ cs) z
        (lx.after (a ++ g.chars) cs :: l.take 4) []) :=
  next_of_lex (lex_on g.chars (g.skipped rfl hsolid) ((firstOf_of_solid hsolid).trans hfirst) hsize)

/-- **The next token where no blank is**, with blanks asked for. -/
theorem next_solid (hsolid : Solid (cs ++ z))
    (hfirst : Lexeme.significant (cs ++ z) = lx) (hsize : lx.size = cs.length) :
    next placeholders true (s.on a (cs ++ z) l []) =
      (.ok (lx.after a cs), s.on (a ++ cs) z (lx.after a cs :: l.take 4)
        []) := by
  have hskipped : Mode.skipped ⟨true, placeholders, false⟩ 0 ([] ++ (cs ++ z)) = 0 := by
    rw [List.nil_append]
    cases hcs : cs ++ z with
    | nil => rfl
    | cons c z =>
      unfold Mode.skipped
      rw [← hcs, hsolid.trivia?]
  have h := lex_on (a := a) [] hskipped ((firstOf_of_solid hsolid).trans hfirst) hsize
  rw [List.append_nil] at h
  exact next_of_lex h

/-- A mark where it stands. -/
def markAt (c : Char) (kind : TokenKind) (a : List Char) : Token :=
  (⟨kind, .none, 1⟩ : Lexeme).after a [c]

/-- **The next token is a mark**, after blanks. -/
theorem next_mark (g : Gap) {c : Char} {kind : TokenKind} (h : (c, kind) ∈ marks) :
    next placeholders false (s.on a (g.chars ++ c :: z) l []) =
      (.ok (markAt c kind (a ++ g.chars)), s.on (a ++ g.chars ++ [c]) z
        (markAt c kind (a ++ g.chars) :: l.take 4) []) := by
  have hnext : next placeholders false (s.on a (g.chars ++ ([c] ++ z)) l []) = _ :=
    next_on g (solid_mark h) (significant_mark h) rfl
  exact hnext

/-- What blanks are cut into. -/
def Gap.lexeme (g : Gap) : Lexeme := ⟨.whitespace, .none, g.chars.length⟩

/-- **Blanks that are asked for.** -/
theorem next_gap (g : Gap) (hg : g.chars ≠ []) (hsolid : Solid z) :
    next placeholders true (s.on a (g.chars ++ z) l []) =
      (.ok (g.lexeme.after a g.chars), s.on (a ++ g.chars) z
        (g.lexeme.after a g.chars :: l.take 4) []) := by
  have htrivia := g.trivia? hg hsolid
  have hskipped : Mode.skipped ⟨true, placeholders, false⟩ 0 ([] ++ (g.chars ++ z)) = 0 := by
    obtain ⟨b, blanks, hchars⟩ := List.exists_cons_of_ne_nil hg
    rw [hchars, List.cons_append] at htrivia
    rw [List.nil_append, hchars, List.cons_append]
    unfold Mode.skipped
    dsimp only
    rw [htrivia]
    rfl
  have hfirst : Mode.firstOf ⟨true, placeholders, false⟩ (g.chars ++ z) = g.lexeme := by
    unfold Mode.firstOf
    rw [htrivia]
    rfl
  have h := lex_on (a := a) [] hskipped hfirst rfl
  rw [List.append_nil] at h
  exact next_of_lex h

/-! ## The window -/

/-- **A token that was taken back** is handed out again. -/
theorem next_back (h : Mode.hides ⟨blanks, placeholders, false⟩ t = false) :
    next placeholders blanks (s.on a z l [t]) =
      (.ok t, s.on a z (t :: l) []) := by
  show (Except.ok (Stream.get ⟨Reader.on a z, l, [t]⟩ placeholders blanks).1,
    ({ s with stream := (Stream.get ⟨Reader.on a z, l, [t]⟩ placeholders blanks).2 } :
      State)) = _
  unfold Stream.get Stream.takeAhead
  dsimp only
  rw [if_neg (by simp [h])]
  rfl

theorem current_on :
    current (s.on a z (t :: l) []) = (.ok t, s.on a z (t :: l) []) :=
  rfl

theorem unget_on :
    unget (s.on a z (t :: l) []) = (.ok (), s.on a z l [t]) :=
  rfl

/-- The token handed out last is one of some kinds. -/
theorem mustReuse_on {kinds : List TokenKind} (h : t.kind ∈ kinds) :
    mustReuse kinds (s.on a z (t :: l) []) =
      (.ok t, s.on a z (t :: l) []) := by
  have hreuse : Stream.mustReuse ⟨Reader.on a z, t :: l, []⟩ kinds =
      (.ok t, ⟨Reader.on a z, t :: l, []⟩) := by
    have hreused : Stream.matchReuse ⟨Reader.on a z, t :: l, []⟩ kinds =
        (some t, ⟨Reader.on a z, t :: l, []⟩) := if_pos (List.contains_iff_mem.mpr h)
    unfold Stream.mustReuse
    rw [hreused]
  unfold mustReuse demand
  rw [bind_ok (show ask (·.mustReuse kinds) (s.on a z (t :: l) []) =
    (.ok (Stream.mustReuse ⟨Reader.on a z, t :: l, []⟩ kinds).1,
      ({ s with stream := (Stream.mustReuse ⟨Reader.on a z, t :: l, []⟩ kinds).2 } :
        State)) from rfl), hreuse]
  rfl

/-- **A token that must be of some kind**, and is. -/
theorem mustMatch_of_next {kinds : List TokenKind} {s₁ : State}
    (h : next false true s = (.ok t, s₁)) (ht : t.kind ∈ kinds) :
    mustMatch kinds s = (.ok t, s₁) := by
  obtain ⟨hget, rfl⟩ : (s.stream.get false true).1 = t ∧
      ({ s with stream := (s.stream.get false true).2 } : State) = s₁ :=
    ⟨Except.ok.inj (Prod.mk.inj h).1, (Prod.mk.inj h).2⟩
  have hmatch : s.stream.mustMatch kinds = (.ok t, (s.stream.get false true).2) := by
    unfold Stream.mustMatch Stream.matchKinds Stream.accept
    rw [hget, if_pos (List.contains_iff_mem.mpr ht)]
  unfold mustMatch demand
  rw [bind_ok (show ask (·.mustMatch kinds) s = (.ok (s.stream.mustMatch kinds).1,
    ({ s with stream := (s.stream.mustMatch kinds).2 } : State)) from rfl), hmatch]
  rfl

/-- **The text between two places**, of which the first is not after what
has been read. -/
theorem slice_on {p q : List Char} (h : a ++ z = p ++ (cs ++ q)) {ahead : List Token} :
    slice (Location.start.advance p).offset (Location.start.advance (p ++ cs)).offset
        (s.on a z l ahead) =
      (.ok (String.ofList cs), s.on a z l ahead) := by
  show (Except.ok (String.ofList (Text.slice (a ++ z) _ _)), _) = _
  rw [h, Location.offset_advance_start, Location.offset_advance_start, Text.byteLength_append,
    Text.slice_append]

end Core

end Stylesheet
