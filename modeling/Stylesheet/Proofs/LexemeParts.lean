import Mathlib.Tactic.SplitIfs
import Stylesheet.Token.Stream

/-!
# What tokens are made of

A comment may be a placeholder. An address is what stands between its
brackets, and what closes it. A name goes on after a vendor's mark, is called
if a bracket follows it, and begins a filter if it is the one name that does.
A number has digits, a fraction and an exponent, and then perhaps a unit.
Whoever compares how two texts are cut into tokens compares these one by one.

The first token of a text that is not empty takes at least one character of it
(`Mode.firstOf_size_pos`).
-/

namespace Stylesheet

namespace Lexeme

/-! ## Comments -/

/-- The size of a comment. -/
def commentSize (cs : List Char) : Nat := 2 + commentTail (cs.drop 2)

/-- **A comment**, or the placeholder that it is. -/
def commentOf (cs : List Char) : Lexeme :=
  match placeholderName? (cs.take (commentSize cs)) with
  | some name => ⟨.uvar, .uvar name, commentSize cs⟩
  | none => ⟨.comment, .none, commentSize cs⟩

theorem commentOf_size (cs : List Char) : (commentOf cs).size = commentSize cs := by
  unfold commentOf
  split <;> rfl

theorem trivia?_cons (c : Char) (rest : List Char) : trivia? (c :: rest) =
    if Text.isSpace c then some ⟨.whitespace, .none, runSize Text.isSpace (c :: rest)⟩
    else if c = '/' && rest.head? == some '*' then some (commentOf (c :: rest))
    else none := by
  unfold trivia? commentOf
  dsimp only
  split_ifs
  · rfl
  · unfold commentSize
    cases placeholderName? ((c :: rest).take (2 + commentTail ((c :: rest).drop 2))) <;> rfl
  · rfl

/-! ## Addresses -/

/-- What an address is written as: between quotes, or as it is. -/
def addressOf? : List Char → Option Scanned
  | [] => none
  | c :: inner =>
    if c = '"' || c = '\'' then
      let s := scanString c 0 inner
      if inner[s.size]? == some c then some ⟨s.value, s.size + 2⟩ else none
    else
      let s := scanAddress 0 (c :: inner)
      if s.value.isEmpty then none else some s

/-- An address that is closed after some blanks, with what comes before
it. -/
def closed? (lead : Nat) (body : List Char) (value : Scanned) : Option Scanned :=
  let after := body.drop value.size
  let trail := runSize Text.isSpace after
  if after[trail]? == some ')' then some ⟨value.value, lead + value.size + trail + 1⟩ else none

theorem scanUri?_eq (cs : List Char) : scanUri? cs =
    (addressOf? (cs.drop (runSize Text.isSpace cs))).bind
      (closed? (runSize Text.isSpace cs) (cs.drop (runSize Text.isSpace cs))) := by
  unfold scanUri? addressOf?
  dsimp only
  cases cs.drop (runSize Text.isSpace cs) with
  | nil => rfl
  | cons c inner =>
    dsimp only
    split_ifs <;> rfl

/-! ## Names and functions -/

/-- A function after its name, or the address it is written with. -/
def callOf (name : String) (vendorPos size : Nat) (args : List Char) : Lexeme :=
  match if uriFunctions.contains name then scanUri? args else none with
  | some uri => ⟨.uri, .uri (String.ofList uri.value) name, size + 1 + uri.size⟩
  | none =>
    ⟨.function, .function (splitVendor name vendorPos).1 (splitVendor name vendorPos).2 false,
      size + 1⟩

/-- A name by itself. -/
def nameOf (name : String) (vendorPos size : Nat) : Lexeme :=
  ⟨.ident, .ident name vendorPos (Text.startsWith name "--"), size⟩

/-- Where the name goes on after a vendor's mark. -/
def vendorPosOf (cs : List Char) : Nat :=
  if cs.head? == some '-' && cs[1]? != some '-' then vendorEnd (scanName 0 cs).value else 0

/-- Whether a bracket follows the name. -/
def isCalled (cs : List Char) : Bool := (cs.drop (scanName 0 cs).size).head? == some '('

theorem identLike_of_called {cs : List Char} (h : isCalled cs = true) : identLike cs =
    callOf (Text.lower (String.ofList (scanName 0 cs).value)) (vendorPosOf cs)
      (scanName 0 cs).size ((cs.drop (scanName 0 cs).size).drop 1) := by
  unfold isCalled at h
  unfold identLike
  dsimp only
  rw [if_pos h]
  rfl

/-- **The filter that a name begins**, if it is the name of one, a colon
follows, and a bracket on the same line. -/
def filterOf? (name : String) (size : Nat) (after : List Char) : Option Lexeme :=
  if name == "progid" && after.head? == some ':' then
    (Text.indexOf? ['('] (after.takeWhile (· != '\n'))).map fun n =>
      ⟨.function, .function (Text.lower (name ++ String.ofList (after.take n))) none true,
        size + n + 1⟩
  else none

/-- **A name that is not called** is a filter or a name by itself. -/
theorem identLike_of_name {cs : List Char} (h : isCalled cs = false) : identLike cs =
    (filterOf? (String.ofList (scanName 0 cs).value) (scanName 0 cs).size
      (cs.drop (scanName 0 cs).size)).getD
      (nameOf (String.ofList (scanName 0 cs).value) (vendorPosOf cs) (scanName 0 cs).size) := by
  unfold isCalled at h
  unfold identLike filterOf?
  dsimp only
  rw [h, if_neg Bool.false_ne_true]
  by_cases hfilter : (String.ofList (scanName 0 cs).value == "progid" &&
      (cs.drop (scanName 0 cs).size).head? == some ':') = true
  · rw [if_pos hfilter, if_pos hfilter]
    cases Text.indexOf? ['('] ((cs.drop (scanName 0 cs).size).takeWhile (· != '\n')) <;> rfl
  · rw [if_neg hfilter, if_neg hfilter]
    rfl

/-! ## Numbers -/

/-- The digits of a fraction. -/
def fractionOf (cs : List Char) : List Char :=
  if cs.head? == some '.' && isDigit cs[1]? then (cs.drop 1).takeWhile Char.isDigit else []

/-- The size of a fraction with its point. -/
def fractionSizeOf (fraction : List Char) : Nat :=
  if fraction.isEmpty then 0 else fraction.length + 1

/-- Whether an exponent comes next. -/
def hasExponent (cs : List Char) : Bool :=
  (cs.head? == some 'e' || cs.head? == some 'E') && isDigit cs[1 + signSize cs[1]?]?

/-- The digits of an exponent. -/
def exponentOf (cs : List Char) : List Char :=
  if hasExponent cs then (cs.drop (1 + signSize cs[1]?)).takeWhile Char.isDigit else []

/-- The size of an exponent. -/
def exponentSizeOf (cs : List Char) : Nat :=
  if hasExponent cs then 1 + signSize cs[1]? + (exponentOf cs).length else 0

/-- The value of an exponent. -/
def exponentValueOf (cs : List Char) : Int :=
  if hasExponent cs && cs[1]? == some '-' then -(Text.decimalValue (exponentOf cs) : Int)
  else Text.decimalValue (exponentOf cs)

/-- **The figures of a number**: its value, whether it has a fraction or an
exponent, and its size without the unit. -/
structure Figures where
  /-- The value. -/
  value : Binary64
  /-- Whether there is a fraction or an exponent. -/
  isFloat : Bool
  /-- The size. -/
  size : Nat

/-- The figures that the sign, the digits and what follows them say. -/
def Figures.of (sign : Nat) (minus : Bool) (whole after : List Char) : Figures :=
  let fraction := fractionOf after
  let rest := after.drop (fractionSizeOf fraction)
  { value := Binary64.ofDecimal minus (Text.decimalValue (whole ++ fraction))
      (exponentValueOf rest - fraction.length)
    isFloat := !fraction.isEmpty || hasExponent rest
    size := sign + whole.length + fractionSizeOf fraction + exponentSizeOf rest }

/-- The figures that a text starts with. -/
def figuresOf (cs : List Char) : Figures :=
  let sign := signSize cs.head?
  let whole := (cs.drop sign).takeWhile Char.isDigit
  .of sign (cs.head? == some '-') whole (cs.drop (sign + whole.length))

/-- **Figures with the unit that follows them.** -/
def Figures.withUnit (f : Figures) (after : List Char) : Lexeme :=
  if after.head? == some '%' then ⟨.percentage, .number f.value "%" false, f.size + 1⟩
  else if nameComesNext after then
    let scanned := scanName 0 after
    let unit := Text.lower (String.ofList scanned.value)
    ⟨(Unit.kind? unit).getD .dimension,
      .number f.value unit (unit.isEmpty && (!f.isFloat || f.value.isZero)), f.size + scanned.size⟩
  else ⟨.number, .number f.value "" (!f.isFloat || f.value.isZero), f.size⟩

theorem numeric_eq (cs : List Char) :
    numeric cs = (figuresOf cs).withUnit (cs.drop (figuresOf cs).size) := rfl

/-! ## Marks -/

/-- **Whether a token of a kind is one character and nothing else.** The kinds
of the tilde, the dash and the star are not among them: other tokens are of
these kinds, too, or the token says more. -/
def isMark (kind : TokenKind) : Bool :=
  [.amp, .colon, .comma, .delim, .dot, .equals, .gt, .lBrace, .lBracket, .lParen, .pipe, .plus,
    .rBrace, .rBracket, .rParen, .semicolon].contains kind

variable {cs : List Char}

theorem identLike_isMark (cs : List Char) : isMark (identLike cs).kind = false := by
  cases hcalled : isCalled cs with
  | true =>
    rw [identLike_of_called hcalled]
    unfold callOf
    split <;> rfl
  | false =>
    rw [identLike_of_name hcalled]
    unfold filterOf?
    split_ifs
    · cases Text.indexOf? ['('] _ <;> rfl
    · rfl

theorem numeric_isMark (cs : List Char) : isMark (numeric cs).kind = false := by
  have hunit : ∀ unit, isMark ((Unit.kind? unit).getD .dimension) = false := by
    intro unit
    have hknown : ∀ entry ∈ Unit.known, isMark entry.1 = false := by decide
    unfold Unit.kind?
    cases hfind : Unit.known.find? fun entry => entry.2.contains unit with
    | none => rfl
    | some entry => exact hknown entry (List.mem_of_find?_eq_some hfind)
  rw [numeric_eq]
  unfold Figures.withUnit
  extract_lets scanned unit
  clear_value unit
  split_ifs
  · rfl
  · exact hunit _
  · rfl

theorem dashed_isMark (cs : List Char) : isMark (dashed cs).kind = false := by
  unfold dashed
  split_ifs <;> first | exact identLike_isMark cs | rfl

theorem codeRange?_isMark {lx : Lexeme} (h : codeRange? cs = some lx) :
    isMark lx.kind = false := by
  unfold codeRange? at h
  extract_lets first size after firstOk at h
  split_ifs at h <;>
  · obtain rfl := Option.some.inj h
    dsimp only
    split_ifs <;> rfl

theorem trivia?_isMark {lx : Lexeme} (h : trivia? cs = some lx) : isMark lx.kind = false := by
  cases cs with
  | nil => cases h
  | cons c rest =>
    rw [trivia?_cons] at h
    split_ifs at h <;> obtain rfl := Option.some.inj h
    · rfl
    · unfold commentOf
      split <;> rfl

theorem quoted_isMark (quote : Char) (rest : List Char) :
    isMark (quoted quote rest).kind = false := by
  unfold quoted
  dsimp only
  split_ifs <;> rfl

/-- Punctuation is no mark, or the character by itself. -/
theorem punctuation_cases (c : Char) (rest : List Char) :
    isMark (punctuation c rest).kind = false ∨
      punctuation c rest = ⟨(TokenKind.ofChar? c).getD .char, .none, 1⟩ := by
  unfold punctuation
  extract_lets next
  split_ifs <;> first
    | exact Or.inl (quoted_isMark c rest)
    | exact Or.inl rfl
    | exact Or.inr rfl

/-- A mark is the character of its kind. -/
theorem punctuation_of_isMark {c : Char} {rest : List Char}
    (h : isMark (punctuation c rest).kind = true) :
    TokenKind.ofChar? c = some (punctuation c rest).kind ∧
      punctuation c rest = ⟨(punctuation c rest).kind, .none, 1⟩ := by
  rcases punctuation_cases c rest with hmark | hmark
  · rw [hmark] at h
    cases h
  · rw [hmark] at h ⊢
    cases hkind : TokenKind.ofChar? c with
    | none =>
      rw [hkind] at h
      cases h
    | some kind => exact ⟨rfl, rfl⟩

/-- **A text that starts with a mark** starts with the character of its
kind. -/
theorem first_of_isMark (h : isMark (first cs).kind = true) :
    ∃ c rest, cs = c :: rest ∧ TokenKind.ofChar? c = some (first cs).kind ∧
      first cs = ⟨(first cs).kind, .none, 1⟩ := by
  unfold first at h ⊢
  cases htrivia : trivia? cs with
  | some lx =>
    rw [htrivia, Option.getD_some, trivia?_isMark htrivia] at h
    cases h
  | none =>
    rw [htrivia, Option.getD_none] at h
    rw [Option.getD_none]
    cases cs with
    | nil => cases h
    | cons c rest =>
      refine ⟨c, rest, rfl, ?_⟩
      unfold significant at h ⊢
      dsimp only at h ⊢
      split_ifs at h ⊢
      · exact Bool.noConfusion (h.symm.trans (numeric_isMark _))
      · exact Bool.noConfusion (h.symm.trans (dashed_isMark _))
      · cases hcode : codeRange? (c :: rest) with
        | none =>
          rw [hcode] at h
          cases h
        | some lx =>
          rw [hcode] at h
          exact Bool.noConfusion (h.symm.trans (codeRange?_isMark hcode))
      · exact Bool.noConfusion (h.symm.trans (identLike_isMark _))
      · exact punctuation_of_isMark h

end Lexeme

/-! ## The first token takes a character

This is what keeps the cutting of tokens moving, and it hangs on the dispatch: a
name is only read where one starts, a number only where there are digits. Each
scanner is shown to take something under the condition the dispatch calls it
with, and `first_size_pos` puts them together. -/

namespace Lexeme

variable {cs : List Char}

/-! ### Runs -/

/-- A run that a text starts with is not empty. -/
theorem runSize_pos {p : Char → Bool} {c : Char} (h : p c = true) (cs : List Char) :
    0 < runSize p (c :: cs) := by
  unfold runSize
  rw [List.takeWhile_cons_of_pos h]
  exact Nat.succ_pos _

/-! ### Scanners -/

/-- **How a text is scanned** up to a character that ends it. -/
structure Scanner where
  /-- The characters that end it. -/
  ends : Char → Bool
  /-- What a backslash at the end of the text says, unless it ends it. -/
  last? : Option (List Char)
  /-- A newline that is escaped belongs to it. -/
  joins : Bool

namespace Scanner

/-- Names. -/
def name : Scanner := ⟨fun c => c != '\\' && !isNameChar c, some [replacement], false⟩

/-- The inside of strings. -/
def string (quote : Char) : Scanner := ⟨fun c => c = '\n' || c = quote, some [], true⟩

/-- Addresses without quotes. -/
def address : Scanner := ⟨fun c => c != '\\' && !isAddressChar c, none, false⟩

/-- What a newline that is escaped says. -/
def newline? (sc : Scanner) : Option (List Char × Nat) := if sc.joins then some ([], 1) else none

/-- **What a character says**, given those after it, and how many of these
belong to it; unless it ends what is scanned. -/
def says? (sc : Scanner) (c : Char) (cs : List Char) : Option (List Char × Nat) :=
  if sc.ends c then none
  else if c = '\\' then
    match cs with
    | [] => sc.last?.map (·, 0)
    | next :: _ =>
      if next = '\n' then sc.newline?
      else some ([(readEscape cs).1], (readEscape cs).2)
  else some ([c], 0)

/-- **Scanning a text** after `pass` characters that belong to an earlier one. -/
def scan (sc : Scanner) (pass : Nat) : List Char → Scanned
  | [] => .empty
  | c :: cs =>
    match pass with
    | pass + 1 => (sc.scan pass cs).skip
    | 0 =>
      match sc.says? c cs with
      | none => .empty
      | some (said, pass) => ⟨said ++ (sc.scan pass cs).value, (sc.scan pass cs).size + 1⟩

variable {sc : Scanner} {c : Char} {cs x a said : List Char} {n pass : Nat}

theorem scan_of_none (h : sc.says? c cs = none) : sc.scan 0 (c :: cs) = .empty := by
  rw [scan, h]

theorem scan_of_some (h : sc.says? c cs = some (said, n)) :
    sc.scan 0 (c :: cs) = ⟨said ++ (sc.scan n cs).value, (sc.scan n cs).size + 1⟩ := by
  rw [scan, h]

/-- **What scans one character as a scanner does** is the scanner. -/
theorem eq_scan {f : Nat → List Char → Scanned} (hnil : ∀ pass, f pass [] = .empty)
    (hpass : ∀ pass c cs, f (pass + 1) (c :: cs) = (f pass cs).skip)
    (hstep : ∀ c cs, f 0 (c :: cs) = match sc.says? c cs with
      | none => .empty
      | some (said, pass) => ⟨said ++ (f pass cs).value, (f pass cs).size + 1⟩) :
    f = sc.scan := by
  funext pass cs
  induction cs generalizing pass with
  | nil => exact hnil pass
  | cons c cs ih =>
    cases pass with
    | succ pass => rw [hpass, ih, scan]
    | zero =>
      rw [hstep, scan]
      simp only [ih]

/-- What is passed over is scanned. -/
theorem pass_le (sc : Scanner) (pass : Nat) (cs : List Char) :
    min pass cs.length ≤ (sc.scan pass cs).size := by
  induction cs generalizing pass with
  | nil => simp
  | cons c cs ih =>
    cases pass with
    | zero => simp
    | succ pass =>
      rw [scan, List.length_cons, Nat.succ_min_succ]
      exact Nat.succ_le_succ (ih pass)

theorem size_le (sc : Scanner) (pass : Nat) (cs : List Char) :
    (sc.scan pass cs).size ≤ cs.length := by
  induction cs generalizing pass with
  | nil => exact Nat.le_refl 0
  | cons c cs ih =>
    cases pass with
    | succ pass => exact Nat.succ_le_succ (ih pass)
    | zero =>
      rcases hsays : sc.says? c cs with _ | ⟨said, n⟩
      · rw [scan_of_none hsays]
        exact Nat.zero_le _
      · rw [scan_of_some hsays]
        exact Nat.succ_le_succ (ih n)

/-- What has no size is empty. -/
theorem scan_eq_empty (h : (sc.scan pass cs).size = 0) : sc.scan pass cs = .empty := by
  cases cs with
  | nil => rfl
  | cons c cs =>
    cases pass with
    | succ pass => cases h
    | zero =>
      rcases hsays : sc.says? c cs with _ | ⟨said, n⟩
      · exact scan_of_none hsays
      · rw [scan_of_some hsays] at h
        cases h

end Scanner

open Scanner (eq_scan)

theorem scanName_eq : scanName = Scanner.name.scan := by
  refine eq_scan (fun _ => rfl) (fun _ _ _ => rfl) fun c cs => ?_
  rw [scanName.eq_def]
  unfold Scanner.says? Scanner.newline? Scanner.name
  by_cases hc : c = '\\'
  · subst hc
    cases cs with
    | nil => rfl
    | cons next cs => by_cases hnext : next = '\n' <;> simp [hnext, Scanned.push]
  · by_cases hname : isNameChar c = true <;> simp [hc, hname, Scanned.push]

theorem scanString_eq (quote : Char) : scanString quote = (Scanner.string quote).scan := by
  refine eq_scan (fun _ => rfl) (fun _ _ _ => rfl) fun c cs => ?_
  rw [scanString.eq_def]
  unfold Scanner.says? Scanner.newline? Scanner.string
  by_cases hend : (decide (c = '\n') || decide (c = quote)) = true
  · simp only [if_pos hend]
  · simp only [if_neg hend]
    by_cases hc : c = '\\'
    · simp only [if_pos hc]
      cases cs with
      | nil => rfl
      | cons next cs => by_cases hnext : next = '\n' <;> simp [hnext, Scanned.push, Scanned.skip]
    · simp [hc, Scanned.push]

theorem scanAddress_eq : scanAddress = Scanner.address.scan := by
  refine eq_scan (fun _ => rfl) (fun _ _ _ => rfl) fun c cs => ?_
  rw [scanAddress.eq_def]
  unfold Scanner.says? Scanner.newline? Scanner.address
  by_cases hc : c = '\\'
  · subst hc
    cases cs with
    | nil => rfl
    | cons next cs => by_cases hnext : next = '\n' <;> simp [hnext, Scanned.push]
  · by_cases hname : isAddressChar c = true <;> simp [hc, hname, Scanned.push]

/-! ### Names -/

/-- A name that starts with a plain character takes it. -/
theorem scanName_size_pos_of_isNameChar {c : Char} (h : isNameChar c = true) (cs : List Char) :
    0 < (scanName 0 (c :: cs)).size := by
  have hc : c ≠ '\\' := by
    rintro rfl
    exact absurd h (by decide)
  rw [scanName.eq_def]
  dsimp only
  rw [if_neg hc, if_pos h]
  exact Nat.succ_pos _

/-- A name that starts with an escape takes it. A backslash before a
newline is the only one that starts no name. -/
theorem scanName_size_pos_of_escape (h : cs.head? ≠ some '\n') :
    0 < (scanName 0 ('\\' :: cs)).size := by
  rw [scanName.eq_def]
  dsimp only
  rw [if_pos rfl]
  cases cs with
  | nil => exact Nat.one_pos
  | cons next cs =>
    dsimp only
    rw [if_neg (fun hn => h (congrArg some hn))]
    exact Nat.succ_pos _

/-- What starts a name without a dash is a character of names or an
escape. -/
theorem scanName_size_pos_of_startsPlainName (h : startsPlainName cs[0]? cs[1]? = true) :
    0 < (scanName 0 cs).size := by
  cases cs with
  | nil => simp [startsPlainName] at h
  | cons c cs =>
    by_cases hc : c = '\\'
    · subst hc
      refine scanName_size_pos_of_escape (fun hn => ?_)
      have hn' : cs[0]? = some '\n' := by rw [← hn, List.head?_eq_getElem?]
      simp only [startsPlainName, List.getElem?_cons_zero, List.getElem?_cons_succ, hn'] at h
      exact absurd h (by decide)
    · refine scanName_size_pos_of_isNameChar ?_ cs
      simp only [startsPlainName, List.getElem?_cons_zero] at h
      rw [isNameChar]
      rcases Bool.or_eq_true_iff.mp h with h | h
      · rcases Bool.or_eq_true_iff.mp h with h | h
        · simp [Char.isAlphanum, h]
        · simp [h]
      · simp [h]

/-- **Where a name comes next, a name is read.** -/
theorem scanName_size_pos (h : nameComesNext cs = true) : 0 < (scanName 0 cs).size := by
  unfold nameComesNext startsName at h
  split_ifs at h with hdash
  · cases cs with
    | nil => simp at hdash
    | cons c cs =>
      have hc : c = '-' := by simpa using hdash
      subst hc
      exact scanName_size_pos_of_isNameChar (by decide) cs
  · exact scanName_size_pos_of_startsPlainName h

/-! ### Tokens by their first characters -/

/-- A name or function takes at least its name. -/
theorem identLike_size_pos (h : 0 < (scanName 0 cs).size) : 0 < (identLike cs).size := by
  unfold identLike
  extract_lets scanned after name vendorPos small uri? plain
  have hplain : 0 < plain.size := h
  split
  · clear_value uri?
    cases uri? with
    | some uri =>
      show 0 < scanned.size + 1 + uri.size
      omega
    | none =>
      show 0 < scanned.size + 1
      omega
  · split
    · split
      · show 0 < scanned.size + _ + 1
        omega
      · exact hplain
    · exact hplain

/-- **What a number starts with**: a digit, a sign, or a point before a
digit. -/
theorem numberComesNext_cases (h : numberComesNext cs = true) :
    ∃ c rest, cs = c :: rest ∧ (c.isDigit = true ∨ (c = '-' ∨ c = '+') ∨
      (c = '.' ∧ ∃ d rest', rest = d :: rest' ∧ d.isDigit = true)) := by
  cases cs with
  | nil => simp [numberComesNext] at h
  | cons c rest =>
    refine ⟨c, rest, rfl, ?_⟩
    unfold numberComesNext at h
    rcases Bool.or_eq_true_iff.mp h with h | h
    · exact Or.inl h
    · obtain ⟨hc, hrest⟩ := Bool.and_eq_true_iff.mp h
      by_cases hpoint : c = '.'
      · subst hpoint
        cases rest with
        | nil => simp [isDigit] at hrest
        | cons d rest => exact Or.inr (Or.inr ⟨rfl, d, rest, rfl, by simpa [isDigit] using hrest⟩)
      · exact Or.inr (Or.inl (by simpa [hpoint] using hc))

/-- The sign, the digits and the fraction of a number that comes next
are not all missing. -/
theorem numeric_size_pos (h : numberComesNext cs = true) : 0 < (numeric cs).size := by
  unfold numeric
  extract_lets sign whole afterWhole fraction fractionSize afterFraction exponentSign hasExponent
    exponentDigits exponentSize exponentValue value size after isFloat scanned unit
  have hsize : 0 < size := by
    obtain ⟨c, rest, rfl, hdigit | hsign | ⟨rfl, d, rest, rfl, hd⟩⟩ := numberComesNext_cases h
    · -- the digits before the point
      have hsign : sign = 0 := by
        show signSize (some c) = 0
        unfold signSize
        rw [if_neg]
        rintro h
        rcases Bool.or_eq_true_iff.mp h with h | h <;>
          · obtain rfl : c = _ := by simpa using h
            exact absurd hdigit (by decide)
      have hwhole : 0 < whole.length := by
        show 0 < (((c :: rest).drop sign).takeWhile Char.isDigit).length
        rw [hsign, List.drop_zero, List.takeWhile_cons_of_pos hdigit]
        exact Nat.succ_pos _
      show 0 < sign + whole.length + fractionSize + exponentSize
      omega
    · -- the sign
      have hone : sign = 1 := by
        rcases hsign with rfl | rfl <;> rfl
      show 0 < sign + whole.length + fractionSize + exponentSize
      omega
    · -- the fraction alone
      have hfraction : fraction = (d :: rest).takeWhile Char.isDigit := by
        show (if _ then _ else _) = _
        rw [if_pos]
        · rfl
        · show isDigit (some d) = true
          exact hd
      have hpos : 0 < fractionSize := by
        show 0 < if fraction.isEmpty then 0 else fraction.length + 1
        rw [hfraction, List.takeWhile_cons_of_pos hd]
        exact Nat.succ_pos _
      show 0 < sign + whole.length + fractionSize + exponentSize
      omega
  split
  · show 0 < size + 1
    omega
  · split
    · show 0 < size + scanned.size
      omega
    · exact hsize

/-- Blanks and comments take at least the character they start with. -/
theorem trivia?_size_pos {lx : Lexeme} (h : trivia? cs = some lx) : 0 < lx.size := by
  cases cs with
  | nil => simp [trivia?] at h
  | cons c rest =>
    unfold trivia? at h
    dsimp only at h
    split_ifs at h with hspace hcomment
    · obtain rfl := Option.some.inj h
      exact runSize_pos hspace rest
    · split at h <;>
      · obtain rfl := Option.some.inj h
        show 0 < 2 + _
        omega

/-- A range of code points takes at least the two characters before its
digits. -/
theorem codeRange?_size_pos {lx : Lexeme} (h : codeRange? cs = some lx) : 0 < lx.size := by
  unfold codeRange? at h
  extract_lets first size after firstOk at h
  have hsize : 0 < size := by
    show 0 < 2 + first.length
    omega
  split_ifs at h <;>
  · obtain rfl := Option.some.inj h
    dsimp only
    omega

/-- A token that starts with a dash takes it. -/
theorem dashed_size_pos (rest : List Char) : 0 < (dashed ('-' :: rest)).size := by
  have hname : 0 < (identLike ('-' :: rest)).size :=
    identLike_size_pos (scanName_size_pos_of_isNameChar (by decide) rest)
  unfold dashed
  split_ifs
  · exact hname
  · exact Nat.succ_pos _
  · exact Nat.one_pos
  · exact hname
  · exact Nat.one_pos

/-- A string takes at least its opening quote. -/
theorem quoted_size_pos (quote : Char) (rest : List Char) : 0 < (quoted quote rest).size := by
  unfold quoted
  dsimp only
  split_ifs <;> exact Nat.succ_pos _

/-- A token that is neither a name nor a number takes its first
character. -/
theorem punctuation_size_pos (c : Char) (rest : List Char) : 0 < (punctuation c rest).size := by
  unfold punctuation
  extract_lets next
  have hquoted := quoted_size_pos c rest
  split_ifs <;> first | exact hquoted | (dsimp only; omega)

/-- **The first significant token takes a character.** -/
theorem significant_size_pos (h : cs ≠ []) : 0 < (significant cs).size := by
  cases cs with
  | nil => exact absurd rfl h
  | cons c rest =>
    unfold significant
    dsimp only
    split_ifs with hnumber hdash hrange hname
    · exact numeric_size_pos hnumber
    · subst hdash
      exact dashed_size_pos rest
    · cases hcode : codeRange? (c :: rest) with
      | none => exact Nat.one_pos
      | some lx => exact codeRange?_size_pos hcode
    · exact identLike_size_pos (scanName_size_pos hname)
    · exact punctuation_size_pos c rest

end Lexeme

/-- **The first token of a text takes a character**, in every mode. -/
theorem Mode.firstOf_size_pos (mode : Mode) {cs : List Char} (h : cs ≠ []) :
    0 < (mode.firstOf cs).size := by
  unfold Mode.firstOf
  cases htrivia : Lexeme.trivia? cs with
  | none => exact Lexeme.significant_size_pos h
  | some lx =>
    have hpos : 0 < lx.size := Lexeme.trivia?_size_pos htrivia
    show 0 < ((mode.keeps lx).getD lx).size
    unfold Mode.keeps
    split <;> split_ifs <;> exact hpos

end Stylesheet
