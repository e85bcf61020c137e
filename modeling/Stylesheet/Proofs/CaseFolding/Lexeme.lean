import Stylesheet.Proofs.CaseFolding.Text
import Stylesheet.Proofs.TokenCut

/-!
# Tokens of texts with their capitals made small

The first token of a small text is the first token of the text, of the same
kind and size and at the same place. What it says may differ in the case of
ASCII letters, though an escape can keep a capital of its own even then; so
both are compared with their texts made small (`Lexeme.significant_toLower`).

The one name that is looked at as it is written is `progid`, which begins a
filter where a colon follows. Tokens that were read from that name, in any
letter case, are left out (`Payload.mayFilter`).
-/

namespace Stylesheet

open Text (IgnoresCase IsMark asciiLower)

/-! ## Small tokens -/

/-- **What a token of a kind says**, with the texts taken from the source
made small. The names of functions are small already. -/
def Payload.small : TokenKind → Payload → Payload
  | .ident, .ident name vendorPos custom => .ident (asciiLower name) vendorPos custom
  | .uri, .uri address name => .uri (asciiLower address) name
  | .hash, .hash name => .hash (asciiLower name)
  | .string, .string value => .string (asciiLower value)
  | .uvar, .uvar name => .uvar (asciiLower name)
  | _, payload => payload

/-- What is small already stays as it is. -/
theorem Payload.small_small (kind : TokenKind) (p : Payload) :
    (p.small kind).small kind = p.small kind := by
  fun_cases Payload.small kind p
  case case6 h₁ h₂ h₃ h₄ h₅ => exact Payload.small.eq_6 kind p h₁ h₂ h₃ h₄ h₅
  all_goals simp only [Payload.small, Text.asciiLower_asciiLower]

/-- **Whether a token was read from the name that begins a filter**, in any
letter case. -/
def Payload.mayFilter : Payload → Bool
  | .ident name _ _ => Text.eqIgnoreCase "progid" name
  | .function _ _ filter => filter
  | _ => false

/-- **Whether a function says its name**, and an address that of its
function. -/
def Payload.saysCall : TokenKind → Payload → Bool
  | .function, .function _ _ _ => true
  | .uri, .uri _ _ => true
  | kind, _ => kind != .function && kind != .uri

namespace Lexeme

/-- A lexeme that says what it says in small letters. -/
def small (lx : Lexeme) : Lexeme := { lx with payload := lx.payload.small lx.kind }

/-- What a scanner found, in small letters. -/
def Scanned.small (s : Scanned) : Scanned := { s with value := s.value.map Char.toLower }

/-! ## Single characters -/

/-- A mark in a place of the text is in that place of the small text. -/
theorem beq_some_mark {x : Char} (hx : IsMark x) (c : Option Char) :
    (c.map Char.toLower == some x) = (c == some x) := by
  cases c with
  | none => rfl
  | some c => exact Text.beq_mark_toLower hx c

theorem any_toLower {p : Char → Bool} (hp : IgnoresCase p) (c : Option Char) :
    (c.map Char.toLower).any p = c.any p := by
  cases c with
  | none => rfl
  | some c => exact hp c

theorem isNameChar_ignoresCase : IgnoresCase isNameChar :=
  Text.ignoresCase_of_capitals (by decide)

theorem isDigit_toLower (c : Option Char) : isDigit (c.map Char.toLower) = isDigit c :=
  any_toLower Text.isDigit_ignoresCase c

theorem continuesName_toLower (c previous : Option Char) :
    continuesName (c.map Char.toLower) (previous.map Char.toLower) = continuesName c previous := by
  cases c with
  | none => rfl
  | some c =>
    have hescape := Text.beq_mark_toLower (x := '\\') (by decide) c
    have hnewline := Text.beq_mark_toLower (x := '\n') (by decide) c
    show (isNameChar c.toLower || c.toLower == '\\' ||
        (previous.map Char.toLower == some '\\' && c.toLower != '\n')) =
      (isNameChar c || c == '\\' || (previous == some '\\' && c != '\n'))
    rw [isNameChar_ignoresCase, hescape, beq_some_mark (by decide), bne, hnewline]
    rfl

theorem startsPlainName_toLower (a b : Option Char) :
    startsPlainName (a.map Char.toLower) (b.map Char.toLower) = startsPlainName a b := by
  have hstart : IgnoresCase fun c : Char => c.isAlpha || c == '_' || decide (0xA0 ≤ c.toNat) :=
    Text.ignoresCase_of_capitals (by decide)
  have hne : ∀ (c : Char) (b : Option Char), c ≠ '\\' →
      startsPlainName (some c) b = (c.isAlpha || c == '_' || decide (0xA0 ≤ c.toNat)) := by
    intro c b hc
    unfold startsPlainName
    split
    · next heq => cases heq
    · next heq => exact absurd (Option.some.inj heq) hc
    · next heq =>
      obtain rfl := Option.some.inj heq
      rfl
  cases a with
  | none => rfl
  | some c =>
    by_cases hc : c = '\\'
    · subst hc
      exact continuesName_toLower b (some '\\')
    · have hc' : c.toLower ≠ '\\' := fun h => hc ((Text.toLower_eq_mark (by decide) c).mp h)
      rw [Option.map_some, hne _ _ hc, hne _ _ hc']
      exact hstart c

theorem startsName_toLower (a b c : Option Char) :
    startsName (a.map Char.toLower) (b.map Char.toLower) (c.map Char.toLower) =
      startsName a b c := by
  unfold startsName bne
  rw [beq_some_mark (by decide), beq_some_mark (by decide), startsPlainName_toLower,
    startsPlainName_toLower]

theorem nameComesNext_toLower (cs : List Char) :
    nameComesNext (cs.map Char.toLower) = nameComesNext cs := by
  unfold nameComesNext
  rw [List.getElem?_map, List.getElem?_map, List.getElem?_map]
  exact startsName_toLower _ _ _

/-! ## Escapes, names and strings -/

theorem takeWhile_hexDigits (cs : List Char) :
    ((cs.map Char.toLower).take 6).takeWhile Text.isHexDigit =
      ((cs.take 6).takeWhile Text.isHexDigit).map Char.toLower := by
  rw [← List.map_take, Text.takeWhile_toLower Text.isHexDigit_ignoresCase]

/-- **An escape** says the same character, up to its case, in either letter
case of its digits. -/
theorem readEscape_toLower (cs : List Char) :
    (readEscape (cs.map Char.toLower)).1.toLower = (readEscape cs).1.toLower ∧
      (readEscape (cs.map Char.toLower)).2 = (readEscape cs).2 := by
  have hvalue : Text.hexValue (((cs.take 6).takeWhile Text.isHexDigit).map Char.toLower) =
      Text.hexValue ((cs.take 6).takeWhile Text.isHexDigit) :=
    Text.hexValue_toLower fun c hc => List.mem_takeWhile_imp hc
  unfold readEscape
  rw [takeWhile_hexDigits]
  generalize (cs.take 6).takeWhile Text.isHexDigit = digits at hvalue
  cases digits with
  | nil =>
    cases cs with
    | nil => exact ⟨rfl, rfl⟩
    | cons c cs => exact ⟨Text.toLower_ignoresCase c, rfl⟩
  | cons d digits =>
    rw [List.map_cons] at hvalue ⊢
    have hblank : IgnoresCase fun c => c == ' ' || c == '\t' :=
      Text.ignoresCase_of_capitals (by decide)
    dsimp only
    rw [hvalue, List.getElem?_map, any_toLower hblank, List.length_cons, List.length_cons,
      List.length_map]
    exact ⟨rfl, rfl⟩

theorem Scanned.small_skip {s s' : Scanned} (h : s.small = s'.small) :
    s.skip.small = s'.skip.small := by
  obtain ⟨hvalue, hsize⟩ := Scanned.mk.inj h
  unfold skip small
  rw [hvalue, hsize]

/-- **What a character says to a scanner** is the same, up to its case. -/
theorem Scanner.says?_toLower {sc : Scanner} (hends : IgnoresCase sc.ends) (c : Char)
    (cs : List Char) :
    (sc.says? c.toLower (cs.map Char.toLower)).map (Prod.map (List.map Char.toLower) id) =
      (sc.says? c cs).map (Prod.map (List.map Char.toLower) id) := by
  unfold says?
  simp only [hends c, Text.toLower_eq_mark (x := '\\') (by decide) c]
  split_ifs
  · rfl
  · cases cs with
    | nil => rfl
    | cons d ds =>
      obtain ⟨hchar, hsize⟩ := readEscape_toLower (d :: ds)
      rw [List.map_cons] at hchar hsize ⊢
      simp only [Text.toLower_eq_mark (x := '\n') (by decide) d]
      split_ifs
      · rfl
      · simp [hchar, hsize]
  · simp [Text.toLower_ignoresCase c]

/-- **What is scanned** is the same, up to its case, in either letter case. -/
theorem Scanner.scan_toLower {sc : Scanner} (hends : IgnoresCase sc.ends) (pass : Nat)
    (cs : List Char) :
    (sc.scan pass (cs.map Char.toLower)).small = (sc.scan pass cs).small := by
  induction cs generalizing pass with
  | nil => rfl
  | cons c cs ih =>
    rw [List.map_cons]
    cases pass with
    | succ pass => exact Scanned.small_skip (ih pass)
    | zero =>
      have hsame := says?_toLower hends c cs
      rcases hrun : sc.says? c cs with _ | ⟨said, n⟩ <;> rw [hrun] at hsame
      · rw [scan_of_none hrun, scan_of_none (Option.map_eq_none_iff.mp hsame)]
      · obtain ⟨⟨said', n'⟩, hrun', heq⟩ := Option.map_eq_some_iff.mp hsame
        obtain ⟨hsaid, rfl⟩ := Prod.mk.inj heq
        obtain ⟨hvalue, hsize⟩ := Scanned.mk.inj (ih n')
        rw [scan_of_some hrun, scan_of_some hrun']
        unfold Scanned.small
        rw [List.map_append, List.map_append, hvalue, hsize]
        exact congrArg (Scanned.mk · _) (congrArg (· ++ _) hsaid)

theorem scanName_toLower (pass : Nat) (cs : List Char) :
    (scanName pass (cs.map Char.toLower)).small = (scanName pass cs).small := by
  rw [scanName_eq]
  exact Scanner.scan_toLower (Text.ignoresCase_of_capitals (by decide)) pass cs

theorem scanString_toLower {quote : Char} (hquote : IsMark quote) (pass : Nat) (cs : List Char) :
    (scanString quote pass (cs.map Char.toLower)).small = (scanString quote pass cs).small := by
  rw [scanString_eq]
  refine Scanner.scan_toLower (fun c => ?_) pass cs
  simp only [Scanner.string, Text.toLower_eq_mark hquote c,
    Text.toLower_eq_mark (x := '\n') (by decide) c]

theorem scanAddress_toLower (pass : Nat) (cs : List Char) :
    (scanAddress pass (cs.map Char.toLower)).small = (scanAddress pass cs).small := by
  rw [scanAddress_eq]
  exact Scanner.scan_toLower (Text.ignoresCase_of_capitals (by decide)) pass cs

theorem runSize_toLower {p : Char → Bool} (hp : IgnoresCase p) (cs : List Char) :
    runSize p (cs.map Char.toLower) = runSize p cs := by
  unfold runSize
  rw [Text.takeWhile_toLower hp, List.length_map]

/-! ## Blanks and comments -/

theorem commentTail_toLower (cs : List Char) :
    commentTail (cs.map Char.toLower) = commentTail cs := by
  induction cs with
  | nil => rfl
  | cons c cs ih =>
    rw [List.map_cons, commentTail, commentTail, ih, List.head?_map, beq_some_mark (by decide)]
    simp only [Text.toLower_eq_mark (x := '*') (by decide)]

theorem placeholderName?_toLower (cs : List Char) :
    placeholderName? (cs.map Char.toLower) = (placeholderName? cs).map asciiLower := by
  have hname : IgnoresCase fun c => Text.isAlphanumeric c || c == '-' || c == '_' :=
    Text.ignoresCase_of_capitals (by decide)
  unfold placeholderName?
  rw [Text.isPrefixOf?_toLower (by decide)]
  cases "/*[[".toList.isPrefixOf? cs with
  | none => rfl
  | some inner =>
    show (do
      let name ← "]]*/".toList.isSuffixOf? (inner.map Char.toLower)
      _) = Option.map asciiLower (do
      let name ← "]]*/".toList.isSuffixOf? inner
      _)
    rw [Text.isSuffixOf?_toLower (by decide)]
    cases "]]*/".toList.isSuffixOf? inner with
    | none => rfl
    | some name =>
      show (if (!(name.map Char.toLower).isEmpty && (name.map Char.toLower).all _) = true then
          some (String.ofList (name.map Char.toLower)) else none) =
        Option.map asciiLower (if (!name.isEmpty && name.all _) = true then
          some (String.ofList name) else none)
      rw [Text.all_toLower hname, List.isEmpty_map, ← Text.asciiLower_ofList]
      split_ifs <;> rfl

/-- **Blanks and comments** are where they are in the text. -/
theorem trivia?_toLower (cs : List Char) :
    trivia? (cs.map Char.toLower) = (trivia? cs).map small := by
  cases cs with
  | nil => rfl
  | cons c rest =>
    have hspace := runSize_toLower Text.isSpace_ignoresCase (c :: rest)
    have htail := commentTail_toLower ((c :: rest).drop 2)
    rw [List.map_cons] at hspace ⊢
    rw [List.map_drop, List.map_cons] at htail
    unfold trivia?
    dsimp only
    rw [Text.isSpace_ignoresCase, hspace, htail, List.head?_map, beq_some_mark (by decide),
      ← List.map_cons, ← List.map_take, placeholderName?_toLower]
    simp only [Text.toLower_eq_mark (x := '/') (by decide)]
    split_ifs
    · rfl
    · cases placeholderName? ((c :: rest).take (2 + commentTail ((c :: rest).drop 2))) <;> rfl
    · rfl

/-! ## Names, functions and addresses -/

/-- Texts that are the same in small letters. -/
theorem lower_eq_of_small {cs ds : List Char} (h : cs.map Char.toLower = ds.map Char.toLower) :
    Text.lower (String.ofList cs) = Text.lower (String.ofList ds) := by
  rw [← Text.lower_asciiLower, Text.asciiLower_ofList, h, ← Text.asciiLower_ofList,
    Text.lower_asciiLower]

theorem vendorEnd_toLower (name : List Char) :
    vendorEnd (name.map Char.toLower) = vendorEnd name := by
  unfold vendorEnd
  rw [← List.map_drop, Text.indexOf?_toLower (by decide)]
  cases Text.indexOf? ['-'] (name.drop 2) with
  | none => rfl
  | some n =>
    dsimp only
    rw [← List.map_take, Text.byteLength_toLower]

theorem addressOf?_toLower (body : List Char) :
    (addressOf? (body.map Char.toLower)).map Scanned.small =
      (addressOf? body).map Scanned.small := by
  cases body with
  | nil => rfl
  | cons c inner =>
    have hquote : (decide (c.toLower = '"') || decide (c.toLower = '\'')) =
        (decide (c = '"') || decide (c = '\'')) := by
      simp only [Text.toLower_eq_mark (x := '"') (by decide),
        Text.toLower_eq_mark (x := '\'') (by decide)]
    rw [List.map_cons]
    unfold addressOf?
    dsimp only
    rw [hquote, ← List.map_cons]
    by_cases hc : (decide (c = '"') || decide (c = '\'')) = true
    · have hmark : IsMark c := by
        rcases (Bool.or_eq_true _ _).mp hc with hc | hc <;>
          · rw [of_decide_eq_true hc]
            decide
      obtain ⟨hvalue, hsize⟩ := Scanned.mk.inj (scanString_toLower hmark 0 inner)
      rw [if_pos hc, if_pos hc, Text.toLower_mark hmark, hsize, List.getElem?_map,
        beq_some_mark hmark]
      split_ifs
      · unfold Scanned.small
        rw [Option.map_some, Option.map_some, hvalue]
      · rfl
    · have hscan := scanAddress_toLower 0 (c :: inner)
      have hempty := congrArg List.isEmpty (Scanned.mk.inj hscan).1
      rw [List.isEmpty_map, List.isEmpty_map] at hempty
      rw [if_neg hc, if_neg hc, hempty]
      split_ifs
      · rfl
      · rw [Option.map_some, Option.map_some, hscan]

theorem closed?_toLower (lead : Nat) (body : List Char) {s s' : Scanned} (h : s.small = s'.small) :
    (closed? lead (body.map Char.toLower) s).map Scanned.small =
      (closed? lead body s').map Scanned.small := by
  obtain ⟨hvalue, hsize⟩ := Scanned.mk.inj h
  unfold closed?
  dsimp only
  rw [hsize, ← List.map_drop, runSize_toLower Text.isSpace_ignoresCase, List.getElem?_map,
    beq_some_mark (by decide)]
  split_ifs
  · unfold Scanned.small
    rw [Option.map_some, Option.map_some, hvalue]
  · rfl

/-- **The address between the brackets** is the same in small letters. -/
theorem scanUri?_toLower (cs : List Char) :
    (scanUri? (cs.map Char.toLower)).map Scanned.small = (scanUri? cs).map Scanned.small := by
  rw [scanUri?_eq, scanUri?_eq, runSize_toLower Text.isSpace_ignoresCase, ← List.map_drop]
  generalize cs.drop (runSize Text.isSpace cs) = body
  have hvalue := addressOf?_toLower body
  generalize addressOf? (body.map Char.toLower) = found, addressOf? body = found' at hvalue ⊢
  rcases found with _ | s <;> rcases found' with _ | s'
  · rfl
  · cases hvalue
  · cases hvalue
  · exact closed?_toLower _ body (Option.some.inj hvalue)

/-- A name that is not the one that begins a filter. -/
theorem identLike_of_not_called {cs : List Char} (h : isCalled cs = false)
    (hname : Text.eqIgnoreCase "progid" (String.ofList (scanName 0 cs).value) = false) :
    identLike cs =
      nameOf (String.ofList (scanName 0 cs).value) (vendorPosOf cs) (scanName 0 cs).size := by
  have hplain : (String.ofList (scanName 0 cs).value == "progid") = false := by
    refine Bool.eq_false_iff.mpr fun heq => ?_
    rw [beq_iff_eq.mp heq] at hname
    exact absurd hname (by decide)
  unfold isCalled at h
  unfold identLike
  dsimp only
  rw [h, hplain]
  rfl

/-- The name that begins a filter may begin one. -/
theorem eqIgnoreCase_of_mayFilter {cs : List Char} (h : isCalled cs = false)
    (hfilter : (identLike cs).payload.mayFilter = false) :
    Text.eqIgnoreCase "progid" (String.ofList (scanName 0 cs).value) = false := by
  unfold isCalled at h
  unfold identLike at hfilter
  dsimp only at hfilter
  rw [h, if_neg (by decide)] at hfilter
  split at hfilter
  · split at hfilter
    · cases hfilter
    · exact hfilter
  · exact hfilter

/-- A name says the same in small letters. -/
theorem nameOf_small {name name' : String} (h : asciiLower name = asciiLower name')
    (vendorPos size : Nat) :
    (nameOf name vendorPos size).small = (nameOf name' vendorPos size).small := by
  have hcustom : ∀ name : String,
      Text.startsWith (asciiLower name) "--" = Text.startsWith name "--" := by
    intro name
    unfold Text.startsWith
    rw [Text.toList_asciiLower, Text.isPrefixOf_toLower (by decide)]
  unfold nameOf
  dsimp only [small, Payload.small]
  rw [← hcustom name, h, hcustom]

theorem callOf_toLower (name : String) (vendorPos size : Nat) (args : List Char) :
    (callOf name vendorPos size (args.map Char.toLower)).small =
      (callOf name vendorPos size args).small := by
  unfold callOf
  split_ifs
  · have huri := scanUri?_toLower args
    generalize scanUri? (args.map Char.toLower) = found, scanUri? args = found' at huri ⊢
    rcases found with _ | uri <;> rcases found' with _ | uri'
    · rfl
    · cases huri
    · cases huri
    · obtain ⟨hvalue, hsize⟩ := Scanned.mk.inj (Option.some.inj huri)
      dsimp only [small, Payload.small]
      rw [hsize, Text.asciiLower_ofList, Text.asciiLower_ofList, hvalue]
  · rfl

/-- **A name or a function** in small letters, unless it may be a filter. -/
theorem identLike_toLower {cs : List Char} (h : (identLike cs).payload.mayFilter = false) :
    (identLike (cs.map Char.toLower)).small = (identLike cs).small := by
  obtain ⟨hvalue, hsize⟩ := Scanned.mk.inj (scanName_toLower 0 cs)
  have hsmall := lower_eq_of_small hvalue
  have hname : asciiLower (String.ofList (scanName 0 (cs.map Char.toLower)).value) =
      asciiLower (String.ofList (scanName 0 cs).value) := by
    rw [Text.asciiLower_ofList, Text.asciiLower_ofList, hvalue]
  have hvendor : vendorPosOf (cs.map Char.toLower) = vendorPosOf cs := by
    unfold vendorPosOf bne
    rw [List.head?_map, List.getElem?_map, beq_some_mark (by decide), beq_some_mark (by decide),
      ← vendorEnd_toLower, hvalue, vendorEnd_toLower]
  have hcalled : isCalled (cs.map Char.toLower) = isCalled cs := by
    unfold isCalled
    rw [hsize, ← List.map_drop, List.head?_map, beq_some_mark (by decide)]
  cases hcall : isCalled cs with
  | true =>
    rw [identLike_of_called hcall, identLike_of_called (hcalled.trans hcall), hsmall, hvendor, hsize,
      ← List.map_drop, ← List.map_drop, callOf_toLower]
  | false =>
    have hplain := eqIgnoreCase_of_mayFilter hcall h
    rw [identLike_of_not_called hcall hplain, identLike_of_not_called (hcalled.trans hcall)
      (by rw [← Text.eqIgnoreCase_asciiLower, hname, Text.eqIgnoreCase_asciiLower, hplain]),
      hvendor, hsize, nameOf_small hname]

/-! ## Numbers and code points -/

theorem signSize_toLower (c : Option Char) : signSize (c.map Char.toLower) = signSize c := by
  unfold signSize
  rw [beq_some_mark (by decide), beq_some_mark (by decide)]

/-- **A number** is the same in small letters. -/
theorem numeric_toLower (cs : List Char) : numeric (cs.map Char.toLower) = numeric cs := by
  have hexponent : ∀ c : Option Char,
      (c.map Char.toLower == some 'e' || c.map Char.toLower == some 'E') =
        (c == some 'e' || c == some 'E') := by
    have heither : IgnoresCase fun c => c == 'e' || c == 'E' :=
      Text.ignoresCase_of_capitals (by decide)
    rintro (_ | c)
    · rfl
    · exact heither c
  have hunit : ∀ after : List Char,
      Text.lower (String.ofList (scanName 0 (after.map Char.toLower)).value) =
          Text.lower (String.ofList (scanName 0 after).value) ∧
        (scanName 0 (after.map Char.toLower)).size = (scanName 0 after).size := by
    intro after
    obtain ⟨hvalue, hsize⟩ := Scanned.mk.inj (scanName_toLower 0 after)
    exact ⟨lower_eq_of_small hvalue, hsize⟩
  unfold numeric
  simp only [← List.map_drop, List.head?_map, List.getElem?_map, signSize_toLower,
    Text.takeWhile_digits, isDigit_toLower, beq_some_mark (x := '.') (by decide),
    beq_some_mark (x := '-') (by decide), beq_some_mark (x := '%') (by decide), hexponent,
    nameComesNext_toLower, hunit]

theorem hexRun_toLower (cs : List Char) : hexRun (cs.map Char.toLower) = (hexRun cs).map Char.toLower :=
  takeWhile_hexDigits cs

theorem hexValue_hexRun (cs : List Char) :
    Text.hexValue ((hexRun cs).map Char.toLower) = Text.hexValue (hexRun cs) :=
  Text.hexValue_toLower fun _ hc => List.mem_takeWhile_imp hc

theorem codeRange?_toLower (cs : List Char) : codeRange? (cs.map Char.toLower) = codeRange? cs := by
  have hmark : IgnoresCase (· == '?') := Text.beq_mark_toLower (by decide)
  unfold codeRange?
  simp only [← List.map_drop, ← List.map_take, hexRun_toLower, List.isEmpty_map, List.length_map,
    hexValue_hexRun, List.head?_map, List.getElem?_map, beq_some_mark (x := '?') (by decide),
    beq_some_mark (x := '-') (by decide), any_toLower Text.isHexDigit_ignoresCase,
    Text.takeWhile_toLower hmark]

/-! ## The first token -/

theorem dashed_toLower {cs : List Char} (h : (dashed cs).payload.mayFilter = false) :
    (dashed (cs.map Char.toLower)).small = (dashed cs).small := by
  unfold dashed at h ⊢
  rw [List.getElem?_map, List.getElem?_map, beq_some_mark (by decide), beq_some_mark (by decide),
    continuesName_toLower, nameComesNext_toLower]
  split_ifs at h ⊢
  · exact identLike_toLower h
  · rfl
  · rfl
  · exact identLike_toLower h
  · rfl

theorem quoted_toLower {quote : Char} (hquote : IsMark quote) (rest : List Char) :
    (quoted quote (rest.map Char.toLower)).small = (quoted quote rest).small := by
  obtain ⟨hvalue, hsize⟩ := Scanned.mk.inj (scanString_toLower hquote 0 rest)
  unfold quoted
  dsimp only
  rw [hsize, List.getElem?_map, beq_some_mark hquote]
  split_ifs
  · dsimp only [small, Payload.small]
    rw [Text.asciiLower_ofList, Text.asciiLower_ofList, hvalue]
  · rfl

theorem ofChar?_ignoresCase : IgnoresCase TokenKind.ofChar? :=
  Text.ignoresCase_of_capitals (by decide)

/-- A hash says the same in small letters. -/
theorem hashOf_toLower (rest : List Char) :
    small ⟨.hash, .hash (String.ofList (scanName 0 (rest.map Char.toLower)).value),
        (scanName 0 (rest.map Char.toLower)).size + 1⟩ =
      small ⟨.hash, .hash (String.ofList (scanName 0 rest).value), (scanName 0 rest).size + 1⟩ := by
  obtain ⟨hvalue, hsize⟩ := Scanned.mk.inj (scanName_toLower 0 rest)
  dsimp only [small, Payload.small]
  rw [Text.asciiLower_ofList, Text.asciiLower_ofList, hvalue, hsize]

theorem punctuation_toLower (c : Char) (rest : List Char) :
    (punctuation c.toLower (rest.map Char.toLower)).small = (punctuation c rest).small := by
  obtain ⟨hvalue, hsize⟩ := Scanned.mk.inj (scanName_toLower 0 rest)
  have hstar := startsName_toLower rest.head? rest[1]? none
  have hhash := continuesName_toLower rest.head? (some c)
  rw [Option.map_none] at hstar
  rw [Option.map_some] at hhash
  unfold punctuation
  have hmark : ∀ x : Char, IsMark x → (c.toLower == x) = (c == x) := fun x hx =>
    Text.beq_mark_toLower hx c
  dsimp only
  rw [List.head?_map, List.getElem?_map, nameComesNext_toLower, hstar, hhash,
    lower_eq_of_small hvalue, runSize_toLower Text.isSpace_ignoresCase, ofChar?_ignoresCase c,
    Text.isPrefixOf_toLower (by decide), beq_some_mark (x := '=') (by decide),
    beq_some_mark (x := '|') (by decide), beq_some_mark (x := '\n') (by decide),
    hmark '<' (by decide), hmark '>' (by decide), hmark '$' (by decide), hmark '*' (by decide),
    hmark '^' (by decide), hmark '|' (by decide), hmark '~' (by decide), hmark '#' (by decide),
    hmark '"' (by decide), hmark '\'' (by decide), hmark '\\' (by decide), hmark '@' (by decide)]
  split_ifs with _ _ _ _ _ hquote
  · rfl
  · rfl
  · rfl
  · exact hashOf_toLower rest
  · rfl
  · have hquote : IsMark c := by
      rcases (Bool.or_eq_true _ _).mp hquote with hc | hc <;>
        · rw [beq_iff_eq.mp hc]
          decide
    rw [Text.toLower_mark hquote]
    exact quoted_toLower hquote rest
  · rfl
  · rfl
  · rw [hsize]
  · rfl
  · rfl

theorem numberComesNext_toLower (cs : List Char) :
    numberComesNext (cs.map Char.toLower) = numberComesNext cs := by
  cases cs with
  | nil => rfl
  | cons c rest =>
    rw [List.map_cons]
    unfold numberComesNext
    simp (disch := decide) only [Text.isDigit_ignoresCase c, Text.beq_mark_toLower, List.head?_map,
      List.getElem?_map, isDigit_toLower, beq_some_mark, bne]

/-- **The first token that is no blank and no comment** in small letters. -/
theorem significant_toLower {cs : List Char} (h : (significant cs).payload.mayFilter = false) :
    (significant (cs.map Char.toLower)).small = (significant cs).small := by
  cases cs with
  | nil => rfl
  | cons c rest =>
    have hnumber := numberComesNext_toLower (c :: rest)
    have hname := nameComesNext_toLower (c :: rest)
    have hnumeric := numeric_toLower (c :: rest)
    have hrange := codeRange?_toLower (c :: rest)
    rw [List.map_cons] at hnumber hname hnumeric hrange ⊢
    have hu : (decide (c.toLower = 'U') || decide (c.toLower = 'u')) =
        (decide (c = 'U') || decide (c = 'u')) :=
      Text.ignoresCase_of_capitals (f := fun c => decide (c = 'U') || decide (c = 'u'))
        (by decide) c
    have hdash : c.toLower = '-' ↔ c = '-' := Text.toLower_eq_mark (by decide) c
    unfold significant at h ⊢
    dsimp only at h ⊢
    rw [hnumber, hname, hnumeric, hrange, hu, List.head?_map, beq_some_mark (by decide)]
    simp only [hdash]
    split_ifs at h ⊢
    · rfl
    · exact dashed_toLower h
    · cases codeRange? (c :: rest) with
      | some lx => rfl
      | none =>
        have hsingleton : asciiLower (String.singleton c.toLower) = asciiLower (String.singleton c) := by
          rw [← String.toList_inj, Text.toList_asciiLower, Text.toList_asciiLower,
            String.toList_singleton, String.toList_singleton, List.map_singleton, List.map_singleton,
            Text.toLower_ignoresCase]
        dsimp only [Option.getD_none, small, Payload.small]
        rw [hsingleton]
    · exact identLike_toLower h
    · exact punctuation_toLower c rest

/-! ## What functions say -/

/-- Whether a lexeme says its name if it is a function or an address. -/
def saysCall (lx : Lexeme) : Bool := lx.payload.saysCall lx.kind

theorem saysCall_of_kind {lx : Lexeme} (h : (lx.kind != .function && lx.kind != .uri) = true) :
    lx.saysCall = true := by
  unfold saysCall Payload.saysCall
  split
  · rfl
  · rfl
  · exact h

theorem identLike_saysCall (cs : List Char) : (identLike cs).saysCall = true := by
  unfold identLike
  extract_lets scanned after name vendorPos small uri? plain
  split
  · clear_value uri?
    cases uri? <;> rfl
  · split
    · split <;> rfl
    · rfl

theorem numeric_saysCall (cs : List Char) : (numeric cs).saysCall = true := by
  have hunit : ∀ unit : String, (((Unit.kind? unit).getD .dimension) != .function &&
      ((Unit.kind? unit).getD .dimension) != .uri) = true := by
    have hknown : ∀ entry ∈ Unit.known, (entry.1 != .function && entry.1 != .uri) = true := by
      decide
    intro unit
    unfold Unit.kind?
    cases hfind : Unit.known.find? fun entry => entry.2.contains unit with
    | none => rfl
    | some entry => exact hknown entry (List.mem_of_find?_eq_some hfind)
  refine saysCall_of_kind ?_
  unfold numeric
  extract_lets sign whole afterWhole fraction fractionSize afterFraction exponentSign
    hasExponent exponentDigits exponentSize exponentValue value size after isFloat scanned unit
  clear_value value after unit
  split_ifs <;> first | rfl | exact hunit unit

theorem punctuation_saysCall (c : Char) (rest : List Char) :
    (punctuation c rest).saysCall = true := by
  have hchar : saysCall ⟨(TokenKind.ofChar? c).getD .char, .none, 1⟩ = true := by
    refine saysCall_of_kind ?_
    unfold TokenKind.ofChar?
    split <;> rfl
  have hquoted : (quoted c rest).saysCall = true := by
    unfold quoted
    dsimp only
    split_ifs <;> rfl
  unfold punctuation
  extract_lets next
  split_ifs <;> first | rfl | exact hquoted | exact hchar

theorem significant_saysCall (cs : List Char) : (significant cs).saysCall = true := by
  have hdashed : (dashed cs).saysCall = true := by
    unfold dashed
    split_ifs <;> first | exact identLike_saysCall cs | rfl
  have hrange : ∀ lx, codeRange? cs = some lx → lx.saysCall = true := by
    intro lx h
    unfold codeRange? at h
    extract_lets first size after firstOk at h
    split_ifs at h <;>
    · obtain rfl := Option.some.inj h
      refine saysCall_of_kind ?_
      dsimp only
      split_ifs <;> rfl
  cases cs with
  | nil => rfl
  | cons c rest =>
    unfold significant
    dsimp only
    split_ifs
    · exact numeric_saysCall _
    · exact hdashed
    · cases hcode : codeRange? (c :: rest) with
      | none => rfl
      | some lx => exact hrange lx hcode
    · exact identLike_saysCall _
    · exact punctuation_saysCall c rest

/-- **Every function says its name.** -/
theorem firstOf_saysCall (mode : Mode) (cs : List Char) : (mode.firstOf cs).saysCall = true := by
  unfold Mode.firstOf
  cases htrivia : trivia? cs with
  | none => exact significant_saysCall cs
  | some lx =>
    have hkept : ∀ kept : Lexeme, kept.kind = .whitespace ∨ kept.kind = .uvar ∨
        kept.kind = .comment → kept.saysCall = true := by
      rintro ⟨kind, payload, size⟩ (rfl | rfl | rfl) <;> rfl
    have hkind := (trivia?_kind htrivia).1
    show ((mode.keeps lx).getD lx).saysCall = true
    unfold Mode.keeps
    split
    · split_ifs <;> exact hkept _ hkind
    · split_ifs
      · exact hkept _ hkind
      · rfl
      · exact hkept _ hkind
    · split_ifs <;> exact hkept _ hkind

end Lexeme

end Stylesheet
