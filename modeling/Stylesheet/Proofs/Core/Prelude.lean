import Stylesheet.Proofs.Core.Lexemes

/-!
# At-keywords and addresses

What stands before the body of a document is a list of addresses without
quotes. An address is one token, brackets included, whatever characters it
is made of: a brace in it is none.
-/

namespace Stylesheet

open Parse (State)

namespace Core

open Lexeme (significant scanName scanUri? scanAddress runSize)

variable {s s₁ : State} {a z cs : List Char} {l : List Token} {t : Token}

/-! ## At-keywords -/

/-- **The name of an at-rule** after its `@`. -/
structure AtWord where
  /-- The characters. -/
  chars : List Char
  /-- All of them can stand in a name. -/
  isNameChar : ∀ c ∈ chars, Lexeme.isNameChar c = true
  /-- The first of them start one. -/
  comesNext : Lexeme.nameComesNext chars = true

/-- What an at-keyword is cut into. -/
def AtWord.lexeme (w : AtWord) : Lexeme :=
  let small := Text.lower (String.ofList w.chars)
  let (bare, vendor) := Lexeme.splitVendor small (Lexeme.atVendorEnd small.toList)
  ⟨.at, .at bare vendor, w.chars.length + 1⟩

/-- **The name of an at-rule** in small letters, without a vendor's mark. -/
def AtWord.name (w : AtWord) : String :=
  let small := Text.lower (String.ofList w.chars)
  (Lexeme.splitVendor small (Lexeme.atVendorEnd small.toList)).1

/-- The character after it matters to an escape only. -/
theorem startsPlainName_some {c : Char} (h : Lexeme.isNameChar c = true) (b b' : Option Char) :
    Lexeme.startsPlainName (some c) b = Lexeme.startsPlainName (some c) b' := by
  have hslash : c ≠ '\\' := by
    rintro rfl
    exact absurd h (by decide)
  unfold Lexeme.startsPlainName
  simp

/-- A name comes next whatever follows it. -/
theorem AtWord.comesNext_append (w : AtWord) (cs : List Char) :
    Lexeme.nameComesNext (w.chars ++ cs) = true := by
  obtain ⟨chars, hname, hcomes⟩ := w
  have hplain := fun c (hc : c ∈ chars) => startsPlainName_some (hname c hc)
  rcases chars with _ | ⟨c, _ | ⟨d, _ | ⟨e, chars⟩⟩⟩
  · cases hcomes
  · change Lexeme.startsName (some c) none none = true at hcomes
    change Lexeme.startsName (some c) cs[0]? cs[1]? = true
    unfold Lexeme.startsName at hcomes ⊢
    split_ifs at hcomes ⊢ with hdash
    · cases hcomes
    · rw [hplain c List.mem_cons_self _ none]
      exact hcomes
  · change Lexeme.startsName (some c) (some d) none = true at hcomes
    change Lexeme.startsName (some c) (some d) cs[0]? = true
    unfold Lexeme.startsName at hcomes ⊢
    rw [hplain d (List.mem_cons_of_mem _ List.mem_cons_self) _ none]
    exact hcomes
  · exact hcomes

/-- **An at-keyword is a token.** -/
theorem significant_at (w : AtWord) (h : Ends cs) :
    significant ('@' :: (w.chars ++ cs)) = w.lexeme := by
  have hscan := scanName_append w.isNameChar h.nameEnds
  have hcomes := w.comesNext_append cs
  have hcut : significant ('@' :: (w.chars ++ cs)) = Lexeme.punctuation '@' (w.chars ++ cs) := by
    simp [Lexeme.significant, Lexeme.numberComesNext, Lexeme.nameComesNext, Lexeme.startsName,
      Lexeme.startsPlainName]
  rw [hcut]
  simp [Lexeme.punctuation, hcomes, hscan, AtWord.lexeme]

/-! ## Addresses -/

/-- **An address** without quotes. -/
structure Address where
  /-- The characters. -/
  chars : List Char
  /-- There is one. -/
  nonempty : chars ≠ []
  /-- They need no quotes. -/
  isAddressChar : ∀ c ∈ chars, Lexeme.isAddressChar c = true

/-- What an address is not made of. -/
theorem isAddressChar_excludes {c : Char} (h : Lexeme.isAddressChar c = true) :
    c ≠ '\\' ∧ c ≠ '"' ∧ c ≠ '\'' ∧ Text.isSpace c = false := by
  have hne : ∀ d, Lexeme.isAddressChar d = false → c ≠ d := by
    rintro d hd rfl
    cases h.symm.trans hd
  refine ⟨hne _ (by decide), hne _ (by decide), hne _ (by decide), ?_⟩
  unfold Text.isSpace
  simp [hne ' ' (by decide), hne '\t' (by decide), hne '\n' (by decide)]

theorem scanAddress_append {address : List Char}
    (h : ∀ c ∈ address, Lexeme.isAddressChar c = true) (cs : List Char) :
    scanAddress 0 (address ++ ')' :: cs) = ⟨address, address.length⟩ := by
  induction address with
  | nil => rfl
  | cons c address ih =>
    have hc := h c List.mem_cons_self
    rw [List.cons_append, Lexeme.scanAddress.eq_def]
    dsimp only
    rw [if_neg (isAddressChar_excludes hc).1, if_pos hc,
      ih fun d hd => h d (List.mem_cons_of_mem _ hd)]
    rfl

/-- **An address goes up to its bracket.** -/
theorem Address.scanUri? (x : Address) (cs : List Char) :
    scanUri? (x.chars ++ ')' :: cs) = some ⟨x.chars, x.chars.length + 1⟩ := by
  obtain ⟨chars, hnonempty, hchars⟩ := x
  have hscan := scanAddress_append hchars cs
  obtain ⟨c, rest, rfl⟩ := List.exists_cons_of_ne_nil hnonempty
  obtain ⟨-, hdouble, hsingle, hspace⟩ := isAddressChar_excludes (hchars c List.mem_cons_self)
  have hlead : runSize Text.isSpace (c :: rest ++ ')' :: cs) = 0 := by
    simp [Lexeme.runSize, hspace]
  have htrail : runSize Text.isSpace (')' :: cs) = 0 := rfl
  rw [List.cons_append, List.length_cons] at hscan
  unfold Lexeme.scanUri?
  rw [hlead]
  simp [hdouble, hsingle, hscan, htrail]

/-- **A function that selects documents**, with the blanks around it. -/
structure Site where
  /-- The blanks before it. -/
  before : Gap
  /-- Its name. -/
  function : String
  /-- The name is one of those whose argument is an address. -/
  function_mem : function ∈ Lexeme.uriFunctions
  /-- The address. -/
  address : Address
  /-- The blanks after it. -/
  after : Gap

/-- The text of a function that selects documents. -/
def Site.uri (x : Site) : List Char :=
  x.function.toList ++ '(' :: (x.address.chars ++ [')'])

/-- What a function that selects documents is cut into. -/
def Site.lexeme (x : Site) : Lexeme :=
  ⟨.uri, .uri (String.ofList x.address.chars) x.function, x.uri.length⟩

/-- **The functions whose argument is an address** are names in small
letters. -/
theorem uriFunctions_spec {f : String} (h : f ∈ Lexeme.uriFunctions) :
    (∀ c ∈ f.toList, Lexeme.isNameChar c = true) ∧ Text.lower f = f ∧
      ∀ cs, significant (f.toList ++ '(' :: cs) = Lexeme.identLike (f.toList ++ '(' :: cs) := by
  have hchars : Lexeme.uriFunctions.all
      (fun f => f.toList.all Lexeme.isNameChar && Text.lower f == f) = true := by decide +kernel
  obtain ⟨hname, hlower⟩ := Bool.and_eq_true_iff.mp (List.all_eq_true.mp hchars f h)
  refine ⟨List.all_eq_true.mp hname, beq_iff_eq.mp hlower, fun cs => ?_⟩
  simp only [Lexeme.uriFunctions, List.mem_cons, List.not_mem_nil, or_false] at h
  rcases h with rfl | rfl | rfl <;>
    simp +decide [Lexeme.significant, Lexeme.numberComesNext, Lexeme.nameComesNext,
      Lexeme.startsName, Lexeme.startsPlainName]

/-- **A function with an address is a token.** -/
theorem significant_uri (x : Site) : significant (x.uri ++ cs) = x.lexeme := by
  obtain ⟨before, function, hfunction, address, after⟩ := x
  obtain ⟨hchars, hlower, hcut⟩ := uriFunctions_spec hfunction
  have hends : NameEnds ('(' :: (address.chars ++ ')' :: cs)) := fun c hc =>
    Option.some.inj hc ▸ (by decide)
  have hscan := scanName_append hchars hends
  have huri := address.scanUri? cs
  rw [show Site.uri _ ++ cs = function.toList ++ '(' :: (address.chars ++ ')' :: cs) by
    simp [Site.uri], hcut]
  unfold Lexeme.identLike
  rw [hscan]
  simp [hlower, hfunction, huri, Site.lexeme, Site.uri]
  omega

theorem Site.solid (x : Site) : Solid (x.uri ++ cs) := by
  have hall : Lexeme.uriFunctions.all (fun f =>
      f.toList.head?.any fun c => !Text.isSpace c && c != '/') = true := by decide +kernel
  obtain ⟨c, hhead, hc⟩ := (Option.any_eq_true _ _).mp (List.all_eq_true.mp hall _ x.function_mem)
  intro d hd
  have hfirst : (x.uri ++ cs).head? = some c := by simp [Site.uri, hhead]
  obtain rfl : c = d := Option.some.inj (hfirst.symm.trans hd)
  simpa using hc

@[simp]
theorem AtWord.all_isInLine (w : AtWord) : w.chars.all isInLine = true :=
  all_isInLine_of (by decide) (by decide) w.isNameChar

@[simp]
theorem Site.all_isInLine (x : Site) : x.uri.all isInLine = true := by
  have hfunction := all_isInLine_of (by decide) (by decide) (uriFunctions_spec x.function_mem).1
  have haddress := all_isInLine_of (by decide) (by decide) x.address.isAddressChar
  rw [Site.uri, List.all_append, hfunction, List.all_cons, List.all_append, haddress]
  rfl

/-! ## Tokens of some kinds -/

section

variable (kinds : List TokenKind) (hnext : Parser.next false false s = (.ok t, s₁))

include hnext

/-- Only the stream is moved. -/
theorem eq_of_next : s₁ = { s with stream := s₁.stream } := (Prod.mk.inj hnext).2 ▸ rfl

variable (hblanks : kinds.contains .whitespace = false)

include hblanks

/-- **What comes of a token** that is not hidden, whatever its kind is. -/
theorem matchSmart_eq : s.stream.matchSmart kinds =
    if kinds.contains t.kind = true then (some t, s₁.stream) else (none, s₁.stream.back) := by
  obtain ⟨hget, rfl⟩ : (s.stream.get false false).1 = t ∧
      ({ s with stream := (s.stream.get false false).2 } : State) = s₁ :=
    ⟨Except.ok.inj (Prod.mk.inj hnext).1, (Prod.mk.inj hnext).2⟩
  unfold Stream.matchSmart Stream.accept
  rw [hblanks, hget]

/-- **A token of one of some kinds.** -/
theorem matchSmart_some (ht : kinds.contains t.kind = true) :
    Parser.matchSmart kinds s = (.ok (some t), s₁) := by
  show (Except.ok (s.stream.matchSmart kinds).1,
    ({ s with stream := (s.stream.matchSmart kinds).2 } : State)) = _
  rw [matchSmart_eq kinds hnext hblanks, if_pos ht, ← eq_of_next hnext]

/-- **A token of none of the kinds** is taken back. -/
theorem matchSmart_none (ht : kinds.contains t.kind = false) :
    Parser.matchSmart kinds s = (.ok none, { s with stream := s₁.stream.back }) := by
  show (Except.ok (s.stream.matchSmart kinds).1,
    ({ s with stream := (s.stream.matchSmart kinds).2 } : State)) = _
  rw [matchSmart_eq kinds hnext hblanks, if_neg (by simpa using ht)]

/-- **A token that must be of one of some kinds**, and is. -/
theorem mustMatchSmart_of_next (ht : kinds.contains t.kind = true) :
    Parser.mustMatchSmart kinds s = (.ok t, s₁) := by
  have hmatch : s.stream.mustMatchSmart kinds = (.ok t, s₁.stream) := by
    unfold Stream.mustMatchSmart
    rw [matchSmart_eq kinds hnext hblanks, if_pos ht]
  unfold Parser.mustMatchSmart Parser.demand
  rw [Parser.bind_ok (show Parser.ask (·.mustMatchSmart kinds) s =
    (.ok (s.stream.mustMatchSmart kinds).1,
      ({ s with stream := (s.stream.mustMatchSmart kinds).2 } : State)) from rfl), hmatch,
    ← eq_of_next hnext]
  rfl

end

/-- What succeeds succeeds when its answer is of no interest. -/
theorem discard_ok {α : Type} {p : Parser α} {b : α} (h : p s = (.ok b, s₁)) :
    discard p s = (.ok (), s₁) := Parser.bind_ok (f := fun _ => pure ()) h

end Core

end Stylesheet
