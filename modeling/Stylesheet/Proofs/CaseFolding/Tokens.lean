import Stylesheet.Proofs.CaseFolding.Lexeme
import Stylesheet.Proofs.HiddenTokens

/-!
# Reading tokens of texts with their capitals made small

A reader of the small text that stands at the same place as a reader of the
text cuts the same token next, up to its letters, and goes on to the same
place (`Reader.Twin.lex`), as long as the text names no filter.
-/

namespace Stylesheet

open Text (asciiLower)

/-! ## Small tokens -/

/-- **A token in small letters.** A function that does not say its name has
it in its text, which is left alone. -/
def Token.small (t : Token) : Token :=
  { t with
    payload := t.payload.small t.kind
    text := if t.payload.saysCall t.kind then asciiLower t.text else t.text }

namespace Token

variable (t : Token)

/-- A function keeps its name, and so does an address. -/
theorem small_name (h : t.kind = .function ∨ t.kind = .uri) : t.small.name = t.name := by
  obtain ⟨kind, payload, text, location, stop⟩ := t
  rcases h with rfl | rfl <;> cases payload <;> rfl

theorem small_text : asciiLower t.small.text = asciiLower t.text := by
  unfold small
  dsimp only
  split_ifs
  · exact Text.asciiLower_asciiLower t.text
  · rfl

theorem small_vendor : t.small.vendor = t.vendor := by
  unfold small vendor
  fun_cases Payload.small t.kind t.payload <;> rfl

theorem small_isFilterFunction : t.small.isFilterFunction = t.isFilterFunction := by
  unfold small isFilterFunction
  fun_cases Payload.small t.kind t.payload <;> rfl

theorem small_isCustomIdent : t.small.isCustomIdent = t.isCustomIdent := by
  unfold small isCustomIdent
  fun_cases Payload.small t.kind t.payload <;> rfl

theorem small_vendorPos : t.small.vendorPos = t.vendorPos := by
  unfold small vendorPos
  fun_cases Payload.small t.kind t.payload <;> rfl

theorem small_number : t.small.number = t.number := by
  unfold small number
  fun_cases Payload.small t.kind t.payload <;> rfl

theorem small_isInt : t.small.isInt = t.isInt := by
  unfold small isInt
  fun_cases Payload.small t.kind t.payload <;> rfl

theorem small_isZero : t.small.isZero = t.isZero := by
  unfold small isZero
  fun_cases Payload.small t.kind t.payload <;> rfl

end Token

/-! ## What is cut -/

theorem Location.advance_toLower (loc : Location) (cs : List Char) :
    loc.advance (cs.map Char.toLower) = loc.advance cs := by
  induction cs generalizing loc with
  | nil => rfl
  | cons c cs ih =>
    have hstep : loc.step c.toLower = loc.step c := by
      unfold step
      rw [Text.utf8Size_ignoresCase]
      simp only [Text.toLower_eq_mark (x := '\n') (by decide)]
    rw [List.map_cons, advance_cons, advance_cons, hstep, ih]

/-- Lexemes that are the same in small letters make tokens that are. -/
theorem Lexeme.place_small {lx lx' : Lexeme} (h : lx'.small = lx.small) (hcall : lx.saysCall = true)
    (hcall' : lx'.saysCall = true) (loc : Location) (cs : List Char) :
    (lx'.place loc (cs.map Char.toLower)).small = (lx.place loc cs).small := by
  obtain ⟨kind, payload, size⟩ := lx
  obtain ⟨kind', payload', size'⟩ := lx'
  obtain ⟨rfl, hpayload, rfl⟩ := Lexeme.mk.inj h
  unfold place Token.small
  dsimp only at hpayload ⊢
  unfold saysCall at hcall hcall'
  dsimp only at hcall hcall'
  rw [hpayload, if_pos hcall, if_pos hcall', ← List.map_take, Location.advance_toLower,
    Text.asciiLower_ofList, Text.asciiLower_ofList, List.map_map, Text.toLower_ignoresCase.comp]

namespace Mode

variable (mode : Mode)

theorem keeps_small (lx : Lexeme) : mode.keeps lx.small = (mode.keeps lx).map Lexeme.small := by
  unfold keeps Lexeme.small
  dsimp only
  split <;> split_ifs <;> rfl

/-- As much is passed over in the small text. -/
theorem skipped_toLower (pass : Nat) (cs : List Char) :
    mode.skipped pass (cs.map Char.toLower) = mode.skipped pass cs := by
  induction cs generalizing pass with
  | nil => rfl
  | cons c cs ih =>
    cases pass with
    | succ pass => exact congrArg (· + 1) (ih pass)
    | zero =>
      have htrivia := Lexeme.trivia?_toLower (c :: cs)
      rw [List.map_cons] at htrivia ⊢
      unfold skipped
      dsimp only
      rw [htrivia]
      cases Lexeme.trivia? (c :: cs) with
      | none => rfl
      | some lx =>
        dsimp only [Option.map_some]
        rw [mode.keeps_small, Option.isNone_map, ih]
        rfl

/-- **The token a mode cuts** from the small text. -/
theorem firstOf_toLower {cs : List Char} (h : (mode.firstOf cs).payload.mayFilter = false) :
    (mode.firstOf (cs.map Char.toLower)).small = (mode.firstOf cs).small := by
  unfold firstOf at h ⊢
  rw [Lexeme.trivia?_toLower]
  cases htrivia : Lexeme.trivia? cs with
  | none =>
    rw [htrivia] at h
    exact Lexeme.significant_toLower h
  | some lx =>
    have hsmall : ∀ lx : Lexeme, lx.small.small = lx.small := by
      intro lx
      unfold Lexeme.small
      rw [Payload.small_small]
    dsimp only [Option.map_some]
    rw [keeps_small]
    cases mode.keeps lx with
    | none => exact hsmall lx
    | some kept => exact hsmall kept

end Mode

/-! ## Readers -/

namespace Reader

/-- **Readers of a text and of the small text** at the same place. -/
structure Twin (r r' : Reader) : Prop where
  /-- The second reads the small text. -/
  source_eq : r'.source = r.source.map Char.toLower
  /-- They stand at the same place. -/
  location_eq : r'.location = r.location

variable {r r' : Reader} {mode : Mode}

/-- What is left is the same in small letters. -/
theorem Twin.rest_eq (h : r.Twin r') : r'.rest = r.rest.map Char.toLower := by
  rw [r'.rest_eq, r.rest_eq, h.source_eq, h.location_eq, Text.suffixAt_toLower]

theorem Twin.advance (h : r.Twin r') (n : Nat) : (r.advance n).Twin (r'.advance n) where
  source_eq := h.source_eq
  location_eq := by
    show r'.location.advance (r'.rest.take n) = r.location.advance (r.rest.take n)
    rw [h.rest_eq, h.location_eq, ← List.map_take, Location.advance_toLower]

/-- **The next token** of the small text is that of the text in small
letters, unless it may be a filter. -/
theorem Twin.lex (h : r.Twin r') (hplain : (r.lex mode).1.payload.mayFilter = false) :
    (r'.lex mode).1.small = (r.lex mode).1.small ∧ (r.lex mode).2.Twin (r'.lex mode).2 := by
  have hskip := h.advance (mode.skipped 0 r.rest)
  unfold Reader.lex at hplain ⊢
  rw [h.rest_eq, mode.skipped_toLower]
  dsimp only at hplain ⊢
  generalize r.advance (mode.skipped 0 r.rest) = at_, r'.advance (mode.skipped 0 r.rest) = at_'
    at hskip hplain ⊢
  have hfirst := mode.firstOf_toLower hplain
  have hsize := congrArg Lexeme.size hfirst
  rw [hskip.rest_eq, hskip.location_eq]
  constructor
  · exact Lexeme.place_small hfirst (Lexeme.firstOf_saysCall _ _) (Lexeme.firstOf_saysCall _ _) _ _
  · rw [show (mode.firstOf (at_.rest.map Char.toLower)).size = (mode.firstOf at_.rest).size from hsize]
    exact hskip.advance _

/-- **What is cut is among the tokens of the text**, and so is what is cut
later. -/
theorem lex_tokensOf (r : Reader) (hcomments : mode.comments = false) :
    ((r.lex mode).1 ∈ tokensOf 0 r.location r.rest ∨ (r.lex mode).1.payload = .none) ∧
      ∀ t ∈ tokensOf 0 (r.lex mode).2.location (r.lex mode).2.rest,
        t ∈ tokensOf 0 r.location r.rest := by
  refine lex_induction mode
    (P := fun r => ((r.lex mode).1 ∈ tokensOf 0 r.location r.rest ∨
        (r.lex mode).1.payload = .none) ∧
      ∀ t ∈ tokensOf 0 (r.lex mode).2.location (r.lex mode).2.rest,
        t ∈ tokensOf 0 r.location r.rest)
    (fun r lx htrivia hkeeps hlex ih => ?_) (fun r hkept hlex => ?_) r
  · have hne : r.rest ≠ [] := by
      intro hnil
      rw [hnil] at htrivia
      cases htrivia
    have hfirst : Mode.everything.firstOf r.rest = lx := by
      rw [Lexeme.firstOf_everything]
      unfold Lexeme.first
      rw [htrivia]
      rfl
    have htokens := tokensOf_of_ne_nil r.location hne
    rw [hfirst] at htokens
    have hlater : ∀ t ∈ tokensOf 0 (r.advance lx.size).location (r.advance lx.size).rest,
        t ∈ tokensOf 0 r.location r.rest := by
      rw [htokens]
      exact fun t ht => List.mem_cons_of_mem _ ht
    rw [hlex]
    exact ⟨ih.1.imp (hlater _) id, fun t ht => hlater t (ih.2 t ht)⟩
  · rw [hlex, Mode.firstOf_eq_first hcomments]
    by_cases hrest : r.rest = []
    · rw [hrest]
      refine ⟨.inr rfl, fun t ht => ?_⟩
      have hnil : (r.advance (Lexeme.first []).size).rest = [] := by
        show r.rest.drop _ = []
        rw [hrest]
        rfl
      rw [hnil] at ht
      cases ht
    · have htokens := tokensOf_of_ne_nil r.location hrest
      rw [Lexeme.firstOf_everything] at htokens
      rw [htokens]
      exact ⟨.inl List.mem_cons_self, fun t ht => List.mem_cons_of_mem _ ht⟩

end Reader

end Stylesheet
