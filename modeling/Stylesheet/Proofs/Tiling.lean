import Mathlib.Data.List.Basic
import Stylesheet.Proofs.TokenCut

/-!
# Tokens tile the source

All tokens of a text, hidden ones included, are the text cut into
pieces: nothing is left out, nothing is read twice, and no piece is
empty. `Tiles` says so one token at a time, and is what the induction
over the cutting carries; the places, slices and texts of the tokens are
then read off it.
-/

namespace Stylesheet

/-- **Tokens that cut a text into pieces**, where the text starts at a
place: each token is a piece that is not empty, and the next one starts
at the place after it. -/
inductive Tiles : Location → List Char → List Token → Prop
  /-- Nothing is left to cut. -/
  | nil (loc : Location) : Tiles loc [] []
  /-- A token, and the tokens of what follows it. -/
  | cons {loc : Location} {rest : List Char} {ts : List Token} (t : Token)
      (nonempty : t.text.toList ≠ []) (starts : t.location = loc)
      (stops : t.stop = loc.advance t.text.toList) (tail : Tiles t.stop rest ts) :
      Tiles loc (t.text.toList ++ rest) (t :: ts)

/-! ## Cutting a text tiles it -/

/-- Characters that belong to a token already cut are passed over. -/
theorem tokensOf_pass (pass : Nat) (loc : Location) (cs : List Char) :
    tokensOf pass loc cs = tokensOf 0 loc (cs.drop pass) := by
  induction pass generalizing cs with
  | zero => rfl
  | succ pass ih =>
    cases cs with
    | nil => rfl
    | cons c cs => exact ih cs

/-- **One step of the cutting**: the first token, and the tokens of the
text after it. -/
theorem tokensOf_of_ne_nil (loc : Location) {cs : List Char} (h : cs ≠ []) :
    tokensOf 0 loc cs =
      (Mode.everything.firstOf cs).place loc cs ::
        tokensOf 0 ((Mode.everything.firstOf cs).place loc cs).stop
          (cs.drop (Mode.everything.firstOf cs).size) := by
  have hpos := Mode.everything.firstOf_size_pos h
  cases cs with
  | nil => exact absurd rfl h
  | cons c cs =>
    rw [tokensOf.eq_def]
    dsimp only
    rw [tokensOf_pass, ← List.drop_succ_cons (a := c), Nat.sub_one_add_one (by omega)]

/-- **The tokens of a text tile it**, wherever it starts. -/
theorem tiles_tokensOf (loc : Location) (cs : List Char) : Tiles loc cs (tokensOf 0 loc cs) := by
  induction hn : cs.length using Nat.strongRecOn generalizing loc cs with
  | ind n ih =>
    by_cases hcs : cs = []
    · subst hcs
      exact Tiles.nil loc
    · have hpos := Mode.everything.firstOf_size_pos hcs
      have hlength := List.length_pos_iff.mpr hcs
      rw [tokensOf_of_ne_nil loc hcs]
      set lx := Mode.everything.firstOf cs with hlx
      have htext : (lx.place loc cs).text.toList = cs.take lx.size := String.toList_ofList
      have hsplit : (lx.place loc cs).text.toList ++ cs.drop lx.size = cs := by
        rw [htext, List.take_append_drop]
      conv => arg 2; rw [← hsplit]
      refine Tiles.cons _ ?_ rfl ?_ (ih _ ?_ _ _ rfl)
      · rw [htext]
        intro hnil
        rcases List.take_eq_nil_iff.mp hnil with h | h
        · omega
        · exact hcs h
      · rw [htext]
        rfl
      · rw [List.length_drop]
        omega

/-- **Every token of a text** is the first one of what is left where it
starts. -/
theorem mem_tokensOf {t : Token} {loc : Location} {cs : List Char} (h : t ∈ tokensOf 0 loc cs) :
    ∃ before rest, cs = before ++ rest ∧ rest ≠ [] ∧
      t = (Mode.everything.firstOf rest).place (loc.advance before) rest := by
  induction hn : cs.length using Nat.strongRecOn generalizing loc cs with
  | ind n ih =>
    by_cases hcs : cs = []
    · subst hcs
      cases h
    · have hpos := Mode.everything.firstOf_size_pos hcs
      have hlength := List.length_pos_iff.mpr hcs
      rw [tokensOf_of_ne_nil loc hcs] at h
      rcases List.mem_cons.mp h with rfl | h
      · exact ⟨[], cs, rfl, hcs, rfl⟩
      · set lx := Mode.everything.firstOf cs
        obtain ⟨before, rest, hrest, hne, ht⟩ := ih _ (by rw [List.length_drop]; omega) h rfl
        refine ⟨cs.take lx.size ++ before, rest, ?_, hne, ?_⟩
        · rw [List.append_assoc, ← hrest, List.take_append_drop]
        · rw [Location.advance_append]
          exact ht

/-! ## What a tiling says -/

namespace Tiles

variable {loc : Location} {cs : List Char} {ts : List Token}

/-- The texts of the tokens, one after another, are the text. -/
theorem flatMap_text (h : Tiles loc cs ts) : ts.flatMap (·.text.toList) = cs := by
  induction h with
  | nil => rfl
  | cons t _ _ _ _ ih => rw [List.flatMap_cons, ih]

/-- Only an empty text has no tokens. -/
theorem eq_nil_iff (h : Tiles loc cs ts) : ts = [] ↔ cs = [] := by
  cases h with
  | nil => exact iff_of_true rfl rfl
  | cons t hne _ _ _ =>
    exact iff_of_false (List.cons_ne_nil _ _) (fun hnil => hne (List.append_eq_nil_iff.mp hnil).1)

/-- The first token starts where the text starts. -/
theorem location_head (h : Tiles loc cs ts) {t : Token} (ht : ts.head? = some t) :
    t.location = loc := by
  cases h with
  | nil => simp at ht
  | cons u _ hstarts _ _ =>
    obtain rfl := Option.some.inj ht
    exact hstarts

/-- **Every token starts where the one before it stops.** -/
theorem isChain (h : Tiles loc cs ts) : ts.IsChain (fun t u => u.location = t.stop) := by
  induction h with
  | nil => exact List.IsChain.nil
  | @cons _ _ ts t _ _ _ tail ih =>
    cases ts with
    | nil => exact List.IsChain.singleton t
    | cons u ts => exact List.IsChain.cons_cons (tail.location_head rfl) ih

/-- The last token stops at the place after the text. -/
theorem stop_getLast (h : Tiles loc cs ts) {t : Token} (ht : ts.getLast? = some t) :
    t.stop = loc.advance cs := by
  induction h with
  | nil => simp at ht
  | @cons loc rest ts u _ _ hstops tail ih =>
    rw [Location.advance_append, ← hstops]
    cases ts with
    | nil =>
      cases tail
      obtain rfl := Option.some.inj ht
      rfl
    | cons v ts => exact ih (by rwa [List.getLast?_cons_cons] at ht)

/-- No token is empty. -/
theorem text_ne_nil (h : Tiles loc cs ts) {t : Token} (ht : t ∈ ts) : t.text.toList ≠ [] := by
  induction h with
  | nil => simp at ht
  | cons u hne _ _ _ ih =>
    rcases List.mem_cons.mp ht with rfl | ht
    · exact hne
    · exact ih ht

/-- **The text of a token is the slice of the source between its
places**, when the tiled text stands in the source where it starts. -/
theorem text_eq_slice {before : List Char} (h : Tiles loc cs ts)
    (hloc : loc.offset = Text.byteLength before) {t : Token} (ht : t ∈ ts) :
    t.text.toList = Text.slice (before ++ cs) t.location.offset t.stop.offset := by
  induction h generalizing before with
  | nil => simp at ht
  | @cons loc rest ts u _ hstarts hstops _ ih =>
    have hoffset : u.stop.offset = Text.byteLength before + Text.byteLength u.text.toList := by
      rw [hstops, Location.offset_advance, hloc]
    rcases List.mem_cons.mp ht with rfl | ht
    · rw [hoffset, hstarts, hloc, Text.slice_append]
    · rw [← List.append_assoc]
      refine ih ?_ ht
      rw [hoffset, Text.byteLength_append]

end Tiles

/-! ## The tokens of a source -/

/-- The tokens of a source text are cut from its normalized form, from
its start on. -/
theorem Stream.allTokens_ofString (text : String) :
    (Stream.ofString text).allTokens.1 = tokensOf 0 .start (normalizeNewlines text.toList) := by
  show tokensOf 0 .start (Text.suffixAt (normalizeNewlines text.toList) 0) = _
  rw [Text.suffixAt_zero]

/-- **Tokens tile the source.** Every token of a text has a text that is
not empty and is the slice of the normalized source between its two
places; the first token starts at the start, every other one exactly
where the one before it stops, and the last one stops at the end of the
source. So the texts of the tokens, one after another, are the
normalized source, and only an empty source has no tokens. -/
theorem tokens_tile_source (text : String) :
    let source := normalizeNewlines text.toList
    let tokens := (Stream.ofString text).allTokens.1
    (∀ t ∈ tokens, t.text ≠ "" ∧
      t.text.toList = Text.slice source t.location.offset t.stop.offset) ∧
    (∀ t, tokens.head? = some t → t.location = ⟨1, 1, 0⟩) ∧
    tokens.IsChain (fun t u => u.location = t.stop) ∧
    (∀ t, tokens.getLast? = some t → t.stop = Location.start.advance source ∧
      t.stop.offset = Text.byteLength source) ∧
    (tokens = [] ↔ source = []) ∧
    tokens.flatMap (·.text.toList) = source := by
  intro source tokens
  have htiles : Tiles .start source tokens := by
    rw [show tokens = tokensOf 0 .start source from Stream.allTokens_ofString text]
    exact tiles_tokensOf .start source
  refine ⟨fun t ht => ⟨?_, ?_⟩, fun t ht => htiles.location_head ht, htiles.isChain,
    fun t ht => ⟨htiles.stop_getLast ht, ?_⟩, htiles.eq_nil_iff, htiles.flatMap_text⟩
  · intro hempty
    exact htiles.text_ne_nil ht (by rw [hempty]; rfl)
  · have hstart : Location.start.offset = Text.byteLength [] := rfl
    exact htiles.text_eq_slice hstart ht
  · rw [htiles.stop_getLast ht, Location.offset_advance_start]

end Stylesheet
