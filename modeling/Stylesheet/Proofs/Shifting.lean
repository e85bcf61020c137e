import Mathlib.Data.List.Forall2
import Stylesheet.Proofs.Excerpt.Alone
import Stylesheet.Proofs.Places.Basic
import Stylesheet.Proofs.Tiling

/-!
# Places move with their text

A recorded place is carried from one document to another by the distance
between the starts of a text that both contain. The numbers of a place are
counted in the whole document (`placeAt`), and yet the distance alone is enough
to get from one place to the other, wherever the lines begin before the text
and inside it (`shift_placeAt`): reading the text leads from the place where it
starts to every place inside (`placeAt_append`).

The tokens of a text move with it as well. What a token is depends on nothing
but the text from where it starts, and how far it reaches too; so the same text
in two documents is cut into the same tokens, and the distance between its two
starts leads from the places of the ones to those of the others
(`Stream.allTokens_moved`).
-/

namespace Stylesheet

/-- **The place of a byte of a text**: the line is one more than the number of
newlines before it, and the column one more than the number of characters
since the last of them. -/
def placeAt (cs : List Char) (offset : Nat) : Location :=
  let before := (Text.takeBytes? cs offset).getD []
  ⟨1 + before.count '\n', 1 + (lastLine before).length, offset⟩

/-- The place after a beginning of a text is where reading it leads to. -/
theorem placeAt_byteLength (before rest : List Char) :
    placeAt (before ++ rest) (Text.byteLength before) = Location.start.advance before := by
  rw [Location.advance_start_eq]
  unfold placeAt
  rw [Text.takeBytes?_append]
  rfl

/-- **A place inside a text** is where reading the text up to there leads to
from the place where it starts. -/
theorem placeAt_append (lead inner rest : List Char) :
    placeAt (lead ++ (inner ++ rest)) (Text.byteLength lead + Text.byteLength inner) =
      (placeAt (lead ++ (inner ++ rest)) (Text.byteLength lead)).advance inner := by
  rw [placeAt_byteLength, ← Location.advance_append, ← Text.byteLength_append, ← List.append_assoc,
    placeAt_byteLength]

/-- **Places move with their text.** The distance between the starts of a text
in two documents leads from every place of the text in the one to its place in
the other. So two such moves along three documents are one, and a move back
leads to where a place was. -/
theorem shift_placeAt (P₁ P₂ P₃ T R₁ R₂ R₃ : List Char) {k : Nat}
    (hk : (Text.takeBytes? T k).isSome = true) :
    let at₁ := fun n => placeAt (P₁ ++ T ++ R₁) (Text.byteLength P₁ + n)
    let at₂ := fun n => placeAt (P₂ ++ T ++ R₂) (Text.byteLength P₂ + n)
    let at₃ := fun n => placeAt (P₃ ++ T ++ R₃) (Text.byteLength P₃ + n)
    shift (Delta.between (at₁ 0) (at₂ 0)) (at₁ k) = at₂ k ∧
      shift (Delta.between (at₂ 0) (at₃ 0)) (shift (Delta.between (at₁ 0) (at₂ 0)) (at₁ k)) =
        shift (Delta.between (at₁ 0) (at₃ 0)) (at₁ k) ∧
      shift (Delta.between (at₂ 0) (at₁ 0)) (shift (Delta.between (at₁ 0) (at₂ 0)) (at₁ k)) =
        at₁ k := by
  obtain ⟨inner, hinner⟩ := Option.isSome_iff_exists.mp hk
  obtain ⟨rest, rfl, rfl⟩ := Text.takeBytes?_eq_some hinner
  have hinside : ∀ lead tail : List Char,
      placeAt (lead ++ (inner ++ rest) ++ tail) (Text.byteLength lead + Text.byteLength inner) =
        (placeAt (lead ++ (inner ++ rest) ++ tail) (Text.byteLength lead)).advance inner := by
    intro lead tail
    rw [List.append_assoc, List.append_assoc]
    exact placeAt_append lead inner (rest ++ tail)
  intro at₁ at₂ at₃
  have hmove : ∀ origin target : Location,
      shift (Delta.between origin target) (origin.advance inner) = target.advance inner :=
    fun origin target => shift_between_advance origin target inner
  simp only [at₁, at₂, at₃, hinside, Nat.add_zero, hmove, and_self]

/-- The place before the brace of a rule on two lines, behind a letter of two
bytes and behind two other lines. -/
theorem shift_placeAt_rule :
    (Text.takeBytes? "a,\nb\x7b\x7d".toList 4).isSome = true ∧
      shift (Delta.between ⟨1, 2, 2⟩ ⟨3, 1, 4⟩) (⟨2, 2, 6⟩ : Location) = ⟨4, 2, 8⟩ := by
  refine ⟨by decide, ?_⟩
  obtain ⟨hmove, -, -⟩ := shift_placeAt "é".toList "x\n \n".toList [] "a,\nb\x7b\x7d".toList
    [] "c".toList [] (k := 4) (by decide)
  exact hmove

/-! ## Tokens -/

/-- **A token in two documents**: it says the same in both, and a distance leads
from its places in the one to those in the other. -/
structure Token.Moved (δ : Delta) (t t' : Token) : Prop where
  /-- The kind. -/
  kind_eq : t.kind = t'.kind
  /-- What it says besides its text. -/
  payload_eq : t.payload = t'.payload
  /-- The text. -/
  text_eq : t.text = t'.text
  /-- Where it starts. -/
  shift_location : shift δ t.location = t'.location
  /-- Where it ends. -/
  shift_stop : shift δ t.stop = t'.stop

/-- **A token at the same distance from two places** is the same token. -/
theorem Lexeme.place_moved (lx : Lexeme) (origin target : Location) (read rest : List Char) :
    (lx.place (origin.advance read) rest).Moved (.between origin target)
      (lx.place (target.advance read) rest) where
  kind_eq := rfl
  payload_eq := rfl
  text_eq := rfl
  shift_location := shift_between_advance origin target read
  shift_stop := by
    show shift _ ((origin.advance read).advance _) = (target.advance read).advance _
    rw [← Location.advance_append, ← Location.advance_append, shift_between_advance]

/-- **The tokens of a text** after some that has been read, from two places
on. -/
theorem tokensOf_moved (origin target : Location) (read rest : List Char) :
    List.Forall₂ (Token.Moved (.between origin target)) (tokensOf 0 (origin.advance read) rest)
      (tokensOf 0 (target.advance read) rest) := by
  induction hn : rest.length using Nat.strongRecOn generalizing read rest with
  | ind n ih =>
    by_cases hrest : rest = []
    · subst hrest
      exact .nil
    · have hpos := Mode.everything.firstOf_size_pos hrest
      have hlength := List.length_pos_iff.mpr hrest
      rw [tokensOf_of_ne_nil _ hrest, tokensOf_of_ne_nil _ hrest]
      generalize Mode.everything.firstOf rest = lx at hpos ⊢
      have hstop : ∀ loc : Location, (lx.place (loc.advance read) rest).stop =
          loc.advance (read ++ rest.take lx.size) := fun loc => (Location.advance_append _ _ _).symm
      rw [hstop, hstop]
      refine .cons (lx.place_moved origin target read rest) (ih _ ?_ _ _ rfl)
      rw [List.length_drop]
      omega

namespace Stream

/-- **All tokens from a place on** are those of the text from there on, whatever
has been handed out before. -/
theorem allTokens_seek {s : Stream} {lead rest : List Char} (h : s.source = lead ++ rest) :
    (s.seek (placeAt s.source (Text.byteLength lead))).allTokens.1 =
      tokensOf 0 (Location.start.advance lead) rest := by
  have hplace : placeAt s.source (Text.byteLength lead) = Location.start.advance lead := by
    rw [h, placeAt_byteLength]
  have hoffset : min (Location.start.advance lead).offset (Text.byteLength s.reader.source) =
      (Location.start.advance lead).offset := by
    have hsource : s.reader.source = lead ++ rest := h
    rw [hsource, Location.offset_advance_start, Text.byteLength_append]
    exact Nat.min_eq_left (Nat.le_add_right _ _)
  have hreader : s.reader.seek (Location.start.advance lead) =
      .atPlace (lead ++ rest) (Location.start.advance lead) s.reader.bookmark := by
    unfold Reader.seek
    rw [hoffset]
    exact congrArg (Reader.atPlace · _ _) h
  rw [hplace]
  show tokensOf 0 (s.reader.seek _).location (s.reader.seek _).rest = _
  rw [hreader]
  show tokensOf 0 _ (Text.suffixAt (lead ++ rest) (Location.start.advance lead).offset) = _
  rw [Location.offset_advance_start, Text.suffixAt_append]
  rfl

/-- **Lexing does not depend on where a text stands.** From where the same text
starts in two documents, two streams hand out the same tokens, hidden ones
included, and the distance between the two starts leads from the places of the
ones to those of the others. What the streams have handed out or taken back
before does not matter. -/
theorem allTokens_moved {P₁ P₂ T : String}
    (h : ∀ c ∈ (P₁ ++ P₂ ++ T).toList, c ≠ '\r' ∧ c ≠ '\x0c') {s₁ s₂ : Stream}
    (h₁ : s₁.source = normalizeNewlines (P₁ ++ T).toList)
    (h₂ : s₂.source = normalizeNewlines (P₂ ++ T).toList) :
    let place₁ := placeAt s₁.source (Text.byteLength P₁.toList)
    let place₂ := placeAt s₂.source (Text.byteLength P₂.toList)
    List.Forall₂ (Token.Moved (.between place₁ place₂)) (s₁.seek place₁).allTokens.1
      (s₂.seek place₂).allTokens.1 := by
  have hnormal : ∀ P : String, (∀ c ∈ P.toList, c ∈ (P₁ ++ P₂ ++ T).toList) →
      normalizeNewlines (P ++ T).toList = P.toList ++ T.toList := by
    intro P hP
    rw [String.toList_append]
    refine normalizeNewlines_of_forall fun c hc => ?_
    have hmem : c ∈ (P₁ ++ P₂ ++ T).toList := by
      rcases List.mem_append.mp hc with hc | hc
      · exact hP c hc
      · simp [hc]
    rintro (rfl | rfl)
    · exact (h _ hmem).1 rfl
    · exact (h _ hmem).2 rfl
  rw [hnormal P₁ fun c hc => by simp [hc]] at h₁
  rw [hnormal P₂ fun c hc => by simp [hc]] at h₂
  intro place₁ place₂
  have hplace₁ : place₁ = Location.start.advance P₁.toList := by
    show placeAt s₁.source _ = _
    rw [h₁, placeAt_byteLength]
  have hplace₂ : place₂ = Location.start.advance P₂.toList := by
    show placeAt s₂.source _ = _
    rw [h₂, placeAt_byteLength]
  rw [allTokens_seek h₁, allTokens_seek h₂, hplace₁, hplace₂]
  exact tokensOf_moved _ _ [] T.toList

/-- A declaration on two lines, behind a comment in one document and behind a
rule in the other, where some tokens have been handed out before. -/
theorem allTokens_moved_declaration :
    (∀ c ∈ ("/*é*/\n" ++ "a\x7b" ++ "b:\n1px").toList, c ≠ '\r' ∧ c ≠ '\x0c') ∧
      List.Forall₂ (Token.Moved (.between ⟨2, 1, 7⟩ ⟨1, 3, 2⟩))
        ((ofString "/*é*/\nb:\n1px").seek ⟨2, 1, 7⟩).allTokens.1
        ((ofString "a\x7bb:\n1px").grab.2.seek ⟨1, 3, 2⟩).allTokens.1 := by
  have hplain : ∀ c ∈ ("/*é*/\n" ++ "a\x7b" ++ "b:\n1px").toList, c ≠ '\r' ∧ c ≠ '\x0c' := by
    simp
  exact ⟨hplain, @allTokens_moved "/*é*/\n" "a\x7b" "b:\n1px" hplain (ofString "/*é*/\nb:\n1px")
    (ofString "a\x7bb:\n1px").grab.2 rfl rfl⟩

end Stream

end Stylesheet
