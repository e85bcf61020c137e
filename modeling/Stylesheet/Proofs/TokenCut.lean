import Stylesheet.Proofs.LexemeParts

/-!
# Tokens as cuts of a source

A text that is written as a beginning and a rest is divided by the byte
length of the beginning, and the cutting functions find the two pieces
there. Everything that is said about places in a source comes down to
this, since every place that is reached by reading is the place after
some beginning of the source.

A token that the stream hands out is the first token of the source from
some place on: `Token.IsCut` says so. It fixes the token completely by
the offset it starts at, so the same token comes back whenever reading
returns to that offset. A cut token is the end of the source exactly
when nothing is left there, and any other token ends strictly after its
start.

A place of a source (`IsPlace`) is the place after some beginning of
it. Reading moves from place to place.
-/

namespace Stylesheet

/-! ## Texts cut at byte offsets -/

namespace Text

theorem takeBytes?_zero (cs : List Char) : takeBytes? cs 0 = some [] := by
  cases cs <;> rfl

/-- **Taking the bytes of a text that comes first gives that text.** -/
theorem takeBytes?_append (cs ds : List Char) :
    takeBytes? (cs ++ ds) (byteLength cs) = some cs := by
  induction cs with
  | nil => exact takeBytes?_zero ds
  | cons c cs ih =>
    obtain ⟨n, hn⟩ : ∃ n, c.utf8Size + byteLength cs = n + 1 :=
      ⟨c.utf8Size + byteLength cs - 1, by have := c.utf8Size_pos; omega⟩
    rw [List.cons_append, byteLength_cons, hn, takeBytes?, if_pos (by omega), ← hn,
      Nat.add_sub_cancel_left, ih]
    rfl

/-- What is taken comes first, and has as many bytes as were asked for. -/
theorem takeBytes?_eq_some {cs ds : List Char} {n : Nat} (h : takeBytes? cs n = some ds) :
    ∃ rest, cs = ds ++ rest ∧ byteLength ds = n := by
  induction cs generalizing n ds with
  | nil =>
    cases n with
    | zero =>
      obtain rfl := Option.some.inj h
      exact ⟨[], rfl, rfl⟩
    | succ n => cases h
  | cons c cs ih =>
    cases n with
    | zero =>
      obtain rfl := Option.some.inj h
      exact ⟨c :: cs, rfl, rfl⟩
    | succ n =>
      rw [takeBytes?] at h
      split_ifs at h with hsize
      obtain ⟨taken, htaken, rfl⟩ := Option.map_eq_some_iff.mp h
      obtain ⟨rest, rfl, hlength⟩ := ih htaken
      refine ⟨rest, rfl, ?_⟩
      rw [byteLength_cons, hlength]
      omega

/-- What follows the bytes of a text that comes first. -/
theorem suffixAt_append (cs ds : List Char) : suffixAt (cs ++ ds) (byteLength cs) = ds := by
  rw [suffixAt, dropBytes?_append]
  rfl

/-- **A text in the middle is cut out by the bytes before it and its own
bytes.** -/
theorem slice_append (pre mid post : List Char) :
    slice (pre ++ (mid ++ post)) (byteLength pre) (byteLength pre + byteLength mid) = mid := by
  unfold slice
  rw [if_pos (Nat.le_add_right _ _), dropBytes?_append, Nat.add_sub_cancel_left]
  show (takeBytes? (mid ++ post) (byteLength mid)).getD [] = mid
  rw [takeBytes?_append]
  rfl

/-- Only the empty text takes no bytes. -/
theorem byteLength_pos {cs : List Char} (h : cs ≠ []) : 0 < byteLength cs := by
  cases cs with
  | nil => exact absurd rfl h
  | cons c cs =>
    have := c.utf8Size_pos
    rw [byteLength_cons]
    omega

/-- Of two beginnings of a text the one with fewer bytes begins the
other. -/
theorem prefix_of_byteLength_le {cs ds es : List Char} (hcs : cs <+: es) (hds : ds <+: es)
    (hle : byteLength cs ≤ byteLength ds) : cs <+: ds := by
  rcases List.prefix_or_prefix_of_prefix hcs hds with h | ⟨more, rfl⟩
  · exact h
  · cases more with
    | nil => simp
    | cons c more =>
      have hpos := byteLength_pos (List.cons_ne_nil c more)
      rw [byteLength_append] at hle
      omega

/-- **Where a character stands first.** -/
theorem indexOf?_singleton {c : Char} {cs : List Char} {n : Nat} :
    indexOf? [c] cs = some n ↔
      ∃ front back, cs = front ++ c :: back ∧ c ∉ front ∧ front.length = n := by
  induction cs generalizing n with
  | nil =>
    constructor
    · intro h
      cases h
    · rintro ⟨front, back, h, -⟩
      simp at h
  | cons d cs ih =>
    rw [indexOf?]
    by_cases hd : c = d
    · subst hd
      rw [if_pos (by simp)]
      constructor
      · rintro ⟨⟩
        exact ⟨[], cs, rfl, List.not_mem_nil, rfl⟩
      · rintro ⟨front, back, hcs, hfront, rfl⟩
        cases front with
        | nil => rfl
        | cons d front =>
          obtain ⟨rfl, -⟩ := List.cons_eq_cons.mp hcs
          exact absurd List.mem_cons_self hfront
    · rw [if_neg (by simpa using hd), Option.map_eq_some_iff]
      constructor
      · rintro ⟨n, hn, rfl⟩
        obtain ⟨front, back, rfl, hfront, rfl⟩ := ih.mp hn
        exact ⟨d :: front, back, rfl, by simp [hd, hfront], rfl⟩
      · rintro ⟨front, back, hcs, hfront, rfl⟩
        cases front with
        | nil => exact absurd (List.cons_eq_cons.mp hcs).1.symm hd
        | cons d front =>
          obtain ⟨rfl, rfl⟩ := List.cons_eq_cons.mp hcs
          exact ⟨front.length,
            ih.mpr ⟨front, back, rfl, fun h => hfront (List.mem_cons_of_mem _ h), rfl⟩, rfl⟩

end Text

/-- The offset of the place after a text that is read from the start. -/
theorem Location.offset_advance_start (cs : List Char) :
    (Location.start.advance cs).offset = Text.byteLength cs := by
  rw [Location.offset_advance]
  exact Nat.zero_add _

/-! ## Places -/

/-- **A place of a source**: the place after some beginning of it. -/
def IsPlace (source : List Char) (loc : Location) : Prop :=
  ∃ before rest, source = before ++ rest ∧ loc = Location.start.advance before

/-- The beginning of a source is fixed by its length in bytes. -/
theorem append_eq_append_of_byteLength {a b c d : List Char} (h : a ++ b = c ++ d)
    (hlength : Text.byteLength a = Text.byteLength c) : a = c ∧ b = d := by
  have hb : Text.dropBytes? (a ++ b) (Text.byteLength a) = some b := Text.dropBytes?_append a b
  rw [h, hlength, Text.dropBytes?_append] at hb
  obtain rfl := Option.some.inj hb
  exact ⟨List.append_cancel_right h, rfl⟩

namespace IsPlace

variable {source : List Char} {loc loc' : Location}

/-- The start is a place of every source. -/
theorem start (source : List Char) : IsPlace source .start := ⟨[], source, rfl, rfl⟩

/-- No place lies beyond the end. -/
theorem offset_le (h : IsPlace source loc) : loc.offset ≤ Text.byteLength source := by
  obtain ⟨before, rest, rfl, rfl⟩ := h
  rw [Location.offset_advance_start, Text.byteLength_append]
  omega

/-- **A place is fixed by its offset.** -/
theorem eq_of_offset (h : IsPlace source loc) (h' : IsPlace source loc')
    (hoffset : loc.offset = loc'.offset) : loc = loc' := by
  obtain ⟨before, rest, rfl, rfl⟩ := h
  obtain ⟨before', rest', hsource, rfl⟩ := h'
  rw [Location.offset_advance_start, Location.offset_advance_start] at hoffset
  rw [(append_eq_append_of_byteLength hsource hoffset).1]

/-- The text from a place on, and the beginning before it. -/
theorem exists_suffixAt (h : IsPlace source loc) :
    ∃ before, source = before ++ Text.suffixAt source loc.offset ∧
      loc = Location.start.advance before := by
  obtain ⟨before, rest, rfl, rfl⟩ := h
  refine ⟨before, ?_, rfl⟩
  rw [Location.offset_advance_start, Text.suffixAt_append]

end IsPlace

/-! ## What tokens say -/

namespace Lexeme

/-- **A token that says something by itself**: it is neither the end of the
source nor a blank nor a comment, and if it says a name it is one. -/
structure HasContent (lx : Lexeme) : Prop where
  /-- It is not the end of the source. -/
  eof : lx.kind ≠ .eof
  /-- It is no blank. -/
  whitespace : lx.kind ≠ .whitespace
  /-- It is no comment. -/
  comment : lx.kind ≠ .comment
  /-- It is no placeholder. -/
  uvar : lx.kind ≠ .uvar
  /-- Only a name says one. -/
  name : lx.kind = .ident ∨ ∀ name vendorPos custom, lx.payload ≠ .ident name vendorPos custom

/-- The kinds that have content. -/
def contentful (kind : TokenKind) : Bool :=
  kind != .eof && kind != .whitespace && kind != .comment && kind != .uvar

/-- A token of a kind that has content, if it says no name. -/
theorem hasContent_of_kind {lx : Lexeme} (h : contentful lx.kind = true)
    (hname : lx.kind = .ident ∨
      ∀ name vendorPos custom, lx.payload ≠ .ident name vendorPos custom) :
    lx.HasContent := by
  unfold contentful at h
  simp only [Bool.and_eq_true, bne_iff_ne] at h
  exact ⟨h.1.1.1, h.1.1.2, h.1.2, h.2, hname⟩

theorem identLike_hasContent (cs : List Char) : (identLike cs).HasContent := by
  unfold identLike
  extract_lets scanned after name vendorPos small uri? plain
  have hplain : plain.HasContent := hasContent_of_kind rfl (Or.inl rfl)
  split
  · clear_value uri?
    cases uri? <;> exact hasContent_of_kind rfl (Or.inr fun _ _ _ => Payload.noConfusion)
  · split
    · split
      · exact hasContent_of_kind rfl (Or.inr fun _ _ _ => Payload.noConfusion)
      · exact hplain
    · exact hplain

/-- A number has content, whatever its unit. -/
theorem unitKind_contentful (unit : String) :
    contentful ((Unit.kind? unit).getD .dimension) = true := by
  have hknown : ∀ entry ∈ Unit.known, contentful entry.1 = true := by decide
  unfold Unit.kind?
  cases hfind : Unit.known.find? fun entry => entry.2.contains unit with
  | none => rfl
  | some entry => exact hknown entry (List.mem_of_find?_eq_some hfind)

theorem numeric_hasContent (cs : List Char) : (numeric cs).HasContent := by
  refine hasContent_of_kind ?_ (Or.inr fun _ _ _ => ?_) <;>
  · unfold numeric
    extract_lets sign whole afterWhole fraction fractionSize afterFraction exponentSign
      hasExponent exponentDigits exponentSize exponentValue value size after isFloat scanned unit
    clear_value value after unit
    split_ifs <;> first | rfl | exact unitKind_contentful unit | exact Payload.noConfusion

theorem codeRange?_hasContent {cs : List Char} {lx : Lexeme} (h : codeRange? cs = some lx) :
    lx.HasContent := by
  unfold codeRange? at h
  extract_lets first size after firstOk at h
  split_ifs at h <;>
  · obtain rfl := Option.some.inj h
    refine hasContent_of_kind ?_ (Or.inr fun _ _ _ => Payload.noConfusion)
    dsimp only
    split_ifs <;> rfl

/-- A character by itself has content. -/
theorem ofChar_contentful (c : Char) : contentful ((TokenKind.ofChar? c).getD .char) = true := by
  unfold TokenKind.ofChar?
  split <;> rfl

/-- **Punctuation has content**, except for a newline that is escaped. -/
theorem punctuation_hasContent {c : Char} {rest : List Char}
    (h : ¬(c = '\\' ∧ rest.head? = some '\n')) : (punctuation c rest).HasContent := by
  have hnone : ∀ name vendorPos custom,
      (punctuation c rest).payload ≠ .ident name vendorPos custom := by
    have hquoted : ∀ name vendorPos custom,
        (quoted c rest).payload ≠ .ident name vendorPos custom := by
      unfold quoted
      dsimp only
      intro _ _ _
      split_ifs <;> exact Payload.noConfusion
    unfold punctuation
    extract_lets next
    intro _ _ _
    split_ifs <;> first | exact hquoted _ _ _ | exact Payload.noConfusion
  refine hasContent_of_kind ?_ (Or.inr hnone)
  have hquoted : contentful (quoted c rest).kind = true := by
    unfold quoted
    dsimp only
    split_ifs <;> rfl
  have hchar := ofChar_contentful c
  unfold punctuation
  extract_lets next
  split_ifs with _ _ _ _ _ _ hslash hnewline
  all_goals first | rfl | exact hquoted | exact hchar | skip
  exact absurd ⟨eq_of_beq hslash, eq_of_beq hnewline⟩ h

theorem dashed_hasContent (cs : List Char) : (dashed cs).HasContent := by
  have hname := identLike_hasContent cs
  unfold dashed
  split_ifs <;> first
    | exact hname
    | exact hasContent_of_kind rfl (Or.inr fun _ _ _ => Payload.noConfusion)

/-- **A text that starts neither with a blank nor with a comment starts with
a token that has content**, if there is any text, unless it starts with a
newline that is escaped. -/
theorem significant_hasContent {c : Char} {rest : List Char}
    (h : ¬(c = '\\' ∧ rest.head? = some '\n')) : (significant (c :: rest)).HasContent := by
  unfold significant
  dsimp only
  split_ifs
  · exact numeric_hasContent _
  · exact dashed_hasContent _
  · cases hcode : codeRange? (c :: rest) with
    | none => exact hasContent_of_kind rfl (Or.inl rfl)
    | some lx => exact codeRange?_hasContent hcode
  · exact identLike_hasContent _
  · exact punctuation_hasContent h

/-- A blank or a comment is of its own kind and says no name. -/
theorem trivia?_kind {cs : List Char} {lx : Lexeme} (h : trivia? cs = some lx) :
    (lx.kind = .whitespace ∨ lx.kind = .uvar ∨ lx.kind = .comment) ∧
      ∀ name vendorPos custom, lx.payload ≠ .ident name vendorPos custom := by
  cases cs with
  | nil => cases h
  | cons c rest =>
    unfold trivia? at h
    dsimp only at h
    split_ifs at h
    · obtain rfl := Option.some.inj h
      exact ⟨Or.inl rfl, fun _ _ _ => Payload.noConfusion⟩
    · split at h
      · obtain rfl := Option.some.inj h
        exact ⟨Or.inr (Or.inl rfl), fun _ _ _ => Payload.noConfusion⟩
      · obtain rfl := Option.some.inj h
        exact ⟨Or.inr (Or.inr rfl), fun _ _ _ => Payload.noConfusion⟩

/-- **What a text starts with**, by cases: nothing, a blank or comment, a
newline that is escaped, or a token that has content. -/
theorem first_cases (cs : List Char) :
    cs = [] ∨ (∃ lx, trivia? cs = some lx ∧ first cs = lx) ∨
      (∃ rest, cs = '\\' :: '\n' :: rest ∧ trivia? cs = none ∧
        first cs = ⟨.whitespace, .none, 1 + runSize Text.isSpace ('\n' :: rest)⟩) ∨
      (trivia? cs = none ∧ first cs = significant cs ∧ (first cs).HasContent) := by
  unfold first
  cases htrivia : trivia? cs with
  | some lx => exact Or.inr (Or.inl ⟨lx, rfl, rfl⟩)
  | none =>
    cases cs with
    | nil => exact Or.inl rfl
    | cons c rest =>
      refine Or.inr (Or.inr ?_)
      by_cases h : c = '\\' ∧ rest.head? = some '\n'
      · obtain ⟨rfl, hnewline⟩ := h
        obtain ⟨rest, rfl⟩ := List.head?_eq_some_iff.mp hnewline
        exact Or.inl ⟨rest, rfl, rfl, rfl⟩
      · exact Or.inr ⟨rfl, rfl, significant_hasContent h⟩

/-- **A text that is not empty starts with a token that is not the end of
the source.** -/
theorem first_kind_ne_eof {cs : List Char} (h : cs ≠ []) : (first cs).kind ≠ .eof := by
  rcases first_cases cs with hnil | ⟨lx, htrivia, hfirst⟩ | ⟨rest, -, -, hfirst⟩ | ⟨-, -, hcontent⟩
  · exact absurd hnil h
  · rw [hfirst]
    rcases (trivia?_kind htrivia).1 with hkind | hkind | hkind <;> rw [hkind] <;>
      exact TokenKind.noConfusion
  · rw [hfirst]
    exact TokenKind.noConfusion
  · exact hcontent.eof

/-- **Only a name says one**, whatever a text starts with. -/
theorem first_name (cs : List Char) :
    (first cs).kind = .ident ∨
      ∀ name vendorPos custom, (first cs).payload ≠ .ident name vendorPos custom := by
  rcases first_cases cs with rfl | ⟨lx, htrivia, hfirst⟩ | ⟨rest, -, -, hfirst⟩ | ⟨-, -, hcontent⟩
  · exact Or.inr fun _ _ _ => Payload.noConfusion
  · rw [hfirst]
    exact Or.inr (trivia?_kind htrivia).2
  · rw [hfirst]
    exact Or.inr fun _ _ _ => Payload.noConfusion
  · exact hcontent.name

/-- The first token of a text takes a character of it. -/
theorem first_size_pos {cs : List Char} (h : cs ≠ []) : 0 < (first cs).size := by
  unfold first
  cases htrivia : trivia? cs with
  | none => exact significant_size_pos h
  | some lx => exact trivia?_size_pos htrivia

end Lexeme

/-! ## Cut tokens -/

/-- **A token that is cut from a source**: the first token from some
place on, placed there. -/
def Token.IsCut (source : List Char) (t : Token) : Prop :=
  ∃ before rest, source = before ++ rest ∧
    t = (Lexeme.first rest).place (Location.start.advance before) rest

namespace Token.IsCut

variable {source : List Char} {t u : Token}

/-- A cut token starts at a place. -/
theorem location_isPlace (h : t.IsCut source) : IsPlace source t.location := by
  obtain ⟨before, rest, rfl, rfl⟩ := h
  exact ⟨before, rest, rfl, rfl⟩

/-- A cut token stops at a place. -/
theorem stop_isPlace (h : t.IsCut source) : IsPlace source t.stop := by
  obtain ⟨before, rest, rfl, rfl⟩ := h
  refine ⟨before ++ rest.take (Lexeme.first rest).size, rest.drop (Lexeme.first rest).size, ?_, ?_⟩
  · rw [List.append_assoc, List.take_append_drop]
  · rw [Location.advance_append]
    rfl

/-- A cut token does not stop before it starts. -/
theorem location_le_stop (h : t.IsCut source) : t.location.offset ≤ t.stop.offset := by
  obtain ⟨before, rest, rfl, rfl⟩ := h
  show _ ≤ (Location.advance _ _).offset
  rw [Location.offset_advance]
  exact Nat.le_add_right _ _

/-- **The text of a cut token is the slice of the source between its
places.** -/
theorem text_eq_slice (h : t.IsCut source) :
    t.text.toList = Text.slice source t.location.offset t.stop.offset := by
  obtain ⟨before, rest, rfl, rfl⟩ := h
  have hslice := Text.slice_append before (rest.take (Lexeme.first rest).size)
    (rest.drop (Lexeme.first rest).size)
  rw [List.take_append_drop, ← Location.offset_advance_start, ← Location.offset_advance] at hslice
  exact String.toList_ofList.trans hslice.symm

/-- **A token that is not the end of the source takes some of it.** -/
theorem location_lt_stop (h : t.IsCut source) (hkind : t.kind ≠ .eof) :
    t.location.offset < t.stop.offset := by
  obtain ⟨before, rest, rfl, rfl⟩ := h
  have hrest : rest ≠ [] := by
    rintro rfl
    exact hkind rfl
  have htake : rest.take (Lexeme.first rest).size ≠ [] := by
    intro hnil
    rcases List.take_eq_nil_iff.mp hnil with hsize | hsize
    · have := Lexeme.first_size_pos hrest
      omega
    · exact hrest hsize
  show _ < (Location.advance _ _).offset
  rw [Location.offset_advance]
  have := Text.byteLength_pos htake
  show (Location.start.advance before).offset < _
  omega

/-- The end of the source is the place after all of it. -/
theorem location_of_eof (h : t.IsCut source) (hkind : t.kind = .eof) :
    t.location = Location.start.advance source := by
  obtain ⟨before, rest, rfl, rfl⟩ := h
  by_cases hrest : rest = []
  · subst hrest
    rw [List.append_nil]
    rfl
  · exact absurd hkind (Lexeme.first_kind_ne_eof hrest)

/-- **A token that is no name is not custom.** -/
theorem isCustomIdent_eq (h : t.IsCut source) (hkind : t.kind ≠ .ident) :
    t.isCustomIdent = false := by
  obtain ⟨before, rest, -, rfl⟩ := h
  rcases Lexeme.first_name rest with hname | hname
  · exact absurd hname hkind
  · unfold Token.isCustomIdent
    split
    · next heq => exact absurd heq (hname _ _ _)
    · rfl

/-- **A cut token is fixed by where it starts.** -/
theorem eq_of_offset (h : t.IsCut source) (h' : u.IsCut source)
    (hoffset : t.location.offset = u.location.offset) : t = u := by
  obtain ⟨before, rest, rfl, rfl⟩ := h
  obtain ⟨before', rest', hsource, rfl⟩ := h'
  have hlength : Text.byteLength before = Text.byteLength before' := by
    rw [← Location.offset_advance_start, ← Location.offset_advance_start]
    exact hoffset
  obtain ⟨rfl, rfl⟩ := append_eq_append_of_byteLength hsource hlength
  rfl

end Token.IsCut

end Stylesheet
