import Stylesheet.Proofs.Passing
import Stylesheet.Proofs.Tiling

/-!
# Hidden tokens are filtered out

A stream asked for tokens in one mode, over and over, hands out the tokens
of the text without those that the mode hides. Both sides go through the
text alike: what is passed over before a token is cut (`Mode.skipped`) are
whole tokens of the text, and the token cut after them is the next one that
stays.

One kind of blank stays even where blanks are hidden. A newline that is
escaped is no blank to pass over, and only when it has been cut is it found
to be one (`Token.isJoin`).
-/

namespace Stylesheet

/-- **A newline that is escaped**, with the blanks after it. -/
def Token.isJoin (t : Token) : Bool := t.kind == .whitespace && t.text.toList.head? == some '\\'

/-- **Whether a mode hands out a token** of the text: those that it does not
hide, and newlines that are escaped. -/
def Mode.shows (mode : Mode) (t : Token) : Bool := !mode.hides t || t.isJoin

/-- **The next `n` tokens of a mode**, and the stream after them. -/
def Stream.gets (s : Stream) (placeholders blanks : Bool) : Nat → List Token × Stream
  | 0 => ([], s)
  | n + 1 =>
    let (t, s) := s.get placeholders blanks
    let (ts, s) := s.gets placeholders blanks n
    (t :: ts, s)

variable {mode : Mode}

namespace Lexeme

/-- Blanks and comments do not start with a backslash. -/
theorem isJoin_of_trivia {cs : List Char} {lx : Lexeme} (h : trivia? cs = some lx)
    (loc : Location) : (lx.place loc cs).isJoin = false := by
  have hpos := trivia?_size_pos h
  cases cs with
  | nil => cases h
  | cons c rest =>
    have hhead : (lx.place loc (c :: rest)).text.toList.head? = some c := by
      unfold place
      rw [String.toList_ofList, List.head?_take, if_neg (by omega)]
      rfl
    have hc : c ≠ '\\' := by
      rintro rfl
      cases h
    unfold Token.isJoin
    rw [hhead]
    simp [hc]

/-- Every token is asked for when all are. -/
theorem firstOf_everything (cs : List Char) : Mode.everything.firstOf cs = first cs := by
  unfold Mode.firstOf first
  cases trivia? cs with
  | none => rfl
  | some lx =>
    show (Mode.everything.keeps lx).getD lx = lx
    unfold Mode.keeps
    split <;> rfl

/-- **The first token of a text is handed out unless it is passed over.** -/
theorem shows_first (hcomments : mode.comments = false) {cs : List Char} (loc : Location)
    (hkept : ∀ lx, trivia? cs = some lx → mode.keeps lx ≠ none) :
    mode.shows ((first cs).place loc cs) = true := by
  unfold Mode.shows
  rcases first_cases cs with rfl | ⟨lx, htrivia, hfirst⟩ | ⟨rest, rfl, -, hfirst⟩ | ⟨-, -, hcontent⟩
  · simp [Mode.hides, place, first, trivia?, significant]
  · have hhides : mode.hides (lx.place loc cs) = false :=
      Bool.eq_false_iff.mpr fun hhides =>
        hkept lx htrivia ((Mode.keeps_eq_none_iff hcomments htrivia loc).mpr hhides)
    rw [hfirst, hhides]
    rfl
  · rw [hfirst]
    simp [Token.isJoin, place, Nat.add_comm 1]
  · simp [Mode.hides, place, hcontent.comment, hcontent.uvar, hcontent.whitespace]

end Lexeme

/-- **The tokens of a text that a mode hands out**, where the text starts at
a place. -/
def shownTokens (mode : Mode) (loc : Location) (cs : List Char) : List Token :=
  (tokensOf 0 loc cs).filter mode.shows

/-- What is passed over is not handed out. -/
theorem shownTokens_of_trivia (hcomments : mode.comments = false) {cs : List Char} {lx : Lexeme}
    (htrivia : Lexeme.trivia? cs = some lx) (hkeeps : mode.keeps lx = none) (loc : Location) :
    shownTokens mode loc cs =
      shownTokens mode (loc.advance (cs.take lx.size)) (cs.drop lx.size) := by
  have hne : cs ≠ [] := by
    rintro rfl
    cases htrivia
  have hfirst : Mode.everything.firstOf cs = lx := by
    rw [Lexeme.firstOf_everything]
    unfold Lexeme.first
    rw [htrivia]
    rfl
  have hshows : mode.shows (lx.place loc cs) = false := by
    unfold Mode.shows
    rw [(Mode.keeps_eq_none_iff hcomments htrivia loc).mp hkeeps, Lexeme.isJoin_of_trivia htrivia]
    rfl
  unfold shownTokens
  rw [tokensOf_of_ne_nil loc hne, hfirst, List.filter_cons_of_neg (by rw [hshows]; simp)]
  rfl

namespace Reader

/-- The place after all that is left. -/
def finish (r : Reader) : Location := r.location.advance r.rest

theorem finish_advance (r : Reader) (n : Nat) : (r.advance n).finish = r.finish := by
  show (r.location.advance (r.rest.take n)).advance (r.rest.drop n) = r.location.advance r.rest
  rw [← Location.advance_append, List.take_append_drop]

theorem finish_lex (r : Reader) (mode : Mode) : (r.lex mode).2.finish = r.finish := by
  unfold lex
  rw [finish_advance, finish_advance]

/-- **Cutting the next token of a mode** takes the first of those that it
hands out, or finds the end of the text when there is none. -/
theorem lex_shownTokens (r : Reader) (mode : Mode) (hcomments : mode.comments = false) :
    (shownTokens mode r.location r.rest = [] ∧ (r.lex mode).1 = Stream.eofAt r.finish) ∨
      (shownTokens mode r.location r.rest =
          (r.lex mode).1 :: shownTokens mode (r.lex mode).2.location (r.lex mode).2.rest ∧
        (r.lex mode).1.isEof = false) := by
  refine lex_induction mode
    (P := fun r =>
      (shownTokens mode r.location r.rest = [] ∧ (r.lex mode).1 = Stream.eofAt r.finish) ∨
        (shownTokens mode r.location r.rest =
            (r.lex mode).1 :: shownTokens mode (r.lex mode).2.location (r.lex mode).2.rest ∧
          (r.lex mode).1.isEof = false))
    (fun r lx htrivia hkeeps hlex ih => ?_) (fun r hkept hlex => ?_) r
  · rw [hlex, shownTokens_of_trivia hcomments htrivia hkeeps, ← r.finish_advance lx.size]
    exact ih
  · rw [hlex, Mode.firstOf_eq_first hcomments]
    by_cases hrest : r.rest = []
    · left
      unfold finish
      rw [hrest]
      exact ⟨rfl, rfl⟩
    · right
      have hshows := Lexeme.shows_first hcomments r.location hkept
      constructor
      · unfold shownTokens
        rw [tokensOf_of_ne_nil r.location hrest, Lexeme.firstOf_everything,
          List.filter_cons_of_pos hshows]
        rfl
      · exact beq_eq_false_iff_ne.mpr (Lexeme.first_kind_ne_eof hrest)

end Reader

namespace Stream

/-- **As many requests as there are tokens to hand out** give these tokens,
and the one after them the end of the source. -/
theorem gets_eq_shownTokens (r : Reader) (behind : List Token) (placeholders blanks : Bool)
    (ts : List Token) (hts : shownTokens ⟨blanks, placeholders, false⟩ r.location r.rest = ts) :
    (gets ⟨r, behind, []⟩ placeholders blanks ts.length).1 = ts ∧
      (∀ t ∈ ts, t.isEof = false) ∧
      ((gets ⟨r, behind, []⟩ placeholders blanks ts.length).2.get placeholders blanks).1 =
        eofAt r.finish := by
  induction ts generalizing r behind with
  | nil =>
    refine ⟨rfl, fun t ht => absurd ht List.not_mem_nil, ?_⟩
    rcases r.lex_shownTokens ⟨blanks, placeholders, false⟩ rfl with
      ⟨-, heof⟩ | ⟨hcons, -⟩
    · exact heof
    · rw [hts] at hcons
      cases hcons
  | cons t ts ih =>
    rcases r.lex_shownTokens ⟨blanks, placeholders, false⟩ rfl with
      ⟨hnil, -⟩ | ⟨hcons, heof⟩
    · rw [hts] at hnil
      cases hnil
    · rw [hts] at hcons
      obtain ⟨rfl, hrest⟩ := List.cons.inj hcons
      obtain ⟨hgets, hnone, hend⟩ := ih _ ((r.lex ⟨blanks, placeholders, false⟩).1 ::
        behind |>.take capacity) hrest.symm
      rw [Reader.finish_lex] at hend
      refine ⟨congrArg _ hgets, fun u hu => ?_, hend⟩
      rcases List.mem_cons.mp hu with rfl | hu
      · exact heof
      · exact hnone u hu

/-- **Skipping hidden tokens is filtering.** Asked over and over for the
next token of a mode, the stream of a text hands out the tokens of the text
that are no comments, without the blanks unless blanks are asked for and
without the placeholders unless placeholders are; then it comes to the end
of the source. Only a newline that is escaped is handed out even where
blanks are not asked for. -/
theorem gets_ofString (text : String) (placeholders blanks : Bool) :
    let tokens := (ofString text).allTokens.1.filter fun t =>
      t.kind != .comment && (blanks || t.kind != .whitespace || t.isJoin) &&
        (placeholders || t.kind != .uvar)
    let handed := (ofString text).gets placeholders blanks tokens.length
    handed.1 = tokens ∧ (∀ t ∈ tokens, t.isEof = false) ∧
      (handed.2.get placeholders blanks).1 =
        eofAt (Location.start.advance (normalizeNewlines text.toList)) := by
  intro tokens
  have htokens : tokens = shownTokens ⟨blanks, placeholders, false⟩ .start
      (normalizeNewlines text.toList) := by
    show List.filter _ (ofString text).allTokens.1 = _
    rw [allTokens_ofString]
    refine List.filter_congr fun t _ => ?_
    unfold Mode.shows Mode.hides Token.isJoin
    by_cases hblank : t.kind = .whitespace
    · rw [hblank]
      cases blanks <;> cases placeholders <;> cases t.text.toList.head? == some '\\' <;> rfl
    · rw [beq_eq_false_iff_ne.mpr hblank, bne_iff_ne.mpr hblank]
      cases placeholders <;> simp [bne, Bool.not_or]
  have hrest : (Reader.ofString text).rest = normalizeNewlines text.toList := Text.suffixAt_zero _
  have hall := gets_eq_shownTokens (Reader.ofString text) [] placeholders blanks tokens
    (by rw [htokens, hrest]; rfl)
  have hfinish : (Reader.ofString text).finish =
      Location.start.advance (normalizeNewlines text.toList) := by
    unfold Reader.finish
    rw [hrest]
    rfl
  rw [hfinish] at hall
  exact hall

/-- A newline that is escaped is a blank, but is handed out where blanks are
not asked for. -/
theorem get_escaped_newline :
    let tokens := (ofString "\\\n").allTokens.1.filter fun t =>
      t.kind != .comment && t.kind != .whitespace && t.kind != .uvar
    tokens = [] ∧ ((ofString "\\\n").get false false).1 =
      ⟨.whitespace, .none, "\\\n", ⟨1, 1, 0⟩, ⟨2, 1, 2⟩⟩ := by
  constructor <;> rfl

end Stream

end Stylesheet
