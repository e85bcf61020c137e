import Stylesheet.Proofs.HiddenTokens
import Stylesheet.Proofs.Requests

/-!
# Taking tokens back

Handing out a token **pushes** tokens behind: the token itself, and before it
those of the window that its mode hides. The window has room for five, so that
five tokens that were handed out with nothing passed over can all be taken
back, and come again in the same order (`Stream.gets_taken_back`).

Looking ahead hands out tokens that are not hidden and takes as many back as it
was asked for. What was passed over on the way stays behind. A blank between
the tokens is therefore gone after looking at them: the next one who asks for
blanks does not get it, or gets another token than the one that was next. So
looking ahead goes unseen exactly if nothing is hidden among the tokens that it
looks at (`Stream.lookahead_unseen_iff`).
-/

namespace Stylesheet

/-- **Every token but the comments.** -/
abbrev Mode.full : Mode := ⟨true, true, false⟩

/-- **A token that is handed out in every mode.** -/
def Token.IsPlain (t : Token) : Prop := t.kind ≠ .whitespace ∧ t.kind ≠ .uvar

instance (t : Token) : Decidable t.IsPlain := inferInstanceAs (Decidable (_ ∧ _))

section Mode

variable {mode : Mode} {t : Token}

/-- With blanks and placeholders asked for, only comments are hidden. -/
theorem Mode.hides_full : Mode.full.hides t = true ↔ t.kind = .comment := by
  simp [Mode.hides]

/-- **No mode hides a plain token.** -/
theorem Token.IsPlain.hides_eq_false (ht : t.IsPlain) (hcomment : t.kind ≠ .comment)
    (mode : Mode) : mode.hides t = false := by
  unfold Mode.hides
  rw [beq_eq_false_iff_ne.mpr hcomment, beq_eq_false_iff_ne.mpr ht.1,
    beq_eq_false_iff_ne.mpr ht.2, Bool.and_false, Bool.and_false]
  rfl

/-- A token that is neither plain nor a comment is not handed out unless it is
asked for. -/
theorem Mode.hides_visible (hcomment : t.kind ≠ .comment) :
    Mode.visible.hides t = false ↔ t.IsPlain := by
  simp [Mode.hides, Mode.visible, Token.IsPlain, hcomment]

end Mode

/-- **Tokens cut from a source** one after the other in a mode. -/
inductive Cuts (mode : Mode) : Reader → List Token → Reader → Prop
  /-- None. -/
  | nil (r : Reader) : Cuts mode r [] r
  /-- The next one, and those after it. -/
  | cons {r r' : Reader} {ts : List Token} (rest : Cuts mode (r.lex mode).2 ts r') :
      Cuts mode r ((r.lex mode).1 :: ts) r'

namespace Cuts

variable {mode : Mode} {r r' r'' : Reader} {ts us : List Token}

theorem append (h : Cuts mode r ts r') (h' : Cuts mode r' us r'') : Cuts mode r (ts ++ us) r'' := by
  induction h with
  | nil => exact h'
  | cons _ ih => exact .cons (ih h')

/-- The reader moves on, and the tokens lie after the place where it stood. -/
theorem location_le (h : Cuts mode r ts r') (hmode : mode.comments = false) (hat : r.IsAt) :
    r.location.offset ≤ r'.location.offset ∧
      ∀ t ∈ ts, r.location.offset ≤ t.location.offset ∧ t.IsCut r.source := by
  induction h with
  | nil => exact ⟨Nat.le_refl _, fun _ ht => absurd ht List.not_mem_nil⟩
  | @cons r r' ts _ ih =>
    obtain ⟨hcut, hle, hat', hstop⟩ := hat.lex hmode
    obtain ⟨hreader, hrest⟩ := ih hat'
    have hon : r.location.offset ≤ (r.lex mode).2.location.offset := by
      rw [hstop]
      exact Nat.le_trans hle hcut.location_le_stop
    refine ⟨Nat.le_trans hon hreader, List.forall_mem_cons.mpr ⟨⟨hle, hcut⟩, fun t ht => ?_⟩⟩
    exact ⟨Nat.le_trans hon (hrest t ht).1, (hrest t ht).2⟩

/-- Comments are not among them. -/
theorem no_comment (h : Cuts mode r ts r') (hmode : mode.comments = false) :
    ∀ t ∈ ts, t.kind ≠ .comment := by
  induction h with
  | nil => exact fun _ ht => absurd ht List.not_mem_nil
  | cons _ ih => exact List.forall_mem_cons.mpr ⟨Reader.lex_kind_ne_comment _ hmode, ih⟩

end Cuts

namespace Stream

variable {s s' s'' : Stream} {mode : Mode} {t : Token} {ts us pushed pushed' : List Token}
  {placeholders blanks : Bool}

/-! ## What handing out pushes behind -/

/-- **Tokens pushed behind** when some of them were handed out in a mode: they
are taken from those ahead and then cut from the source, and there is room for
five of them. If not all of them were handed out, then some that were ahead are
hidden. -/
structure Pushes (mode : Mode) (s : Stream) (handed pushed : List Token) (s' : Stream) : Prop where
  /-- They are behind now, as far as there is room. -/
  behind : ∃ room, capacity ≤ room ∧ s'.behind = (pushed.reverse ++ s.behind).take room
  /-- They were ahead or are cut. -/
  ahead : ∃ cut, pushed ++ s'.ahead = s.ahead ++ cut ∧ Cuts mode s.reader cut s'.reader ∧
    (cut = [] ∨ s'.ahead = [])
  /-- The others are hidden. -/
  passed : pushed = handed ∨ handed.length < pushed.length ∧ ∃ u ∈ s.ahead, mode.hides u = true

/-- Taking from a list of which only a part is left. -/
theorem take_append_take {α : Type} (xs ys : List α) (m n : Nat) :
    (xs ++ ys.take n).take m = (xs ++ ys).take (min m (xs.length + n)) := by
  have hxs : xs.take (min m (xs.length + n)) = xs.take m := by
    rcases Nat.le_total m (xs.length + n) with hle | hle
    · rw [Nat.min_eq_left hle]
    · rw [Nat.min_eq_right hle, List.take_of_length_le (Nat.le_add_right _ n),
        List.take_of_length_le (Nat.le_trans (Nat.le_add_right _ n) hle)]
  rw [List.take_append, List.take_append, List.take_take, hxs,
    show min (m - xs.length) n = min m (xs.length + n) - xs.length by omega]

namespace Pushes

/-- Where none is handed out, none is pushed. -/
theorem refl (mode : Mode) (s : Stream) : Pushes mode s [] [] s where
  behind := ⟨max capacity s.behind.length, Nat.le_max_left _ _,
    (List.take_of_length_le (Nat.le_max_right _ _)).symm⟩
  ahead := ⟨[], (List.append_nil _).symm, .nil _, Or.inl rfl⟩
  passed := Or.inl rfl

/-- What is ahead comes from what was. -/
theorem mem_ahead (h : Pushes mode s ts pushed s') (ht : t ∈ s'.ahead) : t ∈ s.ahead := by
  obtain ⟨cut, hahead, -, rfl | hnil⟩ := h.ahead
  · rw [List.append_nil] at hahead
    exact hahead ▸ List.mem_append_right _ ht
  · rw [hnil] at ht
    cases ht

/-- At least as many are pushed as are handed out. -/
theorem length_le (h : Pushes mode s ts pushed s') : ts.length ≤ pushed.length := by
  rcases h.passed with rfl | ⟨hlt, -⟩
  · exact Nat.le_refl _
  · exact Nat.le_of_lt hlt

theorem trans (h : Pushes mode s ts pushed s') (h' : Pushes mode s' us pushed' s'') :
    Pushes mode s (ts ++ us) (pushed ++ pushed') s'' where
  behind := by
    obtain ⟨room, hroom, hbehind⟩ := h.behind
    obtain ⟨room', hroom', hbehind'⟩ := h'.behind
    refine ⟨min room' (pushed'.length + room), by omega, ?_⟩
    rw [hbehind', hbehind, take_append_take, List.length_reverse, List.reverse_append,
      List.append_assoc]
  ahead := by
    obtain ⟨cut, hahead, hcuts, hnil⟩ := h.ahead
    obtain ⟨cut', hahead', hcuts', hnil'⟩ := h'.ahead
    refine ⟨cut ++ cut', ?_, hcuts.append hcuts', ?_⟩
    · rw [List.append_assoc, hahead', ← List.append_assoc, hahead, List.append_assoc]
    · rcases hnil' with rfl | hnil'
      · rcases hnil with rfl | hnil
        · exact Or.inl rfl
        · rw [hnil, List.append_nil] at hahead'
          exact Or.inr (List.append_eq_nil_iff.mp hahead').2
      · exact Or.inr hnil'
  passed := by
    have hle := h.length_le
    have hle' := h'.length_le
    rw [List.length_append, List.length_append]
    rcases h.passed with rfl | ⟨hlt, hhidden⟩
    · rcases h'.passed with rfl | ⟨hlt', u, hu, hhides⟩
      · exact Or.inl rfl
      · exact Or.inr ⟨by omega, u, h.mem_ahead hu, hhides⟩
    · exact Or.inr ⟨by omega, hhidden⟩

/-- A hidden token ahead is pushed before the others. -/
theorem of_hidden {r : Reader} {behind ahead : List Token} (ht : mode.hides t = true)
    (h : Pushes mode ⟨r, t :: behind, ahead⟩ ts pushed s') :
    Pushes mode ⟨r, behind, t :: ahead⟩ ts (t :: pushed) s' where
  behind := by
    obtain ⟨room, hroom, hbehind⟩ := h.behind
    refine ⟨room, hroom, ?_⟩
    rw [hbehind, List.reverse_cons, List.append_assoc]
    rfl
  ahead := by
    obtain ⟨cut, hahead, hcuts⟩ := h.ahead
    exact ⟨cut, congrArg (t :: ·) hahead, hcuts⟩
  passed := Or.inr ⟨Nat.lt_succ_of_le h.length_le, t, List.mem_cons_self, ht⟩

end Pushes

/-- **What handing out a token pushes behind.** -/
theorem get_pushes (s : Stream) (placeholders blanks : Bool) :
    ∃ pushed, Pushes ⟨blanks, placeholders, false⟩ s [(s.get placeholders blanks).1] pushed
      (s.get placeholders blanks).2 := by
  obtain ⟨r, behind, ahead⟩ := s
  induction ahead generalizing behind with
  | nil =>
    rw [get_bare]
    exact ⟨[_], ⟨capacity, Nat.le_refl _, rfl⟩, ⟨[_], rfl, .cons (.nil _), Or.inr rfl⟩, Or.inl rfl⟩
  | cons t ahead ih =>
    by_cases ht : Mode.hides ⟨blanks, placeholders, false⟩ t = true
    · obtain ⟨pushed, hpushes⟩ := ih (t :: behind)
      rw [get_of_hidden r behind ahead ht]
      exact ⟨t :: pushed, hpushes.of_hidden ht⟩
    · rw [get_of_ahead r behind ahead (Bool.eq_false_iff.mpr ht)]
      refine ⟨[t], ⟨_, Nat.le_max_left capacity (t :: behind).length, ?_⟩,
        ⟨[], (List.append_nil _).symm, .nil r, Or.inl rfl⟩, Or.inl rfl⟩
      exact (List.take_of_length_le (Nat.le_max_right _ _)).symm

theorem length_gets (s : Stream) (placeholders blanks : Bool) (n : Nat) :
    (s.gets placeholders blanks n).1.length = n := by
  induction n generalizing s with
  | zero => rfl
  | succ n ih => exact congrArg (· + 1) (ih _)

/-- **What handing out tokens pushes behind.** -/
theorem gets_pushes (s : Stream) (placeholders blanks : Bool) (n : Nat) :
    ∃ pushed, Pushes ⟨blanks, placeholders, false⟩ s (s.gets placeholders blanks n).1 pushed
      (s.gets placeholders blanks n).2 := by
  induction n generalizing s with
  | zero => exact ⟨[], .refl _ s⟩
  | succ n ih =>
    obtain ⟨pushed, hpushed⟩ := s.get_pushes placeholders blanks
    obtain ⟨pushed', hpushed'⟩ := ih (s.get placeholders blanks).2
    exact ⟨pushed ++ pushed', hpushed.trans hpushed'⟩

/-- With no comment ahead, nothing is passed over if all else is asked for. -/
theorem Pushes.eq_handed (h : Pushes .full s ts pushed s') (hs : ∀ t ∈ s.ahead, t.kind ≠ .comment) :
    pushed = ts := by
  rcases h.passed with heq | ⟨-, u, hu, hhides⟩
  · exact heq
  · exact absurd (Mode.hides_full.mp hhides) (hs u hu)

/-! ## Taking back as many as were handed out -/

/-- Take `n` tokens back one by one, or complain that there are not as many. -/
def ungets (s : Stream) : Nat → Except Diagnostic Stream
  | 0 => .ok s
  | n + 1 => s.unget.bind fun s => s.ungets n

/-- **Taking back what is behind.** -/
theorem backMany_of_behind {us behind : List Token} (h : s.behind = us ++ behind) :
    s.backMany us.length = ⟨s.reader, behind, us.reverse ++ s.ahead⟩ := by
  obtain ⟨r, _, ahead⟩ := s
  obtain rfl := h
  induction us generalizing ahead with
  | nil => rfl
  | cons u us ih =>
    have hback := ih (u :: ahead)
    rw [List.reverse_cons, List.append_assoc]
    exact hback

/-- As long as there are tokens behind, there is nothing to complain of. -/
theorem ungets_eq_ok {us behind : List Token} (h : s.behind = us ++ behind) :
    s.ungets us.length = .ok (s.backMany us.length) := by
  obtain ⟨r, _, ahead⟩ := s
  obtain rfl := h
  induction us generalizing ahead with
  | nil => rfl
  | cons u us ih => exact ih (u :: ahead)

/-- Tokens ahead are handed out one after the other if they are not hidden. -/
theorem gets_of_ahead (r : Reader) (behind ahead : List Token)
    (hts : ∀ t ∈ ts, Mode.hides ⟨blanks, placeholders, false⟩ t = false) :
    gets ⟨r, behind, ts ++ ahead⟩ placeholders blanks ts.length =
      (ts, ⟨r, ts.reverse ++ behind, ahead⟩) := by
  induction ts generalizing behind with
  | nil => rfl
  | cons t ts ih =>
    obtain ⟨ht, hts⟩ := List.forall_mem_cons.mp hts
    have hget := get_of_ahead r behind (ts ++ ahead) ht
    rw [List.cons_append, List.length_cons, gets, hget]
    dsimp only
    rw [ih (t :: behind) hts, List.reverse_cons, List.append_assoc]
    rfl

/-- **Up to five tokens can be taken back.** Whatever a stream was asked for
before, up to five tokens that it hands out, blanks and placeholders included,
can be taken back one by one without a complaint. The reader has moved on, if
at all, and stays where it is. Asked again, the stream hands out the same tokens
and is then what it was when they had been handed out first. -/
theorem gets_taken_back {text : String} {known : List Location} (h : Reached text known s)
    {k : Nat} (hk : k ≤ 5) :
    ∃ back, (s.gets true true k).2.ungets k = .ok back ∧
      s.reader.location.offset ≤ back.reader.location.offset ∧
      back.reader = (s.gets true true k).2.reader ∧
      back.gets true true k = s.gets true true k := by
  obtain ⟨hsteady, -⟩ := h.isSteady
  have hahead : ∀ t ∈ s.ahead, t.kind ≠ .comment := fun t ht =>
    hsteady.no_comment t (List.mem_append_right _ ht)
  obtain ⟨pushed, hpushes⟩ := s.gets_pushes true true k
  have hlength := s.length_gets true true k
  obtain rfl := hpushes.eq_handed hahead
  generalize s.gets true true k = handed at hpushes hlength ⊢
  obtain ⟨ts, after⟩ := handed
  dsimp only at hpushes hlength ⊢
  -- all of them are still behind
  obtain ⟨room, hroom, hbehind⟩ := hpushes.behind
  rw [List.take_append, List.take_of_length_le
    (by rw [List.length_reverse, hlength]; exact Nat.le_trans hk hroom)] at hbehind
  obtain ⟨cut, hcut, hcuts, -⟩ := hpushes.ahead
  have hback := backMany_of_behind hbehind
  have hungets := ungets_eq_ok hbehind
  rw [List.length_reverse, hlength] at hback hungets hbehind
  rw [List.reverse_reverse] at hback
  have hshown : ∀ t ∈ ts, Mode.full.hides t = false := fun t ht => by
    have hmem : t ∈ s.ahead ++ cut := hcut ▸ List.mem_append_left _ ht
    refine Bool.eq_false_iff.mpr fun hhides => ?_
    rcases List.mem_append.mp hmem with hmem | hmem
    · exact hahead t hmem (Mode.hides_full.mp hhides)
    · exact hcuts.no_comment rfl t hmem (Mode.hides_full.mp hhides)
  rw [hback] at hungets
  have hagain := gets_of_ahead after.reader (List.take (room - k) s.behind) after.ahead hshown
  rw [hlength, ← hbehind] at hagain
  exact ⟨_, hungets, (hcuts.location_le rfl hsteady.isSound.isAt).1, rfl, hagain⟩

/-- Five tokens after the first of a text, the next of which was ahead already.
When they are behind there is no room for the first one any more. -/
theorem gets_taken_back_full :
    let s := (((ofString "a b c/**/d").get false true).2.get false true).2.back
    let handed := s.gets true true 5
    s.window.map (·.text) = ["a", " "] ∧ handed.1.map (·.text) = [" ", "b", " ", "c", "d"] ∧
      handed.2.window.map (·.text) = [" ", "b", " ", "c", "d"] ∧
      ∃ back, handed.2.ungets 5 = .ok back ∧ back.gets true true 5 = handed := by
  intro s handed
  have hfirst := Reached.ask (.get false true) (@Reached.start "a b c/**/d") fun _ h => by cases h
  have hback := Reached.ask .unget (.ask (.get false true) hfirst fun _ h => by cases h)
    fun _ h => by cases h
  obtain ⟨back, hungets, -, -, hagain⟩ := gets_taken_back hback (Nat.le_refl 5)
  exact ⟨by decide +kernel, by decide +kernel, by decide +kernel, back, hungets, hagain⟩

/-! ## Looking ahead -/

/-- **The tokens handed out** when one is asked for in each of some modes. -/
def handed (s : Stream) : List (Bool × Bool) → List Token
  | [] => []
  | (placeholders, blanks) :: modes =>
    (s.get placeholders blanks).1 :: (s.get placeholders blanks).2.handed modes

/-- Handing out tokens that are not hidden, one after the other. -/
theorem grabMany_eq (s : Stream) (n : Nat) :
    (s.grabMany (n + 1)).2 = (s.gets false false (n + 1)).2 := by
  induction n generalizing s with
  | zero => rfl
  | succ n ih => exact ih s.grab.2

/-- **What looking ahead leaves.** Of the tokens that were pushed behind, as many
are taken back as were handed out, and those before them are not. -/
theorem lookahead_pushes (s : Stream) (k : Nat) {n : Nat} (hn : min (max k 1) 4 = n)
    (hsame : s.gets false false n = s.gets placeholders blanks n) :
    ∃ skipped kept room, kept.length = n ∧ 0 < room ∧
      Pushes ⟨blanks, placeholders, false⟩ s (s.gets placeholders blanks n).1 (skipped ++ kept)
        (s.gets placeholders blanks n).2 ∧
      (s.lookahead k).2 = ⟨(s.gets placeholders blanks n).2.reader,
        (skipped.reverse ++ s.behind).take room,
        kept ++ (s.gets placeholders blanks n).2.ahead⟩ := by
  have hlookahead : (s.lookahead k).2 = (s.gets placeholders blanks n).2.backMany n := by
    obtain ⟨m, rfl⟩ : ∃ m, n = m + 1 := ⟨n - 1, by omega⟩
    rw [← hsame, ← grabMany_eq, ← hn]
    rfl
  obtain ⟨pushed, hpushes⟩ := s.gets_pushes placeholders blanks n
  have hmany := hpushes.length_le
  rw [length_gets] at hmany
  obtain ⟨room, hroom, hbehind⟩ := hpushes.behind
  have hfive : 5 ≤ room := hroom
  obtain ⟨skipped, kept, rfl, hkept⟩ : ∃ skipped kept, pushed = skipped ++ kept ∧
      kept.length = n := by
    refine ⟨pushed.take (pushed.length - n), pushed.drop (pushed.length - n),
      (List.take_append_drop _ _).symm, ?_⟩
    rw [List.length_drop]
    omega
  refine ⟨skipped, kept, room - n, hkept, by omega, hpushes, ?_⟩
  have hlength : kept.reverse.length = n := by rw [List.length_reverse, hkept]
  rw [List.reverse_append, List.append_assoc, List.take_append,
    List.take_of_length_le (by omega), hlength] at hbehind
  have hback := backMany_of_behind hbehind
  rw [hlength, List.reverse_reverse] at hback
  rw [hlookahead, hback]

/-- **With a plain token next** it does not matter in what mode it is asked
for. -/
theorem get_of_isPlain (hs : ∀ t ∈ s.ahead, t.kind ≠ .comment)
    (ht : (s.get true true).1.IsPlain) (placeholders blanks : Bool) :
    s.get placeholders blanks = s.get true true := by
  obtain ⟨r, behind, ahead⟩ := s
  cases ahead with
  | nil =>
    have hlex : r.lex ⟨blanks, placeholders, false⟩ = r.lex .full := by
      refine r.lex_eq_lex rfl rfl (fun t hhides => ?_)
        (Token.IsPlain.hides_eq_false ht (r.lex_kind_ne_comment rfl) _)
      rw [Mode.hides, Mode.hides_full.mp hhides]
      rfl
    rw [get_bare, get_bare, hlex]
  | cons t ahead =>
    have hcomment := hs t List.mem_cons_self
    have hfull : Mode.full.hides t = false :=
      Bool.eq_false_iff.mpr fun hhides => hcomment (Mode.hides_full.mp hhides)
    rw [get_of_ahead r behind ahead hfull] at ht ⊢
    exact get_of_ahead r behind ahead (Token.IsPlain.hides_eq_false ht hcomment _)

/-- No comment is ahead after a token is handed out. -/
theorem no_comment_get (hs : ∀ t ∈ s.ahead, t.kind ≠ .comment) (placeholders blanks : Bool) :
    ∀ t ∈ (s.get placeholders blanks).2.ahead, t.kind ≠ .comment := by
  obtain ⟨pushed, hpushes⟩ := s.get_pushes placeholders blanks
  exact fun t ht => hs t (hpushes.mem_ahead ht)

/-- **With plain tokens next** as many tokens are the same in every mode. -/
theorem gets_of_isPlain (hs : ∀ t ∈ s.ahead, t.kind ≠ .comment) {n : Nat}
    (hts : ∀ t ∈ (s.gets true true n).1, t.IsPlain) :
    s.gets false false n = s.gets true true n := by
  induction n generalizing s with
  | zero => rfl
  | succ n ih =>
    obtain ⟨ht, hts⟩ := List.forall_mem_cons.mp hts
    have hget := get_of_isPlain hs ht false false
    have hrest := ih (no_comment_get hs true true) hts
    unfold gets
    rw [hget]
    dsimp only
    rw [hrest]

/-! ### Plain tokens that were looked at -/

/-- **A stream that has looked further**: plain tokens are ahead that the other
has still to cut. -/
def LooksOn (s s' : Stream) : Prop :=
  ∃ cut, s'.ahead = s.ahead ++ cut ∧ Cuts .full s.reader cut s'.reader ∧ ∀ t ∈ cut, t.IsPlain

/-- **Handing out a token** does not tell them apart. -/
theorem LooksOn.get (h : LooksOn s s') (placeholders blanks : Bool) :
    (s'.get placeholders blanks).1 = (s.get placeholders blanks).1 ∧
      LooksOn (s.get placeholders blanks).2 (s'.get placeholders blanks).2 := by
  obtain ⟨cut, hahead, hcuts, hplain⟩ := h
  obtain ⟨r, behind, ahead⟩ := s
  obtain ⟨r', behind', _⟩ := s'
  obtain rfl := hahead
  dsimp only at hcuts
  induction ahead generalizing behind behind' with
  | nil =>
    cases hcuts with
    | nil =>
      rw [List.append_nil, get_bare, get_bare]
      exact ⟨rfl, [], rfl, .nil _, fun _ ht => absurd ht List.not_mem_nil⟩
    | @cons _ _ cut hrest =>
      -- the token that has still to be cut is ahead already
      obtain ⟨ht, hplain⟩ := List.forall_mem_cons.mp hplain
      have hshown := ht.hides_eq_false (r.lex_kind_ne_comment rfl) ⟨blanks, placeholders, false⟩
      have hsame := get_of_isPlain (s := ⟨r, behind, []⟩) (fun _ h => absurd h List.not_mem_nil)
        (by rw [get_bare]; exact ht) placeholders blanks
      rw [List.nil_append, get_of_ahead r' behind' cut hshown, hsame, get_bare]
      exact ⟨rfl, cut, rfl, hrest, hplain⟩
  | cons t ahead ih =>
    rw [List.cons_append]
    by_cases hhides : Mode.hides ⟨blanks, placeholders, false⟩ t = true
    · rw [get_of_hidden r behind ahead hhides, get_of_hidden r' behind' _ hhides]
      exact ih (t :: behind) (t :: behind')
    · rw [get_of_ahead r behind ahead (Bool.eq_false_iff.mpr hhides),
        get_of_ahead r' behind' _ (Bool.eq_false_iff.mpr hhides)]
      exact ⟨rfl, cut, rfl, hcuts, hplain⟩

/-- **A stream that has looked further hands out the same tokens.** -/
theorem LooksOn.handed_eq (h : LooksOn s s') (modes : List (Bool × Bool)) :
    s'.handed modes = s.handed modes := by
  induction modes generalizing s s' with
  | nil => rfl
  | cons mode modes ih =>
    obtain ⟨placeholders, blanks⟩ := mode
    obtain ⟨htoken, hrest⟩ := h.get placeholders blanks
    unfold handed
    rw [htoken, ih hrest]

/-! ### Hidden tokens that were looked at -/

/-- **A hidden token ahead is seen** by one who does not ask for it: another one
is handed out. -/
theorem get_ne_of_hidden {r : Reader} {behind ahead : List Token}
    (hs : IsSound ⟨r, behind, t :: ahead⟩)
    (ht : Mode.hides ⟨blanks, placeholders, false⟩ t = true) :
    (get ⟨r, behind, t :: ahead⟩ placeholders blanks).1 ≠ t := by
  have hcut : t.IsCut r.source := hs.isCut t (by simp [window])
  have hkind : t.kind ≠ .eof := by
    intro hkind
    rw [Mode.hides, hkind] at ht
    cases blanks <;> cases placeholders <;> cases ht
  have hsound : IsSound ⟨r, t :: behind, ahead⟩ := hs.divide (by simp [window])
  have hle := (hsound.get placeholders blanks).place_le
  have hstop := hsound.stop_le_place (t := t) List.mem_cons_self
  have hlt := hcut.location_lt_stop hkind
  rw [get_of_hidden r behind ahead ht]
  intro heq
  rw [heq] at hle
  omega

variable {source : List Char}

/-- A token that is handed out is no comment. -/
theorem IsSteady.get_kind_ne_comment (h : s.IsSteady source) (placeholders blanks : Bool) :
    (s.get placeholders blanks).1.kind ≠ .comment := by
  have hcurrent := (h.isSound.get placeholders blanks).current_eq
  refine (h.get placeholders blanks).stream.no_comment _ (List.mem_append_left _ ?_)
  exact List.mem_reverse.mpr (List.mem_of_mem_head? hcurrent)

/-- **Tokens looked at with nothing passed over** are plain if nobody can tell
that they were: otherwise the first that is not would be hidden now, though it
was handed out unasked. -/
theorem isPlain_of_handed {r : Reader} {behind ahead : List Token} {n : Nat}
    (hs : s.IsSteady source)
    (hs' : IsSteady source ⟨r, behind, (s.gets false false n).1 ++ ahead⟩)
    (hhanded : ∀ modes,
      handed ⟨r, behind, (s.gets false false n).1 ++ ahead⟩ modes = s.handed modes) :
    ∀ t ∈ (s.gets true true n).1, t.IsPlain := by
  induction n generalizing s behind with
  | zero => exact fun _ ht => absurd ht List.not_mem_nil
  | succ n ih =>
    have hcomment := hs.get_kind_ne_comment false false
    have hget : get ⟨r, behind, (s.gets false false (n + 1)).1 ++ ahead⟩ true true =
        ((s.get false false).1, ⟨r, (s.get false false).1 :: behind,
          ((s.get false false).2.gets false false n).1 ++ ahead⟩) :=
      get_of_ahead r behind _
        (Bool.eq_false_iff.mpr fun hhides => hcomment (Mode.hides_full.mp hhides))
    -- asked for everything, both hand out the same token
    have hfirst : (s.get false false).1 = (s.get true true).1 := by
      have hboth := (List.cons.inj (hhanded [(true, true)])).1
      rw [hget] at hboth
      exact hboth
    have hplain : (s.get true true).1.IsPlain := by
      by_contra hplain
      have hhides : Mode.visible.hides (s.get false false).1 = true := by
        rw [← hfirst, ← Mode.hides_visible hcomment] at hplain
        exact (Bool.not_eq_false _).mp hplain
      exact get_ne_of_hidden hs'.isSound hhides (List.cons.inj (hhanded [(false, false)])).1
    have hsame := get_of_isPlain (fun t ht => hs.no_comment t (List.mem_append_right _ ht)) hplain
    have hrest : ∀ modes, handed (get ⟨r, behind, (s.gets false false (n + 1)).1 ++ ahead⟩
        true true).2 modes = (s.get true true).2.handed modes := fun modes =>
      (List.cons.inj (hhanded ((true, true) :: modes))).2
    have hafter := (hs'.get true true).stream
    rw [hget, hsame false false] at hafter
    rw [hget, hsame false false] at hrest
    exact List.forall_mem_cons.mpr ⟨hplain, ih (hs.get true true).stream hafter hrest⟩

/-- **Tokens passed over are missed** by one who asks for everything: the next
token is another one, since the first that is ahead was not taken back. -/
theorem get_ne_of_skipped {r : Reader} {behind skipped kept : List Token} (hs : s.IsSteady source)
    (h : Pushes .visible s ts (skipped ++ kept) s') (hlength : ts.length = kept.length)
    (hskipped : skipped ≠ []) (hkept : kept ≠ []) :
    (get ⟨r, behind, kept ++ s'.ahead⟩ true true).1 ≠ (s.get true true).1 := by
  obtain ⟨u, hu, hhides⟩ : ∃ u ∈ s.ahead, Mode.visible.hides u = true := by
    rcases h.passed with heq | ⟨-, hhidden⟩
    · have heq := congrArg List.length heq
      rw [List.length_append, hlength] at heq
      exact absurd (List.length_eq_zero_iff.mp (by omega)) hskipped
    · exact hhidden
  obtain ⟨x, skipped, rfl⟩ := List.exists_cons_of_ne_nil hskipped
  obtain ⟨y, kept, rfl⟩ := List.exists_cons_of_ne_nil hkept
  obtain ⟨cut, hahead, hcuts, -⟩ := h.ahead
  obtain ⟨r₀, behind₀, ahead⟩ := s
  cases ahead with
  | nil => cases hu
  | cons x' ahead =>
    obtain ⟨rfl, hrest⟩ : x = x' ∧ skipped ++ y :: kept ++ s'.ahead = ahead ++ cut :=
      List.cons.inj hahead
    have hy : y ∈ ahead ++ cut := hrest ▸ by simp
    have hx : x ∈ window ⟨r₀, behind₀, x :: ahead⟩ := by simp [window]
    have hxcut := hs.isSound.isCut x hx
    -- all that comes after the first token starts where it ends, or later
    have hlater : ∀ v ∈ ahead ++ cut, x.stop.offset ≤ v.location.offset ∧ v.kind ≠ .comment := by
      intro v hv
      rcases List.mem_append.mp hv with hv | hv
      · have hordered := (List.pairwise_append.mp hs.isSound.ordered).2.1
        exact ⟨(List.pairwise_cons.mp hordered).1 v hv, hs.no_comment v (by simp [window, hv])⟩
      · have hle := ((hcuts.location_le rfl hs.isSound.isAt).2 v hv).1
        exact ⟨Nat.le_trans (hs.isSound.before x hx) hle, hcuts.no_comment rfl v hv⟩
    have hshown : ∀ {v : Token}, v.kind ≠ .comment → Mode.full.hides v = false := fun hv =>
      Bool.eq_false_iff.mpr fun hfull => hv (Mode.hides_full.mp hfull)
    rw [get_of_ahead _ _ _ (hshown (hs.no_comment x hx)), List.cons_append,
      get_of_ahead _ _ _ (hshown (hlater y hy).2)]
    rintro rfl
    -- then the first one would be the end of the source, with a hidden token after it
    have heof : y.kind = .eof := by
      by_contra hkind
      exact absurd (hxcut.location_lt_stop hkind) (Nat.not_lt.mpr (hlater y hy).1)
    have hend := congrArg Location.offset (hxcut.location_of_eof heof)
    rw [Location.offset_advance_start] at hend
    rcases List.mem_cons.mp hu with rfl | hu'
    · rw [Mode.hides, heof] at hhides
      cases hhides
    · have hucut := hs.isSound.isCut u (by simp [window, hu'])
      have hukind : u.kind ≠ .eof := by
        intro hkind
        rw [Mode.hides, hkind] at hhides
        cases hhides
      have hlt := hucut.location_lt_stop hukind
      have hle := hucut.stop_isPlace.offset_le
      have hlocation := hxcut.location_le_stop
      have hafter := (hlater u (List.mem_append_left _ hu')).1
      omega

/-- **When looking ahead goes unseen.** Whatever a stream was asked for before,
looking ahead changes neither the token handed out last nor any of the tokens to
come, in whatever modes they are asked for, if and only if there are neither
blanks nor placeholders among the tokens that it looks at. -/
theorem lookahead_unseen_iff {text : String} {known : List Location} (h : Reached text known s)
    (k : Nat) :
    ((s.lookahead k).2.current? = s.current? ∧
        ∀ modes, (s.lookahead k).2.handed modes = s.handed modes) ↔
      ∀ t ∈ (s.gets true true (min (max k 1) 4)).1, t.kind ≠ .whitespace ∧ t.kind ≠ .uvar := by
  obtain ⟨hsteady, -⟩ := h.isSteady
  have hcomment : ∀ t ∈ s.ahead, t.kind ≠ .comment := fun t ht =>
    hsteady.no_comment t (List.mem_append_right _ ht)
  generalize hn : min (max k 1) 4 = n
  constructor
  · rintro ⟨-, hhanded⟩
    have hafter := (hsteady.lookahead k).stream
    obtain ⟨skipped, kept, room, hkept, -, hpushes, hlookahead⟩ := s.lookahead_pushes k hn rfl
    rw [hlookahead] at hhanded hafter
    have hskipped : skipped = [] := by
      by_contra hskipped
      refine get_ne_of_skipped hsteady hpushes (by rw [length_gets, hkept]) hskipped ?_
        (List.cons.inj (hhanded [(true, true)])).1
      rw [← List.length_pos_iff, hkept]
      omega
    obtain rfl := hskipped
    have heq : kept = (s.gets false false n).1 := by
      rcases hpushes.passed with heq | ⟨hlt, -⟩
      · exact heq
      · rw [length_gets, List.nil_append, hkept] at hlt
        exact absurd hlt (Nat.lt_irrefl n)
    rw [heq] at hafter hhanded
    exact isPlain_of_handed hsteady hafter hhanded
  · intro hplain
    have hsame := gets_of_isPlain hcomment hplain
    obtain ⟨skipped, kept, room, hkept, hroom, hpushes, hlookahead⟩ := s.lookahead_pushes k hn hsame
    have heq := hpushes.eq_handed hcomment
    have hlength := congrArg List.length heq
    rw [List.length_append, length_gets, hkept] at hlength
    obtain rfl := List.length_eq_zero_iff.mp (show skipped.length = 0 by omega)
    obtain ⟨cut, hahead, hcuts, hnil⟩ := hpushes.ahead
    have hlooks : LooksOn s (s.lookahead k).2 := by
      rw [hlookahead]
      refine ⟨cut, hahead, hcuts, fun t ht => ?_⟩
      rcases hnil with rfl | hnil
      · cases ht
      · rw [heq, hnil, List.append_nil] at hahead
        exact hplain t (hahead ▸ List.mem_append_right _ ht)
    refine ⟨?_, hlooks.handed_eq⟩
    rw [hlookahead]
    show (s.behind.take room).head? = s.behind.head?
    rw [List.head?_take, if_neg (by omega)]

/-- A blank was handed out and taken back. One who then looks at the next token
finds the letter after the blank, and the blank stays behind as the token handed
out last. -/
theorem lookahead_seen :
    let s := (((ofString "a b").get false true).2.get false true).2.back
    (s.lookahead 1).1.text = "b" ∧ s.current?.map (·.text) = some "a" ∧
      (s.lookahead 1).2.current?.map (·.text) = some " " ∧
      ¬((s.lookahead 1).2.current? = s.current? ∧
        ∀ modes, (s.lookahead 1).2.handed modes = s.handed modes) := by
  intro s
  have hfirst := Reached.ask (.get false true) (@Reached.start "a b") fun _ h => by cases h
  have hback := Reached.ask .unget (.ask (.get false true) hfirst fun _ h => by cases h)
    fun _ h => by cases h
  refine ⟨by decide +kernel, by decide +kernel, by decide +kernel, ?_⟩
  intro hunseen
  have hplain := (lookahead_unseen_iff hback 1).mp hunseen
  exact (hplain ⟨.whitespace, .none, " ", ⟨1, 2, 1⟩, ⟨1, 3, 2⟩⟩ (by decide +kernel)).1 rfl

end Stream

end Stylesheet
