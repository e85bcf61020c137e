import Mathlib.Tactic.Set
import Stylesheet.Proofs.TokenCut
import Stylesheet.Token.Nth
import Stylesheet.Token.Recovery

/-!
# The window of a token stream

A stream reads ahead of what it has handed out and takes tokens back, so
its reader says little about how far a parser has come. What says it is
the stream's **place**: where the next token will be looked for. Handing
out a token moves the place to after it or further, taking it back moves
the place to its start, and everything else that a stream does moves the
place forward or leaves it.

A stream is **sound** when its window holds tokens cut from the source,
in the order of the source and all before the reader. Every operation of
the stream keeps it sound.
-/

namespace Stylesheet

/-! ## Reading keeps to places -/

namespace Reader

/-- **A reader that stands at a place of its source**, with the rest of
the source unread. -/
def IsAt (r : Reader) : Prop :=
  ∃ before, r.source = before ++ r.rest ∧ r.location = Location.start.advance before

variable {r : Reader}

theorem IsAt.isPlace (h : r.IsAt) : IsPlace r.source r.location := by
  obtain ⟨before, hsource, hloc⟩ := h
  exact ⟨before, r.rest, hsource, hloc⟩

/-- Reading on from a place leads to a place. -/
theorem IsAt.advance (h : r.IsAt) (n : Nat) : (r.advance n).IsAt := by
  obtain ⟨before, hsource, hloc⟩ := h
  refine ⟨before ++ r.rest.take n, ?_, ?_⟩
  · show r.source = before ++ r.rest.take n ++ r.rest.drop n
    rw [List.append_assoc, List.take_append_drop]
    exact hsource
  · show r.location.advance (r.rest.take n) = _
    rw [Location.advance_append, hloc]

/-- Reading on does not lead back. -/
theorem location_le_advance (r : Reader) (n : Nat) :
    r.location.offset ≤ (r.advance n).location.offset := by
  show _ ≤ (r.location.advance (r.rest.take n)).offset
  rw [Location.offset_advance]
  exact Nat.le_add_right _ _

/-- Moving to a place of the source leads there. -/
theorem location_seek {loc : Location} (h : IsPlace r.source loc) : (r.seek loc).location = loc := by
  show { loc with offset := min loc.offset (Text.byteLength r.source) } = loc
  rw [Nat.min_eq_left h.offset_le]

theorem IsAt.seek {loc : Location} (h : IsPlace r.source loc) : (r.seek loc).IsAt := by
  obtain ⟨before, hsource, hloc⟩ := h.exists_suffixAt
  refine ⟨before, ?_, ?_⟩
  · rw [show (r.seek loc).rest = Text.suffixAt r.source (r.seek loc).location.offset from
      (r.seek loc).rest_eq, location_seek h]
    exact hsource
  · rw [location_seek h]
    exact hloc

end Reader

/-- Without comments asked for, a mode has no say in what token a text
starts with. -/
theorem Mode.firstOf_eq_first {mode : Mode} (h : mode.comments = false) (cs : List Char) :
    mode.firstOf cs = Lexeme.first cs := by
  unfold Mode.firstOf Lexeme.first
  cases Lexeme.trivia? cs with
  | none => rfl
  | some lx =>
    show (mode.keeps lx).getD lx = lx
    unfold Mode.keeps
    rw [h]
    split <;> split_ifs <;> first | rfl | contradiction

namespace Reader

variable {r : Reader} {mode : Mode}

/-- **Cutting the next token**: it is a cut of the source, at or after
the reader's place, and the reader stands right after it. -/
theorem IsAt.lex (h : r.IsAt) (hmode : mode.comments = false) :
    (r.lex mode).1.IsCut r.source ∧ r.location.offset ≤ (r.lex mode).1.location.offset ∧
      (r.lex mode).2.IsAt ∧ (r.lex mode).2.location = (r.lex mode).1.stop := by
  set r' := r.advance (mode.skipped 0 r.rest) with hr'
  have hat : r'.IsAt := h.advance _
  have htoken : (r.lex mode).1 = (Lexeme.first r'.rest).place r'.location r'.rest := by
    show (mode.firstOf r'.rest).place _ _ = _
    rw [Mode.firstOf_eq_first hmode]
  refine ⟨?_, ?_, hat.advance _, rfl⟩
  · obtain ⟨before, hsource, hloc⟩ := hat
    refine ⟨before, r'.rest, hsource, ?_⟩
    rw [htoken, hloc]
  · rw [htoken]
    exact r.location_le_advance _

end Reader

/-! ## Sound streams -/

namespace Stream

/-- The tokens of the window in the order of the source. -/
def window (s : Stream) : List Token := s.behind.reverse ++ s.ahead

/-- **Where the next token will be looked for.** -/
def place (s : Stream) : Location :=
  match s.ahead with
  | t :: _ => t.location
  | [] => s.reader.location

/-- **A sound stream**: the window holds cuts of the source, in order and
before the reader. -/
structure IsSound (s : Stream) : Prop where
  /-- The reader stands at a place of the source. -/
  isAt : s.reader.IsAt
  /-- The tokens of the window are cut from the source. -/
  isCut : ∀ t ∈ s.window, t.IsCut s.source
  /-- Each token of the window ends before the next one starts. -/
  ordered : s.window.Pairwise (fun t u => t.stop.offset ≤ u.location.offset)
  /-- All of them end before the reader's place. -/
  before : ∀ t ∈ s.window, t.stop.offset ≤ s.reader.location.offset

/-- The stream of a text is sound. -/
theorem isSound_ofString (text : String) : (ofString text).IsSound where
  isAt := ⟨[], (Text.suffixAt_zero _).symm, rfl⟩
  isCut t ht := by simp [window, ofString] at ht
  ordered := List.Pairwise.nil
  before t ht := by simp [window, ofString] at ht

namespace IsSound

variable {s : Stream}

/-- The place of a sound stream is a place of its source. -/
theorem isPlace (h : s.IsSound) : IsPlace s.source s.place := by
  unfold place
  cases hahead : s.ahead with
  | nil => exact h.isAt.isPlace
  | cons t ahead =>
    exact (h.isCut t (by simp [window, hahead])).location_isPlace

/-- A token handed out ends before the place. -/
theorem stop_le_place (h : s.IsSound) {t : Token} (ht : t ∈ s.behind) :
    t.stop.offset ≤ s.place.offset := by
  unfold place
  cases hahead : s.ahead with
  | nil => exact h.before t (by simp [window, ht])
  | cons u ahead =>
    have hordered := h.ordered
    rw [window, hahead, List.pairwise_append] at hordered
    exact hordered.2.2 t (List.mem_reverse.mpr ht) u (List.mem_cons_self ..)

/-- The place lies at or before the reader's. -/
theorem place_le_reader (h : s.IsSound) : s.place.offset ≤ s.reader.location.offset := by
  unfold place
  cases hahead : s.ahead with
  | nil => exact Nat.le_refl _
  | cons t ahead =>
    have ht : t ∈ s.window := by simp [window, hahead]
    exact Nat.le_trans (h.isCut t ht).location_le_stop (h.before t ht)

/-- **Another division of the same window is sound.** -/
theorem divide (h : s.IsSound) {behind ahead : List Token}
    (hwindow : behind.reverse ++ ahead = s.window) :
    IsSound ⟨s.reader, behind, ahead⟩ where
  isAt := h.isAt
  isCut t ht := h.isCut t (hwindow ▸ ht)
  ordered := by
    show (behind.reverse ++ ahead).Pairwise _
    rw [hwindow]
    exact h.ordered
  before t ht := h.before t (hwindow ▸ ht)

/-- A stream without a window is sound when its reader stands at a
place. -/
theorem of_reader {r : Reader} (h : r.IsAt) : IsSound ⟨r, [], []⟩ where
  isAt := h
  isCut t ht := by simp [window] at ht
  ordered := List.Pairwise.nil
  before t ht := by simp [window] at ht

end IsSound

/-! ## Handing out and taking back -/

/-- **Tokens behind that come from a state of a stream**: those that were
passed over since, and under them those that were behind already, as far
as they are not forgotten. -/
def Behind (s : Stream) (behind : List Token) : Prop :=
  ∃ passed, behind <+: passed ++ s.behind ∧ ∀ u ∈ passed, s.place.offset ≤ u.location.offset

/-- **A token was handed out** between two states of a stream: it is a
cut of the source that starts no earlier than the first state's place
and ends no later than the second's. -/
structure Got (s : Stream) (t : Token) (s' : Stream) : Prop where
  /-- The stream is still sound. -/
  isSound : s'.IsSound
  /-- The source is the same. -/
  source_eq : s'.source = s.source
  /-- The token is cut from it. -/
  isCut : t.IsCut s.source
  /-- It is the token handed out last. -/
  current_eq : s'.current? = some t
  /-- It starts at the place or after it. -/
  place_le : s.place.offset ≤ t.location.offset
  /-- The place is now after it. -/
  stop_le : t.stop.offset ≤ s'.place.offset
  /-- What is behind it was passed over or was behind already. -/
  behind : Behind s s'.behind.tail

/-- **Nothing was handed out** between two states of a stream, though
hidden tokens may have been passed over. -/
structure Stays (s s' : Stream) : Prop where
  /-- The stream is still sound. -/
  isSound : s'.IsSound
  /-- The source is the same. -/
  source_eq : s'.source = s.source
  /-- The place has not moved back. -/
  place_le : s.place.offset ≤ s'.place.offset
  /-- What is behind was passed over or was behind already. -/
  behind : Behind s s'.behind

variable {s s' : Stream} {t : Token}

/-- The last of the tokens behind was passed over or is the one that was
handed out last. -/
theorem Behind.head {behind : List Token} (h : Behind s behind) {u : Token}
    (hu : behind.head? = some u) : s.place.offset ≤ u.location.offset ∨ s.current? = some u := by
  obtain ⟨passed, ⟨older, holder⟩, hpassed⟩ := h
  have hhead : (passed ++ s.behind).head? = some u := by
    rw [← holder, List.head?_append, hu, Option.some_or]
  rw [List.head?_append] at hhead
  cases hlast : passed.head? with
  | none =>
    rw [hlast, Option.none_or] at hhead
    exact Or.inr hhead
  | some v =>
    rw [hlast, Option.some_or] at hhead
    obtain rfl := Option.some.inj hhead
    exact Or.inl (hpassed v (List.mem_of_mem_head? hlast))

theorem Behind.trans {behind : List Token} (h : Behind s' behind) (hs : Behind s s'.behind)
    (hplace : s.place.offset ≤ s'.place.offset) : Behind s behind := by
  obtain ⟨passed, hbehind, hpassed⟩ := h
  obtain ⟨passed', hbehind', hpassed'⟩ := hs
  refine ⟨passed ++ passed', ?_, fun u hu => ?_⟩
  · rw [List.append_assoc]
    exact hbehind.trans ((List.prefix_append_right_inj passed).mpr hbehind')
  · rcases List.mem_append.mp hu with hu | hu
    · exact Nat.le_trans hplace (hpassed u hu)
    · exact hpassed' u hu

/-- A token ahead that is hidden is passed over. -/
theorem get_of_hidden {placeholders blanks : Bool} (r : Reader) (behind ahead : List Token)
    (ht : Mode.hides ⟨blanks, placeholders, false⟩ t = true) :
    get ⟨r, behind, t :: ahead⟩ placeholders blanks =
      get ⟨r, t :: behind, ahead⟩ placeholders blanks := by
  unfold get
  simp only [takeAhead, ht, if_true]

/-- What is taken from the window alone: the window stays the same, and
the tokens between the old place and the new one were passed over. -/
theorem takeAhead_eq (mode : Mode) (behind ahead : List Token) :
    ∃ passed, (takeAhead mode behind ahead).2.1 =
        (takeAhead mode behind ahead).1.toList ++ passed.reverse ++ behind ∧
      ahead = passed ++ (takeAhead mode behind ahead).1.toList ++ (takeAhead mode behind ahead).2.2 ∧
      ((takeAhead mode behind ahead).1 = none → (takeAhead mode behind ahead).2.2 = []) := by
  induction ahead generalizing behind with
  | nil => exact ⟨[], rfl, rfl, fun _ => rfl⟩
  | cons t ahead ih =>
    unfold takeAhead
    split_ifs
    · obtain ⟨passed, hbehind, hahead, hnone⟩ := ih (t :: behind)
      refine ⟨t :: passed, ?_, ?_, hnone⟩
      · rw [hbehind, List.reverse_cons]
        simp only [List.append_assoc, List.singleton_append]
      · rw [List.cons_append, List.cons_append, ← hahead]
    · exact ⟨[], rfl, rfl, fun h => absurd h (by simp)⟩

/-- The tokens of the window that are still ahead start no earlier than
the place. -/
theorem IsSound.place_le_of_mem_ahead (h : s.IsSound) (ht : t ∈ s.ahead) :
    s.place.offset ≤ t.location.offset := by
  unfold place
  cases hahead : s.ahead with
  | nil => simp [hahead] at ht
  | cons u ahead =>
    rw [hahead] at ht
    rcases List.mem_cons.mp ht with rfl | ht
    · exact Nat.le_refl _
    · have hordered := h.ordered
      rw [window, hahead, List.pairwise_append, List.pairwise_cons] at hordered
      have hcut := h.isCut u (by simp [window, hahead])
      exact Nat.le_trans hcut.location_le_stop (hordered.2.1.1 t ht)

/-- **A new token joins the window**, and the oldest may leave it. -/
theorem IsSound.push (h : s.IsSound) {r : Reader} (hcut : t.IsCut s.source)
    (hstart : s.reader.location.offset ≤ t.location.offset) (hat : r.IsAt)
    (hsource : r.source = s.reader.source) (hstop : r.location = t.stop) :
    IsSound ⟨r, (t :: s.behind).take capacity, []⟩ := by
  have hmem : ∀ u ∈ (t :: s.behind).take capacity, u = t ∨ u ∈ s.window := fun u hu =>
    (List.mem_cons.mp (List.mem_of_mem_take hu)).imp id fun hu => by simp [window, hu]
  have hbehind : ∀ u ∈ s.window, u.stop.offset ≤ t.location.offset := fun u hu =>
    Nat.le_trans (h.before u hu) hstart
  refine ⟨hat, fun u hu => ?_, ?_, fun u hu => ?_⟩
  · rw [window, List.append_nil, List.mem_reverse] at hu
    rw [source, hsource]
    rcases hmem u hu with rfl | hu
    · exact hcut
    · exact h.isCut u hu
  · -- the window with the new token at its end is in order, and a part of it stays so
    have hwhole : (t :: s.behind).reverse.Pairwise
        (fun t u => t.stop.offset ≤ u.location.offset) := by
      rw [List.reverse_cons, List.pairwise_append]
      refine ⟨(List.pairwise_append.mp h.ordered).1, List.pairwise_singleton _ _, ?_⟩
      intro u hu v hv
      rw [List.mem_singleton.mp hv]
      exact hbehind u (by simpa [window] using Or.inl hu)
    rw [window, List.append_nil]
    exact hwhole.sublist (List.take_sublist _ _).reverse
  · rw [window, List.append_nil, List.mem_reverse] at hu
    rw [show (⟨r, (t :: s.behind).take capacity, []⟩ : Stream).reader.location = t.stop from hstop]
    rcases hmem u hu with rfl | hu
    · exact Nat.le_refl _
    · exact Nat.le_trans (hbehind u hu) hcut.location_le_stop

theorem IsSound.get (h : s.IsSound) (placeholders blanks : Bool) :
    Got s (s.get placeholders blanks).1 (s.get placeholders blanks).2 := by
  unfold Stream.get
  extract_lets mode
  obtain ⟨passed, hbehind, hahead, hnone⟩ := takeAhead_eq mode s.behind s.ahead
  rcases htake : takeAhead mode s.behind s.ahead with ⟨found, behind, ahead⟩
  rw [htake] at hbehind hahead hnone
  dsimp only at hbehind hahead hnone
  have hpassed : ∀ u ∈ passed, s.place.offset ≤ u.location.offset := fun u hu =>
    h.place_le_of_mem_ahead (by rw [hahead]; simp [hu])
  cases found with
  | some t =>
    -- the token was still in the window
    simp only [Option.toList_some, List.singleton_append] at hbehind hahead
    have hwindow : behind.reverse ++ ahead = s.window := by
      rw [window, hbehind, hahead]
      simp
    have hsound : IsSound ⟨s.reader, behind, ahead⟩ := h.divide hwindow
    have ht : t ∈ s.ahead := by rw [hahead]; simp
    refine ⟨hsound, rfl, h.isCut t (by simp [window, ht]), ?_, h.place_le_of_mem_ahead ht, ?_, ?_⟩
    · show behind.head? = some t
      rw [hbehind]
      rfl
    · exact hsound.stop_le_place (t := t) (by rw [hbehind]; simp)
    · refine ⟨passed.reverse, ?_, fun u hu => hpassed u (List.mem_reverse.mp hu)⟩
      show behind.tail <+: _
      rw [hbehind]
      exact List.prefix_rfl
  | none =>
    -- the window is used up, and the token is cut from the source
    obtain rfl : ahead = [] := hnone rfl
    simp only [Option.toList_none, List.nil_append, List.append_nil] at hbehind hahead
    have hwindow : behind.reverse ++ [] = s.window := by
      rw [window, hbehind, hahead]
      simp
    have hsound : IsSound ⟨s.reader, behind, []⟩ := h.divide hwindow
    obtain ⟨hcut, hstart, hat, hstop⟩ :=
      h.isAt.lex (show mode.comments = false from rfl)
    have hsound' := hsound.push hcut hstart hat rfl hstop
    refine ⟨hsound', rfl, hcut, rfl, Nat.le_trans h.place_le_reader hstart, ?_, ?_⟩
    · exact Nat.le_of_eq (congrArg Location.offset hstop.symm)
    · refine ⟨passed.reverse, ?_, fun u hu => hpassed u (List.mem_reverse.mp hu)⟩
      rw [← hbehind]
      exact List.take_prefix _ _

/-- **Taking the last token back** moves the place to its start; with
nothing handed out nothing changes. -/
theorem IsSound.back (h : s.IsSound) :
    s.back.IsSound ∧ s.back.source = s.source ∧
      (∀ u, s.current? = some u → s.back.place = u.location) ∧
      (s.current? = none → s.back = s) := by
  cases hbehind : s.behind with
  | nil =>
    have hback : s.back = s := by
      unfold Stream.back
      rw [hbehind]
    rw [hback]
    refine ⟨h, rfl, fun u hu => ?_, fun _ => rfl⟩
    rw [current?, hbehind] at hu
    exact absurd hu (by simp)
  | cons t behind =>
    have hback : s.back = ⟨s.reader, behind, t :: s.ahead⟩ := by
      unfold Stream.back
      rw [hbehind]
    rw [hback]
    refine ⟨h.divide ?_, rfl, fun u hu => ?_, fun hnone => ?_⟩
    · rw [window, hbehind, List.reverse_cons, List.append_assoc, List.singleton_append]
    · rw [current?, hbehind] at hu
      obtain rfl := Option.some.inj hu
      rfl
    · rw [current?, hbehind] at hnone
      exact absurd hnone (by simp)

theorem behind_back (s : Stream) : s.back.behind = s.behind.tail := by
  unfold Stream.back
  cases hbehind : s.behind with
  | nil => exact hbehind
  | cons t behind => rfl

/-- Handing out a token and taking it back hands out nothing. -/
theorem Got.back (h : Got s t s') : Stays s s'.back := by
  obtain ⟨hsound, hsource, hplace, -⟩ := h.isSound.back
  refine ⟨hsound, hsource.trans h.source_eq, ?_, ?_⟩
  · rw [hplace t h.current_eq]
    exact h.place_le
  · rw [Stream.behind_back]
    exact h.behind

theorem Got.accept {p : Token → Bool} {result : Token × Stream} (h : Got s result.1 result.2) :
    (∀ t, (accept result p).1 = some t → Got s t (accept result p).2 ∧ p t = true) ∧
      ((accept result p).1 = none → Stays s (accept result p).2) := by
  unfold Stream.accept
  split_ifs with hp
  · refine ⟨fun t ht => ?_, fun hnone => absurd hnone (by simp)⟩
    obtain rfl := Option.some.inj ht
    exact ⟨h, hp⟩
  · exact ⟨fun t ht => absurd ht (by simp), fun _ => h.back⟩

/-- A complaint about the next token hands out nothing. -/
theorem IsSound.complain (h : s.IsSound) (expected : String) :
    Stays s (s.complain expected).2 :=
  (h.get false false).back

/-- **The answer of a demand**: the token that was asked for, or a
complaint and nothing handed out. -/
structure Answers (s : Stream) (p : Token → Prop) (result : Except Diagnostic Token)
    (s' : Stream) : Prop where
  /-- The token asked for was handed out. -/
  ok : ∀ t, result = .ok t → Got s t s' ∧ p t
  /-- Otherwise nothing was. -/
  error : ∀ e, result = .error e → Stays s s'

/-- The answer of a request that complains when it fails. -/
theorem IsSound.answers {found : Option Token} {after : Stream} {p : Token → Prop}
    (expected : String) (hsome : ∀ t, found = some t → Got s t after ∧ p t)
    (hnone : found = none → Stays s after) :
    Answers s p (found.elim (after.complain expected) fun t => (.ok t, after)).1
      (found.elim (after.complain expected) fun t => (.ok t, after)).2 := by
  cases found with
  | some t =>
    refine ⟨fun u hu => ?_, fun e he => absurd he (by simp)⟩
    obtain rfl := Except.ok.inj hu
    exact hsome t rfl
  | none =>
    have hstays : Stays s after := hnone rfl
    have hcomplain := hstays.isSound.complain expected
    refine ⟨fun u hu => absurd hu (by simp [Stream.complain]), fun e _ => ?_⟩
    exact ⟨hcomplain.isSound, hcomplain.source_eq.trans hstays.source_eq,
      Nat.le_trans hstays.place_le hcomplain.place_le,
      hcomplain.behind.trans hstays.behind hstays.place_le⟩

/-- **Demanding one of some kinds**, blanks included. -/
theorem IsSound.mustMatch (h : s.IsSound) (kinds : List TokenKind) :
    Answers s (fun t => kinds.contains t.kind = true) (s.mustMatch kinds).1
      (s.mustMatch kinds).2 := by
  obtain ⟨hsome, hnone⟩ := (h.get false true).accept (p := (kinds.contains ·.kind))
  have hanswers := IsSound.answers (TokenKind.describeAll kinds) hsome hnone
  unfold Stream.mustMatch Stream.matchKinds
  split <;> next heq => rw [heq] at hanswers; exact hanswers

/-- **Demanding one of some kinds**, blanks passed over. -/
theorem IsSound.mustMatchSmart (h : s.IsSound) (kinds : List TokenKind) :
    Answers s (fun t => kinds.contains t.kind = true) (s.mustMatchSmart kinds).1
      (s.mustMatchSmart kinds).2 := by
  obtain ⟨hsome, hnone⟩ := (h.get false (kinds.contains .whitespace)).accept
    (p := (kinds.contains ·.kind))
  have hanswers := IsSound.answers (TokenKind.describeAll kinds) hsome hnone
  unfold Stream.mustMatchSmart Stream.matchSmart
  split <;> next heq => rw [heq] at hanswers; exact hanswers

theorem IsSound.mustMatchKeyword (h : s.IsSound) (kind : TokenKind) (set : Keywords) :
    Answers s (fun t => t.kind = kind) (s.mustMatchKeyword kind set).1
      (s.mustMatchKeyword kind set).2 := by
  obtain ⟨hsome, hnone⟩ := (h.get false false).accept
    (p := fun t => t.kind == kind && set.has t.text)
  have hanswers := IsSound.answers (p := fun t => t.kind = kind) set.describe
    (fun t ht => ⟨(hsome t ht).1, by simpa using (Bool.and_eq_true_iff.mp (hsome t ht).2).1⟩) hnone
  unfold Stream.mustMatchKeyword Stream.matchKeyword
  split <;> next heq => unfold grab at heq; rw [heq] at hanswers; exact hanswers

/-! ## Moving on -/

/-- **The stream moved on**: its place is no earlier than it was. -/
structure Moves (s s' : Stream) : Prop where
  /-- The stream is still sound. -/
  isSound : s'.IsSound
  /-- The source is the same. -/
  source_eq : s'.source = s.source
  /-- The place has not moved back. -/
  place_le : s.place.offset ≤ s'.place.offset

/-- Going on at a place of the source. -/
theorem isSound_seek {loc : Location} (hloc : IsPlace s.source loc) :
    (s.seek loc).IsSound ∧ (s.seek loc).source = s.source ∧ (s.seek loc).place = loc :=
  ⟨IsSound.of_reader (Reader.IsAt.seek hloc), rfl, Reader.location_seek hloc⟩

/-- Taking the reader back to the place changes nothing but the
window. -/
theorem IsSound.rewind (h : s.IsSound) :
    s.rewind.IsSound ∧ s.rewind.source = s.source ∧ s.rewind.place = s.place ∧
      s.rewind.place = s.rewind.reader.location := by
  have hplace := h.isPlace
  unfold Stream.rewind
  unfold place at hplace ⊢
  cases hahead : s.ahead with
  | nil => exact ⟨IsSound.of_reader h.isAt, rfl, rfl, rfl⟩
  | cons t ahead =>
    rw [hahead] at hplace
    obtain ⟨hsound, hsource, hseek⟩ := isSound_seek hplace
    exact ⟨hsound, hsource, hseek, rfl⟩

/-- Reading on from a rewound stream. -/
theorem IsSound.rewind_advance (h : s.IsSound) (n : Nat) :
    Moves s { s.rewind with reader := s.rewind.reader.advance n } := by
  obtain ⟨hsound, hsource, hplace, hreader⟩ := h.rewind
  have hempty : s.rewind = ⟨s.rewind.reader, [], []⟩ := by
    unfold Stream.rewind
    split <;> rfl
  rw [hempty]
  refine ⟨IsSound.of_reader (hsound.isAt.advance n), hsource, ?_⟩
  rw [← hplace, hreader]
  exact Reader.location_le_advance _ n

/-- Taking tokens back until one with a given start leaves the window
what it was. -/
theorem backTo?_eq {loc : Location} {behind ahead behind' ahead' : List Token}
    (h : backTo? loc behind ahead = some (behind', ahead')) :
    behind'.reverse ++ ahead' = behind.reverse ++ ahead ∧
      ∃ u, behind'.head? = some u ∧ u.location = loc := by
  induction behind generalizing ahead with
  | nil => exact absurd h (by simp [backTo?])
  | cons t behind ih =>
    unfold backTo? at h
    split_ifs at h with hloc
    · obtain ⟨rfl, rfl⟩ := Prod.mk.inj (Option.some.inj h)
      exact ⟨rfl, t, rfl, hloc⟩
    · obtain ⟨hwindow, hhead⟩ := ih h
      refine ⟨?_, hhead⟩
      rw [hwindow, List.reverse_cons, List.append_assoc, List.singleton_append]

/-- **Going back to a token** leads to a place after it, and no other
token can be taken back there. -/
theorem IsSound.rewindTo (h : s.IsSound) (ht : t.IsCut s.source) :
    (s.rewindTo t).IsSound ∧ (s.rewindTo t).source = s.source ∧
      t.stop.offset ≤ (s.rewindTo t).place.offset ∧
      ∀ u, (s.rewindTo t).current? = some u → u = t := by
  unfold Stream.rewindTo
  split
  · next behind ahead hback =>
    obtain ⟨hwindow, u, hhead, hloc⟩ := backTo?_eq hback
    have hu : u ∈ behind := List.mem_of_mem_head? hhead
    have hsound : IsSound ⟨s.reader, behind, ahead⟩ := h.divide hwindow
    -- a token of the window that starts where `t` starts is `t`
    have hcut : u.IsCut s.source := hsound.isCut u (by simp [window, hu])
    obtain rfl := hcut.eq_of_offset ht (congrArg Location.offset hloc)
    exact ⟨hsound, rfl, hsound.stop_le_place hu, fun v hv => Option.some.inj (hv.symm.trans hhead)⟩
  · obtain ⟨hsound, hsource, hplace⟩ := isSound_seek (s := s) ht.stop_isPlace
    exact ⟨hsound, hsource, Nat.le_of_eq (congrArg Location.offset hplace.symm),
      fun u hu => by cases hu⟩

/-- **Passing over what is broken** moves on. -/
theorem IsSound.skipBroken (h : s.IsSound) (inBlock : Bool) : Moves s (s.skipBroken inBlock) := by
  unfold Stream.skipBroken
  extract_lets next level
  split_ifs
  · exact ⟨h, rfl, Nat.le_refl _⟩
  · have hgot : Got s s.grab.1 s.grab.2 := h.get false false
    exact ⟨hgot.isSound, hgot.source_eq,
      Nat.le_trans hgot.place_le (Nat.le_trans hgot.isCut.location_le_stop hgot.stop_le)⟩
  · exact h.rewind_advance _

/-- Reading on with nothing in the window moves on. -/
theorem IsSound.advance_reader {r : Reader} (h : IsSound ⟨r, [], []⟩) (n : Nat) :
    Moves ⟨r, [], []⟩ ⟨r.advance n, [], []⟩ :=
  ⟨IsSound.of_reader (h.isAt.advance n), rfl, Reader.location_le_advance r n⟩

theorem IsSound.readNth (h : s.IsSound) : Moves s s.readNth.2 := by
  have hempty : s.rewind = ⟨s.rewind.reader, [], []⟩ := by
    unfold Stream.rewind
    split <;> rfl
  have hskip := h.rewind_advance (Mode.visible.skipped 0 s.rewind.reader.rest)
  have hcount : ∀ size, Moves s
      ⟨(s.rewind.reader.advance (Mode.visible.skipped 0 s.rewind.reader.rest)).advance size,
        [], []⟩ := by
    intro size
    rw [hempty] at hskip
    have hon := IsSound.advance_reader hskip.isSound size
    exact ⟨hon.isSound, hon.source_eq.trans hskip.source_eq,
      Nat.le_trans hskip.place_le hon.place_le⟩
  unfold Stream.readNth
  rw [hempty] at hskip ⊢
  dsimp only
  split
  · split_ifs
    · exact hcount _
    · exact hskip
  · exact hskip

/-! ## What is held -/

/-- **What a stream would take back starts at an offset or after it.** -/
def HeldFrom (n : Nat) (s : Stream) : Prop :=
  ∀ u, s.current? = some u → n ≤ u.location.offset

variable {n : Nat}

theorem HeldFrom.mono {m : Nat} (h : s.HeldFrom n) (hle : m ≤ n) : s.HeldFrom m := fun u hu =>
  Nat.le_trans hle (h u hu)

/-- A token that was handed out is held. -/
theorem Got.heldFrom_location (h : Got s t s') : s'.HeldFrom t.location.offset := fun u hu => by
  obtain rfl := Option.some.inj (hu.symm.trans h.current_eq)
  exact Nat.le_refl _

theorem Got.heldFrom (h : Got s t s') (hn : n ≤ s.place.offset) : s'.HeldFrom n :=
  h.heldFrom_location.mono (Nat.le_trans hn h.place_le)

/-- A token handed out moves the place on. -/
theorem Got.place_le_place (h : Got s t s') : s.place.offset ≤ s'.place.offset :=
  Nat.le_trans h.place_le (Nat.le_trans h.isCut.location_le_stop h.stop_le)

/-- **A token other than the end moves the place strictly on.** -/
theorem Got.place_lt_place (h : Got s t s') (hkind : t.kind ≠ .eof) :
    s.place.offset < s'.place.offset :=
  Nat.lt_of_le_of_lt h.place_le (Nat.lt_of_lt_of_le (h.isCut.location_lt_stop hkind) h.stop_le)

/-- Where nothing is handed out, what is held stays. -/
theorem Stays.heldFrom (h : Stays s s') (hn : n ≤ s.place.offset) (hheld : s.HeldFrom n) :
    s'.HeldFrom n := fun u hu =>
  (h.behind.head hu).elim (Nat.le_trans hn) (hheld u)

/-- **Two tokens taken back.** When a token was handed out, nothing more
followed, and the last token is taken back, what is held is what was held
before. -/
theorem Got.heldFrom_back {s'' : Stream} (h : Got s t s') (hstays : Stays s' s'')
    (hn : n ≤ s.place.offset) (hheld : s.HeldFrom n) : s''.back.HeldFrom n := by
  intro u hu
  obtain ⟨passed, hbehind, hpassed⟩ := hstays.behind
  rw [current?, Stream.behind_back] at hu
  cases hlast : s''.behind with
  | nil =>
    rw [hlast] at hu
    exact absurd hu (by simp)
  | cons w older =>
    rw [hlast] at hu hbehind
    cases passed with
    | nil =>
      -- nothing was passed over after the token, and what is behind it is held
      have hbefore : Behind s older := by
        obtain ⟨passed, hpre, hpassed⟩ := h.behind
        refine ⟨passed, List.IsPrefix.trans ?_ hpre, hpassed⟩
        cases hgot : s'.behind with
        | nil =>
          rw [hgot] at hbehind
          exact absurd hbehind (by simp)
        | cons v rest =>
          rw [hgot] at hbehind
          exact (List.cons_prefix_cons.mp hbehind).2
      exact (hbefore.head hu).elim (Nat.le_trans hn) (hheld u)
    | cons v passed =>
      have hbefore : Behind s' older :=
        ⟨passed, (List.cons_prefix_cons.mp hbehind).2, fun u hu =>
          hpassed u (List.mem_cons_of_mem v hu)⟩
      rcases hbefore.head hu with hle | hcurrent
      · exact Nat.le_trans hn (Nat.le_trans h.place_le_place hle)
      · exact h.heldFrom hn u hcurrent

/-- What is taken back from a stream lies no earlier than what it
holds. -/
theorem IsSound.back_of_heldFrom (h : s.IsSound) (hn : n ≤ s.place.offset)
    (hheld : s.HeldFrom n) : n ≤ s.back.place.offset := by
  obtain ⟨-, -, hsome, hnone⟩ := h.back
  cases hcurrent : s.current? with
  | none =>
    rw [hnone hcurrent]
    exact hn
  | some u =>
    rw [hsome u hcurrent]
    exact hheld u hcurrent

end Stream

end Stylesheet
