import Stylesheet.Proofs.Lookahead.Window
import Stylesheet.Proofs.Passing
import Stylesheet.Proofs.Tells.Basic
import Stylesheet.Proofs.Tiling

/-!
# What a token stream can be asked for

A stream is handled from outside by requests: to hand out a token, to take
one back, to look ahead, to hand out a token if it is one that is wanted, to
pass over what is broken, to go back to a place. The place of the last kind
of request has to be one that the stream has told before, since the reader
stands wherever it is sent.

Whatever a stream is asked for, in whatever order, its window stays in
order (`Stream.window_of_requests`). The window is the list of tokens behind
and ahead, and the **cursor** is the number of those behind, so that taking a
token back moves the cursor and not the window. Most requests come down to
handing out and taking back; the others empty the window.
-/

namespace Stylesheet

instance {ε α : Type} [HasPlaces ε] [HasPlaces α] : HasPlaces (Except ε α) where
  places
    | .ok a => places a
    | .error e => places e

/-- Tokens that tile a text are placed wherever the text stands. -/
theorem Tiles.isPlaced {source before cs : List Char} {loc : Location} {ts : List Token}
    (h : Tiles loc cs ts) (hsource : source = before ++ cs)
    (hloc : loc = Location.start.advance before) : IsPlaced source ts := by
  induction h generalizing before with
  | nil => exact isPlaced_nil
  | @cons loc rest ts t _ hstarts hstops _ ih =>
    have hstop : t.stop = Location.start.advance (before ++ t.text.toList) := by
      rw [hstops, hloc, Location.advance_append]
    refine isPlaced_cons.mpr ⟨isPlaced_token.mpr ⟨?_, ?_⟩, ih ?_ hstop⟩
    · exact ⟨before, _, hsource, hstarts.trans hloc⟩
    · exact ⟨before ++ t.text.toList, rest, by rw [hsource, List.append_assoc], hstop⟩
    · rw [hsource, List.append_assoc]

namespace Stream

/-- **The number of tokens of the window that have been handed out.** -/
def cursor (s : Stream) : Nat := s.behind.length

/-- The places that a stream shows without being asked for anything: its
reader's, and those of the tokens next to the cursor. -/
def shown (s : Stream) : List Location :=
  s.reader.location :: (places s.current? ++ places s.peekCached)

/-- **A request to a stream.** -/
inductive Request where
  /-- The next token, with placeholders and blanks if asked for. -/
  | get (placeholders blanks : Bool)
  /-- The next token that is not hidden. -/
  | grab
  /-- To take the last token back. -/
  | unget
  /-- The token some tokens ahead, or its kind. -/
  | lookahead (k : Nat)
  /-- The next token, blanks included, if it is of one of the kinds. -/
  | matchKinds (kinds : List TokenKind)
  /-- The next token, if it is of one of the kinds. -/
  | matchSmart (kinds : List TokenKind)
  /-- The next token, if it is of a kind and a word of a set. -/
  | matchKeyword (kind : TokenKind) (set : Keywords)
  /-- The token handed out last, if it is of one of the kinds. -/
  | matchReuse (kinds : List TokenKind)
  /-- As `matchKinds`, with a complaint when it fails. -/
  | mustMatch (kinds : List TokenKind)
  /-- As `matchSmart`, with a complaint when it fails. -/
  | mustMatchSmart (kinds : List TokenKind)
  /-- As `matchKeyword`, with a complaint when it fails. -/
  | mustMatchKeyword (kind : TokenKind) (set : Keywords)
  /-- As `matchReuse`, with a complaint when it fails. -/
  | mustReuse (kinds : List TokenKind)
  /-- To pass over the rest of a broken declaration or block. -/
  | skipBroken (inBlock : Bool)
  /-- The count that comes next in the source. -/
  | readNth
  /-- To forget the window. -/
  | forget
  /-- All tokens that are left. -/
  | allTokens
  /-- To go on at a place. -/
  | seek (loc : Location)

/-- The places in an answer, and the stream after it. -/
def told {α : Type} [HasPlaces α] (answer : α × Stream) : List Location × Stream :=
  (places answer.1, answer.2)

/-- **What a request comes to**: the places that it tells, and the stream
after it. -/
def Request.run (s : Stream) : Request → List Location × Stream
  | .get placeholders blanks => told (s.get placeholders blanks)
  | .grab => told s.grab
  | .unget =>
    match s.unget with
    | .ok s' => ([], s')
    | .error e => (places e, s)
  | .lookahead k => told (s.lookahead k)
  | .matchKinds kinds => told (s.matchKinds kinds)
  | .matchSmart kinds => told (s.matchSmart kinds)
  | .matchKeyword kind set => told (s.matchKeyword kind set)
  | .matchReuse kinds => told (s.matchReuse kinds)
  | .mustMatch kinds => told (s.mustMatch kinds)
  | .mustMatchSmart kinds => told (s.mustMatchSmart kinds)
  | .mustMatchKeyword kind set => told (s.mustMatchKeyword kind set)
  | .mustReuse kinds => told (s.mustReuse kinds)
  | .skipBroken inBlock => ([], s.skipBroken inBlock)
  | .readNth => ([], s.readNth.2)
  | .forget => ([], s.forget)
  | .allTokens => told s.allTokens
  | .seek loc => ([], s.seek loc)

/-- **The streams that requests lead to**, from the start of a text, with
the places that they have told on the way. -/
inductive Reached (text : String) : List Location → Stream → Prop
  /-- Nothing was asked for yet. -/
  | start : Reached text (shown (ofString text)) (ofString text)
  /-- One more request; it goes back to a place that was told, if at all. -/
  | ask {known : List Location} {s : Stream} (request : Request) (before : Reached text known s)
      (permitted : ∀ loc, request = .seek loc → loc ∈ known) :
      Reached text ((request.run s).1 ++ shown (request.run s).2 ++ known) (request.run s).2

/-- **A steady stream of a source**: its window holds cuts of the source, in
order and before the reader, no comments and no more than it has room for, and
the reader stands right after the last of them. -/
structure IsSteady (source : List Char) (s : Stream) : Prop where
  /-- The window is in order. -/
  isSound : s.IsSound
  /-- The reader stands right after it. -/
  flush : s.Flush
  /-- It is not too long. -/
  length_le : s.window.length ≤ capacity
  /-- It holds no comment. -/
  no_comment : ∀ t ∈ s.window, t.kind ≠ .comment
  /-- The source is the one given. -/
  source_eq : s.source = source

/-- **A steady answer**: a steady stream, and something placed in the
source. -/
structure Steady (source : List Char) {α : Type} [HasPlaces α] (answer : α × Stream) : Prop where
  /-- The stream is steady. -/
  stream : answer.2.IsSteady source
  /-- What was answered is placed in the source. -/
  isPlaced : IsPlaced source answer.1

variable {source : List Char} {s : Stream} {kinds : List TokenKind}

/-- A stream without a window is steady. -/
theorem isSteady_of_reader {r : Reader} (h : r.IsAt) (hsource : r.source = source) :
    IsSteady source ⟨r, [], []⟩ :=
  ⟨.of_reader h, flush_of_reader r, Nat.zero_le _, fun _ ht => absurd ht List.not_mem_nil, hsource⟩

/-- Taking a token back leaves the window what it was. -/
theorem window_back (s : Stream) : s.back.window = s.window := by
  obtain ⟨r, behind, ahead⟩ := s
  cases behind with
  | nil => rfl
  | cons t behind =>
    show behind.reverse ++ t :: ahead = (t :: behind).reverse ++ ahead
    rw [List.reverse_cons, List.append_assoc, List.singleton_append]

/-- **What handing out a token leaves in the window**: what was there, and the
token if it had to be cut. -/
theorem mem_window_get {placeholders blanks : Bool} {t : Token}
    (ht : t ∈ (s.get placeholders blanks).2.window) :
    t ∈ s.window ∨ t = (s.reader.lex ⟨blanks, placeholders, false⟩).1 := by
  revert ht
  unfold Stream.get
  extract_lets mode
  obtain ⟨passed, hbehind, hahead, -⟩ := takeAhead_eq mode s.behind s.ahead
  rcases htake : takeAhead mode s.behind s.ahead with ⟨found, behind, ahead⟩
  rw [htake] at hbehind hahead
  dsimp only at hbehind hahead
  cases found with
  | some u =>
    intro ht
    left
    have hwindow : behind.reverse ++ ahead = s.window := by
      rw [window, hahead, hbehind]
      simp
    exact hwindow ▸ ht
  | none =>
    intro ht
    simp only [window, List.append_nil, List.mem_reverse] at ht
    rcases List.mem_cons.mp (List.mem_of_mem_take ht) with ht | ht
    · exact Or.inr ht
    · left
      rw [hbehind] at ht
      rw [window, hahead]
      simp at ht ⊢
      tauto

namespace IsSteady

/-! ## Handing out and taking back -/

/-- **Handing out a token.** The window gets longer only by a token that is
cut, and then the oldest has to go if there is no room. -/
theorem get (h : s.IsSteady source) (placeholders blanks : Bool) :
    Steady source (s.get placeholders blanks) := by
  have hgot := h.isSound.get placeholders blanks
  have hlength : (s.get placeholders blanks).2.window.length ≤ capacity := by
    have hbefore := h.length_le
    unfold Stream.get
    extract_lets mode
    obtain ⟨passed, hbehind, hahead, -⟩ := takeAhead_eq mode s.behind s.ahead
    rcases htake : takeAhead mode s.behind s.ahead with ⟨found, behind, ahead⟩
    rw [htake] at hbehind hahead
    dsimp only at hbehind hahead
    cases found with
    | some t =>
      have hwindow : behind.reverse ++ ahead = s.window := by
        rw [window, hahead, hbehind]
        simp
      show (behind.reverse ++ ahead).length ≤ capacity
      rw [hwindow]
      exact hbefore
    | none =>
      show (List.reverse (List.take capacity _) ++ []).length ≤ capacity
      rw [List.append_nil, List.length_reverse, List.length_take]
      exact Nat.min_le_left _ _
  have hcomment : ∀ t ∈ (s.get placeholders blanks).2.window, t.kind ≠ .comment := by
    intro t ht
    rcases mem_window_get ht with ht | rfl
    · exact h.no_comment t ht
    · exact s.reader.lex_kind_ne_comment rfl
  exact ⟨⟨hgot.isSound, h.flush.get _ _, hlength, hcomment, hgot.source_eq.trans h.source_eq⟩,
    h.source_eq ▸ hgot.isCut.isPlaced⟩

/-- **Taking a token back** keeps the stream steady. -/
theorem back (h : s.IsSteady source) : s.back.IsSteady source := by
  obtain ⟨hsound, hsource, -⟩ := h.isSound.back
  exact ⟨hsound, h.flush.back, s.window_back ▸ h.length_le, s.window_back ▸ h.no_comment,
    hsource.trans h.source_eq⟩

/-- The token handed out last is placed in the source. -/
theorem current_isPlaced (h : s.IsSteady source) : IsPlaced source s.current :=
  h.source_eq ▸ h.isSound.current_isPlaced

theorem grabMany (h : s.IsSteady source) (n : Nat) : Steady source (s.grabMany n) := by
  induction n generalizing s with
  | zero => exact ⟨h, h.current_isPlaced⟩
  | succ n ih =>
    cases n with
    | zero => exact h.get false false
    | succ n => exact ih (h.get false false).stream

theorem backMany (h : s.IsSteady source) (n : Nat) : (s.backMany n).IsSteady source := by
  induction n generalizing s with
  | zero => exact h
  | succ n ih => exact ih h.back

/-- **Looking ahead** hands out tokens and takes as many back. -/
theorem lookahead (h : s.IsSteady source) (k : Nat) : Steady source (s.lookahead k) :=
  ⟨(h.grabMany _).stream.backMany _, (h.grabMany _).isPlaced⟩

end IsSteady

namespace Steady

theorem accept {answer : Token × Stream} (h : Steady source answer) (p : Token → Bool) :
    Steady source (Stream.accept answer p) := by
  unfold Stream.accept
  split_ifs
  · exact ⟨h.stream, isPlaced_some.mpr h.isPlaced⟩
  · exact ⟨h.stream.back, isPlaced_none⟩

/-- A complaint about a token placed in the source. -/
theorem complain {answer : Option Token × Stream} (h : Steady source answer) (expected : String) :
    Steady source (answer.1.elim (answer.2.complain expected) fun t => (.ok t, answer.2)) := by
  obtain ⟨found, after⟩ := answer
  cases found with
  | some t => exact ⟨h.stream, isPlaced_some.mp h.isPlaced⟩
  | none =>
    have hahead := h.stream.lookahead 1
    exact ⟨hahead.stream, Token.unexpected_isPlaced hahead.isPlaced expected⟩

end Steady

namespace IsSteady

theorem matchKinds (h : s.IsSteady source) (kinds : List TokenKind) :
    Steady source (s.matchKinds kinds) :=
  (h.get false true).accept _

theorem matchSmart (h : s.IsSteady source) (kinds : List TokenKind) :
    Steady source (s.matchSmart kinds) :=
  (h.get false _).accept _

theorem matchKeyword (h : s.IsSteady source) (kind : TokenKind) (set : Keywords) :
    Steady source (s.matchKeyword kind set) :=
  (h.get false false).accept _

theorem matchReuse (h : s.IsSteady source) (kinds : List TokenKind) :
    Steady source (s.matchReuse kinds) := by
  unfold Stream.matchReuse
  split_ifs
  · exact ⟨h, isPlaced_some.mpr h.current_isPlaced⟩
  · exact ⟨h.back, isPlaced_none⟩

theorem mustMatch (h : s.IsSteady source) (kinds : List TokenKind) :
    Steady source (s.mustMatch kinds) := by
  have hcomplain := (h.matchKinds kinds).complain (TokenKind.describeAll kinds)
  unfold Stream.mustMatch
  split <;> next heq => rw [heq] at hcomplain; exact hcomplain

theorem mustMatchSmart (h : s.IsSteady source) (kinds : List TokenKind) :
    Steady source (s.mustMatchSmart kinds) := by
  have hcomplain := (h.matchSmart kinds).complain (TokenKind.describeAll kinds)
  unfold Stream.mustMatchSmart
  split <;> next heq => rw [heq] at hcomplain; exact hcomplain

theorem mustMatchKeyword (h : s.IsSteady source) (kind : TokenKind) (set : Keywords) :
    Steady source (s.mustMatchKeyword kind set) := by
  have hcomplain := (h.matchKeyword kind set).complain set.describe
  unfold Stream.mustMatchKeyword
  split <;> next heq => rw [heq] at hcomplain; exact hcomplain

theorem mustReuse (h : s.IsSteady source) (kinds : List TokenKind) :
    Steady source (s.mustReuse kinds) := by
  have hreuse := h.matchReuse kinds
  unfold Stream.mustReuse
  split
  · next heq =>
    rw [heq] at hreuse
    exact ⟨hreuse.stream, isPlaced_some.mp hreuse.isPlaced⟩
  · next heq =>
    rw [heq] at hreuse
    exact ⟨hreuse.stream, Token.unexpected_isPlaced h.current_isPlaced _⟩

/-! ## Emptying the window -/

/-- Reading on from the first token that is ahead. -/
theorem rewind_advance (h : s.IsSteady source) (n : Nat) :
    IsSteady source ⟨s.rewind.reader.advance n, [], []⟩ := by
  obtain ⟨hsound, hsource, -⟩ := h.isSound.rewind
  exact isSteady_of_reader (hsound.isAt.advance n) (hsource.trans h.source_eq)

/-- **Passing over what is broken** takes a token, or empties the window. -/
theorem skipBroken (h : s.IsSteady source) (inBlock : Bool) :
    (s.skipBroken inBlock).IsSteady source := by
  unfold Stream.skipBroken
  extract_lets next rewound level
  have hrewound : rewound = ⟨s.rewind.reader, [], []⟩ := s.rewind_eq
  split_ifs
  · exact h
  · exact (h.get false false).stream
  · rw [hrewound]
    exact h.rewind_advance _

theorem readNth (h : s.IsSteady source) : s.readNth.2.IsSteady source := by
  have hmoves := h.isSound.readNth
  rw [s.readNth_eq]
  exact isSteady_of_reader hmoves.isSound.isAt (hmoves.source_eq.trans h.source_eq)

/-- **Taking all tokens that are left** empties the window and leads to the
end. -/
theorem allTokens (h : s.IsSteady source) : Steady source s.allTokens := by
  obtain ⟨hsound, hsource, -⟩ := h.isSound.rewind
  obtain ⟨before, hbefore, hlocation⟩ := hsound.isAt
  refine ⟨?_, ?_⟩
  · show IsSteady source { s.rewind with reader := _ }
    rw [s.rewind_eq]
    exact h.rewind_advance _
  · rw [← h.source_eq, ← hsource]
    exact (tiles_tokensOf _ _).isPlaced hbefore hlocation

theorem seek (h : s.IsSteady source) {loc : Location} (hloc : IsPlace source loc) :
    (s.seek loc).IsSteady source := by
  obtain ⟨hsound, hsource, -⟩ := isSound_seek (s := s) (h.source_eq ▸ hloc)
  exact isSteady_of_reader hsound.isAt (hsource.trans h.source_eq)

/-! ## Requests -/

/-- What a steady stream shows is placed in the source. -/
theorem shown_isPlace (h : s.IsSteady source) : ∀ loc ∈ s.shown, IsPlace source loc := by
  have hcut : ∀ t ∈ s.window, IsPlaced source t := fun t ht =>
    (h.source_eq ▸ h.isSound.isCut t ht : t.IsCut source).isPlaced
  have hcurrent : IsPlaced source s.current? := by
    unfold current?
    cases hbehind : s.behind with
    | nil => exact isPlaced_none
    | cons t behind => exact isPlaced_some.mpr (hcut t (by simp [window, hbehind]))
  have hpeek : IsPlaced source s.peekCached := by
    unfold peekCached
    cases hahead : s.ahead with
    | nil => exact isPlaced_none
    | cons t ahead => exact isPlaced_some.mpr (hcut t (by simp [window, hahead]))
  intro loc hloc
  rcases List.mem_cons.mp hloc with rfl | hloc
  · exact h.source_eq ▸ h.isSound.isAt.isPlace
  · exact (List.mem_append.mp hloc).elim (hcurrent loc) (hpeek loc)

/-- **Every request leaves a steady stream steady**, and tells only places
of the source. -/
theorem run (h : s.IsSteady source) (request : Request)
    (hseek : ∀ loc, request = .seek loc → IsPlace source loc) :
    (request.run s).2.IsSteady source ∧ ∀ loc ∈ (request.run s).1, IsPlace source loc := by
  have htold : ∀ {α : Type} [HasPlaces α] {answer : α × Stream}, Steady source answer →
      (told answer).2.IsSteady source ∧ ∀ loc ∈ (told answer).1, IsPlace source loc :=
    fun hanswer => ⟨hanswer.stream, hanswer.isPlaced⟩
  have hsilent : ∀ {s' : Stream}, s'.IsSteady source →
      s'.IsSteady source ∧ ∀ loc ∈ ([] : List Location), IsPlace source loc :=
    fun hs' => ⟨hs', fun loc hloc => by cases hloc⟩
  cases request with
  | get placeholders blanks => exact htold (h.get placeholders blanks)
  | grab => exact htold (h.get false false)
  | unget =>
    unfold Request.run Stream.unget
    cases hbehind : s.behind.isEmpty with
    | true => exact hsilent h
    | false => exact hsilent h.back
  | lookahead k => exact htold (h.lookahead k)
  | matchKinds kinds => exact htold (h.matchKinds kinds)
  | matchSmart kinds => exact htold (h.matchSmart kinds)
  | matchKeyword kind set => exact htold (h.matchKeyword kind set)
  | matchReuse kinds => exact htold (h.matchReuse kinds)
  | mustMatch kinds => exact htold (h.mustMatch kinds)
  | mustMatchSmart kinds => exact htold (h.mustMatchSmart kinds)
  | mustMatchKeyword kind set => exact htold (h.mustMatchKeyword kind set)
  | mustReuse kinds => exact htold (h.mustReuse kinds)
  | skipBroken inBlock => exact hsilent (h.skipBroken inBlock)
  | readNth => exact hsilent h.readNth
  | forget => exact hsilent (isSteady_of_reader h.isSound.isAt h.source_eq)
  | allTokens => exact htold h.allTokens
  | seek loc => exact hsilent (h.seek (hseek loc rfl))

end IsSteady

/-- **Every stream that requests lead to is steady**, and all places that
were told are places of the source. -/
theorem Reached.isSteady {text : String} {known : List Location} (h : Reached text known s) :
    s.IsSteady (normalizeNewlines text.toList) ∧
      ∀ loc ∈ known, IsPlace (normalizeNewlines text.toList) loc := by
  induction h with
  | start =>
    have hsteady : (ofString text).IsSteady (normalizeNewlines text.toList) :=
      isSteady_of_reader (isSound_ofString text).isAt rfl
    exact ⟨hsteady, hsteady.shown_isPlace⟩
  | ask request before permitted ih =>
    obtain ⟨hsteady, hknown⟩ := ih
    obtain ⟨hafter, htold⟩ := hsteady.run request fun loc hloc => hknown loc (permitted loc hloc)
    refine ⟨hafter, fun loc hloc => ?_⟩
    rcases List.mem_append.mp hloc with hloc | hloc
    · exact (List.mem_append.mp hloc).elim (htold loc) (hafter.shown_isPlace loc)
    · exact hknown loc hloc

/-- The token handed out last is the one before the cursor. -/
theorem current?_eq (s : Stream) :
    s.current? = if s.cursor = 0 then none else s.window[s.cursor - 1]? := by
  obtain ⟨r, behind, ahead⟩ := s
  cases behind with
  | nil => rfl
  | cons t behind => simp [current?, cursor, window]

/-- The next token ahead is the one at the cursor. -/
theorem peekCached_eq (s : Stream) : s.peekCached = s.window[s.cursor]? := by
  obtain ⟨r, behind, ahead⟩ := s
  simp [peekCached, cursor, window, List.getElem?_append_right, List.head?_eq_getElem?]

/-- **The window after any requests.** The cursor lies within the window, and
the window has room for five tokens. The token handed out last is the one
before the cursor, and the next one is the one after it. The tokens of the
window are in the order of the source without overlapping, and each has the
text that stands at its places. And unless the window is empty, the reader
stands right after its last token. -/
theorem window_of_requests {text : String} {known : List Location}
    (h : Reached text known s) :
    s.source = normalizeNewlines text.toList ∧
    s.cursor ≤ s.window.length ∧ s.window.length ≤ 5 ∧
    s.current? = (if s.cursor = 0 then none else s.window[s.cursor - 1]?) ∧
    s.peekCached = s.window[s.cursor]? ∧
    s.window.Pairwise (fun t u => t.stop.offset ≤ u.location.offset) ∧
    (∀ t ∈ s.window, t.location.offset ≤ t.stop.offset ∧
      t.text.toList = Text.slice s.source t.location.offset t.stop.offset) ∧
    ∀ t, s.window.getLast? = some t → s.reader.location = t.stop := by
  obtain ⟨hsteady, -⟩ := h.isSteady
  have hcursor : s.cursor ≤ s.window.length := by simp [cursor, window]
  refine ⟨hsteady.source_eq, hcursor, hsteady.length_le, s.current?_eq, s.peekCached_eq,
    hsteady.isSound.ordered, fun t ht => ?_, hsteady.flush⟩
  have hcut := hsteady.isSound.isCut t ht
  exact ⟨hcut.location_le_stop, hcut.text_eq_slice⟩

/-- Two tokens are handed out, with a comment between them, and the second is
taken back. Then the stream goes back to where the first one ended, which it
had told, and passes over the comment once more. -/
theorem window_of_requests_back :
    let back := (((ofString "a/**/b").get false true).2.get false true).2.back
    let again := ((back.seek ⟨1, 2, 1⟩).get false true).2
    back.cursor = 1 ∧ back.window.map (·.text) = ["a", "b"] ∧
      again.window.map (·.text) = ["b"] ∧ again.cursor ≤ again.window.length ∧
      ∀ t, again.window.getLast? = some t → again.reader.location = t.stop := by
  intro back again
  have hfirst := Reached.ask (.get false true) (@Reached.start "a/**/b") fun _ h => by cases h
  have hback := Reached.ask .unget (.ask (.get false true) hfirst fun _ h => by cases h)
    fun _ h => by cases h
  have hagain := Reached.ask (.get false true) (.ask (.seek ⟨1, 2, 1⟩) hback fun loc h => by
    obtain rfl := Request.seek.inj h
    decide +kernel) fun _ h => by cases h
  obtain ⟨-, hcursor, -, -, -, -, -, hlast⟩ := window_of_requests hagain
  exact ⟨by decide +kernel, by decide +kernel, by decide +kernel, hcursor, hlast⟩

end Stream

end Stylesheet
