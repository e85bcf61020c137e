import Stylesheet.Proofs.Window

/-!
# What the window holds

A token can be taken back only while it is in the window, so that a parser
has to know how the window changes. Handing out a token brings down the
number of those ahead; a token that was asked for in vain is the only one
ahead then, if there was at most one before.

What is left ahead by a construct that broke off matters, too: a brace or a
semicolon that ends an item has nothing after it there, since reading stops
at it. So there is at most one token ahead when reading goes on.

The reader of a stream stands right after the last token of the window, and
so right after the token handed out last when none is ahead. Then the token
is all that the window adds to the text that is still to be read.
-/

namespace Stylesheet.Stream

variable {s : Stream} {t u : Token} {placeholders blanks : Bool}

/-! ## Handing out -/

/-- With none ahead the next token is cut from the source. -/
theorem get_bare (r : Reader) (behind : List Token) (placeholders blanks : Bool) :
    get ⟨r, behind, []⟩ placeholders blanks =
      ((r.lex ⟨blanks, placeholders, false⟩).1,
        ⟨(r.lex ⟨blanks, placeholders, false⟩).2,
          ((r.lex ⟨blanks, placeholders, false⟩).1 :: behind).take capacity, []⟩) := rfl

/-- A token ahead is handed out if it is not passed over. -/
theorem get_of_ahead (r : Reader) (behind ahead : List Token)
    (ht : Mode.hides ⟨blanks, placeholders, false⟩ t = false) :
    get ⟨r, behind, t :: ahead⟩ placeholders blanks = (t, ⟨r, t :: behind, ahead⟩) := by
  unfold get takeAhead
  simp only [ht, Bool.false_eq_true, if_false]

/-- **Handing out a token** takes it and what is passed over from those
ahead. -/
theorem get_ahead (s : Stream) (placeholders blanks : Bool) :
    ∃ n, (s.get placeholders blanks).2.ahead = s.ahead.drop (n + 1) := by
  unfold get
  extract_lets mode
  obtain ⟨passed, -, hahead, hnone⟩ := takeAhead_eq mode s.behind s.ahead
  rcases htake : takeAhead mode s.behind s.ahead with ⟨found, behind, ahead⟩
  rw [htake] at hahead hnone
  refine ⟨passed.length, ?_⟩
  cases found with
  | some t =>
    show ahead = _
    rw [hahead]
    simp
  | none =>
    obtain rfl : ahead = [] := hnone rfl
    rw [hahead]
    simp

/-- What is behind after handing out a token: the token, and under it what
was behind before unless that was nothing. -/
theorem get_behind (s : Stream) (placeholders blanks : Bool) :
    ∃ behind, (s.get placeholders blanks).2.behind = (s.get placeholders blanks).1 :: behind ∧
      (s.behind ≠ [] → behind ≠ []) := by
  unfold get
  extract_lets mode
  obtain ⟨passed, hbehind, -⟩ := takeAhead_eq mode s.behind s.ahead
  rcases htake : takeAhead mode s.behind s.ahead with ⟨found, behind, ahead⟩
  rw [htake] at hbehind
  dsimp only at hbehind
  cases found with
  | some t =>
    refine ⟨passed.reverse ++ s.behind, ?_, fun hs => ?_⟩
    · show behind = _
      rw [hbehind]
      rfl
    · simp [hs]
  | none =>
    refine ⟨behind.take 4, rfl, fun hs => ?_⟩
    rw [hbehind]
    simp [hs]

theorem get_source (s : Stream) (placeholders blanks : Bool) :
    (s.get placeholders blanks).2.source = s.source := by
  unfold get
  extract_lets mode
  rcases takeAhead mode s.behind s.ahead with ⟨_ | t, behind, ahead⟩ <;> rfl

theorem back_source (s : Stream) : s.back.source = s.source := by
  unfold back
  cases s.behind <;> rfl

/-! ## Tokens at hand -/

/-- **At most one token ahead.** -/
def Near (s : Stream) : Prop := s.ahead.length ≤ 1

/-- **A token at hand**: it was handed out last, and none is ahead. -/
structure At (s : Stream) (t : Token) : Prop where
  /-- None is ahead. -/
  bare : s.ahead = []
  /-- The token was handed out last. -/
  head : s.behind.head? = some t

/-- **Some token can be taken back.** -/
def Held (s : Stream) : Prop := s.behind ≠ []

theorem At.near (h : s.At t) : s.Near := by
  unfold Near
  rw [h.bare]
  exact Nat.zero_le 1

theorem At.held (h : s.At t) : s.Held := by
  intro hnil
  have hhead := h.head
  rw [hnil] at hhead
  cases hhead

theorem At.current_eq (h : s.At t) : s.current = t := by
  unfold current current?
  rw [h.head]
  rfl

/-- With a token at hand there is nothing in the window but what is behind. -/
theorem At.eq (h : s.At t) : s = ⟨s.reader, t :: s.behind.tail, []⟩ := by
  obtain ⟨hbare, hhead⟩ := h
  obtain ⟨r, behind, ahead⟩ := s
  obtain rfl : ahead = [] := hbare
  cases behind with
  | nil => cases hhead
  | cons u behind =>
    obtain rfl := Option.some.inj hhead
    rfl

/-- A token that was handed out can be taken back. -/
theorem get_held (s : Stream) (placeholders blanks : Bool) :
    (s.get placeholders blanks).2.Held := by
  obtain ⟨behind, hbehind, -⟩ := s.get_behind placeholders blanks
  unfold Held
  rw [hbehind]
  exact List.cons_ne_nil _ _

/-- **With at most one token ahead**, the next one is at hand when it is
handed out. -/
theorem Near.get (h : s.Near) (placeholders blanks : Bool) :
    (s.get placeholders blanks).2.At (s.get placeholders blanks).1 := by
  obtain ⟨n, hahead⟩ := s.get_ahead placeholders blanks
  obtain ⟨behind, hbehind, -⟩ := s.get_behind placeholders blanks
  refine ⟨?_, ?_⟩
  · rw [hahead]
    exact List.drop_eq_nil_of_le (Nat.le_trans h (Nat.le_add_left 1 n))
  · rw [hbehind]
    rfl

/-- Taking back a token at hand leaves it ahead by itself. -/
theorem At.back (h : s.At t) : s.back.ahead = [t] := by
  have hbare := h.bare
  have hhead := h.head
  unfold Stream.back
  cases hbehind : s.behind with
  | nil =>
    rw [hbehind] at hhead
    cases hhead
  | cons u behind =>
    rw [hbehind] at hhead
    obtain rfl := Option.some.inj hhead
    show u :: s.ahead = [u]
    rw [hbare]

theorem At.near_back (h : s.At t) : s.back.Near := by
  unfold Near
  rw [h.back]
  exact Nat.le_refl 1

/-- **A token asked for in vain**: at most one is ahead, and what could be
taken back still can. -/
theorem Near.get_back (h : s.Near) (placeholders blanks : Bool) :
    (s.get placeholders blanks).2.back.Near ∧
      (s.Held → (s.get placeholders blanks).2.back.Held) := by
  refine ⟨(h.get placeholders blanks).near_back, fun hs => ?_⟩
  obtain ⟨behind, hbehind, hne⟩ := s.get_behind placeholders blanks
  unfold Held
  rw [behind_back, hbehind]
  exact hne hs

/-! ## What is left by a construct that broke off -/

/-- **Whether a token ends an item** of a block. -/
def endsItem (t : Token) : Bool := t.kind == .rBrace || t.kind == .semicolon

/-- **No token comes after one that ends an item.** -/
def EndsLast (ts : List Token) : Prop := ts.Pairwise fun t _ => endsItem t = false

theorem EndsLast.cons {ts : List Token} (h : EndsLast ts) (ht : endsItem t = false) :
    EndsLast (t :: ts) := List.pairwise_cons.mpr ⟨fun _ _ => ht, h⟩

theorem EndsLast.drop {ts : List Token} (h : EndsLast ts) (n : Nat) : EndsLast (ts.drop n) :=
  h.sublist (List.drop_sublist n ts)

theorem Near.endsLast (h : s.Near) : EndsLast s.ahead := by
  unfold Near at h
  rcases hahead : s.ahead with _ | ⟨u, _ | ⟨v, rest⟩⟩ <;> rw [hahead] at h
  · exact List.Pairwise.nil
  · exact List.pairwise_singleton _ u
  · exact absurd h (by simp)

/-- **After passing over what is broken** at most one token is ahead. -/
theorem near_skipBroken (h : EndsLast s.ahead) (inBlock : Bool) : (s.skipBroken inBlock).Near := by
  -- a token that ends an item is the only one ahead
  have hnear : ∀ u, s.ahead.head? = some u → endsItem u = true → s.Near := by
    intro u hu hends
    unfold Near
    match hahead : s.ahead, hu with
    | [v], rfl => exact Nat.le_refl 1
    | v :: w :: rest, rfl =>
      rw [hahead] at h
      have hlast := (List.pairwise_cons.mp h).1 w List.mem_cons_self
      rw [hends] at hlast
      cases hlast
  have hrewind : ∀ r : Reader, Near { s.rewind with reader := r } := by
    intro r
    unfold rewind
    split <;> exact Nat.zero_le 1
  unfold skipBroken
  extract_lets next level
  split_ifs with hbrace hsemicolon
  · obtain ⟨u, hu, hkind⟩ := Option.map_eq_some_iff.mp (beq_iff_eq.mp hbrace)
    exact hnear u hu (by unfold endsItem; rw [hkind]; rfl)
  · obtain ⟨u, hu, hkind⟩ :=
      Option.map_eq_some_iff.mp (beq_iff_eq.mp (Bool.and_eq_true_iff.mp hsemicolon).1)
    exact ((hnear u hu (by unfold endsItem; rw [hkind]; rfl)).get false false).near
  · exact hrewind _

/-! ## Where the reader stands -/

/-- **The reader stands right after the last token of the window.** -/
def Flush (s : Stream) : Prop :=
  ∀ t, s.window.getLast? = some t → s.reader.location = t.stop

/-- With none ahead, the reader stands right after the token at hand. -/
theorem At.location_eq (h : s.At t) (hs : s.Flush) : s.reader.location = t.stop := by
  refine hs t ?_
  unfold window
  rw [h.bare, List.append_nil, List.getLast?_reverse]
  exact h.head

theorem flush_of_reader (r : Reader) : Flush ⟨r, [], []⟩ := fun _ ht => by cases ht

/-- Another division of the same window. -/
theorem Flush.divide (h : s.Flush) {behind ahead : List Token}
    (hwindow : behind.reverse ++ ahead = s.window) : Flush ⟨s.reader, behind, ahead⟩ := by
  intro t ht
  refine h t ?_
  rw [← hwindow]
  exact ht

theorem Flush.get (h : s.Flush) (placeholders blanks : Bool) :
    (s.get placeholders blanks).2.Flush := by
  unfold Stream.get
  extract_lets mode
  obtain ⟨passed, hbehind, hahead, -⟩ := takeAhead_eq mode s.behind s.ahead
  rcases htake : takeAhead mode s.behind s.ahead with ⟨found, behind, ahead⟩
  rw [htake] at hbehind hahead
  dsimp only at hbehind hahead
  cases found with
  | some t =>
    refine h.divide ?_
    unfold window
    rw [hahead, hbehind]
    simp
  | none =>
    -- the new token is the last one of the window
    intro t ht
    unfold window at ht
    rw [List.append_nil, List.getLast?_reverse] at ht
    obtain rfl := Option.some.inj ht
    rfl

theorem Flush.back (h : s.Flush) : s.back.Flush := by
  unfold Stream.back
  cases hbehind : s.behind with
  | nil => exact h
  | cons t behind =>
    refine h.divide ?_
    unfold window
    rw [hbehind]
    simp

theorem Flush.rewindTo (h : s.Flush) (t : Token) : (s.rewindTo t).Flush := by
  unfold Stream.rewindTo
  split
  · next behind ahead hback => exact h.divide (backTo?_eq hback).1
  · exact flush_of_reader _

theorem rewind_eq (s : Stream) : s.rewind = ⟨s.rewind.reader, [], []⟩ := by
  unfold rewind
  split <;> rfl

theorem Flush.skipBroken (h : s.Flush) (inBlock : Bool) : (s.skipBroken inBlock).Flush := by
  unfold Stream.skipBroken
  extract_lets next rewound level
  have hrewound : rewound = ⟨s.rewind.reader, [], []⟩ := s.rewind_eq
  split_ifs
  · exact h
  · exact h.get false false
  · rw [hrewound]
    exact flush_of_reader _

/-- Reading a count empties the window. -/
theorem readNth_eq (s : Stream) : s.readNth.2 = ⟨s.readNth.2.reader, [], []⟩ := by
  unfold readNth
  rw [s.rewind_eq]
  dsimp only
  split
  · split_ifs <;> rfl
  · rfl

/-! ## Where an item starts -/

/-- **The mode in which selectors are read**: blanks are handed out. -/
abbrev spaced : Mode := ⟨true, false, false⟩

/-- **A token that can be the name of an element.** -/
def IsElementName (t : Token) : Prop := t.kind = .ident ∨ t.kind = .star

/-- **Whether more is looked at after a token** before it is known what it
starts. -/
def looksOn (kind : TokenKind) : Bool := [.ident, .star, .pipe, .colon].contains kind

theorem IsElementName.looksOn (h : IsElementName t) : looksOn t.kind = true := by
  rcases h with h | h <;> rw [h] <;> rfl

/-- **A token at hand with which an item can start.** Usually none is ahead.
But when a name and a bar after it turned out to begin no selector, what
was looked at to find that out is still there: the bar, and the token after
it. So is the second of two colons that turned out not to belong to a
declaration. -/
inductive Front (t : Token) : Stream → Prop where
  /-- None is ahead. -/
  | bare {s : Stream} (h : s.At t) : Front t s
  /-- A bar or a colon at hand, and the token after it ahead. -/
  | mark {r : Reader} {behind : List Token}
      (hkind : t.kind = .pipe ∨ t.kind = .colon ∧ (r.lex spaced).1.kind = .colon)
      (hlength : behind.length ≤ 3) (hat : r.IsAt) (hstop : r.location = t.stop) :
      Front t ⟨(r.lex spaced).2, t :: behind, [(r.lex spaced).1]⟩
  /-- A name at hand, and the bar and what follows it ahead. -/
  | name {r : Reader} {behind : List Token} (hkind : IsElementName t)
      (hbar : (r.lex spaced).1.kind = .pipe) (hlength : behind.length ≤ 2) (hat : r.IsAt)
      (hstop : r.location = t.stop) :
      Front t ⟨((r.lex spaced).2.lex spaced).2, t :: behind,
        [(r.lex spaced).1, ((r.lex spaced).2.lex spaced).1]⟩

namespace Front

theorem head (h : Front t s) : s.behind.head? = some t := by
  cases h with
  | bare h => exact h.head
  | mark | name => rfl

theorem held (h : Front t s) : s.Held := by
  intro hnil
  have hhead := h.head
  rw [hnil] at hhead
  cases hhead

theorem current_eq (h : Front t s) : s.current = t := by
  unfold current current?
  rw [h.head]
  rfl

/-- Where more is ahead, the token is one after which more is looked at. -/
theorem looksOn_eq (h : Front t s) (hs : s.ahead ≠ []) : looksOn t.kind = true := by
  cases h with
  | bare h => exact absurd h.bare hs
  | mark hkind => rcases hkind with hkind | ⟨hkind, -⟩ <;> rw [hkind] <;> rfl
  | name hkind => rcases hkind with hkind | hkind <;> rw [hkind] <;> rfl

/-- Any other token has none ahead. -/
theorem at_of_kind (h : Front t s) (ht : looksOn t.kind = false) : s.At t := by
  refine ⟨Classical.byContradiction fun hs => ?_, h.head⟩
  rw [h.looksOn_eq hs] at ht
  cases ht

theorem endsItem_eq (h : Front t s) (hs : s.ahead ≠ []) : endsItem t = false := by
  have hkind := h.looksOn_eq hs
  unfold endsItem
  cases hrBrace : t.kind == .rBrace with
  | true => rw [eq_of_beq hrBrace] at hkind; cases hkind
  | false =>
    cases hsemicolon : t.kind == .semicolon with
    | true => rw [eq_of_beq hsemicolon] at hkind; cases hkind
    | false => rfl

theorem endsLast (h : Front t s) : EndsLast s.ahead := by
  cases h with
  | bare h => exact h.near.endsLast
  | mark => exact List.pairwise_singleton _ _
  | name _ hbar =>
    refine EndsLast.cons (List.pairwise_singleton _ _) ?_
    unfold endsItem
    rw [hbar]
    rfl

end Front

/-- A token after which more is looked at is never passed over. -/
theorem hides_of_looksOn (ht : looksOn t.kind = true) (mode : Mode) : mode.hides t = false := by
  unfold Mode.hides
  cases hkind : t.kind <;> rw [hkind] at ht <;> first | exact absurd ht Bool.false_ne_true | simp

/-- Unless none is ahead, the token is never passed over. -/
theorem Front.hides_eq (h : Front t s) (hs : s.ahead ≠ []) (mode : Mode) :
    mode.hides t = false := hides_of_looksOn (h.looksOn_eq hs) mode

/-- **Some token is at hand with which an item can start.** -/
def Stopped (s : Stream) : Prop := ∃ t, Front t s

/-- **Between two items**: the next one starts at a token at hand. -/
def Ready (s : Stream) : Prop :=
  ∀ placeholders, Front (s.get placeholders false).1 (s.get placeholders false).2

theorem Near.ready (h : s.Near) : s.Ready := fun placeholders => .bare (h.get placeholders false)

/-- **A token that is taken back** is where the next item starts. -/
theorem Front.ready_back (h : Front t s) : s.back.Ready := by
  by_cases hbare : s.ahead = []
  · exact (At.near_back ⟨hbare, h.head⟩).ready
  · have hhead := h.head
    have hhides := h.hides_eq hbare
    intro placeholders
    obtain ⟨r, behind, ahead⟩ := s
    cases behind with
    | nil => cases hhead
    | cons u behind =>
      obtain rfl := Option.some.inj hhead
      have hget : get (back ⟨r, u :: behind, ahead⟩) placeholders false =
          (u, ⟨r, u :: behind, ahead⟩) := get_of_ahead r behind ahead (hhides _)
      rw [hget]
      exact h

/-- **A token can be given up**, and the next item starts after it. -/
theorem Front.ready (h : Front t s) : s.Ready := by
  cases h with
  | bare h => exact h.near.ready
  | mark =>
    refine Near.ready ?_
    exact Nat.le_refl 1
  | @name r behind hkind hbar hlength hat hstop =>
    intro placeholders
    have hhides : Mode.hides ⟨false, placeholders, false⟩ (r.lex spaced).1 = false := by
      unfold Mode.hides
      rw [hbar]
      simp
    have hget := get_of_ahead ((r.lex spaced).2.lex spaced).2 (t :: behind)
      [((r.lex spaced).2.lex spaced).1] hhides
    rw [hget]
    obtain ⟨-, -, hat', hstop'⟩ := hat.lex (show spaced.comments = false from rfl)
    exact .mark (Or.inl hbar) (Nat.succ_le_succ hlength) hat' hstop'

/-- What is passed over on the way to a token is hidden. -/
theorem takeAhead_passed (mode : Mode) (behind ahead : List Token) :
    ∃ passed, (∀ u ∈ passed, mode.hides u = true) ∧ ahead = passed ++
      ((takeAhead mode behind ahead).1.toList ++ (takeAhead mode behind ahead).2.2) := by
  induction ahead generalizing behind with
  | nil => exact ⟨[], fun _ h => absurd h List.not_mem_nil, rfl⟩
  | cons t ahead ih =>
    unfold takeAhead
    split_ifs with hhides
    · obtain ⟨passed, hpassed, hahead⟩ := ih (t :: behind)
      refine ⟨t :: passed, List.forall_mem_cons.mpr ⟨hhides, hpassed⟩, ?_⟩
      rw [List.cons_append, ← hahead]
    · exact ⟨[], fun _ h => absurd h List.not_mem_nil, rfl⟩

/-- A hidden token ends no item. -/
theorem endsItem_of_hides {mode : Mode} (h : mode.hides t = true) : endsItem t = false := by
  unfold endsItem
  unfold Mode.hides at h
  cases hkind : t.kind <;> rw [hkind] at h <;> first | rfl | simp at h

/-- **Between two items** nothing that is ahead comes after the end of
one. -/
theorem Ready.endsLast (h : s.Ready) : EndsLast s.ahead := by
  have hfront := h false
  obtain ⟨passed, hpassed, hahead⟩ := takeAhead_passed ⟨false, false, false⟩ s.behind s.ahead
  unfold get at hfront
  -- the token handed out is the end of an item only if none is after it
  have hrest : EndsLast ((takeAhead ⟨false, false, false⟩ s.behind s.ahead).1.toList ++
      (takeAhead ⟨false, false, false⟩ s.behind s.ahead).2.2) := by
    obtain ⟨-, -, -, hnone⟩ := takeAhead_eq ⟨false, false, false⟩ s.behind s.ahead
    rcases htake : takeAhead ⟨false, false, false⟩ s.behind s.ahead with ⟨found, behind, ahead⟩
    dsimp only at hfront
    rw [htake] at hfront hnone
    cases found with
    | none =>
      obtain rfl : ahead = [] := hnone rfl
      exact List.Pairwise.nil
    | some t =>
      by_cases hnil : ahead = []
      · rw [hnil]
        exact List.pairwise_singleton _ t
      · exact hfront.endsLast.cons (hfront.endsItem_eq hnil)
  rw [hahead]
  refine List.pairwise_append.mpr ⟨?_, hrest, fun u hu _ _ => endsItem_of_hides (hpassed u hu)⟩
  exact List.pairwise_of_forall_mem_list fun u hu _ _ => endsItem_of_hides (hpassed u hu)

end Stylesheet.Stream
