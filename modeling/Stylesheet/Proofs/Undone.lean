import Stylesheet.Proofs.Excerpt.Parts
import Stylesheet.Proofs.HiddenTokens
import Stylesheet.Proofs.Lookahead.Declaration

/-!
# Declarations that were none

Inside a rule the first tokens of an item are read as a declaration, and
when they turn out to be none, what was read is undone. Either they are put
ahead again, or the stream goes on at the place after the first token. The
two are not the same stream: what is ahead was cut as a declaration needs
it, with blanks passed over at places where a rule asks for them, and what
is cut again is cut as the rule asks for it.

What comes out of the stream is nevertheless the same, if a blank is not
counted as a token but as something that stands before one (`marked`). A
blank is only passed over where another one was just handed out, so that
the token after it stands after a blank in either case.

Nothing else is left of the attempt. What a value reports on the way is held
back, and thrown away when there is no declaration for it to belong to.
-/

namespace Stylesheet

open Parse (State)
open Stylesheet.Stream (spaced)

/-! ## Tokens after blanks -/

/-- **Tokens and whether a blank stands before them**, for the tokens that
are not hidden; `blank` says whether one stands before the first. -/
def marked (blank : Bool) : List Token → List (Token × Bool)
  | [] => []
  | t :: ts =>
    if t.kind.isHidden then marked (blank || t.kind == .whitespace) ts
    else (t, blank) :: marked false ts

/-- **Whether a blank stands before what follows some tokens.** -/
def blankAfter (blank : Bool) : List Token → Bool
  | [] => blank
  | t :: ts => blankAfter (t.kind.isHidden && (blank || t.kind == .whitespace)) ts

variable {blank : Bool} {t u x : Token} {ts us vs : List Token}

theorem marked_hidden (h : t.kind.isHidden = true) :
    marked blank (t :: ts) = marked (blank || t.kind == .whitespace) ts := if_pos h

theorem marked_blank (h : t.kind = .whitespace) : marked blank (t :: ts) = marked true ts := by
  rw [marked_hidden (by rw [h]; rfl), h]
  cases blank <;> rfl

theorem marked_append (blank : Bool) (us vs : List Token) :
    marked blank (us ++ vs) = marked blank us ++ marked (blankAfter blank us) vs := by
  induction us generalizing blank with
  | nil => rfl
  | cons t us ih =>
    rw [List.cons_append, marked, marked, blankAfter]
    cases hhidden : t.kind.isHidden with
    | true => exact ih _
    | false => exact congrArg (List.cons (t, blank)) (ih false)

theorem blankAfter_concat (blank : Bool) (us : List Token) (h : t.kind = .whitespace) :
    blankAfter blank (us ++ [t]) = true := by
  induction us generalizing blank with
  | nil =>
    show (t.kind.isHidden && (blank || t.kind == .whitespace)) = true
    rw [h]
    cases blank <;> rfl
  | cons u us ih => exact ih _

/-! ## Tokens to come -/

namespace Reader

variable {r r' : Reader}

/-- **The tokens to come where blanks are asked for**, with the end of the
source as the last one. -/
def upcoming (r : Reader) : List Token :=
  shownTokens spaced r.location r.rest ++ [Stream.eofAt r.finish]

/-- What comes after tokens that were cut: nothing after the end. -/
def upcomingAfter (r : Reader) (ts : List Token) : List Token :=
  if ts.any Token.isEof then [] else r.upcoming

theorem upcomingAfter_of_more (h : ∀ t ∈ ts, t.isEof = false) : r.upcomingAfter ts = r.upcoming :=
  if_neg fun hany => by
    obtain ⟨t, ht, heof⟩ := List.any_eq_true.mp hany
    exact Bool.false_ne_true ((h t ht).symm.trans heof)

theorem upcomingAfter_append (h : ∀ t ∈ us, t.isEof = false) :
    r.upcomingAfter (us ++ vs) = r.upcomingAfter vs := by
  have hany : us.any Token.isEof = false := List.any_eq_false.mpr fun t ht => by simp [h t ht]
  unfold upcomingAfter
  rw [List.any_append, hany, Bool.false_or]

/-- What comes depends on the source and the place. -/
theorem upcoming_congr (hsource : r.source = r'.source) (hlocation : r.location = r'.location) :
    r.upcoming = r'.upcoming := by
  have hrest : r.rest = r'.rest := by rw [r.rest_eq, r'.rest_eq, hsource, hlocation]
  unfold upcoming finish
  rw [hrest, hlocation]

/-- **Cutting a token with blanks asked for** takes the first of those to
come. -/
theorem upcoming_eq (r : Reader) :
    r.upcoming = (r.lex spaced).1 :: (r.lex spaced).2.upcomingAfter [(r.lex spaced).1] := by
  unfold upcomingAfter upcoming
  rw [List.any_cons, List.any_nil, Bool.or_false]
  rcases r.lex_shownTokens spaced rfl with ⟨hnil, heof⟩ | ⟨hcons, heof⟩
  · rw [hnil, heof]
    rfl
  · rw [hcons, heof, finish_lex]
    rfl

/-- **Cutting a token with blanks passed over** makes no difference where a
blank stands before. -/
theorem marked_upcoming (r : Reader) :
    marked true r.upcoming =
      marked true ((r.lex .visible).1 :: (r.lex .visible).2.upcomingAfter [(r.lex .visible).1]) := by
  refine lex_induction .visible (P := fun r => marked true r.upcoming =
      marked true ((r.lex .visible).1 :: (r.lex .visible).2.upcomingAfter [(r.lex .visible).1]))
    (fun r lx htrivia _ hlex ih => ?_) (fun r hkept hlex => ?_) r
  · rw [hlex, ← ih]
    -- what is passed over is a blank or nothing where blanks are asked for
    cases hkeeps : spaced.keeps lx with
    | none =>
      unfold upcoming
      rw [shownTokens_of_trivia rfl htrivia hkeeps, ← r.finish_advance lx.size]
      rfl
    | some kept =>
      have hkind : lx.kind = .whitespace := by
        unfold Mode.keeps at hkeeps
        rcases (Lexeme.trivia?_kind htrivia).1 with hkind | hkind | hkind
        · exact hkind
        · rw [hkind] at hkeeps
          cases hkeeps
        · rw [hkind] at hkeeps
          cases hkeeps
      have hlexed : r.lex spaced = (lx.place r.location r.rest, r.advance lx.size) := by
        rcases r.lex_cases spaced with ⟨lx', htrivia', hnone, -⟩ | ⟨-, hlexed⟩
        · obtain rfl := Option.some.inj (htrivia.symm.trans htrivia')
          rw [hkeeps] at hnone
          cases hnone
        · have hfirst : Lexeme.first r.rest = lx := by
            unfold Lexeme.first
            rw [htrivia]
            rfl
          rw [hlexed, Mode.firstOf_eq_first rfl, hfirst]
      rw [r.upcoming_eq, hlexed, marked_blank hkind]
      refine congrArg _ (upcomingAfter_of_more fun t ht => ?_)
      obtain rfl := List.mem_singleton.mp ht
      show (lx.kind == .eof) = false
      rw [hkind]
      rfl
  · have hnone : Lexeme.trivia? r.rest = none := by
      cases htrivia : Lexeme.trivia? r.rest with
      | none => rfl
      | some lx =>
        refine absurd ?_ (hkept lx htrivia)
        unfold Mode.keeps
        rcases (Lexeme.trivia?_kind htrivia).1 with hkind | hkind | hkind <;> rw [hkind] <;> rfl
    have hlexed : r.lex spaced = r.lex .visible := by
      rcases r.lex_cases spaced with ⟨lx, htrivia, -⟩ | ⟨-, hlexed⟩
      · rw [hnone] at htrivia
        cases htrivia
      · rw [hlexed, hlex, Mode.firstOf_eq_first rfl, Mode.firstOf_eq_first rfl]
    rw [r.upcoming_eq, hlexed]

end Reader

/-! ## Looking at tokens -/

/-- **Tokens cut one after the other**, with blanks asked for, or passed
over where one was just cut. -/
inductive Looked (r : Reader) : List Token → Reader → Prop where
  /-- None. -/
  | nil : Looked r [] r
  /-- One more, and blanks are asked for. -/
  | withBlanks {us : List Token} {r' : Reader} (h : Looked r us r') (hmore : ∀ u ∈ us, u.isEof = false) :
      Looked r (us ++ [(r'.lex spaced).1]) (r'.lex spaced).2
  /-- One more after a blank, and blanks are passed over. -/
  | withoutBlanks {us : List Token} {w : Token} {r' : Reader} (h : Looked r (us ++ [w]) r')
      (hmore : ∀ u ∈ us ++ [w], u.isEof = false) (hblank : w.kind = .whitespace) :
      Looked r (us ++ [w] ++ [(r'.lex .visible).1]) (r'.lex .visible).2

namespace Looked

variable {r r' : Reader}

/-- **The tokens that were cut and those after them** are the tokens to
come, but for blanks after blanks. -/
theorem marked_eq (h : Looked r us r') (blank : Bool) :
    marked blank (us ++ r'.upcomingAfter us) = marked blank r.upcoming := by
  induction h with
  | nil => rfl
  | @withBlanks us r' _ hmore ih =>
    rw [Reader.upcomingAfter_of_more hmore, marked_append, r'.upcoming_eq] at ih
    rw [Reader.upcomingAfter_append hmore, List.append_assoc, marked_append]
    exact ih
  | @withoutBlanks us w r' _ hmore hblank ih =>
    rw [Reader.upcomingAfter_of_more hmore, marked_append, blankAfter_concat _ _ hblank,
      r'.marked_upcoming] at ih
    rw [Reader.upcomingAfter_append hmore, List.append_assoc, marked_append,
      blankAfter_concat _ _ hblank]
    exact ih

theorem source_eq (h : Looked r us r') : r'.source = r.source := by
  induction h with
  | nil => rfl
  | withBlanks _ _ ih => exact ih
  | withoutBlanks _ _ _ ih => exact ih

/-- What was cut is handed out where blanks are asked for. -/
theorem hides_eq (h : Looked r us r') : ∀ u ∈ us, spaced.hides u = false := by
  induction h with
  | nil => exact fun u hu => absurd hu List.not_mem_nil
  | @withBlanks us r' _ _ ih =>
    intro u hu
    rcases List.mem_append.mp hu with hu | hu
    · exact ih u hu
    · obtain rfl := List.mem_singleton.mp hu
      exact r'.hides_lex rfl rfl
  | @withoutBlanks us w r' _ _ _ ih =>
    intro u hu
    rcases List.mem_append.mp hu with hu | hu
    · exact ih u hu
    · obtain rfl := List.mem_singleton.mp hu
      rcases r'.hides_lex_cases (show Mode.visible.comments = false from rfl) with hshown | ⟨hkind, -⟩
      · unfold Mode.hides at hshown ⊢
        simp only [Bool.or_eq_false_iff] at hshown ⊢
        exact ⟨⟨hshown.1.1, rfl⟩, hshown.2⟩
      · unfold Mode.hides
        rw [hkind]
        rfl

/-- No token comes after the end. -/
theorem dropLast_isEof (h : Looked r us r') : ∀ u ∈ us.dropLast, u.isEof = false := by
  cases h with
  | nil => exact fun u hu => absurd hu List.not_mem_nil
  | withBlanks _ hmore => rwa [List.dropLast_concat]
  | withoutBlanks _ hmore => rwa [List.dropLast_concat]

end Looked

namespace Stream

variable {s st : Stream} {r : Reader} {behind : List Token}

/-- **The tokens that requests with blanks hand out** one after the other,
up to the end of the source. -/
inductive Delivers : Stream → List Token → Prop where
  /-- The end. -/
  | last {s : Stream} (h : (s.get false true).1.isEof = true) : Delivers s [(s.get false true).1]
  /-- One more token. -/
  | more {s : Stream} {ts : List Token} (h : (s.get false true).1.isEof = false)
      (hts : Delivers (s.get false true).2 ts) : Delivers s ((s.get false true).1 :: ts)

/-- **With none ahead**, the tokens to come are delivered. -/
theorem delivers_upcoming (r : Reader) (behind : List Token) :
    Delivers ⟨r, behind, []⟩ r.upcoming := by
  obtain ⟨ts, hts⟩ : ∃ ts, shownTokens spaced r.location r.rest = ts := ⟨_, rfl⟩
  induction ts generalizing r behind with
  | nil =>
    rcases r.lex_shownTokens spaced rfl with ⟨-, heof⟩ | ⟨hcons, -⟩
    · have hlast : Delivers ⟨r, behind, []⟩ [(r.lex spaced).1] := .last (by
        rw [get_bare, heof]
        rfl)
      unfold Reader.upcoming
      rw [hts, ← heof]
      exact hlast
    · rw [hts] at hcons
      cases hcons
  | cons t ts ih =>
    rcases r.lex_shownTokens spaced rfl with ⟨hnil, -⟩ | ⟨hcons, hmore⟩
    · rw [hts] at hnil
      cases hnil
    · rw [hts] at hcons
      obtain ⟨rfl, hrest⟩ := List.cons.inj hcons
      rw [r.upcoming_eq, Reader.upcomingAfter_of_more fun u hu => List.mem_singleton.mp hu ▸ hmore]
      exact .more hmore (ih _ _ hrest.symm)

/-- **What is ahead is delivered first.** -/
theorem delivers_ahead (r : Reader) (behind : List Token) (hshown : ∀ u ∈ us, spaced.hides u = false)
    (hmore : ∀ u ∈ us.dropLast, u.isEof = false) :
    Delivers ⟨r, behind, us⟩ (us ++ r.upcomingAfter us) := by
  induction us generalizing behind with
  | nil => exact delivers_upcoming r behind
  | cons u us ih =>
    have hget : get ⟨r, behind, u :: us⟩ false true = (u, ⟨r, u :: behind, us⟩) :=
      get_of_ahead r behind us (hshown u List.mem_cons_self)
    cases heof : u.isEof with
    | true =>
      obtain rfl : us = [] := by
        cases us with
        | nil => rfl
        | cons v us => exact absurd ((hmore u List.mem_cons_self).symm.trans heof) Bool.false_ne_true
      have hlast : Delivers ⟨r, behind, [u]⟩ [(get ⟨r, behind, [u]⟩ false true).1] := .last (by
        rw [hget]
        exact heof)
      rw [hget] at hlast
      unfold Reader.upcomingAfter
      rw [List.any_cons, heof]
      exact hlast
    | false =>
      have hrest : Delivers ⟨r, u :: behind, us⟩ (us ++ r.upcomingAfter us) := by
        refine ih _ (fun v hv => hshown v (List.mem_cons_of_mem u hv)) fun v hv => hmore v ?_
        cases us with
        | nil => cases hv
        | cons w us => exact List.mem_cons_of_mem u hv
      have hafter : r.upcomingAfter (u :: us) = r.upcomingAfter us :=
        Reader.upcomingAfter_append fun v (hv : v ∈ [u]) => List.mem_singleton.mp hv ▸ heof
      have hdelivers : Delivers ⟨r, behind, u :: us⟩
          ((get ⟨r, behind, u :: us⟩ false true).1 :: (us ++ r.upcomingAfter us)) :=
        .more (by rw [hget]; exact heof) (by rw [hget]; exact hrest)
      rw [hget] at hdelivers
      rw [hafter]
      exact hdelivers

/-- **Some tokens were looked at after one**, and all of them are still in
the window. -/
structure LooksPast (t : Token) (r : Reader) (us : List Token) (st : Stream) : Prop where
  /-- The stream is sound. -/
  isSound : st.IsSound
  /-- The tokens are behind. -/
  behind_eq : ∃ behind, st = ⟨st.reader, us.reverse ++ t :: behind, []⟩
  /-- They were cut one after the other. -/
  looked : Looked r us st.reader

namespace LooksPast

/-- **One more token** leaves the others in the window, unless there are
too many. -/
theorem get (h : LooksPast t r us st) (hlength : us.length ≤ 3) {placeholders blanks : Bool}
    (hlooked : Looked r (us ++ [(st.reader.lex ⟨blanks, placeholders, false⟩).1])
      (st.reader.lex ⟨blanks, placeholders, false⟩).2) :
    LooksPast t r (us ++ [(st.get placeholders blanks).1]) (st.get placeholders blanks).2 := by
  obtain ⟨hsound, ⟨behind, hst⟩, -⟩ := h
  have hsound' := (hsound.get placeholders blanks).isSound
  generalize st.reader = r' at hst hlooked
  subst hst
  refine ⟨hsound', ⟨behind.take (3 - us.length), ?_⟩, hlooked⟩
  have hrest : 4 - us.reverse.length = 3 - us.length + 1 := by
    rw [List.length_reverse]
    omega
  rw [get_bare, List.reverse_append, show capacity = 4 + 1 from rfl, List.take_succ_cons,
    List.take_append, List.take_of_length_le (by rw [List.length_reverse]; omega), hrest,
    List.take_succ_cons]
  rfl

/-- After the end of the source there is only the end again. -/
theorem rewindTo_of_eof (h : LooksPast t r us st) (ht : t.kind = .eof) (hstop : r.location = t.stop) :
    st.rewindTo t = st ∧ st.reader.upcoming = r.upcoming := by
  obtain ⟨hsound, ⟨behind, hst⟩, hlooked⟩ := h
  generalize st.reader = r' at hst hlooked
  subst hst
  have hcut : t.IsCut r'.source := hsound.isCut t (by simp [window])
  have hend : t.location.offset = Text.byteLength r'.source := by
    rw [hcut.location_of_eof ht, Location.offset_advance_start]
  constructor
  · obtain ⟨u, older, hbehind⟩ : ∃ u older, us.reverse ++ t :: behind = u :: older :=
      List.exists_cons_of_ne_nil (by simp)
    have hu : u.IsCut r'.source := hsound.isCut u (by
      unfold window
      rw [hbehind]
      simp)
    have hle : t.location.offset ≤ u.location.offset := by
      rcases us.eq_nil_or_concat with rfl | ⟨vs, v, rfl⟩
      · obtain ⟨rfl, -⟩ := List.cons.inj hbehind
        exact Nat.le_refl _
      · rw [List.concat_eq_append] at hbehind hsound
        rw [List.reverse_append] at hbehind
        obtain ⟨rfl, -⟩ := List.cons.inj hbehind
        have hordered := hsound.ordered
        unfold window at hordered
        simp only [List.reverse_append, List.reverse_reverse, List.reverse_cons, List.append_nil,
          List.append_assoc, List.singleton_append, List.pairwise_append, List.pairwise_cons]
          at hordered
        exact Nat.le_trans hcut.location_le_stop (hordered.2.1.1 v (by simp))
    have hlocation : u.location = t.location :=
      hu.location_isPlace.eq_of_offset hcut.location_isPlace
        (Nat.le_antisymm (hend ▸ hu.location_isPlace.offset_le) hle)
    unfold Stream.rewindTo
    dsimp only
    rw [hbehind]
    unfold backTo?
    rw [if_pos hlocation]
  · refine Reader.upcoming_congr hlooked.source_eq ?_
    have hbefore : t.stop.offset ≤ r'.location.offset := hsound.before t (by simp [window])
    rw [hstop]
    refine hsound.isAt.isPlace.eq_of_offset hcut.stop_isPlace (Nat.le_antisymm ?_ hbefore)
    exact Nat.le_trans hsound.isAt.isPlace.offset_le (hend ▸ hcut.location_le_stop)

/-- **Going back to the token** leaves the same tokens to come, but for
blanks after blanks. -/
theorem rewindTo (h : LooksPast t r us st) (hstop : r.location = t.stop) :
    ∃ ts, (st.rewindTo t).Delivers ts ∧ marked false ts = marked false r.upcoming := by
  obtain ⟨behind, hst⟩ := h.behind_eq
  by_cases ht : t.kind = .eof
  · obtain ⟨hrewound, hupcoming⟩ := h.rewindTo_of_eof ht hstop
    rw [hrewound, ← hupcoming]
    refine ⟨_, ?_, rfl⟩
    rw [hst]
    exact delivers_upcoming _ _
  · obtain ⟨hsound, -, hlooked⟩ := h
    generalize st.reader = r' at hst hlooked
    subst hst
    rw [hsound.rewindTo_eq ht, List.append_nil]
    exact ⟨_, delivers_ahead r' _ hlooked.hides_eq hlooked.dropLast_isEof, hlooked.marked_eq false⟩

end LooksPast

end Stream

/-! ## Values report aside -/

/-- **A parser that reports aside**: while events are held back, all that it
leaves is another place of the stream and more events that are held back. -/
def ReportsAside {α : Type} (p : Parser α) : Prop :=
  ∀ s : State, s.deferred.isSome = true → ∃ st held, st.source = s.stream.source ∧
    (p s).2 = { s with stream := st, deferred := some held }

namespace ReportsAside

variable {α β σ : Type} {p q : Parser α} {f : α → Parser β}

theorem pure (a : α) : ReportsAside (Pure.pure a : Parser α) := fun s hs => by
  obtain ⟨held, hheld⟩ := Option.isSome_iff_exists.mp hs
  exact ⟨s.stream, held, rfl, by rw [← hheld]; rfl⟩

theorem throw (e : Diagnostic) : ReportsAside (MonadExcept.throw e : Parser α) := fun s hs => by
  obtain ⟨held, hheld⟩ := Option.isSome_iff_exists.mp hs
  exact ⟨s.stream, held, rfl, by rw [← hheld]; rfl⟩

theorem bind (hp : ReportsAside p) (hf : ∀ a, ReportsAside (f a)) : ReportsAside (p >>= f) := by
  intro s hs
  obtain ⟨st, held, hsource, hstate⟩ := hp s hs
  rcases hrun : p s with ⟨e | a, s₁⟩ <;> rw [hrun] at hstate
  · rw [Parser.bind_error hrun]
    exact ⟨st, held, hsource, hstate⟩
  · rw [Parser.bind_ok hrun, show s₁ = _ from hstate]
    obtain ⟨st', held', hsource', hstate'⟩ :=
      hf a { s with stream := st, deferred := some held } rfl
    exact ⟨st', held', hsource'.trans hsource, hstate'⟩

theorem throw_bind {e : Diagnostic} : ReportsAside ((MonadExcept.throw e : Parser α) >>= f) :=
  throw e

theorem ite {c : Prop} [Decidable c] (hpos : ReportsAside p) (hneg : ReportsAside q) :
    ReportsAside (if c then p else q) := by
  by_cases hc : c
  · rwa [if_pos hc]
  · rwa [if_neg hc]

theorem state_bind {f : State → Parser β} (hf : ∀ s, ReportsAside (f s)) :
    ReportsAside (Parser.state >>= f) := fun s hs => hf s s hs

theorem options_bind {f : Options → Parser β} (hf : ∀ o, ReportsAside (f o)) :
    ReportsAside (Parser.options >>= f) := fun s hs => hf s.options s hs

theorem current_bind {f : Token → Parser β} (hf : ∀ t, ReportsAside (f t)) :
    ReportsAside (Parser.current >>= f) := fun s hs => hf s.stream.current s hs

theorem slice (start stop : Nat) : ReportsAside (Parser.slice start stop) :=
  state_bind fun _ => pure _

theorem next (placeholders blanks : Bool) : ReportsAside (Parser.next placeholders blanks) := by
  intro s hs
  obtain ⟨held, hheld⟩ := Option.isSome_iff_exists.mp hs
  refine ⟨(s.stream.get placeholders blanks).2, held, s.stream.get_source _ _, ?_⟩
  rw [← hheld]
  rfl

theorem warn (message : String) (loc : Location) : ReportsAside (Parser.warn message loc) := by
  intro s hs
  obtain ⟨held, hheld⟩ := Option.isSome_iff_exists.mp hs
  unfold Parser.warn
  rw [Parser.fire_apply_of_held hheld]
  exact ⟨s.stream, _, rfl, rfl⟩

theorem repeating {step : σ → Parser (ForInStep σ)} (hstep : ∀ a, ReportsAside (step a)) (a : σ) :
    ReportsAside (Parser.repeating a step) := by
  have hrounds : ∀ n a, ReportsAside (Parser.rounds step n a) := by
    intro n
    induction n with
    | zero => exact fun a => pure a
    | succ n ih =>
      intro a
      refine (hstep a).bind fun r => ?_
      cases r with
      | done b => exact pure b
      | yield b => exact ih b
  exact fun s hs => hrounds s.budget a s hs

section Values

variable {inner : Parser.ExprParser} (hinner : ∀ ends raw, ReportsAside (inner ends raw))

theorem hashPart (t : Token) : ReportsAside (Parser.hashPart t) := by
  unfold Parser.hashPart
  exact ite (pure _) ((warn _ _).bind fun _ => pure _)

include hinner

theorem blockPart (t : Token) (close : TokenKind) (raw : Bool) :
    ReportsAside (Parser.blockPart inner t close raw) := by
  unfold Parser.blockPart
  exact (hinner _ _).bind fun _ => current_bind fun _ =>
    ite ((slice _ _).bind fun _ => pure _) throw_bind

theorem functionPart (t : Token) (raw : Bool) : ReportsAside (Parser.functionPart inner t raw) := by
  unfold Parser.functionPart
  refine (hinner _ _).bind fun args => current_bind fun close => ite ?_ throw_bind
  refine (slice _ _).bind fun _ => ?_
  cases args with
  | none => exact pure _
  | some args => exact pure _

theorem plainPart (t : Token) (raw : Bool) : ReportsAside (Parser.plainPart inner t raw) := by
  unfold Parser.plainPart
  refine ite (options_bind fun _ => ite throw_bind (functionPart hinner t raw)) ?_
  exact ite (pure _) (ite (hashPart t) (ite (pure _) (pure _)))

theorem exprStep (ends : List TokenKind) (raw : Bool) (parts : List ValuePart) :
    ReportsAside (Parser.exprStep inner ends raw parts) := by
  unfold Parser.exprStep
  refine (next true false).bind fun t => ite (pure _) ?_
  cases Parser.closingKind? t.kind with
  | some close => exact ite (pure _) ((blockPart hinner t close raw).bind fun _ => pure _)
  | none => exact (plainPart hinner t raw).bind fun _ => pure _

end Values

/-- **A value**, with brackets nested to any depth. -/
theorem exprTo (depth : Nat) (ends : List TokenKind) (raw : Bool) :
    ReportsAside (Parser.exprTo depth ends raw) := by
  induction depth generalizing ends raw with
  | zero => exact throw _
  | succ depth ih =>
    unfold Parser.exprTo
    exact (repeating (exprStep ih ends raw) []).bind fun _ =>
      ite (pure _) (state_bind fun _ => pure _)

end ReportsAside

/-- **A value whose events are held back** leaves only another place of the
stream, if there is a value. -/
theorem Parser.exprHeldBack_leaves {s s' : State} {ends : List TokenKind}
    {r : Option Value × List Event} (hdeferred : s.deferred = none)
    (hrun : Parser.exprHeldBack ends s = (.ok r, s')) :
    ∃ st, st.source = s.stream.source ∧ s' = s.withStream st := by
  have haside := ReportsAside.exprTo s.budget ends false { s with deferred := some [] } rfl
  have hbudget : Parser.expr ends false { s with deferred := some [] } =
      Parser.exprTo s.budget ends false { s with deferred := some [] } := rfl
  rw [Parser.exprHeldBack_apply, hbudget] at hrun
  obtain ⟨st, held, hsource, hstate⟩ := haside
  rcases hexpr : Parser.exprTo s.budget ends false { s with deferred := some [] } with ⟨e | v, s₁⟩ <;>
    rw [hexpr] at hrun hstate
  · cases hrun
  · obtain ⟨-, rfl⟩ := Prod.mk.inj hrun
    refine ⟨st, hsource, ?_⟩
    rw [show s₁ = _ from hstate]
    unfold State.withStream
    rw [← hdeferred]

/-! ## Names and what follows them -/

namespace Parser

variable {s s₁ : State} {r : Reader} {property : PropertyName} {found : AfterName}

/-- After the next token the rest runs. -/
theorem next_bind {β : Type} {f : Token → Parser β} (placeholders blanks : Bool) :
    (next placeholders blanks >>= f) s =
      f (s.stream.get placeholders blanks).1 (s.withStream (s.stream.get placeholders blanks).2) :=
  rfl

/-- A demand that is met takes the next token, blanks included. -/
theorem mustMatch_eq_ok {kinds : List TokenKind} (hrun : mustMatch kinds s = (.ok u, s₁)) :
    u = (s.stream.get false true).1 ∧ s₁ = s.withStream (s.stream.get false true).2 ∧
      kinds.contains u.kind = true := by
  unfold mustMatch demand at hrun
  obtain ⟨answer, s₂, hask, hanswer⟩ := bind_eq_ok.mp hrun
  have hmatch : s.stream.mustMatch kinds =
      if kinds.contains (s.stream.get false true).1.kind = true then
        (.ok (s.stream.get false true).1, (s.stream.get false true).2)
      else (s.stream.get false true).2.back.complain (TokenKind.describeAll kinds) := by
    unfold Stream.mustMatch Stream.matchKinds Stream.accept
    split_ifs <;> rfl
  have hask : (Except.ok (s.stream.mustMatch kinds).1, s.withStream (s.stream.mustMatch kinds).2) =
      (.ok answer, s₂) := hask
  rw [hmatch] at hask
  split_ifs at hask with hkind
  · obtain ⟨rfl, rfl⟩ := hask
    cases hanswer
    exact ⟨rfl, rfl, hkind⟩
  · obtain ⟨rfl, rfl⟩ := hask
    cases hanswer

/-- **The name of a property** is the token itself, or the one after it. -/
theorem propertyName_looks (h : s.stream.LooksPast t r [])
    (hrun : propertyName t s = (.ok property, s₁)) :
    ∃ us st, s₁ = s.withStream st ∧ st.LooksPast t r us ∧ us.length ≤ 1 ∧
      ∀ u ∈ us, u.isEof = false := by
  have hnone : ∃ us st, s = s.withStream st ∧ st.LooksPast t r us ∧ us.length ≤ 1 ∧
      ∀ u ∈ us, u.isEof = false :=
    ⟨[], s.stream, rfl, h, Nat.zero_le 1, fun u hu => absurd hu List.not_mem_nil⟩
  unfold propertyName at hrun
  split_ifs at hrun with hstar
  · obtain ⟨name, s₂, hname, ⟨⟩⟩ := bind_eq_ok.mp hrun
    obtain ⟨rfl, rfl, hkind⟩ := mustMatch_eq_ok hname
    refine ⟨_, _, rfl, h.get (Nat.zero_le 3) (.withBlanks h.looked ?_), Nat.le_refl 1, ?_⟩
    · exact fun u hu => absurd hu List.not_mem_nil
    · intro u hu
      obtain rfl := List.mem_singleton.mp hu
      have hident : (s.stream.get false true).1.kind = .ident := by simpa using hkind
      show ((s.stream.get false true).1.kind == .eof) = false
      rw [hident]
      rfl
  · obtain ⟨o, s₂, ⟨⟩, hrest⟩ := bind_eq_ok.mp hrun
    split_ifs at hrest <;> cases hrest <;> exact hnone

/-- What follows the name of a property, given the token after it and the
one after that if it is a blank. -/
def afterSeen (raw seen : Token) : Parser AfterName := do
  if seen.kind == .colon then
    let first ← next true true
    return if first.kind == .colon then .pseudo raw else .value first.kind
  else return .other raw seen

theorem afterName_none : afterName none = (do
    let raw ← next false true
    if raw.kind == .whitespace then
      let seen ← next false false
      afterSeen raw seen
    else afterSeen raw raw) := rfl

/-- **What follows the name of a property**: unless a value comes, all that
was looked at is still in the window. -/
theorem afterName_looks (h : s.stream.LooksPast t r us) (hlength : us.length ≤ 1)
    (hmore : ∀ u ∈ us, u.isEof = false) (hrun : afterName none s = (.ok found, s₁)) :
    ∃ st, s₁ = s.withStream st ∧ st.source = s.stream.source ∧
      ((∀ first, found ≠ .value first) → ∃ us', st.LooksPast t r us') := by
  rw [afterName_none, next_bind] at hrun
  -- from the token that is no blank on
  have hrest : ∀ (raw seen : Token) (us : List Token) (st : Stream), st.LooksPast t r us →
      us.length ≤ 3 → (seen.kind = .colon → ∀ u ∈ us, u.isEof = false) →
      st.source = s.stream.source → afterSeen raw seen (s.withStream st) = (.ok found, s₁) →
      ∃ st, s₁ = s.withStream st ∧ st.source = s.stream.source ∧
        ((∀ first, found ≠ .value first) → ∃ us', st.LooksPast t r us') := by
    intro raw seen us st h hlength hmore hsource hrun
    unfold afterSeen at hrun
    split_ifs at hrun with hcolon
    · rw [next_bind] at hrun
      cases hrun
      refine ⟨_, rfl, (st.get_source _ _).trans hsource, fun hnone => ?_⟩
      split_ifs at hnone with hfirst
      · refine ⟨_, h.get hlength ?_⟩
        -- the second colon is the same where blanks are asked for
        obtain ⟨behind, hst⟩ := h.behind_eq
        have hlexed : st.reader.lex spaced = st.reader.lex ⟨true, true, false⟩ := by
          refine Orderly.lex_spaced_of_colon (eq_of_beq ?_)
          rw [hst] at hfirst
          exact hfirst
        rw [← hlexed]
        exact .withBlanks h.looked (hmore (eq_of_beq hcolon))
      · exact absurd rfl (hnone _)
    · cases hrun
      exact ⟨_, rfl, hsource, fun _ => ⟨us, h⟩⟩
  have hsource : (s.stream.get false true).2.source = s.stream.source := s.stream.get_source _ _
  have hraw : (s.stream.get false true).2.LooksPast t r (us ++ [(s.stream.get false true).1]) :=
    h.get (Nat.le_trans hlength (by decide)) (.withBlanks h.looked hmore)
  have hmoreRaw : (s.stream.get false true).1.kind ≠ .eof →
      ∀ u ∈ us ++ [(s.stream.get false true).1], u.isEof = false := by
    intro hkind u hu
    rcases List.mem_append.mp hu with hu | hu
    · exact hmore u hu
    · obtain rfl := List.mem_singleton.mp hu
      exact beq_eq_false_iff_ne.mpr hkind
  split_ifs at hrun with hblank
  · have hkind : (s.stream.get false true).1.kind = .whitespace := eq_of_beq hblank
    have hmore' := hmoreRaw (by rw [hkind]; exact TokenKind.noConfusion)
    rw [next_bind] at hrun
    refine hrest _ _ _ _ (hraw.get ?_ (.withoutBlanks hraw.looked hmore' hkind)) ?_ ?_ ?_ hrun
    · simp; omega
    · simp; omega
    · intro hcolon u hu
      rcases List.mem_append.mp hu with hu | hu
      · exact hmore' u hu
      · obtain rfl := List.mem_singleton.mp hu
        refine beq_eq_false_iff_ne.mpr ?_
        rw [show ((s.stream.get false true).2.get false false).1.kind = .colon from hcolon]
        exact TokenKind.noConfusion
    · exact (Stream.get_source _ _ _).trans hsource
  · refine hrest _ _ _ _ hraw ?_ (fun hcolon => hmoreRaw ?_) hsource hrun
    · simp; omega
    · rw [hcolon]
      exact TokenKind.noConfusion

/-- The value of a declaration, once the token after the colon was taken
back unless it is a blank. -/
def valueThere (site : DeclarationSite) (t : Token) (property : PropertyName) (first : TokenKind) :
    Parser Bool := do
  let custom := t.isCustomIdent
  if !site.inParens && !custom && (first == .ident || first == .function) then
    let (value, held) ← exprHeldBack (site.ends custom)
    if (← current).kind == .lBrace then
      seek t.stop
      return false
    held.forM dispatch
    declarationTail site t property value
    return true
  else
    let value ← expr (site.ends custom) custom
    declarationTail site t property value
    return true

theorem declarationValue_eq (site : DeclarationSite) (property : PropertyName) (first : TokenKind) :
    declarationValue site t property first = (if first == .whitespace then
      valueThere site t property first
    else do
      unget
      valueThere site t property first) := by
  unfold declarationValue
  cases first == .whitespace <;> rfl

theorem valueThere_eq_false {site : DeclarationSite} {first : TokenKind}
    (hdeferred : s.deferred = none)
    (hrun : valueThere site t property first s = (.ok false, s₁)) :
    ∃ st : Stream, st.source = s.stream.source ∧ s₁ = s.withStream (st.seek t.stop) := by
  have htail : ∀ {value : Option Value} {s₂ : State},
      (do declarationTail site t property value; return true) s₂ ≠ (.ok false, s₁) := by
    intro value s₂ h
    obtain ⟨_, s₃, -, h⟩ := bind_eq_ok.mp h
    cases h
  unfold valueThere at hrun
  split_ifs at hrun
  · obtain ⟨⟨value, held⟩, s₂, hexpr, hrun⟩ := bind_eq_ok.mp hrun
    obtain ⟨st, hsource, rfl⟩ := exprHeldBack_leaves hdeferred hexpr
    obtain ⟨after, s₂, ⟨⟩, hrun⟩ := bind_eq_ok.mp hrun
    split_ifs at hrun
    · obtain ⟨_, s₃, ⟨⟩, ⟨⟩⟩ := bind_eq_ok.mp hrun
      exact ⟨st, hsource, rfl⟩
    · obtain ⟨_, s₃, -, hrun⟩ := bind_eq_ok.mp hrun
      exact absurd hrun htail
  · obtain ⟨value, s₂, -, hrun⟩ := bind_eq_ok.mp hrun
    exact absurd hrun htail

/-- **A value that shows that there is no declaration** leaves the place
after the first token. -/
theorem declarationValue_eq_false {site : DeclarationSite} {first : TokenKind}
    (hdeferred : s.deferred = none)
    (hrun : declarationValue site t property first s = (.ok false, s₁)) :
    ∃ st : Stream, st.source = s.stream.source ∧ s₁ = s.withStream (st.seek t.stop) := by
  rw [declarationValue_eq] at hrun
  split_ifs at hrun
  · exact valueThere_eq_false hdeferred hrun
  · obtain ⟨_, s₂, hunget, hrun⟩ := bind_eq_ok.mp hrun
    have hheld : s.stream.Held := by
      intro hnil
      have hrefused : s.stream.unget = .error (.bare "Too much lookahead.") :=
        if_pos (List.isEmpty_iff.mpr hnil)
      have hstate : state s = (.ok s, s) := rfl
      rw [unget, bind_ok hstate, hrefused] at hunget
      cases hunget
    rw [unget_apply hheld] at hunget
    cases hunget
    obtain ⟨st, hsource, hstate⟩ := valueThere_eq_false (s := s.withStream s.stream.back) hdeferred hrun
    exact ⟨st, hsource.trans s.stream.back_source, hstate⟩

/-- **A failed attempt leaves no trace.** When an item of a block was read
as a declaration and turned out to be none, the only thing that changes is
the stream; and it delivers what it would deliver if reading went on right
after the first token: the same tokens, at the same places, up to the end of
the source, each with or without a blank before it as there. -/
theorem declaration_undone {s' : State} {st : Stream} {scope : Option String}
    (hsound : st.IsSound) (hflush : st.Flush) (hget : st.get true false = (t, s.stream))
    (hbare : s.stream.ahead = []) (hdeferred : s.deferred = none)
    (hrun : declaration { scope := scope } t s = (.ok false, s')) :
    s' = s.withStream s'.stream ∧ ∃ ts us, s'.stream.Delivers ts ∧
      (s.stream.seek t.stop).Delivers us ∧ marked false ts = marked false us := by
  have hgot := hsound.get true false
  have hflush' := hflush.get true false
  rw [hget] at hgot hflush'
  have hat : s.stream.At t := ⟨hbare, hgot.current_eq⟩
  have hstop : s.stream.reader.location = t.stop := hat.location_eq hflush'
  have hsource : s.stream.source = st.source := hgot.source_eq
  have hlooks : s.stream.LooksPast t s.stream.reader [] :=
    ⟨hgot.isSound, ⟨s.stream.behind.tail, hat.eq⟩, .nil⟩
  have hseek : ∀ st' : Stream, st'.source = s.stream.source →
      (st'.seek t.stop).Delivers s.stream.reader.upcoming := by
    intro st' hst'
    have hplace : IsPlace st'.reader.source t.stop := by
      rw [show st'.reader.source = st.source from hst'.trans hsource]
      exact hgot.isCut.stop_isPlace
    have hupcoming : (st'.reader.seek t.stop).upcoming = s.stream.reader.upcoming :=
      Reader.upcoming_congr hst' ((Reader.location_seek hplace).trans hstop.symm)
    rw [← hupcoming]
    exact Stream.delivers_upcoming _ _
  unfold declaration at hrun
  obtain ⟨property, s₁, hproperty, hrun⟩ := bind_eq_ok.mp hrun
  obtain ⟨us, st₁, rfl, hlooks₁, hlength, hmore⟩ := propertyName_looks hlooks hproperty
  obtain ⟨found, s₂, hfound, hrun⟩ := bind_eq_ok.mp hrun
  obtain ⟨st₂, rfl, hsource₂, hlooks₂⟩ := afterName_looks hlooks₁ hlength hmore hfound
  -- where all that was looked at is still in the window, it is put ahead
  have hrewound : (∀ first, found ≠ .value first) → ∃ ts us, (st₂.rewindTo t).Delivers ts ∧
      (s.stream.seek t.stop).Delivers us ∧ marked false ts = marked false us := by
    intro hnone
    obtain ⟨us', hlooks'⟩ := hlooks₂ hnone
    obtain ⟨ts, hdelivers, hmarked⟩ := hlooks'.rewindTo hstop
    exact ⟨ts, _, hdelivers, hseek s.stream rfl, hmarked⟩
  cases found with
  | value first =>
    have hdeferred₂ : ((s.withStream st₁).withStream st₂).deferred = none := hdeferred
    obtain ⟨st₃, hsource₃, rfl⟩ := declarationValue_eq_false hdeferred₂ hrun
    have hsource₁ : st₁.source = s.stream.source := hlooks₁.looked.source_eq
    exact ⟨rfl, _, _, hseek st₃ (hsource₃.trans (hsource₂.trans hsource₁)), hseek s.stream rfl, rfl⟩
  | pseudo raw =>
    obtain ⟨_, s₃, ⟨⟩, hrun⟩ := bind_eq_ok.mp hrun
    cases hrun
    exact ⟨rfl, hrewound fun _ => AfterName.noConfusion⟩
  | other raw seen =>
    obtain ⟨_, s₃, ⟨⟩, hrun⟩ := bind_eq_ok.mp hrun
    have hs' : s' = s.withStream (st₂.rewindTo t) := by
      split_ifs at hrun
      · cases hrun
        rfl
      · cases hrun
      · cases hrun
        rfl
    subst hs'
    exact ⟨rfl, hrewound fun _ => AfterName.noConfusion⟩

/-- What a parser answers that is seen to succeed. -/
theorem eq_ok_of_toOption {α : Type} {p : Parser α} {a : α} (h : (p s).1.toOption = some a) :
    p s = (.ok a, (p s).2) := by
  rcases hp : p s with ⟨e | b, s₁⟩
  · rw [hp] at h
    cases h
  · rw [hp] at h
    obtain rfl := Option.some.inj h
    rfl

/-- A rule with a pseudo-class, whose name is followed by a blank that the
attempt passes over, a comment and another blank. -/
theorem declaration_undone_hover :
    let s₀ := State.initial "a /**/ :hover{}" {} .fresh none
    let t := (s₀.stream.get true false).1
    let s := s₀.withStream (s₀.stream.get true false).2
    let s' := (declaration { scope := none } t s).2
    declaration { scope := none } t s = (.ok false, s') ∧ s' = s.withStream s'.stream ∧
      ∃ ts us, s'.stream.Delivers ts ∧ (s.stream.seek t.stop).Delivers us ∧
        marked false ts = marked false us := by
  intro s₀ t s s'
  have hanswer : (declaration { scope := none } t s).1.toOption = some false := by decide +kernel
  have hrun : declaration { scope := none } t s = (.ok false, s') := eq_ok_of_toOption hanswer
  have hget : s₀.stream.get true false = (t, s.stream) := rfl
  have hbare : s.stream.ahead = [] := rfl
  exact ⟨hrun, declaration_undone (s := s) (t := t) (Stream.isSound_ofString _)
    (Stream.flush_of_reader _) hget hbare rfl hrun⟩

end Parser

end Stylesheet
