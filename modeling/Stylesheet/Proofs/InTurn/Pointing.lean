import Stylesheet.Parse.Media
import Stylesheet.Proofs.Lookahead.Window
import Stylesheet.Proofs.Reads.Basic

/-!
# Failures that point to where reading stands

A parser fails at a token, and the complaint points to the start of that
token. For the complaints of a run to come in order it is not enough that
reading goes on: a production may fail at a token that it has read long
before, and it may have taken tokens back since. `Points` says that none of
this leads astray. Run from where reading stands at an offset, a parser does
not go back before the offset, and if it fails the complaint lies between the
offset and the place that reading has come to.

The offset is the same before and after. What changes is what is known of the
stream there: usually that the token in hand starts no earlier, which is
enough to fail at it, and to take it back.

A construct that is nested too deeply is complained of nowhere, so it must be
known that none is. Whatever stands in brackets starts after the bracket, and
the depth is more than what is left to read.
-/

namespace Stylesheet

open Parse (State)
open Parse.State (Keeps)
open Stylesheet.Stream (Got Stays)
open Stylesheet.Parser

/-- **A complaint that points between two offsets.** -/
def Diagnostic.PointsBetween (e : Diagnostic) (m n : Nat) : Prop :=
  ∃ loc, e.location = some loc ∧ m ≤ loc.offset ∧ loc.offset ≤ n

/-! ## What is known of a stream -/

namespace Stream

variable {s s' : Stream} {t u : Token} {m n : Nat}

/-- **A token in hand** that starts at an offset or after it. -/
def Has (t : Token) (n : Nat) (s : Stream) : Prop :=
  s.current? = some t ∧ n ≤ t.location.offset

/-- **Some token is in hand** that starts at an offset or after it. -/
def Grasps (n : Nat) (s : Stream) : Prop := ∃ t, s.Has t n

/-- **A token that was passed**: it starts at an offset or after it, and no
later than reading stands. -/
def Passed (t : Token) (n : Nat) (s : Stream) : Prop :=
  n ≤ t.location.offset ∧ t.location.offset ≤ s.place.offset

/-- **Where a selector starts**, after its first token: some token is in hand,
or the token is a name after which nothing was read, and no bar comes next. -/
def Enters (t : Token) (n : Nat) (s : Stream) : Prop :=
  s.Grasps n ∨ IsElementName t ∧ t.isCustomIdent = false ∧ (s.get false true).1.kind ≠ .pipe

/-- **Where reading stands further on** than at an offset. -/
def Beyond (n : Nat) (s : Stream) : Prop := n < s.place.offset

/-- Nothing need be known. -/
def Anyhow (_ : Nat) (_ : Stream) : Prop := True

theorem Has.grasps (h : s.Has t n) : s.Grasps n := ⟨t, h⟩

theorem Has.mem_behind (h : s.Has t n) : t ∈ s.behind := List.mem_of_mem_head? h.1

/-- A token in hand ends before the place. -/
theorem Has.stop_le (h : s.Has t n) (hs : s.IsSound) : t.stop.offset ≤ s.place.offset :=
  hs.stop_le_place h.mem_behind

/-- A token in hand is cut from the source. -/
theorem Has.isCut (h : s.Has t n) (hs : s.IsSound) : t.IsCut s.source :=
  hs.isCut t (by simp [window, h.mem_behind])

/-- A token in hand was passed. -/
theorem Has.passed (h : s.Has t n) (hs : s.IsSound) : s.Passed t n :=
  ⟨h.2, Nat.le_trans (h.isCut hs).location_le_stop (h.stop_le hs)⟩

/-- A token in hand that is not the end of the source takes some of it. -/
theorem Has.lt_place (h : s.Has t n) (hs : s.IsSound) (ht : t.kind ≠ .eof) :
    n < s.place.offset :=
  Nat.lt_of_le_of_lt h.2 (Nat.lt_of_lt_of_le ((h.isCut hs).location_lt_stop ht) (h.stop_le hs))

theorem Has.mono (h : s.Has t n) (hle : m ≤ n) : s.Has t m := ⟨h.1, Nat.le_trans hle h.2⟩

theorem Grasps.mono (h : s.Grasps n) (hle : m ≤ n) : s.Grasps m :=
  let ⟨t, ht⟩ := h
  ⟨t, ht.mono hle⟩

theorem Grasps.heldFrom (h : s.Grasps n) : s.HeldFrom n := by
  obtain ⟨t, ht, hle⟩ := h
  intro u hu
  obtain rfl := Option.some.inj (ht.symm.trans hu)
  exact hle

/-- The token in hand is the one handed out last. -/
theorem Grasps.has_current (h : s.Grasps n) : s.Has s.current n := by
  obtain ⟨t, ht, hle⟩ := h
  have hcurrent : s.current = t := by
    unfold current
    rw [ht]
    rfl
  rw [hcurrent]
  exact ⟨ht, hle⟩

theorem Grasps.held (h : s.Grasps n) : s.Held := by
  obtain ⟨t, ht⟩ := h
  exact List.ne_nil_of_mem ht.mem_behind

/-- What is held from an offset is in hand, if anything is. -/
theorem HeldFrom.grasps (h : s.HeldFrom n) (hheld : s.Held) : s.Grasps n := by
  obtain ⟨t, rest, hbehind⟩ := List.exists_cons_of_ne_nil hheld
  have hcurrent : s.current? = some t := by
    unfold current?
    rw [hbehind]
    rfl
  exact ⟨t, hcurrent, h t hcurrent⟩

/-- **Two tokens in hand**: some token is, and so is the one before it when it
is taken back. -/
def GraspsTwo (n : Nat) (s : Stream) : Prop := s.Grasps n ∧ s.back.Grasps n

/-- What is under the last of the tokens behind. -/
theorem Behind.second {behind : List Token} (h : Behind s behind)
    (hu : behind.tail.head? = some u) : s.place.offset ≤ u.location.offset ∨
      s.current? = some u ∨ s.back.current? = some u := by
  obtain ⟨passed, ⟨older, holder⟩, hpassed⟩ := h
  obtain ⟨w, rest, rfl⟩ : ∃ w rest, behind = w :: u :: rest := by
    match behind, hu with
    | w :: v :: rest, hu => exact ⟨w, rest, by rw [Option.some.inj hu]⟩
  match passed, holder with
  | [], holder =>
    refine Or.inr (Or.inr ?_)
    unfold current?
    rw [behind_back, ← show _ = s.behind from holder]
    rfl
  | [_], holder =>
    refine Or.inr (Or.inl ?_)
    unfold current?
    rw [← show _ = s.behind from (List.cons.inj holder).2]
    rfl
  | _ :: v :: passed, holder =>
    obtain rfl : u = v := (List.cons.inj (List.cons.inj holder).2).1
    exact Or.inl (hpassed u (by simp))

/-- Where nothing is asked for nothing is handed out. -/
theorem Stays.refl (h : s.IsSound) : Stays s s :=
  ⟨h, rfl, Nat.le_refl _, ⟨[], List.prefix_rfl, fun _ hu => absurd hu List.not_mem_nil⟩⟩

/-- A token that is handed out forgets none of the last four behind it. -/
theorem get_behind_length (s : Stream) (placeholders blanks : Bool) :
    min s.behind.length 4 ≤ (s.get placeholders blanks).2.behind.tail.length := by
  unfold get
  extract_lets mode
  obtain ⟨passed, hbehind, -⟩ := takeAhead_eq mode s.behind s.ahead
  rcases htake : takeAhead mode s.behind s.ahead with ⟨found, behind, ahead⟩
  rw [htake] at hbehind
  dsimp only at hbehind
  cases found with
  | some t =>
    show min s.behind.length 4 ≤ behind.tail.length
    rw [hbehind]
    simp only [Option.toList_some, List.cons_append, List.nil_append, List.tail_cons,
      List.length_append]
    omega
  | none =>
    show min s.behind.length 4 ≤ (behind.take 4).length
    rw [hbehind]
    simp only [Option.toList_none, List.nil_append, List.length_take, List.length_append]
    omega

/-- What is under a token that is handed out was in hand before, or starts
after the place. -/
theorem GraspsTwo.of_grasps (h : s.Grasps n) (hs : s.IsSound) (hn : n ≤ s.place.offset)
    (placeholders blanks : Bool) : (s.get placeholders blanks).2.GraspsTwo n := by
  have hgot := hs.get placeholders blanks
  have hgrasps : (s.get placeholders blanks).2.Grasps n := ⟨_, hgot.current_eq,
    Nat.le_trans hn hgot.place_le⟩
  have hheld : (s.get placeholders blanks).2.back.Held := by
    obtain ⟨behind, hbehind, hne⟩ := s.get_behind placeholders blanks
    unfold Held
    rw [behind_back, hbehind]
    exact hne h.held
  exact ⟨hgrasps, (hgot.heldFrom_back (.refl hgot.isSound) hn h.heldFrom).grasps hheld⟩

/-- A token in hand is there after a request in vain, or another one is. -/
theorem Grasps.get_back (h : s.Grasps n) (hs : s.IsSound) (hn : n ≤ s.place.offset)
    (placeholders blanks : Bool) : (s.get placeholders blanks).2.back.Grasps n :=
  (GraspsTwo.of_grasps h hs hn placeholders blanks).2

/-- So are two of them. -/
theorem GraspsTwo.get_back (h : s.GraspsTwo n) (hs : s.IsSound) (hn : n ≤ s.place.offset)
    (placeholders blanks : Bool) : (s.get placeholders blanks).2.back.GraspsTwo n := by
  refine ⟨h.1.get_back hs hn placeholders blanks, HeldFrom.grasps (fun u hu => ?_) fun hnil => ?_⟩
  · rw [current?, behind_back] at hu
    rcases (hs.get placeholders blanks).back.behind.second hu with hle | hcurrent | hcurrent
    · exact Nat.le_trans hn hle
    · exact h.1.heldFrom u hcurrent
    · exact h.2.heldFrom u hcurrent
  · have hlength := s.get_behind_length placeholders blanks
    have hfirst := List.length_pos_iff.mpr h.2.held
    rw [behind_back, List.length_tail] at hfirst
    rw [behind_back, behind_back] at hnil
    have hnone := congrArg List.length hnil
    rw [List.length_tail, List.length_nil] at hnone
    omega

/-- A token that was handed out is in hand. -/
theorem Got.has (h : Got s t s') (hn : n ≤ s.place.offset) : s'.Has t n :=
  ⟨h.current_eq, Nat.le_trans hn h.place_le⟩

/-- Reading on leaves what was passed behind. -/
theorem Passed.of_le (h : s.Passed t n) (hle : s.place.offset ≤ s'.place.offset) :
    s'.Passed t n := ⟨h.1, Nat.le_trans h.2 hle⟩

end Stream

open Stylesheet.Stream (Anyhow Beyond Enters Grasps GraspsTwo Has Passed)

/-- Reporting an event does not fail. -/
theorem Parser.fire_ok (kind : EventKind) (location : Location) (s : State) :
    (Parser.fire kind location s).1 = .ok () := by
  unfold Parser.fire
  rw [bind_ok (show state s = (.ok s, s) from rfl)]
  cases s.deferred <;> rfl

/-! ## The judgement -/

/-- **A parser that points to where reading stands**, run from a state: it
does not go back before an offset, and a failure points behind it. -/
structure PointsAt {α : Type} (n : Nat) (p : Parser α) (s : State) (Q : α → Stream → Prop) :
    Prop where
  /-- What every run keeps is kept. -/
  keeps : Keeps s (p s).2
  /-- A failure points between the offset and where reading stands. -/
  error : ∀ e, (p s).1 = .error e → e.PointsBetween n (p s).2.offset
  /-- A success is not before the offset, and has its condition. -/
  ok : ∀ a, (p s).1 = .ok a → n ≤ (p s).2.offset ∧ Q a (p s).2.stream

/-- **A parser that points to where reading stands**, given what is known of
the stream, and less than `d` bytes to read. -/
def Points {α : Type} (d : Nat) (P : Nat → Stream → Prop) (p : Parser α)
    (Q : α → Nat → Stream → Prop) : Prop :=
  ∀ (s : State) (n : Nat), s.IsSound → Text.byteLength s.stream.source < n + d → n ≤ s.offset →
    P n s.stream → PointsAt n p s fun a => Q a n

/-- What reads on and cannot fail points nowhere. -/
theorem Reads.pointsAt {α : Type} {m n : Nat} {p p' : Parser α} {s : State}
    {Q : α → State → Prop} {R : α → Stream → Prop} (h : Reads m p p' s Q)
    (herror : ∀ e, (p s).1 ≠ .error e)
    (hok : ∀ a s', Q a s' → n ≤ s'.offset ∧ R a s'.stream) : PointsAt n p s R :=
  ⟨h.keeps, fun e he => absurd he (herror e), fun a ha => hok a _ (h.ok a ha)⟩

namespace Points

variable {α β σ : Type} {d : Nat} {P R : Nat → Stream → Prop} {p q : Parser α}
  {f : α → Parser β} {Q Q₁ : α → Nat → Stream → Prop} {Q' : β → Nat → Stream → Prop}
  {t u : Token}

variable {expected : String}

/-! ## Constructs -/

/-- Less can be asked, and less given. -/
theorem adapt (h : Points d P p Q) (hP : ∀ n st, st.IsSound → R n st → P n st)
    (hQ : ∀ a n st, st.IsSound → Q a n st → Q₁ a n st) : Points d R p Q₁ := fun s n hs hd hn hR =>
  let hrun := h s n hs hd hn (hP n s.stream hs.stream hR)
  ⟨hrun.keeps, hrun.error, fun a ha =>
    ⟨(hrun.ok a ha).1, hQ a n _ hrun.keeps.isSound.stream (hrun.ok a ha).2⟩⟩

theorem of (h : Points d P p Q) (hP : ∀ n st, st.IsSound → R n st → P n st) : Points d R p Q :=
  h.adapt hP fun _ _ _ _ => id

theorem weaken (h : Points d P p Q) (hQ : ∀ a n st, st.IsSound → Q a n st → Q₁ a n st) :
    Points d P p Q₁ := h.adapt (fun _ _ _ => id) hQ

/-- What needs nothing can be given anything. -/
theorem of_anyhow (h : Points d Anyhow p Q) : Points d P p Q := h.of fun _ _ _ _ => trivial

/-- **What is nested starts further on.** -/
theorem deeper (h : Points d R p Q)
    (hP : ∀ n st, st.IsSound → P n st → n < st.place.offset ∧ R (n + 1) st)
    (hQ : ∀ a n st, Q a (n + 1) st → Q₁ a n st) : Points (d + 1) P p Q₁ := by
  intro s n hs hd hn hPn
  obtain ⟨hlt, hR⟩ := hP n s.stream hs.stream hPn
  have hrun := h s (n + 1) hs (by omega) hlt hR
  refine ⟨hrun.keeps, fun e he => ?_, fun a ha => ?_⟩
  · obtain ⟨loc, hloc, hle, hle'⟩ := hrun.error e he
    exact ⟨loc, hloc, Nat.le_of_succ_le hle, hle'⟩
  · exact ⟨Nat.le_of_succ_le (hrun.ok a ha).1, hQ a n _ (hrun.ok a ha).2⟩

/-- What is so whenever a parser succeeds. -/
theorem sure {φ : α → Prop} (h : Points d P p Q)
    (hφ : ∀ s a, s.IsSound → (p s).1 = .ok a → φ a) :
    Points d P p fun a n st => Q a n st ∧ φ a := fun s n hs hd hn hP =>
  let hrun := h s n hs hd hn hP
  ⟨hrun.keeps, hrun.error, fun a ha =>
    ⟨(hrun.ok a ha).1, (hrun.ok a ha).2, hφ s a hs ha⟩⟩

theorem or (h : Points d P p Q) (h' : Points d R p Q) : Points d (fun n st => P n st ∨ R n st) p Q :=
  fun s n hs hd hn hP => hP.elim (h s n hs hd hn) (h' s n hs hd hn)

theorem pure {a : α} (hQ : ∀ n st, st.IsSound → P n st → Q a n st) :
    Points d P (Pure.pure a) Q := by
  refine fun s n hs _ hn hP => ⟨Keeps.refl hs, fun e he => (by cases he), fun b hb => ?_⟩
  obtain rfl : a = b := Except.ok.inj hb
  exact ⟨hn, hQ n s.stream hs.stream hP⟩

theorem bind (h : Points d P p Q) (hf : ∀ a, Points d (Q a) (f a) Q') :
    Points d P (p >>= f) Q' := by
  intro s n hs hd hn hP
  obtain ⟨hkeeps, herror, hok⟩ := h s n hs hd hn hP
  rcases hp : p s with ⟨e | a, s₁⟩ <;> rw [hp] at hkeeps herror hok
  · have hrun : (p >>= f) s = (.error e, s₁) := bind_error hp
    refine ⟨?_, ?_, ?_⟩ <;> rw [hrun]
    · exact hkeeps
    · rintro _ ⟨⟩
      exact herror e rfl
    · exact fun _ hb => by cases hb
  · have hrun : (p >>= f) s = f a s₁ := bind_ok hp
    obtain ⟨hn₁, hQ⟩ := hok a rfl
    have hnext := hf a s₁ n hkeeps.isSound (by rw [hkeeps.source_eq]; exact hd) hn₁ hQ
    refine ⟨?_, ?_, ?_⟩ <;> rw [hrun]
    · exact hkeeps.trans hnext.keeps
    · exact hnext.error
    · exact hnext.ok

theorem pure_bind {a : α} (h : Points d P (f a) Q') : Points d P (Pure.pure a >>= f) Q' :=
  fun s n hs hd hn hP =>
    let hrun := h s n hs hd hn hP
    ⟨hrun.keeps, hrun.error, hrun.ok⟩

theorem ite {c : Prop} [Decidable c] (hpos : c → Points d P p Q) (hneg : ¬c → Points d P q Q) :
    Points d P (if c then p else q) Q := by
  by_cases hc : c
  · rw [if_pos hc]
    exact hpos hc
  · rw [if_neg hc]
    exact hneg hc

theorem discard {Q : Nat → Stream → Prop} (h : Points d P p fun _ => Q) :
    Points d P (Functor.discard p) fun _ => Q := by
  show Points d P (p >>= fun _ => Pure.pure ()) _
  exact h.bind fun _ => pure fun _ _ _ => id

/-- A token that is not used is in hand. -/
theorem discard_grasps {p : Parser Token} (h : Points d P p fun t => Has t) :
    Points d P (Functor.discard p) fun _ => Grasps :=
  (h.weaken fun _ _ _ _ => Has.grasps).discard

/-- Of a result that is not used nothing need be known. -/
theorem discard_anyhow (h : Points d P p Q) : Points d P (Functor.discard p) fun _ => Anyhow :=
  (h.weaken fun _ _ _ _ _ => trivial).discard

/-! ## The state -/

theorem state_bind {f : State → Parser β} (h : ∀ s, Points d P (f s) Q') :
    Points d P (state >>= f) Q' := fun s n hs hd hn hP =>
  let hrun := h s s n hs hd hn hP
  ⟨hrun.keeps, hrun.error, hrun.ok⟩

theorem options_bind {f : Options → Parser β} (h : ∀ o, Points d P (f o) Q') :
    Points d P (options >>= f) Q' := fun s n hs hd hn hP =>
  let hrun := h s.options s n hs hd hn hP
  ⟨hrun.keeps, hrun.error, hrun.ok⟩

theorem slice_bind {start stop : Nat} {f : String → Parser β} (h : ∀ text, Points d P (f text) Q') :
    Points d P (Parser.slice start stop >>= f) Q' := fun s n hs hd hn hP =>
  let hrun := h (s.stream.slice start stop) s n hs hd hn hP
  ⟨hrun.keeps, hrun.error, hrun.ok⟩

theorem current_bind {f : Token → Parser β} (h : ∀ t, Points d (Has t) (f t) Q') :
    Points d Grasps (Parser.current >>= f) Q' := fun s n hs hd hn hP =>
  let hrun := h s.stream.current s n hs hd hn hP.has_current
  ⟨hrun.keeps, hrun.error, hrun.ok⟩

theorem setPair (pair : Option TokenKind) :
    Points d P (update fun s => { s with pair := pair }) fun _ => P :=
  fun _ _ hs _ hn hP => ⟨hs.keeps_of_eq rfl rfl rfl rfl rfl rfl, fun _ he => (by cases he),
    fun _ _ => ⟨hn, hP⟩⟩

/-! ## Failures -/

/-- **Failing at a token** that was passed. -/
theorem failAt : Points d (Passed t) (Parser.failAt expected t : Parser α) Q := by
  refine fun s n hs _ _ ht => ⟨Keeps.refl hs, fun e he => ?_, fun _ ha => by cases ha⟩
  obtain rfl : t.unexpected expected = e := Except.error.inj he
  exact ⟨t.location, rfl, ht⟩

theorem failAt_bind : Points d (Passed t) ((Parser.failAt expected t : Parser α) >>= f) Q' :=
  (failAt (Q := fun _ _ _ => False)).bind fun _ _ _ _ _ _ h => h.elim

/-- Failing at the token in hand. -/
theorem failAt_has :
    Points d (Has t) (Parser.failAt expected t : Parser α) Q := failAt.of fun _ _ hs ht => ht.passed hs

theorem failAt_has_bind : Points d (Has t) ((Parser.failAt expected t : Parser α) >>= f) Q' :=
  failAt_bind.of fun _ _ hs ht => ht.passed hs

theorem failHere : Points d Grasps (Parser.failHere expected : Parser α) Q :=
  current_bind fun _ => failAt_has

theorem failHere_bind : Points d Grasps ((Parser.failHere expected : Parser α) >>= f) Q' :=
  (failHere (Q := fun _ _ _ => False)).bind fun _ _ _ _ _ _ h => h.elim

/-! ## Tokens -/

/-- Asking the stream never fails. -/
theorem of_ask {f : Stream → α × Stream}
    (h : ∀ st n, st.IsSound → n ≤ st.place.offset → P n st → (f st).2.IsSound ∧
      (f st).2.source = st.source ∧ n ≤ (f st).2.place.offset ∧ Q (f st).1 n (f st).2) :
    Points d P (ask f) Q := by
  intro s n hs _ hn hP
  obtain ⟨hsound, hsource, hle, hQ⟩ := h s.stream n hs.stream hn hP
  refine ⟨hs.withStream hsound hsource, fun e he => (by cases he), fun a ha => ?_⟩
  obtain rfl : (f s.stream).1 = a := Except.ok.inj ha
  exact ⟨hle, hQ⟩

theorem next (placeholders blanks : Bool) :
    Points d P (Parser.next placeholders blanks) fun t => Has t :=
  of_ask fun _ _ hs hn _ =>
    let hgot := hs.get placeholders blanks
    ⟨hgot.isSound, hgot.source_eq, Nat.le_trans hn hgot.place_le_place, hgot.has hn⟩

theorem grab : Points d P Parser.grab fun t => Has t := next false false

/-- The next token, after another one that is still remembered. -/
theorem next_passed (placeholders blanks : Bool) :
    Points d (Passed u) (Parser.next placeholders blanks) fun t n st => Has t n st ∧ Passed u n st :=
  of_ask fun _ _ hs hn hu =>
    let hgot := hs.get placeholders blanks
    ⟨hgot.isSound, hgot.source_eq, Nat.le_trans hn hgot.place_le_place, hgot.has hn,
      hu.of_le hgot.place_le_place⟩

/-- The next token, after the one in hand, which is under it then. -/
theorem next_second (placeholders blanks : Bool) :
    Points d Grasps (Parser.next placeholders blanks) fun _ => GraspsTwo :=
  of_ask fun _ _ hs hn h =>
    let hgot := hs.get placeholders blanks
    ⟨hgot.isSound, hgot.source_eq, Nat.le_trans hn hgot.place_le_place,
      .of_grasps h hs hn placeholders blanks⟩

/-- **What a request leaves**: the token asked for is in hand, or what was
known of the stream is still so. -/
def Found (P : Nat → Stream → Prop) : Option Token → Nat → Stream → Prop
  | some t => Has t
  | none => P

/-- What is known of a stream and outlasts a request in vain. -/
def Lasts (P : Nat → Stream → Prop) : Prop :=
  ∀ st n placeholders blanks, st.IsSound → n ≤ st.place.offset → P n st →
    P n (st.get placeholders blanks).2.back

theorem lasts_anyhow : Lasts Anyhow := fun _ _ _ _ _ _ _ => trivial

theorem lasts_grasps : Lasts Grasps := fun _ _ placeholders blanks hs hn h =>
  h.get_back hs hn placeholders blanks

theorem accept (hP : Lasts P) (placeholders blanks : Bool) (test : Token → Bool) :
    Points d P (ask fun st => Stream.accept (st.get placeholders blanks) test) (Found P) := by
  refine of_ask fun st n hs hn hPn => ?_
  have hgot := hs.get placeholders blanks
  unfold Stream.accept
  split_ifs
  · exact ⟨hgot.isSound, hgot.source_eq, Nat.le_trans hn hgot.place_le_place, hgot.has hn⟩
  · have hstays := hgot.back
    exact ⟨hstays.isSound, hstays.source_eq, Nat.le_trans hn hstays.place_le,
      hP st n placeholders blanks hs hn hPn⟩

theorem matchKinds (hP : Lasts P) (kinds : List TokenKind) :
    Points d P (Parser.matchKinds kinds) (Found P) := accept hP _ _ _

theorem matchSmart (hP : Lasts P) (kinds : List TokenKind) :
    Points d P (Parser.matchSmart kinds) (Found P) := accept hP _ _ _

theorem matchKeyword (hP : Lasts P) (set : Keywords) :
    Points d P (Parser.matchKeyword set) (Found P) := accept hP _ _ _

/-- Asking the stream for something it may refuse, which it does with a
complaint that points to where reading stands. -/
theorem of_demand {f : Stream → Except Diagnostic α × Stream}
    (h : ∀ st n, st.IsSound → n ≤ st.place.offset → P n st → (f st).2.IsSound ∧
      (f st).2.source = st.source ∧
      (∀ e, (f st).1 = .error e → e.PointsBetween n (f st).2.place.offset) ∧
      ∀ a, (f st).1 = .ok a → n ≤ (f st).2.place.offset ∧ Q a n (f st).2) :
    Points d P (Parser.demand f) Q := by
  intro s n hs _ hn hP
  have hrun : Parser.demand f s =
      ((f s.stream).1, { s with stream := (f s.stream).2 }) := by
    refine (bind_ok (show ask f s = (.ok (f s.stream).1,
      { s with stream := (f s.stream).2 }) from rfl)).trans ?_
    cases (f s.stream).1 <;> rfl
  obtain ⟨hsound, hsource, herror, hok⟩ := h s.stream n hs.stream hn hP
  refine ⟨?_, ?_, ?_⟩ <;> rw [hrun]
  · exact hs.withStream hsound hsource
  · exact herror
  · exact hok

/-- **Demanding a token** that passes a test. When the next one does not, it is
looked at for the complaint and taken back, so that the complaint points to
where reading stands. -/
theorem demand {placeholders blanks : Bool} {test : Token → Bool}
    {f : Stream → Except Diagnostic Token × Stream}
    (hf : ∀ st, f st = match Stream.accept (st.get placeholders blanks) test with
      | (some t, st) => (.ok t, st)
      | (none, st) => st.complain expected) : Points d P (Parser.demand f) fun t => Has t := by
  refine of_demand fun st n hs hn _ => ?_
  have hgot := hs.get placeholders blanks
  rw [hf]
  unfold Stream.accept
  split_ifs
  · refine ⟨hgot.isSound, hgot.source_eq, fun _ he => (by cases he), fun t ht => ?_⟩
    obtain rfl := Except.ok.inj ht
    exact ⟨Nat.le_trans hn hgot.place_le_place, hgot.has hn⟩
  · have hstays := hgot.back
    have hlook := hstays.isSound.get false false
    obtain ⟨hsound, hsource, hplace, -⟩ := hlook.isSound.back
    refine ⟨hsound, hsource.trans (hlook.source_eq.trans hstays.source_eq), fun e he => ?_,
      fun _ ht => (by cases ht)⟩
    obtain rfl := Except.error.inj he
    refine ⟨_, rfl, Nat.le_trans hn (Nat.le_trans hstays.place_le hlook.place_le), Nat.le_of_eq ?_⟩
    exact congrArg Location.offset (hplace _ hlook.current_eq).symm

theorem mustMatch (kinds : List TokenKind) : Points d P (Parser.mustMatch kinds) fun t => Has t :=
  demand fun _ => rfl

theorem mustMatchSmart (kinds : List TokenKind) :
    Points d P (Parser.mustMatchSmart kinds) fun t => Has t :=
  demand fun _ => rfl

theorem mustMatchKeyword (set : Keywords) :
    Points d P (Parser.mustMatchKeyword set) fun t => Has t :=
  demand fun _ => rfl

/-- The token that was demanded is of one of the kinds. -/
theorem mustMatch_kind (kinds : List TokenKind) :
    Points d P (Parser.mustMatch kinds) fun t n st => Has t n st ∧ kinds.contains t.kind = true :=
  (mustMatch kinds).sure fun _ _ hs ha =>
    ((Reads.mustMatch (n := 0) hs (Nat.zero_le _) kinds).ok _ ha).2

theorem mustMatchSmart_kind (kinds : List TokenKind) :
    Points d P (Parser.mustMatchSmart kinds) fun t n st =>
      Has t n st ∧ kinds.contains t.kind = true :=
  (mustMatchSmart kinds).sure fun _ _ hs ha =>
    ((Reads.mustMatchSmart (n := 0) hs (Nat.zero_le _) kinds).ok _ ha).2

/-- **Taking the token in hand back.** -/
theorem unget_back {R : Nat → Stream → Prop} (hP : ∀ n st, P n st → Grasps n st ∧ R n st.back) :
    Points d P Parser.unget fun _ => R := by
  intro s n hs _ hn hPn
  obtain ⟨hgrasps, hR⟩ := hP n s.stream hPn
  have hunget : s.stream.unget = .ok s.stream.back := by
    unfold Stream.unget
    exact if_neg fun hnil => hgrasps.held (List.isEmpty_iff.mp hnil)
  have hrun : Parser.unget s = (.ok (), { s with stream := s.stream.back }) := by
    refine (bind_ok (show state s = (.ok s, s) from rfl)).trans ?_
    rw [hunget]
    rfl
  obtain ⟨hsound, hsource, -⟩ := hs.stream.back
  refine ⟨?_, ?_, ?_⟩ <;> rw [hrun]
  · exact hs.withStream hsound hsource
  · exact fun _ he => by cases he
  · exact fun _ _ => ⟨hs.stream.back_of_heldFrom hn hgrasps.heldFrom, hR⟩

theorem unget : Points d Grasps Parser.unget fun _ => Anyhow :=
  unget_back fun _ _ h => ⟨h, trivial⟩

/-- Looking at the token in hand; without a fit it is taken back. -/
theorem matchReuse (kinds : List TokenKind) :
    Points d Grasps (Parser.matchReuse kinds) (Found Anyhow) := by
  refine of_ask fun st n hs hn hgrasps => ?_
  unfold Stream.matchReuse
  split_ifs
  · exact ⟨hs, rfl, hn, hgrasps.has_current⟩
  · obtain ⟨hsound, hsource, -⟩ := hs.back
    exact ⟨hsound, hsource, hs.back_of_heldFrom hn hgrasps.heldFrom, trivial⟩

/-- **Demanding that the token in hand is of some kinds.** A failure takes it
back, and points to it. -/
theorem mustReuse_kind (kinds : List TokenKind) :
    Points d Grasps (Parser.mustReuse kinds) fun t n st =>
      Has t n st ∧ kinds.contains t.kind = true := by
  refine of_demand fun st n hs hn hgrasps => ?_
  have hcurrent := hgrasps.has_current
  unfold Stream.mustReuse Stream.matchReuse
  split_ifs with hkind
  · refine ⟨hs, rfl, fun _ he => (by cases he), fun t ht => ?_⟩
    obtain rfl := Except.ok.inj ht
    exact ⟨hn, hcurrent, hkind⟩
  · obtain ⟨hsound, hsource, hplace, -⟩ := hs.back
    refine ⟨hsound, hsource, fun e he => ?_, fun _ ht => (by cases ht)⟩
    obtain rfl := Except.error.inj he
    exact ⟨_, rfl, hcurrent.2, Nat.le_of_eq (congrArg Location.offset (hplace _ hcurrent.1).symm)⟩

theorem mustReuse (kinds : List TokenKind) :
    Points d Grasps (Parser.mustReuse kinds) fun t => Has t :=
  (mustReuse_kind kinds).weaken fun _ _ _ _ h => h.1

/-- A token that was demanded takes some of the source, unless its end was
demanded. -/
theorem beyond {p : Parser Token} {kinds : List TokenKind} (hkinds : kinds.contains .eof = false)
    (h : Points d P p fun t n st => Has t n st ∧ kinds.contains t.kind = true) :
    Points d P p fun t n st => Has t n st ∧ Beyond n st :=
  h.weaken fun t n st hs ⟨ht, hkind⟩ => ⟨ht, ht.lt_place hs fun heof => by
    rw [heof, hkinds] at hkind
    cases hkind⟩

/-! ## Repetition -/

/-- **What a round of a loop leaves**: the condition of the result if it is
done, and otherwise the invariant. -/
def Turn (I Q : σ → Nat → Stream → Prop) : ForInStep σ → Nat → Stream → Prop
  | .done a => Q a
  | .yield a => I a

/-- **A step over and over.** The first round is one that the budget allows
for, so that the invariant need not hold before it. -/
theorem repeating_first {step : σ → Parser (ForInStep σ)} {I Q : σ → Nat → Stream → Prop} {a : σ}
    (hfirst : Points d P (step a) (Turn I Q)) (hstep : ∀ a, Points d (I a) (step a) (Turn I Q))
    (hlast : ∀ a n st, I a n st → Q a n st) : Points d P (Parser.repeating a step) Q := by
  have hrest : ∀ k a, Points d (I a) (rounds step k a) Q := by
    intro k
    induction k with
    | zero => exact fun a => pure fun n st _ => hlast a n st
    | succ k ih =>
      refine fun a => (hstep a).bind fun r => ?_
      cases r with
      | done b => exact pure fun _ _ _ => id
      | yield b => exact ih b
  intro s n hs hd hn hP
  obtain ⟨k, hk⟩ : ∃ k, s.budget = k + 1 := by
    have hbudget : Text.byteLength s.stream.source + 64 ≤ s.budget := hs.budget
    exact ⟨s.budget - 1, by omega⟩
  have hrun : Points d P (rounds step (k + 1) a) Q := by
    refine hfirst.bind fun r => ?_
    cases r with
    | done b => exact pure fun _ _ _ => id
    | yield b => exact hrest k b
  have hrepeat : Parser.repeating a step s = rounds step (k + 1) a s := by
    rw [repeating_apply, hk]
  obtain ⟨hkeeps, herror, hok⟩ := hrun s n hs hd hn hP
  refine ⟨?_, ?_, ?_⟩ <;> rw [hrepeat]
  · exact hkeeps
  · exact herror
  · exact hok

theorem repeating {step : σ → Parser (ForInStep σ)} {I Q : σ → Nat → Stream → Prop} {a : σ}
    (hstart : ∀ n st, P n st → I a n st) (hstep : ∀ a, Points d (I a) (step a) (Turn I Q))
    (hlast : ∀ a n st, I a n st → Q a n st) : Points d P (Parser.repeating a step) Q :=
  repeating_first ((hstep a).of fun n st _ => hstart n st) hstep hlast

/-! ## Events and passing over -/

theorem fire {kind : EventKind} {location : Location} (h : Event.IsInner ⟨kind, location⟩) :
    Points d P (Parser.fire kind location) fun _ => P := by
  intro s n hs _ hn hP
  refine (Reads.fire (n := 0) hs h).pointsAt (fun e he => ?_) fun _ s' hstream => ?_
  · rw [fire_ok] at he
    cases he
  · exact ⟨by rw [Parse.State.offset_of_stream hstream]; exact hn, hstream ▸ hP⟩

theorem warn (message : String) (location : Location) :
    Points d P (Parser.warn message location) fun _ => P :=
  fire ⟨EventKind.noConfusion, EventKind.noConfusion⟩

theorem skipBroken (inBlock : Bool) :
    Points d P (moveStream (·.skipBroken inBlock)) fun _ => Anyhow := by
  intro s n hs _ hn _
  have hmoves := hs.stream.skipBroken inBlock
  exact ⟨hs.withStream hmoves.isSound hmoves.source_eq, fun _ he => (by cases he),
    fun _ _ => ⟨Nat.le_trans hn hmoves.place_le, trivial⟩⟩

end Points

end Stylesheet
