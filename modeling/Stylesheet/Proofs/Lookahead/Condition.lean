import Stylesheet.Proofs.Lookahead.Declaration

/-!
# Looking ahead in conditions

A test that is read by another one is closed twice: the inner reading closes
it, the bracket is taken back, and the outer reading closes it again. Between
the two the inner reading may have looked at the word after the bracket, so
that the bracket is taken back before a token that is ahead already.
-/

namespace Stylesheet

open Parse (State)
open Parse.State (Keeps)
open Stylesheet.Stream (Between Closed Fresh Front IsElementName Ready)

namespace Stream

/-- **Where a test is closed**: the next item can start, or the bracket is
ahead and at most one more token is. -/
inductive Closing : Stream → Prop where
  /-- The bracket may come next. -/
  | ready {s : Stream} (h : s.Ready) : Closing s
  /-- The bracket was taken back. -/
  | again {r : Reader} {behind ahead : List Token} {t : Token} (ht : t.kind = .rParen)
      (hahead : ahead.length ≤ 1) : Closing ⟨r, behind, t :: ahead⟩

/-- **After a condition** its last token can be taken back, and then a test is
closed. -/
def Reclosable (s : Stream) : Prop := s.Between ∧ s.back.Closing

theorem Fresh.reclosable {s : Stream} (h : s.Fresh) : s.Reclosable := by
  refine ⟨h.between, .ready ?_⟩
  obtain ⟨t, ht⟩ := h
  exact ht.near_back.ready

/-- A closing bracket can be taken back after the next token was looked
at. -/
theorem Closed.reclosable {s : Stream} (h : s.Closed) (placeholders blanks : Bool) :
    (s.get placeholders blanks).2.back.Reclosable := by
  obtain ⟨t, ht, hkind⟩ := h
  rw [ht.eq, get_bare]
  refine ⟨⟨Nat.le_refl 1, List.cons_ne_nil _ _⟩, ?_⟩
  exact .again hkind (Nat.le_refl 1)

end Stream

open Stylesheet.Stream (Closing Reclosable)

namespace Orderly

variable {s : State} {t : Token} {test : Parser.TestParser} {kind : ConditionKind}

/-- **A reader of tests that is orderly.** Tests that belong nowhere in
particular end with the closing bracket at hand. -/
def OrderlyTest (test : Parser.TestParser) : Prop :=
  ∀ (kind : ConditionKind) (first : Option Token) {s : State}, s.InOrder → s.stream.Near →
    Orderly (test kind first) s fun _ s' =>
      s'.stream.Between ∧ (kind = .plain → s'.stream.Closed)

/-! ## Closing brackets -/

/-- **Closing a test** where an item can start. -/
theorem closeTest (hs : s.InOrder) (h : s.stream.Ready) :
    Orderly Parser.closeTest s fun _ s' => s'.stream.Closed := by
  refine discard (demand_of hs (R := fun _ st => st.Closed)
    ((accept_taken hs false false fun u => [TokenKind.rParen].contains u.kind).weaken
      fun found s₁ _ htaken => ?_) rfl)
  have hfront := h false
  cases found with
  | some u =>
    obtain ⟨hget, hclose⟩ := htaken
    rw [hget] at hfront
    have hkind : u.kind = .rParen := by simpa using hclose
    refine ⟨?_, fun hnone => absurd hnone (Option.some_ne_none _)⟩
    rintro _ ⟨⟩
    exact ⟨u, hfront.at_of_kind (by rw [hkind]; rfl), hkind⟩
  | none =>
    have hback : s₁.stream = (s.stream.get false false).2.back := htaken.1
    refine ⟨fun _ hsome => (by cases hsome), fun _ => ?_⟩
    rw [hback]
    exact (hfront.ready_back false).ready_back

/-- **Closing a test again.** -/
theorem closeTest_again (hs : s.InOrder) (h : Closing s.stream) :
    Orderly Parser.closeTest s fun _ s' => s'.stream.Between := by
  obtain ⟨st, hstream⟩ : ∃ st, s.stream = st := ⟨_, rfl⟩
  rw [hstream] at h
  cases h with
  | ready h =>
    subst hstream
    exact (closeTest hs h).weaken fun _ _ _ hclosed => hclosed.fresh.between
  | @again r behind ahead u hkind hahead =>
    have hget : s.stream.get false false = (u, ⟨r, u :: behind, ahead⟩) := by
      rw [hstream]
      refine Stream.get_of_ahead r behind ahead ?_
      unfold Mode.hides
      rw [hkind]
      rfl
    refine discard (demand_of hs (R := fun _ st => st.Between)
      ((accept_taken hs false false fun u => [TokenKind.rParen].contains u.kind).weaken
        fun found s₁ _ htaken => ?_) rfl)
    unfold Taken at htaken
    rw [hget] at htaken
    cases found with
    | some v =>
      obtain ⟨-, hstream₁⟩ := Prod.mk.inj htaken.1
      refine ⟨?_, fun hnone => absurd hnone (Option.some_ne_none _)⟩
      rintro _ ⟨⟩
      rw [← hstream₁]
      exact ⟨hahead, List.cons_ne_nil _ _⟩
    | none =>
      have hother : [TokenKind.rParen].contains u.kind = false := htaken.2
      rw [hkind] at hother
      cases hother

/-! ## Conditions -/

section Tests

variable (htest : OrderlyTest test)

include htest

theorem joinedStep (hs : s.InOrder) (hnear : s.stream.Near)
    (sofar : Option Token × Keywords × Bool) :
    Orderly (Parser.joinedStep test kind sofar) s
      (Turn (fun _ s' => s'.stream.Fresh) fun _ s' =>
        s'.stream.Between ∧ (kind = .plain → s'.stream.Reclosable)) := by
  obtain ⟨first, joiners, settled⟩ := sofar
  refine (htest kind first hs hnear).bind fun _ s₁ _ hs₁ ⟨hbetween, hclosed⟩ => ?_
  refine (accept_taken hs₁ false false
    fun u => u.kind == .ident && joiners.has u.text).bind fun found s₂ _ hs₂ htaken => ?_
  cases found with
  | some word =>
    have hat := hbetween.1.get false false
    rw [htaken.1] at hat
    exact pure hs₂ ⟨word, hat⟩
  | none =>
    have hback : s₂.stream = (s₁.stream.get false false).2.back := htaken.1
    have hkept := hbetween.1.get_back false false
    refine pure hs₂ ⟨?_, fun hplain => ?_⟩ <;> rw [hback]
    · exact ⟨hkept.1, hkept.2 hbetween.2⟩
    · exact (hclosed hplain).reclosable false false

theorem conditionWith (hs : s.InOrder) (first : Option Token) (hnear : s.stream.Near) :
    Orderly (Parser.conditionWith test kind first) s fun _ s' =>
      s'.stream.Between ∧ (kind = .plain → s'.stream.Reclosable) := by
  unfold Parser.conditionWith
  extract_lets rest
  have hrest : ∀ (t : Token) {s₁ : State}, s₁.InOrder → s₁.stream.Near →
      Orderly (rest t) s₁ fun _ s' =>
        s'.stream.Between ∧ (kind = .plain → s'.stream.Reclosable) := by
    intro t s₁ hs₁ hnear₁
    refine ite (fun _ => ?_) fun _ => discard ?_
    · exact (htest kind none hs₁ hnear₁).weaken fun _ _ _ h =>
        ⟨h.1, fun hplain => (h.2 hplain).fresh.reclosable⟩
    · exact repeating_first (I := fun _ s' => s'.stream.Fresh) hs₁
        (joinedStep htest hs₁ hnear₁ _) (fun sofar s₂ _ hs₂ hfresh =>
          joinedStep htest hs₂ hfresh.near sofar) fun _ _ hfresh =>
            ⟨hfresh.between, fun _ => hfresh.reclosable⟩
  cases first with
  | some t => exact pure_bind (hrest t hs hnear)
  | none => exact (grab hs hnear).bind fun t s₁ _ hs₁ ht => hrest t hs₁ ht.1.near

theorem ownTest_none (hs : s.InOrder) (hnear : s.stream.Near) (t : Token) :
    Orderly (Parser.ownTest test kind t none) s fun r s' =>
      (r = true → kind ≠ .plain ∧ s'.stream.Closing) ∧
        (r = false → s'.stream = s.stream) := by
  unfold Parser.ownTest
  cases kind with
  | plain => exact pure hs ⟨fun h => (by cases h), fun _ => rfl⟩
  | supports =>
    refine ite (fun _ => ?_) fun _ => pure hs ⟨fun h => (by cases h), fun _ => rfl⟩
    have hstart : GroupStart none s := hnear
    refine (selector hs hstart false).bind fun found s₁ _ hs₁ ⟨u, hu⟩ => ?_
    cases found with
    | none => exact failHere hs₁ hu.ready
    | some found =>
      refine (unget hs₁ hu.held).bind fun _ s₂ _ hs₂ hback => ?_
      have hevent : Event.IsOrderly s₂.options s₂.stream.source
          ⟨.supportsSelector found, found.location⟩ := trivial
      refine (fire hs₂ ⟨EventKind.noConfusion, EventKind.noConfusion⟩ hevent).bind
        fun _ s₃ _ hs₃ hstream => pure hs₃ ⟨fun _ => ⟨ConditionKind.noConfusion, ?_⟩,
          fun h => by cases h⟩
      rw [hstream, hback]
      exact .ready hu.ready_back
  | container =>
    refine ite (fun _ => ?_) fun _ => pure hs ⟨fun h => (by cases h), fun _ => rfl⟩
    refine (conditionWith htest hs _ hnear).bind fun _ s₁ _ hs₁ ⟨hbetween, hclosing⟩ => ?_
    refine (unget hs₁ hbetween.2).bind fun _ s₂ _ hs₂ hback =>
      pure hs₂ ⟨fun _ => ⟨ConditionKind.noConfusion, ?_⟩, fun h => by cases h⟩
    rw [hback]
    exact (hclosing rfl).2

omit htest in
/-- A test that only one at-rule has, after a bracket. When the token starts
none, nothing is read. -/
theorem ownTest_some (hs : s.InOrder) (ht : s.stream.At t) (bracket : Token) :
    Orderly (Parser.ownTest test kind t (some bracket)) s fun r s' =>
      (r = true → s'.stream.Near) ∧ (r = false → s'.stream = s.stream) := by
  unfold Parser.ownTest
  cases kind with
  | plain => exact pure hs ⟨fun h => (by cases h), fun _ => rfl⟩
  | supports => exact pure hs ⟨fun h => (by cases h), fun _ => rfl⟩
  | container =>
    refine ite (fun _ => ?_) fun _ => pure hs ⟨fun h => (by cases h), fun _ => rfl⟩
    refine (unget hs ht.held).bind fun _ s₁ _ hs₁ hback => ?_
    have hnear₁ : s₁.stream.Near := hback ▸ ht.near_back
    refine (discard (Q := fun _ s' => s'.stream.Fresh)
      (mediaFeature hs₁ hnear₁ (some bracket))).bind fun _ s₂ _ hs₂ ⟨u, hu⟩ => ?_
    refine (unget hs₂ hu.held).bind fun _ s₃ _ hs₃ hback₃ =>
      pure hs₃ ⟨fun _ => hback₃ ▸ hu.near_back, fun h => by cases h⟩

omit htest in
theorem nameTest (hs : s.InOrder) (ht : s.stream.At t) (hident : t.kind = .ident)
    (hcut : t.IsCut s.stream.source) :
    Orderly (Parser.nameTest t) s fun _ s' => s'.stream.Closed := by
  unfold Parser.nameTest
  refine (accept_taken hs false false
    fun u => [TokenKind.colon, .lParen].contains u.kind).bind fun found s₁ h₁ hs₁ htaken => ?_
  cases found with
  | none =>
    have hback : s₁.stream = (s.stream.get false false).2.back := htaken.1
    have hnear₁ : s₁.stream.Near := hback ▸ (ht.near.get_back false false).1
    exact closeTest hs₁ hnear₁.ready
  | some after =>
    obtain ⟨hget, -⟩ := htaken
    rw [ht.eq, Stream.get_bare] at hget
    obtain ⟨rfl, hstream⟩ := Prod.mk.inj hget
    refine ite (fun hcolon => discard ?_) fun _ => ?_
    · have hcut₁ : t.IsCut s₁.stream.source := h₁.source_eq ▸ hcut
      exact declarationInParens hs₁ hstream.symm (eq_of_beq hcolon) hident hcut₁
    · have hnear₁ : s₁.stream.Near := hstream ▸ Nat.zero_le 1
      refine (discard (Q := fun _ s' => s'.stream.Fresh) (expr hs₁ hnear₁ _ _)).bind
        fun _ s₂ _ hs₂ ⟨u, hu⟩ => discard ?_
      refine (mustReuse hs₂ _ fun _ => hu.near_back.ready).weaken
        fun v s₃ _ ⟨hstream₃, hv, hclose⟩ => ⟨u, hstream₃ ▸ hu, ?_⟩
      rw [hv, hu.current_eq] at hclose
      simpa using hclose

theorem bracketTest (hs : s.InOrder) (hnear : s.stream.Near) (bracket : Token) :
    Orderly (Parser.bracketTest test kind bracket) s fun _ s' => s'.stream.Closed := by
  unfold Parser.bracketTest
  refine (matchSmart hs hnear _).bind fun found s₁ h₁ hs₁ hfound => ?_
  cases found with
  | none => exact closeTest hs₁ (Stream.Near.ready hfound.1)
  | some t =>
    obtain ⟨ht, -, hcut⟩ := hfound
    refine (ownTest_some hs₁ ht bracket).bind fun own s₂ h₂ hs₂ ⟨hown, hsame⟩ => ?_
    refine ite (fun htrue => closeTest hs₂ (hown htrue).ready) fun hfalse => ?_
    have hstream : s₂.stream = s₁.stream := hsame (by simpa using hfalse)
    have ht₂ : s₂.stream.At t := hstream ▸ ht
    have hcut₂ : t.IsCut s₂.stream.source := by
      rw [hstream, h₁.source_eq]
      exact hcut
    refine ite (fun _ => ?_) fun hident => ite (fun _ => ?_) fun _ => ?_
    · exact (conditionWith htest hs₂ (some t) ht₂.near).bind fun _ s₃ _ hs₃ ⟨hbetween, _⟩ =>
        closeTest hs₃ hbetween.1.ready
    · exact (htest .plain none hs₂ ht₂.near).bind fun _ s₃ _ hs₃ ⟨hbetween, _⟩ =>
        closeTest hs₃ hbetween.1.ready
    · exact nameTest hs₂ ht₂ (by simpa using hident) hcut₂

end Tests

theorem testTo (depth : Nat) : OrderlyTest (Parser.testTo depth) := by
  induction depth with
  | zero => exact fun _ _ {_} hs hnear => throw hs tooDeep_not_isExhausted fun _ => hnear.ready
  | succ depth ih =>
    intro kind first s hs hnear
    unfold Parser.testTo
    extract_lets rest
    have hrest : ∀ (t : Token) {s₁ : State}, s₁.InOrder → s₁.stream.Near →
        Orderly (rest t) s₁ fun _ s' =>
          s'.stream.Between ∧ (kind = .plain → s'.stream.Closed) := by
      intro t s₁ hs₁ hnear₁
      have hclosed : ∀ {p : Parser Unit} {s₂ : State},
          Orderly p s₂ (fun _ s' => s'.stream.Closed) → Orderly p s₂ fun _ s' =>
            s'.stream.Between ∧ (kind = .plain → s'.stream.Closed) :=
        fun h => h.weaken fun _ _ _ hclosed => ⟨hclosed.fresh.between, fun _ => hclosed⟩
      refine (ownTest_none ih hs₁ hnear₁ t).bind fun own s₂ _ hs₂ hresult => ?_
      obtain ⟨hown, hsame⟩ := hresult
      refine ite (fun htrue => ?_) fun hfalse => ?_
      · obtain ⟨hkind, hclosing⟩ := hown htrue
        exact (closeTest_again hs₂ hclosing).weaken fun _ _ _ hbetween =>
          ⟨hbetween, fun h => absurd h hkind⟩
      · have hstream : s₂.stream = s₁.stream := hsame (by simpa using hfalse)
        have hnear₂ : s₂.stream.Near := hstream ▸ hnear₁
        refine ite (fun _ => hclosed (discard (function hs₂ hnear₂ t false))) fun _ =>
          ite (fun _ => hclosed (bracketTest ih hs₂ hnear₂ t)) fun _ =>
            hclosed (closeTest hs₂ hnear₂.ready)
    cases first with
    | some t => exact pure_bind (hrest t hs hnear)
    | none => exact (mustMatchSmart hs hnear _).bind fun t s₁ _ hs₁ ht => hrest t hs₁ ht.1.near

theorem conditionInParens (hs : s.InOrder) (hnear : s.stream.Near) (first : Option Token) :
    Orderly (Parser.conditionInParens kind first) s fun _ s' => s'.stream.Between :=
  budget_bind ((testTo _ kind first hs hnear).weaken fun _ _ _ h => h.1)

theorem condition (hs : s.InOrder) (hnear : s.stream.Near) :
    Orderly (Parser.condition kind) s fun _ s' => s'.stream.Between :=
  budget_bind ((conditionWith (testTo _) hs none hnear).weaken fun _ _ _ h => h.1)

end Orderly

end Stylesheet
