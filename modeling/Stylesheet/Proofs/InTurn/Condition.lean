import Stylesheet.Proofs.InTurn.Declaration

/-!
# Complaints in conditions

The only complaints that a condition recovers from are those about a
declaration in it, which may fail to fit and is read on after. So the offset
up to which complaints are past can grow while a condition is read; and since
a test is closed twice, the bracket that closes it must not lie before it.
That is so when the token in hand starts no earlier.

A test that stands in another one comes after its bracket. There is the same
exception as to how far reading gets: the test of a style is a condition that
starts with a bracket that was read already, and needs one level more.
-/

namespace Stylesheet

open Parse (State)
open Parse.State (Keeps)
open Stylesheet.Stream (Anyhow At Grasps Has Near)

namespace InTurn

variable {α : Type} {d n : Nat} {s : State} {t : Token} {p : Parser α}
  {test : Parser.TestParser} {kind : ConditionKind}

/-! ## What is known of a part from elsewhere -/

theorem part {P : Nat → Stream → Prop} {Q : α → Nat → Stream → Prop} {T : α → State → Prop}
    (hs : s.InOrder) (hn : s.Complained n) (hP : P n s.stream) (h : ∀ d, Points d P p Q)
    (hmute : Mute p) (ho : Orderly p s T) :
    InTurn n p s fun a m s' => m = n ∧ Q a n s'.stream ∧ s'.InOrder ∧ T a s' :=
  ((read hs.isSound hn hP h hmute).and_orderly ho).weaken
    fun _ _ _ _ _ _ ⟨⟨hm, hQ⟩, hs', hT⟩ => ⟨hm, hQ, hs', hT⟩

theorem failHere {Q : α → Nat → State → Prop} {expected : String} (hs : s.IsSound)
    (hn : s.Complained n) (h : s.stream.Grasps n) : InTurn n (Parser.failHere expected) s Q :=
  (read hs hn h (fun _ => Points.failHere (Q := fun _ _ _ => False))
    (Mute.compositional.failHere _)).weaken fun _ _ _ _ _ _ h => h.2.elim

theorem unget (hs : s.IsSound) (hn : s.Complained n) (h : s.stream.Grasps n) :
    InTurn n Parser.unget s fun _ m _ => m = n :=
  (read hs hn h (fun _ => Points.unget) Mute.compositional.unget).weaken fun _ _ _ _ _ _ h => h.1

theorem closeTest (hs : s.IsSound) (hn : s.Complained n) :
    InTurn n Parser.closeTest s fun _ m s' => s'.stream.Grasps m := by
  have hclose : ∀ d, Points d Anyhow Parser.closeTest fun _ => Grasps := fun _ =>
    (Points.mustMatchSmart _).discard_grasps
  refine (read hs hn trivial hclose Mute.compositional.closeTest).weaken
    fun _ _ _ _ _ _ ⟨hm, hgrasps⟩ => ?_
  rw [hm]
  exact hgrasps

/-! ## Tests -/

/-- **A reader of tests whose complaints come in turn**, where less than a bound
is left to read. It leaves a token in hand. -/
def Tests (d : Nat) (kind : ConditionKind) (test : Parser.TestParser) : Prop :=
  ∀ (first : Option Token) {s : State} {n : Nat}, s.InOrder → s.stream.Near →
    Text.byteLength s.stream.source < n + d → s.Complained n →
    InTurn n (test kind first) s fun _ m s' => s'.stream.Grasps m

theorem Tests.mono {d' : Nat} (h : Tests d kind test) (hle : d' ≤ d) : Tests d' kind test :=
  fun first {_ _} hs hnear hd hn => h first hs hnear (by omega) hn

section

variable (horderly : Orderly.OrderlyTest test)

include horderly

theorem joinedStep (htest : Tests d kind test) (hs : s.InOrder) (hnear : s.stream.Near)
    (hd : Text.byteLength s.stream.source < n + d) (hn : s.Complained n)
    (sofar : Option Token × Keywords × Bool) :
    InTurn n (Parser.joinedStep test kind sofar) s
      (Turn (fun _ m s' => s'.InOrder ∧ s'.stream.Near ∧ s'.stream.Grasps m)
        fun _ m s' => s'.stream.Grasps m) := by
  have hstep : InTurn n (Parser.joinedStep test kind sofar) s fun _ m s' => s'.stream.Grasps m := by
    obtain ⟨first, joiners, settled⟩ := sofar
    refine (htest first hs hnear hd hn).bind fun _ m s₁ h₁ _ hn₁ hgrasps => ?_
    refine (read h₁.isSound hn₁ hgrasps
      (fun _ => Points.matchKeyword Points.lasts_grasps joiners)
      (Mute.compositional.matchKeyword _)).bind fun word k s₂ h₂ _ hn₂ ⟨hk, hword⟩ => ?_
    obtain rfl := hk
    cases word with
    | none => exact pure h₂.isSound hn₂ hword
    | some word => exact pure h₂.isSound hn₂ hword.grasps
  refine (hstep.and_orderly (Orderly.joinedStep horderly hs hnear sofar)).weaken ?_
  rintro (_ | _) m s' _ _ _ ⟨hgrasps, hs', hturn⟩
  · exact hgrasps
  · exact ⟨hs', Stream.Fresh.near hturn, hgrasps⟩

theorem conditionWith (htest : Tests d kind test) (first : Option Token) (hs : s.InOrder)
    (hnear : s.stream.Near) (hd : Text.byteLength s.stream.source < n + d)
    (hn : s.Complained n) :
    InTurn n (Parser.conditionWith test kind first) s fun _ m s' => s'.stream.Grasps m := by
  unfold Parser.conditionWith
  extract_lets rest
  have hrest : ∀ (t : Token) {s₁ : State}, Keeps s s₁ → s₁.InOrder → s₁.stream.Near →
      s₁.Complained n → InTurn n (rest t) s₁ fun _ m s' => s'.stream.Grasps m := by
    intro t s₁ h₁ hs₁ hnear₁ hn₁
    have hd₁ : Text.byteLength s₁.stream.source < n + d := by
      rw [h₁.source_eq]
      exact hd
    refine ite (fun _ => htest none hs₁ hnear₁ hd₁ hn₁) fun _ => discard ?_
    refine repeating_first hs₁.isSound (joinedStep horderly htest hs₁ hnear₁ hd₁ hn₁ _)
      (fun sofar m s₂ h₂ hnm hn₂ ⟨hs₂, hnear₂, _⟩ => ?_) fun _ _ _ h => h.2.2
    refine joinedStep horderly htest hs₂ hnear₂ ?_ hn₂ sofar
    rw [h₂.source_eq]
    omega
  cases first with
  | some t => exact pure_bind (hrest t (Keeps.refl hs.isSound) hs hnear hn)
  | none =>
    refine (part (P := Anyhow) hs hn trivial (fun _ => Points.grab) Mute.compositional.grab
      (Orderly.grab hs hnear)).bind fun t m s₁ h₁ _ hn₁ ⟨hm, _, hs₁, hat⟩ => ?_
    obtain rfl := hm
    exact hrest t h₁ hs₁ hat.1.near hn₁

/-- **A test that only one at-rule has**, without a bracket before it. If the
token starts none, nothing is read. -/
theorem ownTest_none (htest : kind = .container → Tests d .plain test) (hs : s.InOrder)
    (hnear : s.stream.Near) (hd : Text.byteLength s.stream.source < n + d)
    (hn : s.Complained n) (t : Token) :
    InTurn n (Parser.ownTest test kind t none) s fun r m s' =>
      r = false → m = n ∧ s'.stream = s.stream := by
  unfold Parser.ownTest
  cases kind with
  | plain => exact pure hs.isSound hn fun _ => ⟨rfl, rfl⟩
  | supports =>
    refine ite (fun _ => ?_) fun _ => pure hs.isSound hn fun _ => ⟨rfl, rfl⟩
    refine (read hs.isSound hn (fun _ h => by cases h) (fun _ => Points.selector none false)
      (Mute.compositional.selector _ _)).bind fun found m s₁ h₁ _ hn₁ ⟨hm, hgrasps⟩ => ?_
    obtain rfl := hm
    cases found with
    | none => exact failHere h₁.isSound hn₁ hgrasps
    | some found =>
      refine (unget h₁.isSound hn₁ hgrasps).bind fun _ m s₂ h₂ _ hn₂ _ => ?_
      exact (fire h₂.isSound hn₂ ⟨EventKind.noConfusion, EventKind.noConfusion⟩ rfl).bind
        fun _ m s₃ h₃ _ hn₃ _ => pure h₃.isSound hn₃ fun h => by cases h
  | container =>
    refine ite (fun _ => ?_) fun _ => pure hs.isSound hn fun _ => ⟨rfl, rfl⟩
    refine (conditionWith horderly (htest rfl) _ hs hnear hd hn).bind
      fun _ m s₁ h₁ _ hn₁ hgrasps => ?_
    exact (unget h₁.isSound hn₁ hgrasps).bind fun _ m s₂ h₂ _ hn₂ _ =>
      pure h₂.isSound hn₂ fun h => by cases h

omit horderly in
/-- A test that only one at-rule has, after a bracket. -/
theorem ownTest_some (hs : s.IsSound) (hn : s.Complained n) (hgrasps : s.stream.Grasps n)
    {bracket : Token} (hbracket : bracket.kind = .lParen) (t : Token) :
    InTurn n (Parser.ownTest test kind t (some bracket)) s fun r m s' =>
      m = n ∧ (r = false → s'.stream = s.stream) := by
  unfold Parser.ownTest
  cases kind with
  | plain => exact pure hs hn ⟨rfl, fun _ => rfl⟩
  | supports => exact pure hs hn ⟨rfl, fun _ => rfl⟩
  | container =>
    refine ite (fun _ => ?_) fun _ => pure hs hn ⟨rfl, fun _ => rfl⟩
    refine (unget hs hn hgrasps).bind fun _ m s₁ h₁ _ hn₁ hm => ?_
    obtain rfl := hm
    have hfeature : ∀ d, Points d Anyhow (Functor.discard (Parser.mediaFeature (some bracket)))
        fun _ => Grasps := fun _ => (Points.mediaFeature _ fun u hu hother =>
      absurd (Option.some.inj hu ▸ hbracket) hother).discard
    refine (read h₁.isSound hn₁ trivial hfeature
      (Mute.compositional.discard (Mute.compositional.mediaFeature _))).bind
      fun _ m s₂ h₂ _ hn₂ ⟨hm, hgrasps₂⟩ => ?_
    obtain rfl := hm
    refine (unget h₂.isSound hn₂ hgrasps₂).bind fun _ m s₃ h₃ _ hn₃ hm => ?_
    exact pure h₃.isSound hn₃ ⟨hm, fun h => by cases h⟩

omit horderly in
theorem nameTest (hs : s.InOrder) (hn : s.Complained n) (ht : s.stream.At t)
    (hle : n ≤ t.location.offset) (hident : t.kind = .ident) :
    InTurn n (Parser.nameTest t) s fun _ m s' => s'.stream.Grasps m := by
  unfold Parser.nameTest
  refine (part (P := Anyhow) hs hn trivial
    (fun _ => Points.matchSmart Points.lasts_anyhow [.colon, .lParen])
    (Mute.compositional.matchSmart _) (Orderly.accept_taken hs false false
      fun u => [TokenKind.colon, .lParen].contains u.kind)).bind
      fun found m s₁ h₁ _ hn₁ ⟨hm, _, hs₁, htaken⟩ => ?_
  obtain rfl := hm
  cases found with
  | none => exact closeTest h₁.isSound hn₁
  | some after =>
    obtain ⟨hget, -⟩ := htaken
    rw [ht.eq, Stream.get_bare] at hget
    obtain ⟨rfl, hstream⟩ := Prod.mk.inj hget
    refine ite (fun hcolon => discard ?_) fun _ => ?_
    · have hmem : t ∈ s₁.stream.behind := by
        rw [← hstream]
        exact List.mem_cons_of_mem _ List.mem_cons_self
      have hcut : t.IsCut s₁.stream.source :=
        hs₁.isSound.stream.isCut t (List.mem_append_left _ (List.mem_reverse.mpr hmem))
      have hn₂ : s₁.Complained t.location.offset := hn₁.raise hle
        (Nat.le_trans hcut.location_le_stop (hs₁.isSound.stream.stop_le_place hmem))
      exact (declaration_inParens hs₁.isSound hstream.symm (eq_of_beq hcolon) hident hn₂).lower hle
    · refine (discard (Q := fun _ m s' => s'.stream.Grasps m) ((expr hs₁.isSound hn₁ _ true).weaken
        fun _ _ _ _ _ _ ⟨hm, hgrasps, _⟩ => hm ▸ hgrasps)).bind fun _ m s₂ h₂ _ hn₂ hgrasps => ?_
      refine (read h₂.isSound hn₂ hgrasps (fun _ => (Points.mustReuse _).discard_grasps)
        (Mute.compositional.discard (Mute.compositional.mustReuse _))).weaken
        fun _ _ _ _ _ _ ⟨hm, hgrasps⟩ => ?_
      rw [hm]
      exact hgrasps

/-- **What stands in the brackets of a test** comes after the bracket. -/
theorem bracketTest (htest : Tests d .plain test) (hs : s.InOrder) (hnear : s.stream.Near)
    (hd : Text.byteLength s.stream.source < n + (d + 1)) (hn : s.Complained n) {bracket : Token}
    (hbracket : bracket.kind = .lParen) :
    InTurn n (Parser.bracketTest test kind bracket) s fun _ m s' => s'.stream.Grasps m := by
  unfold Parser.bracketTest
  refine (part (P := Anyhow) hs hn trivial (fun _ => Points.matchSmart Points.lasts_anyhow _)
    (Mute.compositional.matchSmart _) (Orderly.matchSmart hs hnear _)).bind
      fun found m s₁ h₁ _ hn₁ ⟨hm, hfound, hs₁, hat⟩ => ?_
  obtain rfl := hm
  cases found with
  | none => exact closeTest h₁.isSound hn₁
  | some t =>
    obtain ⟨hat, hkind, -⟩ := hat
    have hhas : s₁.stream.Has t m := hfound
    refine ((ownTest_some hs₁.isSound hn₁ hhas.grasps hbracket t).and_orderly
      (@Orderly.ownTest_some s₁ t test kind hs₁ hat bracket)).bind
      fun own k s₂ h₂ _ hn₂ ⟨⟨hk, hsame⟩, hs₂, _⟩ => ?_
    obtain rfl := hk
    refine ite (fun _ => closeTest h₂.isSound hn₂) fun hfalse => ?_
    have hstream : s₂.stream = s₁.stream := hsame (by simpa using hfalse)
    have hat₂ : s₂.stream.At t := hstream ▸ hat
    have hhas₂ : s₂.stream.Has t k := hstream ▸ hhas
    -- the token is not the end of the source, and what follows starts further on
    have heof : t.kind ≠ .eof := by
      intro heof
      rw [heof] at hkind
      exact absurd hkind (by decide)
    have hd₂ : Text.byteLength s₂.stream.source < k + 1 + d := by
      rw [h₂.source_eq, h₁.source_eq]
      omega
    have hn₃ : s₂.Complained (k + 1) :=
      hn₂.raise (Nat.le_succ k) (hhas₂.lt_place h₂.isSound.stream heof)
    refine ite (fun _ => ?_) fun hident => ite (fun _ => ?_) fun _ => ?_
    · refine ((conditionWith horderly htest (some t) hs₂ hat₂.near hd₂ hn₃).bind
        fun _ m s₃ h₃ _ hn₄ _ => closeTest h₃.isSound hn₄).lower (Nat.le_succ k)
    · refine ((htest none hs₂ hat₂.near hd₂ hn₃).bind
        fun _ m s₃ h₃ _ hn₄ _ => closeTest h₃.isSound hn₄).lower (Nat.le_succ k)
    · exact nameTest hs₂ hn₂ hat₂ hhas₂.2 (by simpa using hident)

end

/-! ## Nesting -/

variable {k depth : Nat}

/-- One level of tests. -/
theorem testTo_succ (hinner : Tests k .plain (Parser.testTo depth)) (hd : d ≤ k + 1)
    (hown : kind = .container → d ≤ k) : Tests d kind (Parser.testTo (depth + 1)) := by
  have horderly := Orderly.testTo depth
  intro first s n hs hnear hbound hn
  unfold Parser.testTo
  extract_lets rest
  have hrest : ∀ (t : Token) {s₁ : State}, Keeps s s₁ → s₁.InOrder → s₁.stream.Near →
      s₁.Complained n → InTurn n (rest t) s₁ fun _ m s' => s'.stream.Grasps m := by
    intro t s₁ h₁ hs₁ hnear₁ hn₁
    have hbound₁ : Text.byteLength s₁.stream.source < n + d := by
      rw [h₁.source_eq]
      exact hbound
    refine ((ownTest_none horderly (fun hkind => hinner.mono (hown hkind)) hs₁ hnear₁ hbound₁ hn₁
      t).and_orderly (Orderly.ownTest_none horderly hs₁ hnear₁ t)).bind
      fun own m s₂ h₂ _ hn₂ hown₂ => ?_
    obtain ⟨hsame, hs₂, -⟩ := hown₂
    refine ite (fun _ => closeTest h₂.isSound hn₂) fun hfalse => ?_
    obtain ⟨rfl, hstream⟩ := hsame (by simpa using hfalse)
    have hnear₂ : s₂.stream.Near := hstream ▸ hnear₁
    refine ite (fun _ => ?_) fun _ => ite (fun hparen => ?_) fun _ => closeTest h₂.isSound hn₂
    · refine (read h₂.isSound hn₂ trivial (fun _ => (Points.function t false).discard)
        (Mute.compositional.discard (Mute.compositional.function t false))).weaken
        fun _ _ _ _ _ _ hread => ?_
      rw [hread.1]
      exact hread.2
    · refine bracketTest horderly hinner hs₂ hnear₂ ?_ hn₂ (eq_of_beq hparen)
      rw [h₂.source_eq]
      omega
  cases first with
  | some t => exact pure_bind (hrest t (Keeps.refl hs.isSound) hs hnear hn)
  | none =>
    refine (part (P := Anyhow) hs hn trivial (fun _ => Points.mustMatchSmart _)
      (Mute.compositional.mustMatchSmart _) (Orderly.mustMatchSmart hs hnear _)).bind
      fun t m s₁ h₁ _ hn₁ hpart => ?_
    obtain ⟨rfl, -, hs₁, hat⟩ := hpart
    exact hrest t h₁ hs₁ hat.1.near hn₁

/-- **Tests nested to a depth** that is more than what is left to read. -/
theorem testTo_plain (hk : k ≤ depth) : Tests k .plain (Parser.testTo depth) := by
  induction k generalizing depth with
  | zero =>
    intro first s n hs _ hd hn
    have hle := hs.isSound.offset_le
    have hn := hn.le
    omega
  | succ k ih =>
    obtain ⟨depth, rfl⟩ : ∃ l, depth = l + 1 := ⟨depth - 1, by omega⟩
    exact testTo_succ (ih (Nat.le_of_succ_le_succ hk)) (Nat.le_refl _) fun h => by cases h

theorem testTo (hk : k + 1 ≤ depth) : Tests k kind (Parser.testTo depth) := by
  obtain ⟨depth, rfl⟩ : ∃ l, depth = l + 1 := ⟨depth - 1, by omega⟩
  exact testTo_succ (testTo_plain (Nat.le_of_succ_le_succ hk)) (Nat.le_succ k) fun _ => Nat.le_refl k

/-- The budget is more than enough. -/
theorem testTo_budget (hs : s.IsSound) :
    Tests (Text.byteLength s.stream.source + 1) kind (Parser.testTo s.budget) := by
  have hbudget : Text.byteLength s.stream.source + 64 ≤ s.budget := hs.budget
  exact testTo (by omega)

theorem conditionInParens (hs : s.InOrder) (hnear : s.stream.Near) (hn : s.Complained n)
    (first : Option Token) :
    InTurn n (Parser.conditionInParens kind first) s fun _ m s' => s'.stream.Grasps m :=
  budget_bind (testTo_budget hs.isSound first hs hnear (by omega) hn)

theorem condition (hs : s.InOrder) (hnear : s.stream.Near) (hn : s.Complained n) :
    InTurn n (Parser.condition kind) s fun _ m s' => s'.stream.Grasps m :=
  budget_bind (conditionWith (Orderly.testTo _) (testTo_budget hs.isSound) none hs hnear (by omega)
    hn)

end InTurn

end Stylesheet
