import Stylesheet.Parse.Rule
import Stylesheet.Proofs.Lookahead.Rewound

/-!
# Where a rule starts

The first token of a rule is read by whoever decides that a rule comes next.
Nothing else may have been looked at. But if the token was first taken for
the name of a property, what follows it is ahead, or the window is empty and
the reader was taken back to the end of the name; and if it was taken for a
property with a star before its name, the name is ahead.

From all these places the selectors of the rule are read in order. What they
leave is a brace at hand with none ahead, or some other token that can be
taken back.
-/

namespace Stylesheet

open Parse (State)
open Parse.State (Keeps)
open Parser (bind_ok)
open Stylesheet.Stream (EndsLast Front IsElementName Stopped looksOn spaced)
open Stylesheet.Parser

/-- **A place where a rule can start**, after its first token. -/
inductive Opening (t : Token) : Stream → Prop where
  /-- The token is at hand. -/
  | front {st : Stream} (h : Front t st) : Opening t st
  /-- The window is empty, and no bar follows the name. -/
  | sought {st : Stream} (hbare : st.ahead = []) (hname : IsElementName t)
      (hbar : (st.get false true).1.kind ≠ .pipe) (hstop : st.reader.location = t.stop) :
      Opening t st
  /-- What follows the name is ahead. -/
  | rewound {r : Reader} {behind : List Token} {st : Stream} (hname : IsElementName t)
      (hat : r.IsAt) (hstop : r.location = t.stop) (h : Rewound t r behind st) : Opening t st
  /-- A star is at hand, and the name after it is ahead. -/
  | starred {r : Reader} {behind rest : List Token} {u : Token} (hkind : t.kind = .star)
      (hu : u.kind = .ident) (hrest : EndsLast rest) : Opening t ⟨r, t :: behind, u :: rest⟩

theorem Opening.endsLast {t : Token} {st : Stream} (h : Opening t st) : EndsLast st.ahead := by
  cases h with
  | front h => exact h.endsLast
  | sought hbare =>
    rw [hbare]
    exact List.Pairwise.nil
  | rewound _ _ _ h => exact h.endsLast
  | starred _ hu hrest =>
    refine EndsLast.cons hrest ?_
    unfold Stream.endsItem
    rw [hu]
    rfl

namespace Stream

/-- **A stream from which the tokens ahead are taken off**, with the reader
back where they start. -/
theorem IsSound.bare {st : Stream} {t : Token} {r : Reader} {behind : List Token} (h : st.IsSound)
    (hbehind : st.behind = t :: behind) (hat : r.IsAt) (hsource : r.source = st.source)
    (hstop : r.location = t.stop) : IsSound ⟨r, t :: behind, []⟩ := by
  have hmem : ∀ u ∈ t :: behind, u ∈ st.window := by
    intro u hu
    rw [window, hbehind]
    exact List.mem_append_left _ (List.mem_reverse.mpr hu)
  have hordered : (t :: behind).reverse.Pairwise fun t u => t.stop.offset ≤ u.location.offset := by
    have hwindow := h.ordered
    rw [window, hbehind, List.pairwise_append] at hwindow
    exact hwindow.1
  have hwindow : window ⟨r, t :: behind, []⟩ = (t :: behind).reverse := List.append_nil _
  refine ⟨hat, fun u hu => ?_, ?_, fun u hu => ?_⟩
  · rw [hwindow] at hu
    have hcut := h.isCut u (hmem u (List.mem_reverse.mp hu))
    rw [← hsource] at hcut
    exact hcut
  · rw [hwindow]
    exact hordered
  · rw [hwindow] at hu
    show u.stop.offset ≤ r.location.offset
    rw [hstop]
    rcases List.mem_cons.mp (List.mem_reverse.mp hu) with rfl | hu
    · exact Nat.le_refl _
    · -- the older tokens end before the last one starts
      rw [List.reverse_cons, List.pairwise_append] at hordered
      have hle := hordered.2.2 u (List.mem_reverse.mpr hu) t List.mem_cons_self
      exact Nat.le_trans hle (h.isCut t (hmem t List.mem_cons_self)).location_le_stop

theorem flush_bare {t : Token} {r : Reader} {behind : List Token} (hstop : r.location = t.stop) :
    Flush ⟨r, t :: behind, []⟩ := by
  intro u hu
  unfold window at hu
  rw [List.append_nil, List.getLast?_reverse] at hu
  obtain rfl := Option.some.inj hu
  exact hstop

/-- **What the selectors of a rule leave**: a brace with none ahead, or a
token that can be taken back. -/
structure HeadEnd (st : Stream) : Prop where
  /-- Nothing is ahead after a brace. -/
  brace : st.current.kind = .lBrace → st.ahead = []
  /-- Another token can be taken back. -/
  other : st.current.kind ≠ .lBrace → EndsLast st.back.ahead

theorem Stopped.headEnd {st : Stream} (h : st.Stopped) : st.HeadEnd := by
  obtain ⟨t, ht⟩ := h
  refine ⟨fun hkind => ?_, fun _ => ht.ready_back.endsLast⟩
  rw [ht.current_eq] at hkind
  exact (ht.at_of_kind (by rw [hkind]; rfl)).bare

end Stream

/-- **A star with a name after it** is a selector by itself, and the name is
at hand afterwards. -/
theorem Parser.selectorGroup_starred {s : State} {t u : Token} {st st₁ : Stream}
    (hkind : t.kind = .star) (hcustom : t.isCustomIdent = false) (hu : u.kind = .ident)
    (hbudget : 0 < s.budget) (hget : st.get false true = (u, st₁)) (hcurrent : st₁.current = u) :
    ∃ selectors, Parser.selectorGroup (some t) true false (s.withStream st) =
      (.ok (some selectors), s.withStream st₁) := by
  obtain ⟨b, hb⟩ : ∃ b, s.budget = b + 1 := ⟨s.budget - 1, by omega⟩
  have hnone : Parser.modifier? (Parser.groupTo b) u = pure none := by
    unfold Parser.modifier?
    rw [hu]
  have hbar : u.kind ≠ .pipe := by
    rw [hu]
    exact TokenKind.noConfusion
  have hnow : Parser.current (s.withStream st₁) = (.ok u, s.withStream st₁) :=
    Prod.ext (congrArg Except.ok hcurrent) rfl
  have hloop : ∀ head : SelectorSoFar, head.pending = none →
      Parser.repeating head (Parser.selectorStep (Parser.groupTo b)) (s.withStream st₁) =
        (.ok head, s.withStream st₁) := by
    rintro ⟨items, stop, _⟩ rfl
    rw [repeating_apply, show (s.withStream st₁).budget = b + 1 from hb]
    refine rounds_done ?_
    unfold Parser.selectorStep
    refine (bind_ok hnow).trans ?_
    dsimp only
    rw [if_neg (by rw [hu]; decide), if_neg (by rw [hu]; decide)]
    exact congrFun (if_neg (by rw [hu]; decide)) _
  -- the compound is the star, and what is at hand then is no combinator
  have hselector : ∃ selector, Parser.selectorWith (Parser.groupTo b) (some t) true
      (s.withStream st) = (.ok (some selector), s.withStream st₁) := by
    have hcompound := compound_alone (s := s) (Or.inr hkind) hcustom hbudget hget hbar
      hnone
    rw [selectorWith_apply (by rw [hkind]; rfl), bind_ok hcompound]
    unfold Parser.selectorRest
    exact ⟨_, (bind_ok (hloop _ rfl)).trans rfl⟩
  obtain ⟨selector, hselector⟩ := hselector
  refine ⟨[selector], ?_⟩
  show Parser.groupTo s.budget (some t) true false (s.withStream st) = _
  rw [hb]
  unfold Parser.groupTo
  suffices hgroup : Parser.repeating ⟨[], some t, false⟩
      (Parser.groupStep (Parser.groupTo b) true false) (s.withStream st) =
        (.ok ⟨[selector], none, false⟩, s.withStream st₁) from (bind_ok hgroup).trans rfl
  rw [repeating_apply, show (s.withStream st).budget = b + 1 from hb]
  refine rounds_done ?_
  unfold Parser.groupStep
  refine (bind_ok hselector).trans ?_
  rw [if_neg (by simp)]
  refine (show _ = _ from bind_ok hnow).trans ?_
  dsimp only
  rw [if_neg (by rw [hu]; decide)]
  exact congrFun (if_neg (by rw [hu]; decide)) _

namespace Orderly

variable {s : State} {t : Token}

variable {depth : Nat} {r : Reader} {behind : List Token}

/-- **A parser that comes to the same as another one**, from another
state. -/
theorem of_eq {α : Type} {p q : Parser α} {s₁ : State} {Q : α → State → Prop}
    {E : Stream → Prop} (h : p s = q s₁) (hkeeps : Keeps s s₁) (hq : Orderly q s₁ Q E) :
    Orderly p s Q E := by
  refine ⟨?_, ?_, ?_, ?_⟩ <;> rw [h]
  · exact hkeeps.trans hq.keeps
  · exact hq.inOrder
  · exact hq.error
  · exact hq.ok

/-- **The first selector of a rule**, where it is the one that is read from
the text itself. -/
theorem selectorWith_of_bare {st : Stream} (hs : s.InOrder) (hstream : s.stream = st)
    (hbehind : st.behind = t :: behind) (hat : r.IsAt) (hsource : r.source = st.source)
    (hstop : r.location = t.stop) (hbudget : s.budget = depth + 1)
    (heq : Parser.selectorWith (Parser.groupTo depth) (some t) true (s.withStream st) =
      Parser.selectorWith (Parser.groupTo depth) (some t) true
        (s.withStream ⟨r, t :: behind, []⟩)) :
    Orderly (Parser.selectorWith (Parser.groupTo depth) (some t) true) s
      (SelectorEnd (Selector.IsRead s.options s.stream.source)) := by
  subst hstream
  have hsound : Stream.IsSound ⟨r, t :: behind, []⟩ :=
    hs.isSound.stream.bare hbehind hat hsource hstop
  have hkeeps : Keeps s (s.withStream ⟨r, t :: behind, []⟩) := hs.isSound.withStream hsound hsource
  have hs₁ : (s.withStream ⟨r, t :: behind, []⟩).InOrder :=
    hs.withStream hsound (Stream.flush_bare hstop) hsource
  have hstart : GroupStart (some t) (s.withStream ⟨r, t :: behind, []⟩) := .hand ⟨rfl, rfl⟩
  refine of_eq heq hkeeps (selectorWith_isRead (selectorWith (groupTo depth) hs₁ hstart true)
    (.bare ⟨hs₁.isSound, rfl, rfl, hsource⟩ hs₁.flush ?_) hbudget)
  rintro _ ⟨⟩
  refine ⟨?_, hstop⟩
  rw [← show r.source = s.stream.source from hsource]
  exact hsound.isCut t (by simp [Stream.window])

/-- **The first selector of a rule**, with a blank and a newline that is
escaped ahead. -/
theorem selectorWith_escaped (hs : s.InOrder) (hname : IsElementName t)
    (hcustom : t.isCustomIdent = false) (hat : r.IsAt) (hstop : r.location = t.stop)
    (hbudget : s.budget = depth + 1) (hblank : (r.lex spaced).1.kind = .whitespace)
    (hseen : ((r.lex spaced).2.lex .visible).1.kind = .whitespace)
    (hstream : s.stream = ⟨((r.lex spaced).2.lex .visible).2, t :: behind,
        [(r.lex spaced).1, ((r.lex spaced).2.lex .visible).1]⟩) :
    Orderly (Parser.selectorWith (Parser.groupTo depth) (some t) true) s
      (SelectorEnd (Selector.IsRead s.options s.stream.source)) := by
  have hcut : t.IsCut s.stream.source :=
    hs.isSound.stream.isCut t (by simp [Stream.window, hstream])
  refine selectorWith_isRead ?_ (.escaped hs.isSound rfl rfl hcut hname hcustom hat hstop hblank
    hseen hstream) hbudget
  -- after the name and the blank, the newline is ahead
  let st₁ : Stream := ⟨((r.lex spaced).2.lex .visible).2, (r.lex spaced).1 :: t :: behind,
    [((r.lex spaced).2.lex .visible).1]⟩
  have hwindow : st₁.behind.reverse ++ st₁.ahead = s.stream.window := by
    rw [hstream]
    simp [st₁, Stream.window]
  have hreader : s.stream.reader = st₁.reader := by rw [hstream]
  have hsound : st₁.IsSound := by
    have := hs.isSound.stream.divide hwindow
    rwa [hreader] at this
  have hflush : st₁.Flush := by
    have := hs.flush.divide hwindow
    rwa [hreader] at this
  have hsource : st₁.source = s.stream.source := (congrArg Reader.source hreader).symm
  have hs₁ : (s.withStream st₁).InOrder := hs.withStream hsound hflush hsource
  have hkeeps : Keeps s (s.withStream st₁) := hs.isSound.withStream hsound hsource
  have hbar : (r.lex spaced).1.kind ≠ .pipe := by
    rw [hblank]
    exact TokenKind.noConfusion
  have hget : s.stream.get false true = ((r.lex spaced).1, st₁) := by
    rw [hstream]
    exact Rewound.get_spaced _ _ _ _
  have hnone : Parser.modifier? (Parser.groupTo depth) (r.lex spaced).1 = Pure.pure none :=
    Rewound.modifier?_blank hblank
  have hcompound := compound_alone (s := s) hname hcustom (by omega) hget hbar hnone
  refine of_eq ((selectorWith_apply hname.looksOn true).trans (bind_ok hcompound)) hkeeps ?_
  refine selectorRest (groupTo depth) hs₁ t ?_
  refine of_eq (selectorStep_blank rfl rfl hblank) (Keeps.refl hs₁.isSound) ?_
  exact afterBlank (groupTo depth) hs₁ (Nat.le_refl 1) _ _ rfl

/-- **The first selector of a rule**, after what was read on and back. -/
theorem selectorWith_rewound (hs : s.InOrder) (hname : IsElementName t)
    (hcustom : t.isCustomIdent = false) (hat : r.IsAt) (hstop : r.location = t.stop)
    (h : Rewound t r behind s.stream) (hbudget : s.budget = depth + 1) :
    Orderly (Parser.selectorWith (Parser.groupTo depth) (some t) true) s
      (SelectorEnd (Selector.IsRead s.options s.stream.source)) := by
  by_cases hescaped : (r.lex spaced).1.kind = .whitespace ∧
      ((r.lex spaced).2.lex .visible).1.kind = .whitespace ∧
      s.stream = ⟨((r.lex spaced).2.lex .visible).2, t :: behind,
        [(r.lex spaced).1, ((r.lex spaced).2.lex .visible).1]⟩
  · obtain ⟨hblank, hseen, hstream⟩ := hescaped
    exact selectorWith_escaped hs hname hcustom hat hstop hbudget hblank hseen hstream
  · have hparts : s.stream.behind = t :: behind ∧ r.source = s.stream.source := by
      have : ∀ st : Stream, Rewound t r behind st →
          st.behind = t :: behind ∧ r.source = st.source := by
        rintro _ (_ | _ | _ | _) <;> exact ⟨rfl, rfl⟩
      exact this _ h
    refine selectorWith_of_bare hs rfl hparts.1 hat hparts.2 hstop hbudget ?_
    exact h.selectorWith_eq hname hcustom hat (by omega)
      (fun hblank hstream hseen => hescaped ⟨hblank, hseen, hstream⟩) true

/-- **What the selectors of a rule leave**: without any, a token at hand with
which an item can start, and otherwise what can come before a block; and
before a block all of them were read in order. -/
def RuleHead (o : Options) (source : List Char) (r : Option (List Selector)) (s : State) : Prop :=
  (r = none → s.stream.Stopped) ∧ s.stream.HeadEnd ∧
    ∀ selectors, r = some selectors → s.stream.current.kind = .lBrace →
      ∀ selector ∈ selectors, selector.IsRead o source

/-- The selectors of a rule, once the first one is read in order. -/
theorem ruleHead_of_first (hs : s.InOrder) (hbudget : s.budget = depth + 1)
    (hfirst : Orderly (Parser.selectorWith (Parser.groupTo depth) (some t) true) s
      (SelectorEnd (Selector.IsRead s.options s.stream.source))) :
    Orderly (Parser.selectorGroup (some t) true false) s
      (RuleHead s.options s.stream.source) :=
  (ruleSelectors hs hbudget hfirst).weaken fun _ _ _ ⟨hstopped, hread⟩ =>
    ⟨fun _ => hstopped, hstopped.headEnd, hread⟩

/-- The selectors of a rule that starts with a name that is not custom, or
with something else than a name. -/
theorem plainSelectors (hs : s.InOrder) (h : Opening t s.stream) (ht : t.IsCut s.stream.source)
    (hcustom : t.isCustomIdent = false) (hbudget : s.budget = depth + 1) :
    Orderly (Parser.selectorGroup (some t) true false) s
      (RuleHead s.options s.stream.source) := by
  have hfirst : ∀ t' : Token, some t = some t' → s.stream.reader.location = t.stop →
      t'.IsCut s.stream.source ∧ s.stream.reader.location = t'.stop := by
    rintro _ ⟨⟩ hstop
    exact ⟨ht, hstop⟩
  obtain ⟨st, hstream⟩ : ∃ st, s.stream = st := ⟨_, rfl⟩
  rw [hstream] at h
  cases h with
  | front h =>
    cases h with
    | bare hat =>
      subst hstream
      have hstart : GroupStart (some t) s := .hand hat
      exact ruleHead_of_first hs hbudget (selectorWith_isRead
        (selectorWith (groupTo depth) hs hstart true)
        (.bare (hs.isSite hat.bare) hs.flush fun t' h' => hfirst t' h' (hat.location_eq hs.flush)) hbudget)
    | @mark r behind hkind hlength hat hstop =>
      have hlooks : looksOn t.kind = true := by
        rcases hkind with hkind | ⟨hkind, -⟩ <;> rw [hkind] <;> rfl
      refine ruleHead_of_first hs hbudget (selectorWith_of_bare hs hstream rfl hat rfl hstop
        hbudget ?_)
      refine selectorWith_congr hlooks hcustom (by omega) ?_ true
      rw [Rewound.get_spaced, Rewound.get_bare _ (t :: behind) (Nat.succ_le_succ hlength)]
    | @name r behind hname hbar hlength hat hstop =>
      have h : Rewound t r behind s.stream := by
        rw [hstream]
        exact .two (Or.inl hbar) hlength
      exact ruleHead_of_first hs hbudget
        (selectorWith_rewound hs hname hcustom hat hstop h hbudget)
  | sought hbare hname hbar hstop =>
    subst hstream
    have hstart : GroupStart (some t) s := .empty hbare hname hcustom hbar
    exact ruleHead_of_first hs hbudget (selectorWith_isRead
      (selectorWith (groupTo depth) hs hstart true)
      (.bare (hs.isSite hbare) hs.flush fun t' h' => hfirst t' h' hstop) hbudget)
  | rewound hname hat hstop h =>
    rw [← hstream] at h
    exact ruleHead_of_first hs hbudget
      (selectorWith_rewound hs hname hcustom hat hstop h hbudget)
  | @starred r behind rest u hkind hu hrest =>
    -- the name after the star is left at hand
    have hget : Stream.get ⟨r, t :: behind, u :: rest⟩ false true =
        (u, ⟨r, u :: t :: behind, rest⟩) := by
      refine Stream.get_of_ahead r _ rest ?_
      unfold Mode.hides
      rw [hu]
      rfl
    obtain ⟨selectors, hgroup⟩ := selectorGroup_starred (s := s) hkind hcustom hu (by omega)
      hget rfl
    have hgroup : Parser.selectorGroup (some t) true false s =
        (.ok (some selectors), s.withStream ⟨r, u :: t :: behind, rest⟩) := by
      rw [← hgroup, ← hstream]
      rfl
    have hwindow : (u :: t :: behind).reverse ++ rest = s.stream.window := by
      rw [hstream]
      simp [Stream.window]
    have hsound := hs.isSound.stream.divide hwindow
    have hflush := hs.flush.divide hwindow
    rw [hstream] at hsound hflush
    have hsource : Stream.source ⟨r, u :: t :: behind, rest⟩ = s.stream.source := by
      rw [hstream]
      rfl
    have hs₁ := hs.withStream hsound hflush hsource
    refine of_eq (q := Pure.pure (some selectors)) hgroup (hs.isSound.withStream hsound hsource)
      (pure hs₁ ⟨fun h => (Option.some_ne_none _ h).elim, ⟨fun h => ?_, fun _ => ?_⟩,
        fun _ _ h => ?_⟩)
    · exact absurd (hu.symm.trans h) TokenKind.noConfusion
    · refine EndsLast.cons hrest ?_
      unfold Stream.endsItem
      rw [hu]
      rfl
    · exact absurd (hu.symm.trans h) TokenKind.noConfusion

/-- **The selectors of a rule**, from wherever it can start. -/
theorem openingSelectors (hs : s.InOrder) (h : Opening t s.stream)
    (ht : t.IsCut s.stream.source) (hcustom : t.isCustomIdent = false ∨ Front t s.stream) :
    Orderly (Parser.selectorGroup (some t) true false) s
      (RuleHead s.options s.stream.source) := by
  obtain ⟨depth, hbudget⟩ : ∃ depth, s.budget = depth + 1 := by
    refine ⟨s.budget - 1, ?_⟩
    have hbound : Text.byteLength s.stream.source + 64 ≤ s.budget := hs.isSound.budget
    omega
  cases htrue : t.isCustomIdent with
  | false => exact plainSelectors hs h ht htrue hbudget
  | true =>
    -- a custom name starts no selector
    have hfront : Front t s.stream := by
      rcases hcustom with hfalse | hfront
      · cases hfalse.symm.trans htrue
      · exact hfront
    have hident : t.kind = .ident := by
      by_cases hkind : t.kind = .ident
      · exact hkind
      · cases (ht.isCustomIdent_eq hkind).symm.trans htrue
    have hcompound : compound (Parser.groupTo depth) (some t) = Pure.pure none := by
      unfold compound
      show (if (t.isCustomIdent || !selectorStart.contains t.kind) = true then _ else _ :
        Parser (Option (Compound Selector × Location))) = _
      rw [if_pos (by rw [htrue]; rfl)]
    refine ruleHead_of_first hs hbudget (of_eq (q := Pure.pure none)
      ((selectorWith_apply (by rw [hident]; rfl) true).trans ?_)
      (Keeps.refl hs.isSound)
      (pure hs ⟨⟨t, hfront⟩, fun _ h => (Option.some_ne_none _ h.symm).elim⟩))
    rw [hcompound]
    rfl

/-- **The selectors of a rule**; without any, the token at hand is taken
back, and the next item starts with it. -/
theorem ruleHead (hs : s.InOrder) (h : Opening t s.stream) (ht : t.IsCut s.stream.source)
    (hcustom : t.isCustomIdent = false ∨ Front t s.stream) :
    Orderly (Parser.ruleHead t) s fun r s' =>
      (r = none → s'.stream.Ready) ∧ ∀ selectors, r = some selectors → s'.stream.HeadEnd ∧
        (s'.stream.current.kind = .lBrace →
          ∀ selector ∈ selectors, selector.IsRead s.options s.stream.source) := by
  unfold Parser.ruleHead
  refine (openingSelectors hs h ht hcustom).bind fun r s₁ _ hs₁ ⟨hnone, hend, hread⟩ => ?_
  cases r with
  | some selectors =>
    refine pure hs₁ ⟨fun h => (Option.some_ne_none _ h).elim, ?_⟩
    rintro _ ⟨⟩
    exact ⟨hend, hread selectors rfl⟩
  | none =>
    obtain ⟨u, hu⟩ := hnone rfl
    refine (unget hs₁ hu.held).bind fun _ s₂ _ hs₂ hback => pure hs₂ ⟨fun _ => ?_, fun _ h => ?_⟩
    · rw [hback]
      exact hu.ready_back
    · exact (Option.some_ne_none _ h.symm).elim

end Orderly

end Stylesheet
