import Stylesheet.Proofs.Excerpt.Selectors

/-!
# Selectors with an escaped newline ahead

Inside a rule a name is first taken for that of a property. When it turns out
to start a selector, the tokens after it have been read in another way: a blank
and a newline that is escaped are ahead, and the newline is passed over as a
blank. Read from the text itself, the blank comes to nothing, and it is the
newline that the selector goes on after.

So the two readings join what follows with different combinators, or they do
not differ at all (`Parser.selectorFrom_of_escaped`).
-/

namespace Stylesheet

open Parse (State)
open Parse.State (Keeps)
open Reader (toStart)
open Stylesheet.Stream (IsElementName spaced)

/-! ## Blanks that are parted from a newline -/

/-- **A combinator that a newline which is escaped comes after**, whatever is
hidden in between. -/
def Combinator.isParted (source : List Char) (k : Combinator) : Bool :=
  ((Reader.atPlace source (k.location.advance k.text.toList) none).lex .visible).1.kind ==
    .whitespace

/-- **A selector whose first two compounds are joined by such a blank.** -/
def Selector.isParted (source : List Char) (s : Selector) : Bool :=
  match s.items with
  | _ :: .combinator k :: _ => k.kind == .descendant && k.isParted source
  | _ => false

/-- The text of a cut token leads from where it starts to where it stops. -/
theorem Token.IsCut.advance_text {source : List Char} {t : Token} (h : t.IsCut source) :
    t.location.advance t.text.toList = t.stop := by
  obtain ⟨before, rest, -, rfl⟩ := h
  exact congrArg _ String.toList_ofList

theorem Stream.IsSound.take {r : Reader} {behind : List Token} (h : IsSound ⟨r, behind, []⟩)
    (n : Nat) : IsSound ⟨r, behind.take n, []⟩ := by
  have hsub : (window ⟨r, behind.take n, []⟩).Sublist (window ⟨r, behind, []⟩) := by
    simp only [window, List.append_nil]
    exact (List.take_sublist n behind).reverse
  exact ⟨h.isAt, fun u hu => h.isCut u (hsub.subset hu), h.ordered.sublist hsub,
    fun u hu => h.before u (hsub.subset hu)⟩

/-- A state with the budget it has. -/
theorem Parse.State.withBudget_eq {s : State} {b : Nat} (h : s.budget = b) :
    s.withBudget b = s := by
  subst h
  rfl

/-- Only the latest tokens behind are kept. -/
theorem Stream.get_take (r : Reader) (behind : List Token) (placeholders blanks : Bool) :
    get ⟨r, behind.take 4, []⟩ placeholders blanks = get ⟨r, behind, []⟩ placeholders blanks := by
  have htake : ∀ t : Token, (t :: behind.take 4).take capacity = (t :: behind).take capacity := by
    intro t
    show t :: (behind.take 4).take 4 = t :: behind.take 4
    rw [List.take_take]
    rfl
  rw [get_bare, get_bare, htake]

namespace Parser

variable {group : GroupParser} {s s' : State} {t u blank newline : Token} {plain : SelectorSoFar}

/-- **Another blank makes another combinator**, or no difference. -/
theorem afterBlankAt_congr (blank newline : Token) (plain : SelectorSoFar) (t : Token)
    (s : State) : afterBlankAt group blank plain t s = afterBlankAt group newline plain t s ∨
      ∃ c stop m, afterBlankAt group blank plain t s =
        (.ok (.yield (plain.push ⟨.descendant, blank.text, blank.location⟩ c stop)), m) := by
  unfold afterBlankAt
  split_ifs
  · exact Or.inl rfl
  · exact Or.inl rfl
  · unfold joined
    rcases hcompound : compound group (some t) s with ⟨e | _ | ⟨c, stop⟩, m⟩
    · rw [bind_error hcompound, bind_error hcompound]
      exact Or.inl rfl
    · rw [bind_ok hcompound, bind_ok hcompound]
      exact Or.inl rfl
    · exact Or.inr ⟨c, stop, m, bind_ok hcompound⟩

/-- **How long a selector may get** does not matter if it is enough. -/
theorem selectorRounds_succ {depth : Nat} (hs : s.IsSound)
    (hdepth : Text.byteLength s.stream.source ≤ depth) (sofar : SelectorSoFar) :
    rounds (selectorStep (groupTo depth)) (s.budget + 1) sofar s =
      rounds (selectorStep (groupTo depth)) s.budget sofar s := by
  have hbudget : s.left + 64 ≤ s.budget := Nat.le_trans s.left_add_le_bound hs.budget
  have hmeasure := Reads.selectorMeasure_le sofar s
  have hheld : Reads.SelectorInv 0 sofar s :=
    ⟨Nat.zero_le _, Or.inl fun _ _ => Nat.zero_le _⟩
  have hreads : Reads 0 (rounds (Parser.selectorStep (groupTo depth)) s.budget sofar)
      (rounds (Parser.selectorStep (groupTo depth)) (s.budget + 1) sofar) s
      (fun _ => Poised 0 0) := by
    refine Reads.rounds (Reads.SelectorInv 0) Reads.selectorMeasure (fun sofar s₁ hkeeps hinv => ?_) (Keeps.refl hs)
      hheld ?_ ?_
    · exact Reads.selectorStep (Reads.groupTo (Nat.le_refl depth) (Nat.le_refl _)) hkeeps.isSound
        (by rw [hkeeps.source_eq]; omega) sofar hinv
    all_goals omega
  exact (hreads.alike s.budget hs.budget).trans
    (Prod.ext rfl (State.withBudget_eq hreads.keeps.budget_eq))

/-- **After a blank**, given the state in which the token after it is read. -/
theorem selectorStep_of_blank {items : List (SelectorItem Selector)} {stop : Location} {m : State}
    (hblank : s.stream.current.kind = .whitespace)
    (hget : s.afterGet false false = m.afterGet false false)
    (htoken : (s.stream.get false false).1 = t) :
    selectorStep group ⟨items, stop, none⟩ s =
      afterBlankAt group s.stream.current ⟨items, stop, none⟩ t (m.afterGet false false) := by
  rw [selectorStep_of_current]
  unfold stepAt afterPlain
  rw [if_neg (by rw [hblank]; decide), if_neg (by rw [hblank]; decide),
    if_pos (by rw [hblank]; rfl), afterBlank_eq]
  refine (bind_ok (next_apply false false s)).trans ?_
  rw [hget, htoken]

/-- After a blank a newline that is escaped comes to nothing. -/
theorem afterBlankAt_of_newline (hnewline : newline.kind = .whitespace) :
    afterBlankAt group blank plain newline s = (.ok (.yield plain), s) := by
  unfold afterBlankAt joined
  rw [if_neg (by rw [hnewline]; decide), if_neg (by rw [hnewline]; decide)]
  refine (bind_ok (show compound group (some newline) s = (.ok none, s) from ?_)).trans rfl
  rw [compound_eq, if_pos]
  · rfl
  · unfold startsNone
    rw [hnewline, Bool.or_eq_true]
    exact Or.inr rfl

/-- **After a blank, with a newline ahead of it that is passed over**, the rest
of a selector is the one that is read with nothing ahead, unless a compound is
joined by the blank. The states `s`, `m` and `q` have the blank at hand and the
newline ahead, the blank at hand and nothing ahead, and the newline at hand. -/
theorem selectorRounds_of_escaped {depth : Nat} {items : List (SelectorItem Selector)}
    {stop : Location} {sofar : SelectorSoFar} {m q : State} (hm : m.IsSound)
    (hbudget : m.budget = depth + 1) (hblank : blank.kind = .whitespace)
    (hnewline : newline.kind = .whitespace) (hs : s.stream.current = blank)
    (hsq : (s.stream.get false false).1 = (q.stream.get false false).1 ∧
      s.afterGet false false = q.afterGet false false)
    (hcurrent : m.stream.current = blank) (hmq : (m.stream.get false false).1 = newline ∧
      m.afterGet false false = q) (hq : q.stream.current = newline)
    (h : rounds (selectorStep (groupTo depth)) (depth + 1) ⟨items, stop, none⟩ s =
      (.ok sofar, s')) :
    rounds (selectorStep (groupTo depth)) (depth + 1) ⟨items, stop, none⟩ m = (.ok sofar, s') ∨
      ∃ c, .compound c :: .combinator ⟨.descendant, blank.text, blank.location⟩ :: items <:+
        sofar.items := by
  have hstep : selectorStep (groupTo depth) ⟨items, stop, none⟩ s = _ :=
    selectorStep_of_blank (hs.symm ▸ hblank) hsq.2 hsq.1
  have hstep' : selectorStep (groupTo depth) ⟨items, stop, none⟩ q = _ :=
    selectorStep_of_blank (hq.symm ▸ hnewline) rfl rfl
  rw [hs] at hstep
  rw [hq] at hstep'
  rcases afterBlankAt_congr blank newline ⟨items, stop, none⟩ (q.stream.get false false).1
    (q.afterGet false false) with hsame | ⟨c, stop', m', hjoined⟩
  · -- both go on in the same way
    have hskipped : selectorStep (groupTo depth) ⟨items, stop, none⟩ m =
        (.ok (.yield ⟨items, stop, none⟩), q) := by
      rw [selectorStep_of_blank (m := m) (hcurrent.symm ▸ hblank) rfl hmq.1, hmq.2]
      exact afterBlankAt_of_newline hnewline
    have hle : Text.byteLength m.stream.source ≤ depth := by
      have hbound : Text.byteLength m.stream.source + 64 ≤ m.budget := hm.budget
      omega
    have hrounds : rounds (selectorStep (groupTo depth)) (depth + 1) ⟨items, stop, none⟩ q =
        (.ok sofar, s') := by
      refine (bind_eq ?_).trans h
      rw [hstep, hstep', hsame]
    rw [← hbudget, ← selectorRounds_succ hm hle, rounds_yield hskipped, hbudget]
    exact Or.inl hrounds
  · rw [hjoined] at hstep
    rw [rounds_yield hstep] at h
    exact Or.inr ⟨c, selectorRounds_suffix h⟩

/-- **Where a blank and a newline that is escaped are ahead**, a selector is
the one that is read from the text itself, unless it has the blank for a
combinator. -/
theorem selectorFrom_of_escaped {depth : Nat} {r : Reader} {behind : List Token}
    {selector : Selector} (hs : s.IsSound) (hname : IsElementName t)
    (hcustom : t.isCustomIdent = false) (hat : r.IsAt) (hstop : r.location = t.stop)
    (hsource : r.source = s.stream.source) (hblank : (r.lex spaced).1.kind = .whitespace)
    (hseen : ((r.lex spaced).2.lex .visible).1.kind = .whitespace)
    (hstream : s.stream = ⟨((r.lex spaced).2.lex .visible).2, t :: behind,
      [(r.lex spaced).1, ((r.lex spaced).2.lex .visible).1]⟩) (hbudget : s.budget = depth + 1)
    (hparted : selector.isParted s.stream.source = false)
    (h : selectorFrom (groupTo depth) true t s = (.ok (some selector), s')) :
    selectorFrom (groupTo depth) true t (s.withStream ⟨r, t :: behind.take 1, []⟩) =
      (.ok (some selector), s') := by
  set blank := (r.lex spaced).1
  set newline := ((r.lex spaced).2.lex .visible).1
  set last := ((r.lex spaced).2.lex .visible).2
  set first := t :: behind.take 1
  have hlength : first.length ≤ 2 := Nat.succ_le_succ (List.length_take_le 1 behind)
  have hplain : ¬(true && combinatorKinds.contains t.kind) = true := by
    rw [Bool.true_and]
    rcases hname with hkind | hkind <;> rw [hkind] <;> decide
  have hbar : blank.kind ≠ .pipe := by
    rw [hblank]
    exact TokenKind.noConfusion
  have hnone : modifier? (groupTo depth) blank = pure none := by
    unfold modifier?
    rw [hblank]
  have hpositive : 0 < s.budget := by omega
  -- the name is a compound by itself, and the blank is at hand
  have hget : s.stream.get false true = (blank, ⟨last, blank :: t :: behind, [newline]⟩) := by
    rw [hstream]
    exact Rewound.get_spaced _ _ _ _
  have hget' : Stream.get ⟨r, first, []⟩ false true =
      (blank, ⟨(r.lex spaced).2, blank :: first, []⟩) :=
    Rewound.get_bare r first (by omega)
  have hcompound := compound_alone (s := s) hname hcustom hpositive hget hbar hnone
  have hcompound' := compound_alone (s := s) hname hcustom hpositive hget' hbar hnone
  rw [show s = s.withStream s.stream from rfl, selectorFrom_of_compound hplain hcompound] at h
  rw [selectorFrom_of_compound hplain hcompound']
  obtain ⟨sofar, hrounds, hselector⟩ := selectorRest_eq_ok.mp h
  refine selectorRest_eq_ok.mpr ⟨sofar, ?_, hselector⟩
  set m := s.withStream ⟨(r.lex spaced).2, blank :: first, []⟩
  set q := s.withStream ⟨last, newline :: blank :: first, []⟩
  have hm : m.IsSound := by
    have hbare := ((hs.stream.bare (congrArg Stream.behind hstream) hat hsource hstop).take 2).get
      false true
    have htake : (t :: behind).take 2 = first := rfl
    rw [htake, hget'] at hbare
    exact (hs.withStream hbare.isSound hsource).isSound
  have hmq : m.stream.get false false = (newline, q.stream) :=
    Rewound.grab_bare _ _ (Nat.le_trans (Nat.succ_le_succ hlength) (by decide))
  have hsq : Stream.get ⟨last, blank :: t :: behind, [newline]⟩ false false =
      q.stream.get false false := by
    rw [Stream.get_of_hidden _ _ _ (by unfold Mode.hides; rw [hseen]; rfl), ← Stream.get_take]
    rfl
  rcases selectorRounds_of_escaped (m := m) (q := q) hm hbudget hblank hseen
    (s := s.withStream ⟨last, blank :: t :: behind, [newline]⟩) rfl
    ⟨congrArg Prod.fst hsq, congrArg (fun r : Token × Stream => s.withStream r.2) hsq⟩ rfl
    ⟨congrArg Prod.fst hmq, congrArg (fun r : Token × Stream => s.withStream r.2) hmq⟩ rfl (hbudget ▸ hrounds) with
    hrounds' | ⟨c, more, hmore⟩
  · rw [show m.budget = depth + 1 from hbudget]
    exact hrounds'
  · -- the blank is parted from the newline
    obtain rfl := Option.some.inj hselector
    refine absurd hparted ?_
    have hitems : ∃ c₀, sofar.items.reverse = .compound c₀ ::
        .combinator ⟨.descendant, blank.text, blank.location⟩ :: .compound c :: more.reverse := by
      rw [← hmore, List.reverse_append]
      exact ⟨_, rfl⟩
    obtain ⟨c₀, hitems⟩ := hitems
    obtain ⟨hcut, -, -, hafter⟩ := @Reader.IsAt.lex _ spaced hat rfl
    have hparted' : Combinator.isParted s.stream.source
        ⟨.descendant, blank.text, blank.location⟩ = true := by
      unfold Combinator.isParted
      have hlex := @Reader.lex_congr (.atPlace s.stream.source
        (blank.location.advance blank.text.toList) none) (r.lex spaced).2 hsource.symm
        (hcut.advance_text.trans hafter.symm) .visible
      dsimp only
      rw [hlex]
      exact beq_iff_eq.mpr hseen
    unfold selectorOf Selector.isParted
    rw [hitems]
    show ¬(_ && Combinator.isParted _ _) = false
    rw [hparted']
    exact Bool.noConfusion

end Parser

end Stylesheet
