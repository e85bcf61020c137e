import Stylesheet.Proofs.Excerpt.Compounds

/-!
# Reading selectors from an excerpt

A selector goes on after its last compound, to see that nothing more belongs to
it, and may read a few blanks and placeholders on the way. So there are two
things to say of an excerpt. If it holds all that was read, the same selector is
read there, and the runs stay level (`Carries`); lists of selectors in arguments
are of this kind. If it ends with the last compound, its end comes where the
text goes on, and the selector is the same again (`Arrives`).

A name or a bar that is at hand when a compound was looked for in vain
(`Parser.Strays`) is the exception. There the window is not what it was, and
nothing is told of an excerpt; but neither a comma, nor a bracket or a brace is
at hand, and the list comes to nothing.
-/

namespace Stylesheet

open Parse (State)
open Parse.State (Onward Inside Steady Meets Faces Shuts shuts_afterGet onward_afterGet)
open Reader (toStart)
open Lexeme (Fenced)

namespace Parse.State

variable {s m s' : State} {stop : Location}
  {told told' : List Char → List Char → State → State → Prop}

/-- **A run that ends with a token it was handed.** -/
def Hands (s s' : State) : Prop :=
  ∃ m placeholders blanks, Onward s m ∧ s' = m.afterGet placeholders blanks

theorem Hands.shuts (h : Hands s s') (hclose : s'.stream.current.kind = .rParen) :
    Shuts s s' := by
  obtain ⟨m, placeholders, blanks, honward, rfl⟩ := h
  exact honward.shuts (shuts_afterGet honward.poised.bare hclose)

theorem Onward.hands (h : Onward s m) (h' : Hands m s') : Hands s s' := by
  obtain ⟨m', placeholders, blanks, honward, rfl⟩ := h'
  exact ⟨m', placeholders, blanks, h.trans honward, rfl⟩

section

variable {P : List Char → List Char → List Char → State → State → Prop}

/-- The token at hand is the same to begin with, -/
theorem Carries.facing (h : Carries Faces P s s' told) : Carries Faces P s s' fun lead x u u' =>
      u.stream.current = shift (toStart lead) s.stream.current ∧ told lead x u u' :=
  h.imp fun _ hu _ hin htold => ⟨(hu.level (h.onward.inside hin)).current, htold⟩

/-- and the budget is the same at the end. -/
theorem Carries.budgeted (h : Carries P Faces s s' told) : Carries P Faces s s' fun lead x u u' =>
    u'.budget = s'.budget ∧ told lead x u u' :=
  h.imp fun _ _ hu' hin htold => ⟨(hu'.level hin).budget_eq, htold⟩

end

theorem Arrives.facing (h : Arrives Faces s s' stop told) :
    Arrives Faces s s' stop fun lead x u w =>
      u.stream.current = shift (toStart lead) s.stream.current ∧ told lead x u w :=
  ⟨h.toCarries.facing, h.stop_eq⟩

/-- **A run that carries over to an excerpt** that holds all that was read, with
the last token at hand. -/
structure Conveys (s s' : State) (told : List Char → List Char → State → State → Prop) : Prop
    extends Carries Faces Faces s s' told where
  /-- The last token, if there is any, is at hand. -/
  handed : s' = s ∨ Hands s s'

namespace Conveys

theorem refl (hs : s.Steady) (htold : ∀ lead x u, told lead x u u) : Conveys s s told :=
  ⟨.refl hs htold, Or.inl rfl⟩

theorem weaken (h : Conveys s s' told)
    (himp : ∀ lead x u u', told lead x u u' → told' lead x u u') : Conveys s s' told' :=
  ⟨h.toCarries.weaken himp, h.handed⟩

theorem facing (h : Conveys s s' told) : Conveys s s' fun lead x u u' =>
    u.stream.current = shift (toStart lead) s.stream.current ∧ told lead x u u' :=
  ⟨h.toCarries.facing, h.handed⟩

theorem budgeted (h : Conveys s s' told) : Conveys s s' fun lead x u u' =>
    u'.budget = s'.budget ∧ told lead x u u' := ⟨h.toCarries.budgeted, h.handed⟩

theorem trans (h : Conveys s m told) (h' : Conveys m s' told') :
    Conveys s s' fun lead x u u' => ∃ v, told lead x u v ∧ told' lead x v u' where
  toCarries := h.toCarries.trans h'.toCarries
  handed := by
    rcases h'.handed with rfl | hhands
    · exact h.handed
    · exact Or.inr (h.onward.hands hhands)

theorem next (hs : s.Steady) (placeholders blanks : Bool) :
    Conveys s (s.afterGet placeholders blanks) fun lead _ u u' =>
      u' = u.afterGet placeholders blanks ∧ (u.stream.get placeholders blanks).1 =
        shift (toStart lead) (s.stream.get placeholders blanks).1 where
  toCarries := (Carries.next hs placeholders blanks).faces.weaken
    fun _ _ _ _ ⟨hu', htoken, _⟩ => ⟨hu', htoken⟩
  handed := Or.inr ⟨s, placeholders, blanks, .refl hs.toPoised, rfl⟩

end Conveys

/-- **The token after a run that arrives** is the next one in the excerpt, too,
if that goes on so far. -/
theorem Arrives.conveys (h : Arrives Faces s m stop told) (hs : s.Steady) :
    Conveys s (m.afterGet false true) fun lead x u u' =>
      ∃ w, told lead x u w ∧ u' = w.afterGet false true ∧
        stop.offset ≤ Text.byteLength lead + Text.byteLength x where
  toCarries := by
    have hreach : Carries Faces Meets s m fun lead x u w =>
        told lead x u w ∧ stop.offset ≤ Text.byteLength lead + Text.byteLength x :=
      h.toCarries.imp fun _ _ hw hin htold => ⟨htold, by
        rw [← h.stop_eq, ← hw.source_eq hin]
        exact (hw.beside hin).reader.offset_le.2⟩
    exact (hreach.trans (.next (h.onward.steady hs) false true)).weaken
      fun _ _ _ _ ⟨w, ⟨htold, hle⟩, hu', _⟩ => ⟨w, htold, hu', hle⟩
  handed := Or.inr ⟨m, false, true, h.onward, rfl⟩

end Parse.State

open Parse.State (Hands Carries Arrives Conveys)

instance : Shift Combinator where
  shift δ c := { c with location := shift δ c.location }

instance : Shift Parser.SelectorSoFar where
  shift δ c := ⟨c.items.map (Selector.moveItem δ), shift δ c.stop, shift δ c.pending⟩

namespace Parser

variable {group : GroupParser} {s s' : State} {t : Token} {plain : SelectorSoFar}
  {r : ForInStep SelectorSoFar} {n : Nat}

variable {stop : Location} {items : List (SelectorItem Selector)} {sofar sofar' : SelectorSoFar}
  {m : State}

/-! ## Compounds -/

/-- The token at hand. -/
theorem current_of_hand (hhand : s.stream.behind.head? = some t) : s.stream.current = t := by
  unfold Stream.current Stream.current?
  rw [hhand]
  rfl

theorem hand_afterGet (s : State) (placeholders blanks : Bool) :
    (s.afterGet placeholders blanks).stream.behind.head? =
      some (s.stream.get placeholders blanks).1 := by
  obtain ⟨behind, hbehind, -⟩ := s.stream.get_behind placeholders blanks
  show (s.stream.get placeholders blanks).2.behind.head? = _
  rw [hbehind]
  rfl

/-- **A compound that starts with the token at hand.** -/
theorem compound_arrives (hgroup : Echoing group) {c : Compound Selector} (hs : s.Steady)
    (hhand : s.stream.behind.head? = some t)
    (h : compound group (some t) s = (.ok (some (c, stop)), s')) :
    ∃ e, s' = e.afterGet false true ∧ Arrives Faces s e stop fun lead _ u w =>
      compound group (some (shift (toStart lead) t)) u =
        (.ok (some (Selector.moveCompound (toStart lead) c, shift (toStart lead) stop)),
          w.afterGet false true) := by
  have hcurrent := current_of_hand hhand
  obtain ⟨e, rfl, he⟩ := compound_run hgroup hs (hs.flush.trans (congrArg _ hcurrent)) h
  exact ⟨e, rfl, he.of_start fun hin hu => ⟨hu.toMeets, hcurrent ▸ (hu.liesIn hin).lo_le⟩⟩

/-! ## Steps -/

/-- A compound that is joined to what is read. Without one nothing is joined,
unless there must be one. -/
def joined (group : GroupParser) (plain : SelectorSoFar) (comb : Combinator) (must : Bool)
    (t : Token) : Parser (ForInStep SelectorSoFar) := do
  match ← compound group (some t) with
  | some (c, stop) => return .yield (plain.push comb c stop)
  | none => if must then failHere "" else return .yield plain

/-- What follows a combinator. -/
def afterCombinator (group : GroupParser) (plain : SelectorSoFar) (t : Token) :
    Parser (ForInStep SelectorSoFar) := do
  joined group plain (combinatorOf t) true (← next false false)

/-- What follows a blank, given the token after it. -/
def afterBlankAt (group : GroupParser) (blank : Token) (plain : SelectorSoFar) (t : Token) :
    Parser (ForInStep SelectorSoFar) :=
  if t.kind == .lBrace then return .done plain
  else if combinatorKinds.contains t.kind then afterCombinator group plain t
  else joined group plain ⟨.descendant, blank.text, blank.location⟩ false t

theorem afterBlank_eq (group : GroupParser) (blank : Token) (plain : SelectorSoFar) :
    afterBlank group blank plain = next false false >>= afterBlankAt group blank plain := rfl

/-- What follows what is read, where no combinator does. -/
def afterPlain (group : GroupParser) (plain : SelectorSoFar) (t : Token) :
    Parser (ForInStep SelectorSoFar) :=
  if t.kind == .whitespace then afterBlank group t plain else return .done plain

/-- One more combinator and compound, given the token at hand. -/
def stepAt (group : GroupParser) (plain : SelectorSoFar) (t : Token) :
    Parser (ForInStep SelectorSoFar) :=
  if combinatorKinds.contains t.kind then afterCombinator group plain t
  else if t.kind == .uvar then do afterPlain group plain (← next false true)
  else afterPlain group plain t

theorem compound_none_eq (group : GroupParser) :
    compound group none = next false false >>= fun t => compound group (some t) := rfl

theorem selectorStep_of_pending (group : GroupParser) (items : List (SelectorItem Selector))
    (stop : Location) (t : Token) :
    selectorStep group ⟨items, stop, some t⟩ = stepAt group ⟨items, stop, none⟩ t := by
  unfold selectorStep stepAt afterPlain
  simp only [pure_bind, compound_none_eq, bind_assoc]
  split_ifs <;> rfl

theorem selectorStep_of_current (group : GroupParser) (items : List (SelectorItem Selector))
    (stop : Location) (s : State) : selectorStep group ⟨items, stop, none⟩ s =
      stepAt group ⟨items, stop, none⟩ s.stream.current s := by
  rw [← selectorStep_of_pending]
  rfl

/-- **What comes of a step**, and of its mirror `q` on an excerpt: the selector
ends, a compound was looked for in vain, nothing is joined, or a compound is. -/
inductive Stepped (plain : SelectorSoFar) (q : List Char → Parser (ForInStep SelectorSoFar))
    (s : State) : ForInStep SelectorSoFar → State → Prop where
  /-- The selector ends. -/
  | done {s' : State} (h : Conveys s s' fun lead _ u u' =>
      q lead u = (.ok (.done (shift (toStart lead) plain)), u')) : Stepped plain q s (.done plain) s'
  /-- A name or a bar is at hand. -/
  | stray {s' : State} (h : Strays s') : Stepped plain q s (.yield plain) s'
  /-- Nothing is joined. -/
  | same {s' : State} (h : Conveys s s' fun lead _ u u' =>
      q lead u = (.ok (.yield (shift (toStart lead) plain)), u')) :
      Stepped plain q s (.yield plain) s'
  /-- A compound is joined. -/
  | more {comb : Combinator} {c : Compound Selector} {stop : Location} {e : State}
      (h : Arrives Faces s e stop fun lead _ u w =>
        q lead u = (.ok (.yield (shift (toStart lead) (plain.push comb c stop))),
          w.afterGet false true)) :
      Stepped plain q s (.yield (plain.push comb c stop)) (e.afterGet false true)

/-- Something that is read before. -/
theorem Stepped.after {told : List Char → List Char → State → State → Prop}
    {q q' : List Char → Parser (ForInStep SelectorSoFar)} (h : Conveys s m told)
    (h' : Stepped plain q' m r s') (hq : ∀ lead x u v, told lead x u v → q lead u = q' lead v) :
    Stepped plain q s r s' := by
  have hmore : ∀ {a : Except Diagnostic (ForInStep SelectorSoFar)} lead x u u',
      (∃ v, told lead x u v ∧ q' lead v = (a, u')) → q lead u = (a, u') := by
    rintro a lead x u u' ⟨v, htold, hrun⟩
    rw [hq _ _ _ _ htold, hrun]
  cases h' with
  | done h' => exact .done ((h.trans h').weaken fun lead x u u' => hmore lead x u u')
  | stray h' => exact .stray h'
  | same h' => exact .same ((h.trans h').weaken fun lead x u u' => hmore lead x u u')
  | more h' => exact .more ((h.arrives h').weaken fun lead x u w => hmore lead x u _)

theorem joined_stepped (hgroup : Echoing group) (hs : s.Steady)
    (hhand : s.stream.behind.head? = some t) {comb : Combinator} {must : Bool}
    (h : joined group plain comb must t s = (.ok r, s')) :
    Stepped plain (fun lead => joined group (shift (toStart lead) plain)
      (shift (toStart lead) comb) must (shift (toStart lead) t)) s r s' := by
  obtain ⟨_ | ⟨c, stop⟩, s₁, hcompound, h⟩ := bind_eq_ok.mp h
  · cases must with
    | true => cases h
    | false =>
      cases h
      rcases compound_eq_none hs.bare hhand hcompound with ⟨hnone, rfl⟩ | hstrays
      · refine .same (.refl hs fun lead x u => ?_)
        unfold joined
        rw [compound_eq, if_pos (show startsNone (shift (toStart lead) t) = true from hnone)]
        rfl
      · exact .stray hstrays
  · cases h
    obtain ⟨e, rfl, he⟩ := compound_arrives hgroup hs hhand hcompound
    refine .more (he.weaken fun lead x u w hrun => ?_)
    exact (bind_ok hrun).trans rfl

theorem afterCombinator_stepped (hgroup : Echoing group) (hs : s.Steady)
    (h : afterCombinator group plain t s = (.ok r, s')) :
    Stepped plain (fun lead => afterCombinator group (shift (toStart lead) plain)
      (shift (toStart lead) t)) s r s' := by
  have hsteady := (onward_afterGet hs.bare false false).1.steady hs
  refine .after (.next hs false false)
    (joined_stepped hgroup hsteady (hand_afterGet s false false) h)
    fun lead x u v ⟨hv, htoken⟩ => ?_
  rw [hv, ← htoken]
  rfl

theorem afterBlank_stepped (hgroup : Echoing group) (hs : s.Steady)
    (h : afterBlank group t plain s = (.ok r, s')) :
    Stepped plain (fun lead => afterBlank group (shift (toStart lead) t)
      (shift (toStart lead) plain)) s r s' := by
  have hsteady := (onward_afterGet hs.bare false false).1.steady hs
  rw [afterBlank_eq, bind_ok (next_apply false false s)] at h
  have hafter : Stepped plain (fun lead => afterBlankAt group (shift (toStart lead) t)
      (shift (toStart lead) plain) (shift (toStart lead) (s.stream.get false false).1))
      (s.afterGet false false) r s' := by
    unfold afterBlankAt at h ⊢
    simp only [show ∀ lead (t : Token), (shift (toStart lead) t).kind = t.kind from fun _ _ => rfl]
    split_ifs at h ⊢
    · cases h
      exact .done (.refl hsteady fun _ _ _ => rfl)
    · exact afterCombinator_stepped hgroup hsteady h
    · exact joined_stepped hgroup hsteady (hand_afterGet s false false) h
  refine .after (.next hs false false) hafter fun lead x u v ⟨hv, htoken⟩ => ?_
  rw [hv, ← htoken]
  rfl

theorem afterPlain_stepped (hgroup : Echoing group) (hs : s.Steady)
    (h : afterPlain group plain t s = (.ok r, s')) :
    Stepped plain (fun lead => afterPlain group (shift (toStart lead) plain)
      (shift (toStart lead) t)) s r s' := by
  unfold afterPlain at h ⊢
  simp only [show ∀ lead, (shift (toStart lead) t).kind = t.kind from fun _ => rfl]
  split_ifs at h ⊢ with hblank
  · exact afterBlank_stepped hgroup hs h
  · cases h
    exact .done (.refl hs fun _ _ _ => rfl)

/-- **A step**, given the token at hand. -/
theorem stepAt_stepped (hgroup : Echoing group) (hs : s.Steady)
    (h : stepAt group plain t s = (.ok r, s')) :
    Stepped plain (fun lead => stepAt group (shift (toStart lead) plain) (shift (toStart lead) t))
      s r s' := by
  unfold stepAt at h ⊢
  simp only [show ∀ lead, (shift (toStart lead) t).kind = t.kind from fun _ => rfl]
  split_ifs at h ⊢ with hcombinator hplaceholder
  · exact afterCombinator_stepped hgroup hs h
  · rw [bind_ok (next_apply false true s)] at h
    have hsteady := (onward_afterGet hs.bare false true).1.steady hs
    refine .after (.next hs false true) (afterPlain_stepped hgroup hsteady h)
      fun lead x u v ⟨hv, htoken⟩ => ?_
    rw [hv, ← htoken]
    rfl
  · exact afterPlain_stepped hgroup hs h

/-- The mirror of a step may depend on the token at hand. -/
theorem Stepped.facing {q q' : List Char → Parser (ForInStep SelectorSoFar)}
    (h : Stepped plain q s r s')
    (hq : ∀ lead (u : State), u.stream.current = shift (toStart lead) s.stream.current →
      q' lead u = q lead u) : Stepped plain q' s r s' := by
  cases h with
  | done h => exact .done (h.facing.weaken fun lead x u u' ⟨hu, h⟩ => (hq lead u hu).trans h)
  | stray h => exact .stray h
  | same h => exact .same (h.facing.weaken fun lead x u u' ⟨hu, h⟩ => (hq lead u hu).trans h)
  | more h => exact .more (h.facing.weaken fun lead x u w ⟨hu, h⟩ => (hq lead u hu).trans h)

/-- What is read, with no combinator waiting. -/
def SelectorSoFar.settled (sofar : SelectorSoFar) : SelectorSoFar := { sofar with pending := none }

theorem selectorStep_stepped (hgroup : Echoing group) (hs : s.Steady)
    (h : selectorStep group sofar s = (.ok r, s')) :
    Stepped sofar.settled (fun lead => selectorStep group (shift (toStart lead) sofar)) s r s' := by
  obtain ⟨items, stop, _ | t⟩ := sofar
  · rw [selectorStep_of_current] at h
    refine (stepAt_stepped hgroup hs h).facing fun lead u hu => ?_
    rw [← hu]
    exact selectorStep_of_current _ _ _ u
  · rw [selectorStep_of_pending] at h
    refine (stepAt_stepped hgroup hs h).facing fun lead u _ => ?_
    exact congrFun (selectorStep_of_pending group _ _ (shift (toStart lead) t)) u

/-! ## Pieces are not taken back -/

/-- **What a step leaves of a selector**: the same pieces, or two more. -/
def Extends (plain : SelectorSoFar) (r : ForInStep SelectorSoFar) : Prop :=
  r = .done plain ∨ r = .yield plain ∨ ∃ comb c stop, r = .yield (plain.push comb c stop)

theorem joined_extends {comb : Combinator} {must : Bool}
    (h : joined group plain comb must t s = (.ok r, s')) :
    r = .yield plain ∧ must = false ∨ ∃ c stop, r = .yield (plain.push comb c stop) := by
  obtain ⟨_ | ⟨c, stop⟩, s₁, -, h⟩ := bind_eq_ok.mp h
  · cases must with
    | true => cases h
    | false =>
      cases h
      exact Or.inl ⟨rfl, rfl⟩
  · cases h
    exact Or.inr ⟨c, stop, rfl⟩

/-- A combinator is followed by a compound. -/
theorem afterCombinator_extends (h : afterCombinator group plain t s = (.ok r, s')) :
    ∃ c stop, r = .yield (plain.push (combinatorOf t) c stop) := by
  obtain ⟨u, s₁, -, h⟩ := bind_eq_ok.mp h
  exact (joined_extends h).resolve_left fun hmust => Bool.noConfusion hmust.2

theorem afterPlain_extends (h : afterPlain group plain t s = (.ok r, s')) : Extends plain r := by
  unfold afterPlain at h
  split_ifs at h
  · rw [afterBlank_eq] at h
    obtain ⟨u, s₁, -, h⟩ := bind_eq_ok.mp h
    unfold afterBlankAt at h
    split_ifs at h
    · cases h
      exact Or.inl rfl
    · exact Or.inr (Or.inr ⟨_, afterCombinator_extends h⟩)
    · exact Or.inr ((joined_extends h).imp And.left fun h => ⟨_, h⟩)
  · cases h
    exact Or.inl rfl

theorem selectorStep_extends (h : selectorStep group sofar s = (.ok r, s')) :
    Extends sofar.settled r := by
  have hstep : ∀ {items : List (SelectorItem Selector)} {stop : Location} {t : Token},
      stepAt group ⟨items, stop, none⟩ t s = (.ok r, s') → Extends ⟨items, stop, none⟩ r := by
    intro items stop t h
    unfold stepAt at h
    split_ifs at h
    · exact Or.inr (Or.inr ⟨_, afterCombinator_extends h⟩)
    · obtain ⟨u, s₁, -, h⟩ := bind_eq_ok.mp h
      exact afterPlain_extends h
    · exact afterPlain_extends h
  obtain ⟨items, stop, _ | t⟩ := sofar
  · rw [selectorStep_of_current] at h
    exact hstep h
  · rw [selectorStep_of_pending] at h
    exact hstep h

/-- **Pieces that were read stay.** The induction is on the rounds. -/
theorem selectorRounds_suffix (h : rounds (selectorStep group) n sofar s = (.ok sofar', s')) :
    sofar.items <:+ sofar'.items := by
  induction n generalizing sofar s with
  | zero =>
    cases h
    exact List.suffix_refl _
  | succ n ih =>
    rcases rounds_eq_ok.mp h with hdone | ⟨sofar₁, s₁, hstep, hrest⟩
    · rcases selectorStep_extends hdone with h | h | ⟨comb, c, stop, h⟩ <;> cases h
      exact List.suffix_refl _
    · rcases selectorStep_extends hstep with h | h | ⟨comb, c, stop, h⟩ <;> cases h
      · exact @ih _ sofar.settled hrest
      · exact List.IsSuffix.trans ⟨[_, _], rfl⟩ (ih hrest)

/-! ## The rest of a selector -/

/-- Whether a selector goes on with a token. -/
def goesOn (kind : TokenKind) : Bool :=
  combinatorKinds.contains kind || kind == .uvar || kind == .whitespace

/-- **With another token at hand** a selector is over. -/
theorem selectorStep_of_end (h : goesOn s.stream.current.kind = false) :
    selectorStep group ⟨items, stop, none⟩ s = (.ok (.done ⟨items, stop, none⟩), s) := by
  unfold goesOn at h
  simp only [Bool.or_eq_false_iff] at h
  rw [selectorStep_of_current]
  unfold stepAt afterPlain
  rw [if_neg (by rw [h.1.1]; exact Bool.false_ne_true),
    if_neg (by rw [h.1.2]; exact Bool.false_ne_true), if_neg (by rw [h.2]; exact Bool.false_ne_true)]
  rfl

theorem selectorRounds_of_end (h : goesOn s.stream.current.kind = false) :
    rounds (selectorStep group) n ⟨items, stop, none⟩ s = (.ok ⟨items, stop, none⟩, s) := by
  cases n with
  | zero => rfl
  | succ n => exact rounds_done (selectorStep_of_end h)

theorem selectorRounds_of_strays (h : Strays s) :
    rounds (selectorStep group) n ⟨items, stop, none⟩ s = (.ok ⟨items, stop, none⟩, s) := by
  refine selectorRounds_of_end ?_
  unfold Strays at h
  revert h
  cases s.stream.current.kind <;> decide

/-- **The rest of a selector**, unless it strays, carries over to an excerpt
that holds all that was read. The induction is on the rounds. -/
theorem selectorRounds_carries (hgroup : Echoing group) (hs : s.Steady)
    (h : rounds (selectorStep group) n sofar s = (.ok sofar', s')) :
    Strays s' ∨ Conveys s s' fun lead x u u' =>
      rounds (selectorStep group) n (shift (toStart lead) sofar) u =
          (.ok (shift (toStart lead) sofar'), u') ∧
        (sofar.stop.offset ≤ Text.byteLength lead + Text.byteLength x →
          sofar'.stop.offset ≤ Text.byteLength lead + Text.byteLength x) := by
  induction n generalizing s sofar with
  | zero =>
    cases h
    exact Or.inr (.refl hs fun _ _ _ => ⟨rfl, id⟩)
  | succ n ih =>
    -- a step that goes on, and the rest
    have hyield : ∀ {sofar₁ : SelectorSoFar} {s₁ : State},
        (Conveys s s₁ fun lead x u u' => selectorStep group (shift (toStart lead) sofar) u =
            (.ok (.yield (shift (toStart lead) sofar₁)), u') ∧
          (sofar.stop.offset ≤ Text.byteLength lead + Text.byteLength x →
            sofar₁.stop.offset ≤ Text.byteLength lead + Text.byteLength x)) →
        rounds (selectorStep group) n sofar₁ s₁ = (.ok sofar', s') →
        Strays s' ∨ Conveys s s' fun lead x u u' =>
          rounds (selectorStep group) (n + 1) (shift (toStart lead) sofar) u =
              (.ok (shift (toStart lead) sofar'), u') ∧
            (sofar.stop.offset ≤ Text.byteLength lead + Text.byteLength x →
              sofar'.stop.offset ≤ Text.byteLength lead + Text.byteLength x) := by
      intro sofar₁ s₁ hstep hrest
      refine (ih (hstep.onward.steady hs) hrest).imp id fun hmore => ?_
      refine (hstep.trans hmore).weaken fun lead x u u' ⟨v, ⟨hstep', hle⟩, hrest', hle'⟩ => ?_
      exact ⟨(rounds_yield hstep').trans hrest', hle' ∘ hle⟩
    rcases rounds_eq_ok.mp h with hdone | ⟨sofar₁, s₁, hstep, hrest⟩
    · have hstepped := selectorStep_stepped hgroup hs hdone
      cases hstepped with
      | done hcarries =>
        exact Or.inr (hcarries.weaken fun lead x u u' hdone' => ⟨rounds_done hdone', id⟩)
    · have hstepped := selectorStep_stepped hgroup hs hstep
      cases hstepped with
      | stray hstrays =>
        cases (selectorRounds_of_strays hstrays).symm.trans hrest
        exact Or.inl hstrays
      | same hcarries =>
        exact hyield (hcarries.weaken fun lead x u u' hstep' => ⟨hstep', id⟩) hrest
      | more harrives =>
        refine hyield ((harrives.conveys hs).weaken fun lead x u u' ⟨w, hstep', hu', hle⟩ => ?_) hrest
        exact ⟨hu' ▸ hstep', fun _ => hle⟩

/-- **At the end of an excerpt** the end of the source comes next. -/
structure AtEnd (w : State) : Prop where
  /-- Nothing is ahead. -/
  bare : w.stream.ahead = []
  /-- Nothing is left. -/
  rest_eq : w.stream.reader.rest = []

theorem AtEnd.current_kind (h : AtEnd s) : (s.afterGet false true).stream.current.kind = .eof := by
  rw [(onward_afterGet h.bare false true).2, (State.get_eq h.bare false true).1]
  exact Reader.lex_of_nil h.rest_eq

/-- **A combinator at hand** is followed by a compound, which is joined. -/
theorem selectorStep_of_combinator (hkind : combinatorKinds.contains s.stream.current.kind = true)
    (h : selectorStep group ⟨items, stop, none⟩ s = (.ok r, s')) :
    ∃ comb c stop', r = .yield (SelectorSoFar.push ⟨items, stop, none⟩ comb c stop') := by
  rw [selectorStep_of_current] at h
  unfold stepAt at h
  rw [if_pos hkind] at h
  exact ⟨_, afterCombinator_extends h⟩

/-- **What is left over by a selector**: a placeholder or a blank that was at
hand is passed over at most, and any other token is still at hand. -/
def LeftOver (s s' : State) : Prop :=
  [TokenKind.uvar, .whitespace].contains s.stream.current.kind = true ∨ s' = s

/-- Where nothing is joined. -/
theorem leftOver_of_step (h : selectorStep group ⟨items, stop, none⟩ s = (.ok r, m))
    (hr : r = .done ⟨items, stop, none⟩ ∧ s' = m ∨ r = .yield ⟨items, stop, none⟩) :
    LeftOver s s' := by
  by_cases hcombinator : combinatorKinds.contains s.stream.current.kind = true
  · -- a combinator joins something
    obtain ⟨comb, c, stop', rfl⟩ := selectorStep_of_combinator hcombinator h
    rcases hr with ⟨hr, -⟩ | hr
    · cases hr
    · have hlength := congrArg (fun sofar => sofar.items.length) (ForInStep.yield.inj hr)
      exact absurd hlength (Nat.ne_of_gt (Nat.lt_add_of_pos_right Nat.two_pos))
  · cases hgoes : goesOn s.stream.current.kind with
    | false =>
      -- with any other token nothing is read
      obtain ⟨hr', hm⟩ := Prod.mk.inj ((selectorStep_of_end hgoes).symm.trans h)
      rcases hr with ⟨-, rfl⟩ | rfl
      · exact Or.inr hm.symm
      · cases hr'
    | true =>
      refine Or.inl ?_
      unfold goesOn at hgoes
      revert hgoes hcombinator
      cases s.stream.current.kind <;> decide

/-- **The rest of a selector** up to its last compound, if it has more than
one. An excerpt that ends there has the same rest. -/
theorem selectorRounds_arrives (hgroup : Echoing group) (hs : s.Steady)
    (h : rounds (selectorStep group) n ⟨items, stop, none⟩ s = (.ok sofar', s')) :
    sofar' = ⟨items, stop, none⟩ ∧ LeftOver s s' ∨
    ∃ e, LeftOver (e.afterGet false true) s' ∧ Arrives Faces s e sofar'.stop fun lead _ u w =>
      AtEnd w → ∃ u', rounds (selectorStep group) n (shift (toStart lead) ⟨items, stop, none⟩) u =
        (.ok (shift (toStart lead) sofar'), u') ∧ u'.stream.current.kind = .eof ∧
          u'.stream.source = w.stream.source := by
  induction n generalizing s items stop with
  | zero =>
    cases h
    exact Or.inl ⟨rfl, Or.inr rfl⟩
  | succ n ih =>
    rcases rounds_eq_ok.mp h with hdone | ⟨sofar₁, s₁, hstep, hrest⟩
    · have hstepped := selectorStep_stepped hgroup hs hdone
      cases hstepped with
      | done hcarries => exact Or.inl ⟨rfl, leftOver_of_step hdone (Or.inl ⟨rfl, rfl⟩)⟩
    · have hstepped := selectorStep_stepped hgroup hs hstep
      cases hstepped with
      | stray hstrays =>
        cases (selectorRounds_of_strays hstrays).symm.trans hrest
        exact Or.inl ⟨rfl, leftOver_of_step hstep (Or.inr rfl)⟩
      | same hcarries =>
        refine (ih (hcarries.onward.steady hs) hrest).imp
          (And.imp_right fun _ => leftOver_of_step hstep (Or.inr rfl))
          fun ⟨e, hleft, he⟩ => ⟨e, hleft, ?_⟩
        refine (hcarries.arrives he).weaken fun lead x u w ⟨v, hstep', hrest'⟩ hend => ?_
        obtain ⟨u', hrest', heof⟩ := hrest' hend
        exact ⟨u', (rounds_yield hstep').trans hrest', heof⟩
      | @more comb c stop₁ m harrives =>
        have hcarries := harrives.conveys hs
        refine Or.inr ?_
        rcases ih (hcarries.onward.steady hs) hrest with ⟨rfl, hleft⟩ | ⟨e, hleft, he⟩
        · -- this compound is the last one
          refine ⟨m, hleft, harrives.weaken fun lead x u w hstep' hend => ?_⟩
          refine ⟨w.afterGet false true, (rounds_yield hstep').trans ?_, hend.current_kind,
            w.stream.get_source false true⟩
          exact selectorRounds_of_end (by rw [hend.current_kind]; rfl)
        · refine ⟨e, hleft, (hcarries.arrives he).weaken
            fun lead x u w ⟨v, ⟨w₁, hstep', hv, _⟩, hrest'⟩ hend => ?_⟩
          obtain ⟨u', hrest', heof⟩ := hrest' hend
          exact ⟨u', (rounds_yield hstep').trans (hv ▸ hrest'), heof⟩

/-! ## Selectors -/

/-- **A selector after its first token.** -/
def selectorFrom (group : GroupParser) (relative : Bool) (t : Token) : Parser (Option Selector) :=
  if relative && combinatorKinds.contains t.kind then
    selectorRest group t (some ⟨[], t.stop, some t⟩)
  else do
    match ← compound group (some t) with
    | some (c, stop) => selectorRest group t (some ⟨[.compound c], stop, none⟩)
    | none => return none

/-- A selector that starts with a compound. -/
theorem selectorFrom_of_compound {relative : Bool} {c : Compound Selector}
    (hplain : ¬(relative && combinatorKinds.contains t.kind) = true)
    (h : compound group (some t) s = (.ok (some (c, stop)), m)) :
    selectorFrom group relative t s = selectorRest group t (some ⟨[.compound c], stop, none⟩) m := by
  unfold selectorFrom
  rw [if_neg hplain]
  exact bind_ok h

/-- **Which token a selector starts with** is settled first. -/
theorem selectorWith_eq (group : GroupParser) (relative : Bool) (first : Option Token) :
    selectorWith group first relative = (match first with
      | some t => if t.kind == .uvar then next false false else pure t
      | none => next false false) >>= selectorFrom group relative := by
  have hfrom : ∀ t : Token, (do
      let head ←
        if relative && combinatorKinds.contains t.kind then pure (some ⟨[], t.stop, some t⟩)
        else
          match ← compound group (some t) with
          | some (c, stop) => pure (some ⟨[.compound c], stop, none⟩)
          | none => pure none
      selectorRest group t head) = selectorFrom group relative t := by
    intro t
    unfold selectorFrom
    split_ifs
    · rfl
    · refine congrArg (compound group (some t) >>= ·) (funext fun r => ?_)
      rcases r with _ | ⟨c, stop⟩ <;> rfl
  rw [← funext hfrom]
  unfold selectorWith
  cases first with
  | none => rfl
  | some t =>
    dsimp only
    split_ifs <;> rfl

/-- What a selector is, given its pieces. -/
def selectorOf (t : Token) (sofar : SelectorSoFar) (source : List Char) : Selector where
  items := sofar.items.reverse
  text := String.ofList (Text.slice source t.location.offset sofar.stop.offset)
  location := t.location
  stop := sofar.stop

theorem selectorRest_eq_ok {head : SelectorSoFar} {found : Option Selector} :
    selectorRest group t (some head) s = (.ok found, s') ↔
      ∃ sofar, rounds (selectorStep group) s.budget head s = (.ok sofar, s') ∧
        found = some (selectorOf t sofar s'.stream.source) := by
  unfold selectorRest
  rw [bind_eq_ok, repeating_apply]
  constructor
  · rintro ⟨sofar, s₁, hrounds, ⟨⟩⟩
    exact ⟨sofar, hrounds, rfl⟩
  · rintro ⟨sofar, hrounds, rfl⟩
    exact ⟨sofar, s', hrounds, rfl⟩

/-- **A selector in an excerpt**, made of the pieces there. -/
theorem selectorOf_shift {lead x after : List Char} {u : State} (hu : Meets lead x after s u)
    (hin : s.Inside after) (hlo : Text.byteLength lead ≤ t.location.offset)
    (hle : sofar.stop.offset ≤ Text.byteLength lead + Text.byteLength x) :
    selectorOf (shift (toStart lead) t) (shift (toStart lead) sofar) u.stream.source =
      shift (toStart lead) (selectorOf t sofar s.stream.source) := by
  have hitems := Selector.moveItems_eq_map (toStart lead) sofar.items.reverse
  rw [List.map_reverse] at hitems
  exact congrArg₂ (fun items text => (⟨items, text, shift (toStart lead) t.location,
    shift (toStart lead) sofar.stop⟩ : Selector)) hitems.symm
      (congrArg String.ofList (hu.slice_eq hin hlo hle))

/-- **A selector that starts with the token at hand**, unless it strays, carries
over to an excerpt that holds all that was read. -/
theorem selectorFrom_carries (hgroup : Echoing group) {relative : Bool} {found : Option Selector}
    (hs : s.Steady) (hhand : s.stream.behind.head? = some t)
    (h : selectorFrom group relative t s = (.ok found, s')) :
    Strays s' ∨ Conveys s s' fun lead _ u u' =>
      selectorFrom group relative (shift (toStart lead) t) u =
        (.ok (shift (toStart lead) found), u') := by
  have hcurrent := current_of_hand hhand
  -- once something is read, the rest follows
  have hrest : ∀ {head : SelectorSoFar} {m : State}
      {told : List Char → List Char → State → State → Prop}, Conveys s m told →
      selectorRest group t (some head) m = (.ok found, s') →
      (∀ {lead x after : List Char} {u v : State}, Faces lead x after s u → s.Inside after →
        told lead x u v → head.stop.offset ≤ Text.byteLength lead + Text.byteLength x ∧
          ∀ {r : Option Selector} {u' : State},
            selectorRest group (shift (toStart lead) t) (some (shift (toStart lead) head)) v =
              (.ok r, u') → selectorFrom group relative (shift (toStart lead) t) u =
                (.ok r, u')) →
      Strays s' ∨ Conveys s s' fun lead _ u u' =>
        selectorFrom group relative (shift (toStart lead) t) u =
          (.ok (shift (toStart lead) found), u') := by
    intro head m told hcarries hrun htold
    obtain ⟨sofar, hrounds, rfl⟩ := selectorRest_eq_ok.mp hrun
    have hsteady := hcarries.onward.steady hs
    refine (selectorRounds_carries hgroup hsteady hrounds).imp id fun hmore => ?_
    have hboth := hcarries.budgeted.trans hmore
    refine ⟨hboth.toCarries.imp fun {lead x after u u'} _ hu hu' hin
      ⟨v, ⟨hbudget, hv⟩, hrounds', hle⟩ => ?_, hboth.handed⟩
    have hin₁ := hmore.onward.inside hin
    have hin₀ := hcarries.onward.inside hin₁
    obtain ⟨hhead, hfrom⟩ := htold hu hin₀ hv
    have hlies := hu.liesIn hin₀
    rw [hcurrent] at hlies
    refine hfrom (selectorRest_eq_ok.mpr ⟨shift (toStart lead) sofar, ?_, ?_⟩)
    · rw [hbudget]
      exact hrounds'
    · exact congrArg some (selectorOf_shift hu'.toMeets hin hlies.lo_le (hle hhead)).symm
  unfold selectorFrom at h
  split_ifs at h with hcombinator
  · refine @hrest _ _ (fun _ _ u v => v = u) (.refl hs fun _ _ _ => rfl) h
      fun {lead x after u v} hu hin hv => ?_
    have hlies := hu.liesIn hin
    rw [hcurrent] at hlies
    refine ⟨hlies.le_hi, fun hrun => ?_⟩
    unfold selectorFrom
    rw [if_pos (show (relative && combinatorKinds.contains (shift (toStart lead) t).kind) = true
      from hcombinator), ← hv]
    exact hrun
  · obtain ⟨_ | ⟨c, stop⟩, s₁, hcompound, hrun⟩ := bind_eq_ok.mp h
    · cases hrun
      refine (compound_eq_none hs.bare hhand hcompound).symm.imp id fun ⟨hnone, heq⟩ => ?_
      subst heq
      refine .refl hs fun lead x u => ?_
      unfold selectorFrom
      rw [if_neg (show ¬(relative && combinatorKinds.contains (shift (toStart lead) t).kind) = true
        from hcombinator), compound_eq,
        if_pos (show startsNone (shift (toStart lead) t) = true from hnone)]
      rfl
    · obtain ⟨e, rfl, he⟩ := compound_arrives hgroup hs hhand hcompound
      refine hrest (he.conveys hs) hrun fun {lead x after u v} hu hin ⟨w, hcompound', hv, hle⟩ =>
        ⟨hle, fun hrun => ?_⟩
      unfold selectorFrom
      rw [if_neg (show ¬(relative && combinatorKinds.contains (shift (toStart lead) t).kind) = true
        from hcombinator)]
      exact bind_eq_ok.mpr ⟨_, _, hcompound', hv ▸ hrun⟩

end Parser

end Stylesheet
