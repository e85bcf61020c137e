import Stylesheet.Proofs.Lookahead.Selector

/-!
# Reading again what was looked at

Where a rule may stand beside declarations, its first tokens are read as a
declaration first and then taken back. The window is not what it was then:
the tokens after the first one are ahead, as they were cut for a
declaration.

For a selector this makes no difference. It asks for the same tokens in the
same modes – the token after the name with blanks, the one after a blank
without, and a second colon in either way. So a selector that is read from
such a window is the one that is read from the text itself, and leaves the
same state. The one exception is a newline that is escaped and stands after
a blank: it is passed over where it is ahead, but not where it is cut.
-/

namespace Stylesheet

open Parse (State)
open Parse.State (Keeps)
open Parser (bind_eq bind_ok rounds_done repeating_apply)
open Stylesheet.Stream (Front IsElementName Stopped looksOn spaced)
open Stylesheet.Parser

/-! ## The same tokens again -/

/-- **A window that was read on and back**: the token at hand is the same,
and those after it are ahead. -/
inductive Rewound (t : Token) (r : Reader) (behind : List Token) : Stream → Prop where
  /-- The token after it was looked at. -/
  | one (hlength : behind.length ≤ 3) :
      Rewound t r behind ⟨(r.lex spaced).2, t :: behind, [(r.lex spaced).1]⟩
  /-- A bar or a colon was looked at, and the token after it. -/
  | two (hkind : (r.lex spaced).1.kind = .pipe ∨ (r.lex spaced).1.kind = .colon)
      (hlength : behind.length ≤ 2) :
      Rewound t r behind ⟨((r.lex spaced).2.lex spaced).2, t :: behind,
        [(r.lex spaced).1, ((r.lex spaced).2.lex spaced).1]⟩
  /-- A blank was looked at, and the token after it. -/
  | blank (hblank : (r.lex spaced).1.kind = .whitespace) (hlength : behind.length ≤ 2) :
      Rewound t r behind ⟨((r.lex spaced).2.lex .visible).2, t :: behind,
        [(r.lex spaced).1, ((r.lex spaced).2.lex .visible).1]⟩
  /-- A blank was looked at, a colon, and the token after that. -/
  | blankColon (hblank : (r.lex spaced).1.kind = .whitespace)
      (hcolon : ((r.lex spaced).2.lex .visible).1.kind = .colon) (hlength : behind.length ≤ 1) :
      Rewound t r behind ⟨(((r.lex spaced).2.lex .visible).2.lex spaced).2, t :: behind,
        [(r.lex spaced).1, ((r.lex spaced).2.lex .visible).1,
          (((r.lex spaced).2.lex .visible).2.lex spaced).1]⟩

namespace Rewound

variable {t : Token} {r : Reader} {behind : List Token} {st : Stream}

/-- A token that was cut in the mode of selectors is handed out in it. -/
theorem get_spaced (r : Reader) (r' : Reader) (behind ahead : List Token) :
    Stream.get ⟨r', behind, (r.lex spaced).1 :: ahead⟩ false true =
      ((r.lex spaced).1, ⟨r', (r.lex spaced).1 :: behind, ahead⟩) :=
  Stream.get_of_ahead r' behind ahead (r.hides_lex rfl rfl)

/-- The next token of the text itself, in the mode of selectors. -/
theorem get_bare (r : Reader) (behind : List Token) (hlength : behind.length ≤ 4) :
    Stream.get ⟨r, behind, []⟩ false true =
      ((r.lex spaced).1, ⟨(r.lex spaced).2, (r.lex spaced).1 :: behind, []⟩) := by
  rw [Stream.get_bare, List.take_of_length_le (Nat.succ_le_succ hlength)]

/-- The next token of the text itself that is not hidden. -/
theorem grab_bare (r : Reader) (behind : List Token) (hlength : behind.length ≤ 4) :
    Stream.get ⟨r, behind, []⟩ false false =
      ((r.lex .visible).1, ⟨(r.lex .visible).2, (r.lex .visible).1 :: behind, []⟩) := by
  rw [Stream.get_bare, List.take_of_length_le (Nat.succ_le_succ hlength)]
  rfl

/-- What is ahead starts with the token after the one at hand, and no end
of an item comes before another token. -/
theorem endsLast (h : Rewound t r behind st) : Stream.EndsLast st.ahead := by
  have hkinds : ∀ u : Token, u.kind = .pipe ∨ u.kind = .colon ∨ u.kind = .whitespace →
      Stream.endsItem u = false := by
    intro u hu
    unfold Stream.endsItem
    rcases hu with hu | hu | hu <;> rw [hu] <;> rfl
  cases h with
  | one => exact List.pairwise_singleton _ _
  | two hkind =>
    have hitem := hkinds _ (hkind.imp id Or.inl)
    exact Stream.EndsLast.cons (List.pairwise_singleton _ _) hitem
  | blank hblank =>
    have hitem := hkinds _ (Or.inr (Or.inr hblank))
    exact Stream.EndsLast.cons (List.pairwise_singleton _ _) hitem
  | blankColon hblank hcolon =>
    have hitem := hkinds _ (Or.inr (Or.inr hblank))
    have hitem' := hkinds _ (Or.inr (Or.inl hcolon))
    exact (Stream.EndsLast.cons (List.pairwise_singleton _ _) hitem').cons hitem

end Rewound

/-! ## The same compounds -/

/-- **The rest of a compound** after its element name; without one there is
no compound. -/
def Parser.compoundRest (group : GroupParser) (start : Token)
    (modifiers : List (Modifier Selector)) :
    Option ElementName → Parser (Option (Compound Selector × Location))
  | none => return none
  | some element => do
    let sofar ← repeating ⟨modifiers, element.stop, element.pending⟩
      (modifierStep group)
    let c : Compound Selector :=
      { ns := element.ns
        elementName := element.name
        modifiers := sofar.modifiers.reverse
        text := ← slice start.location.offset sofar.stop.offset
        location := start.location }
    return some (c, sofar.stop)

/-- A state with another stream. -/
def Parse.State.withStream (s : State) (st : Stream) : State := { s with stream := st }

section Twice

variable {group : GroupParser} {s : State} {st st' : Stream} {t u : Token}

/-- A request for the next token that finds the same. -/
theorem Parser.next_congr {placeholders blanks : Bool}
    (h : st.get placeholders blanks = st'.get placeholders blanks) :
    next placeholders blanks (s.withStream st) =
      next placeholders blanks (s.withStream st') := by
  show ((Except.ok (st.get placeholders blanks).1 : Except Diagnostic Token),
    s.withStream (st.get placeholders blanks).2) = _
  rw [h]
  rfl

/-- A request for a token of some kinds that finds the same. -/
theorem Parser.matchKinds_congr {kinds : List TokenKind}
    (h : st.get false true = st'.get false true) :
    matchKinds kinds (s.withStream st) =
      matchKinds kinds (s.withStream st') := by
  have hmatch : st.matchKinds kinds = st'.matchKinds kinds := by
    unfold Stream.matchKinds
    rw [h]
  show ((Except.ok (st.matchKinds kinds).1 : Except Diagnostic (Option Token)),
    s.withStream (st.matchKinds kinds).2) = _
  rw [hmatch]
  rfl

/-- **A compound is its element name and the rest**, unless it starts with
`&`. -/
theorem Parser.compound_apply (hcustom : t.isCustomIdent = false)
    (hstart : selectorStart.contains t.kind = true) (hamp : t.kind ≠ .amp)
    (hbudget : 0 < s.budget) :
    compound group (some t) s =
      (elementName t t.stop >>= compoundRest group t []) s := by
  obtain ⟨b, hb⟩ : ∃ b, s.budget = b + 1 := ⟨s.budget - 1, by omega⟩
  unfold compound
  show (if (t.isCustomIdent || !selectorStart.contains t.kind) = true then _ else _ :
    Parser (Option (Compound Selector × Location))) s = _
  rw [if_neg (by rw [hcustom, hstart]; exact Bool.false_ne_true)]
  suffices hamps : repeating (⟨[], t.stop, none⟩, t) ampStep s =
      (.ok (⟨[], t.stop, none⟩, t), s) from (bind_ok hamps).trans rfl
  rw [repeating_apply, hb]
  refine rounds_done ?_
  unfold ampStep
  dsimp only
  rw [if_neg (by simpa using hamp)]
  rfl

/-- **A colon that was read too far** starts a modifier, and the token after
it is all that this depends on. -/
theorem Parser.compoundRest_colon_congr {element : ElementName}
    {modifiers : List (Modifier Selector)} (hpending : element.pending = some u)
    (hkind : u.kind = .colon) (hbudget : 0 < s.budget)
    (h : st.get false true = st'.get false true) :
    compoundRest group t modifiers (some element) (s.withStream st) =
      compoundRest group t modifiers (some element) (s.withStream st') := by
  obtain ⟨b, hb⟩ : ∃ b, s.budget = b + 1 := ⟨s.budget - 1, by omega⟩
  unfold compoundRest
  refine bind_eq ?_
  rw [hpending, repeating_apply, repeating_apply, show (s.withStream st).budget = b + 1 from hb,
    show (s.withStream st').budget = b + 1 from hb]
  refine bind_eq ?_
  have hmodifier : modifier? group u (s.withStream st) =
      modifier? group u (s.withStream st') := by
    unfold modifier?
    rw [hkind]
    exact bind_eq (bind_eq (matchKinds_congr h))
  exact (show (modifier? group u >>= _) _ = (modifier? group u >>= _) _ from
    bind_eq hmodifier)

/-- A compound that starts with a colon depends on the token after it. -/
theorem Parser.compound_colon_congr (hkind : t.kind = .colon) (hcustom : t.isCustomIdent = false)
    (hbudget : 0 < s.budget) (h : st.get false true = st'.get false true) :
    compound group (some t) (s.withStream st) =
      compound group (some t) (s.withStream st') := by
  have happly : ∀ st : Stream, compound group (some t) (s.withStream st) =
      compoundRest group t [] (some ⟨none, none, t.stop, some t⟩)
        (s.withStream st) := by
    intro st
    rw [compound_apply (s := s.withStream st) hcustom (by rw [hkind]; rfl)
      (by rw [hkind]; exact TokenKind.noConfusion) hbudget]
    have hname : elementName t t.stop = pure (some ⟨none, none, t.stop, some t⟩) := by
      unfold elementName
      rw [hkind]
      rfl
    rw [hname]
    rfl
  rw [happly, happly]
  exact compoundRest_colon_congr rfl hkind hbudget h

/-- **A compound that starts with a name, a bar or a colon** depends on the
token after it. -/
theorem Parser.compound_congr (ht : looksOn t.kind = true)
    (hcustom : t.isCustomIdent = false) (hbudget : 0 < s.budget)
    (h : st.get false true = st'.get false true) :
    compound group (some t) (s.withStream st) =
      compound group (some t) (s.withStream st') := by
  by_cases hcolon : t.kind = .colon
  · exact compound_colon_congr hcolon hcustom hbudget h
  have hkinds : t.kind = .ident ∨ t.kind = .star ∨ t.kind = .pipe := by
    have hmem : t.kind ∈ [TokenKind.ident, .star, .pipe, .colon] := List.contains_iff_mem.mp ht
    simpa [hcolon] using hmem
  have hstart : selectorStart.contains t.kind = true := by
    rcases hkinds with hkind | hkind | hkind <;> rw [hkind] <;> rfl
  have hamp : t.kind ≠ .amp := by
    rcases hkinds with hkind | hkind | hkind <;> rw [hkind] <;> exact TokenKind.noConfusion
  rw [compound_apply (s := s.withStream st) hcustom hstart hamp hbudget,
    compound_apply (s := s.withStream st') hcustom hstart hamp hbudget]
  refine bind_eq ?_
  unfold elementName nameInNamespace
  rcases hkinds with hkind | hkind | hkind <;> rw [hkind]
  · exact bind_eq (next_congr h)
  · exact bind_eq (next_congr h)
  · exact bind_eq (matchKinds_congr h)

/-- What a name starts, once the token after it has been read. -/
theorem Parser.compound_name (hname : IsElementName t) (hcustom : t.isCustomIdent = false)
    (hbudget : 0 < s.budget) {st₁ : Stream} (hget : st.get false true = (u, st₁)) :
    compound group (some t) (s.withStream st) =
      ((if u.kind == .pipe then nameInNamespace t.text t
        else return some ⟨none, some t.text, t.stop, some u⟩) >>= compoundRest group t [])
          (s.withStream st₁) := by
  have hnext : next false true (s.withStream st) = (.ok u, s.withStream st₁) := by
    show (Except.ok (st.get false true).1, s.withStream (st.get false true).2) = _
    rw [hget]
  rw [compound_apply (s := s.withStream st) hcustom
    (by rcases hname with hkind | hkind <;> rw [hkind] <;> rfl)
    (by rcases hname with hkind | hkind <;> rw [hkind] <;> exact TokenKind.noConfusion) hbudget]
  refine bind_eq ?_
  unfold elementName
  rcases hname with hkind | hkind <;> rw [hkind] <;> exact bind_ok hnext

/-- **A token that was read too far** and starts no modifier ends the
compound. -/
theorem Parser.compoundRest_done {element : ElementName}
    {modifiers : List (Modifier Selector)} (hpending : element.pending = some u)
    (hnone : modifier? group u = pure none) (hbudget : 0 < s.budget) :
    compoundRest group t modifiers (some element) s =
      (.ok (some ({ ns := element.ns
                    elementName := element.name
                    modifiers := modifiers.reverse
                    text := s.stream.slice t.location.offset element.stop.offset
                    location := t.location }, element.stop)), s) := by
  obtain ⟨b, hb⟩ : ∃ b, s.budget = b + 1 := ⟨s.budget - 1, by omega⟩
  unfold compoundRest
  suffices hnoMore : repeating ⟨modifiers, element.stop, element.pending⟩
      (modifierStep group) s = (.ok ⟨modifiers, element.stop, none⟩, s) from
    (bind_ok hnoMore).trans rfl
  rw [hpending, repeating_apply, hb]
  refine rounds_done ?_
  show (modifier? group u >>= _) s = _
  rw [hnone]
  rfl

/-- **A name by itself is a compound** when a token follows that starts no
modifier. -/
theorem Parser.compound_alone (hname : IsElementName t) (hcustom : t.isCustomIdent = false)
    (hbudget : 0 < s.budget) {st₁ : Stream} (hget : st.get false true = (u, st₁))
    (hbar : u.kind ≠ .pipe) (hnone : modifier? group u = pure none) :
    compound group (some t) (s.withStream st) =
      (.ok (some ({ ns := none
                    elementName := some t.text
                    modifiers := []
                    text := st₁.slice t.location.offset t.stop.offset
                    location := t.location }, t.stop)), s.withStream st₁) := by
  rw [compound_name hname hcustom hbudget hget, if_neg (by simpa using hbar)]
  let element : ElementName := ⟨none, some t.text, t.stop, some u⟩
  have hpending : element.pending = some u := rfl
  exact compoundRest_done (s := s.withStream st₁) hpending hnone hbudget

/-! ## The same selectors -/

/-- **A selector that starts with a name** is its first compound and the
rest. -/
theorem Parser.selectorWith_apply (ht : looksOn t.kind = true) (relative : Bool) :
    selectorWith group (some t) relative s =
      (compound group (some t) >>= fun r =>
        selectorRest group t (r.map fun c => ⟨[.compound c.1], c.2, none⟩)) s := by
  have hplaceholder : ¬(t.kind == .uvar) = true := by
    intro hkind
    rw [eq_of_beq hkind] at ht
    cases ht
  have hcombinator : ¬(relative && combinatorKinds.contains t.kind) = true := by
    rw [Bool.and_eq_true]
    rintro ⟨-, h⟩
    rw [Orderly.looksOn_of_combinator h] at ht
    cases ht
  unfold selectorWith
  dsimp only
  rw [if_neg hplaceholder]
  show (if (relative && combinatorKinds.contains t.kind) = true then _ else _ :
    Parser (Option Selector)) s = _
  rw [if_neg hcombinator]
  rcases hcompound : compound group (some t) s with ⟨_ | r, s₁⟩
  · rw [bind_error hcompound, bind_error hcompound]
  · rw [bind_ok hcompound, bind_ok hcompound]
    cases r <;> rfl

/-- A selector that starts with a name, a bar or a colon depends on the token
after it. -/
theorem Parser.selectorWith_congr (ht : looksOn t.kind = true)
    (hcustom : t.isCustomIdent = false) (hbudget : 0 < s.budget)
    (h : st.get false true = st'.get false true) (relative : Bool) :
    selectorWith group (some t) relative (s.withStream st) =
      selectorWith group (some t) relative (s.withStream st') := by
  rw [selectorWith_apply (s := s.withStream st) ht,
    selectorWith_apply (s := s.withStream st') ht]
  exact bind_eq (compound_congr ht hcustom hbudget h)

/-- With a blank at hand, a selector goes on with what follows the blank. -/
theorem Parser.selectorStep_blank {sofar : SelectorSoFar} (hpending : sofar.pending = none)
    (hcurrent : s.stream.current = u) (hkind : u.kind = .whitespace) :
    selectorStep group sofar s = afterBlank group u sofar s := by
  obtain ⟨items, stop, pending⟩ := sofar
  obtain rfl : pending = none := hpending
  unfold selectorStep
  have hnow : current s = (.ok u, s) := Prod.ext (congrArg Except.ok hcurrent) rfl
  refine (bind_ok hnow).trans ?_
  dsimp only
  rw [if_neg (by rw [hkind]; decide), if_neg (by rw [hkind]; decide)]
  exact congrFun (if_pos (beq_iff_eq.mpr hkind)) s

/-- **The rest of a selector that goes on with a blank.** -/
theorem Parser.selectorRest_congr {head : SelectorSoFar} (hpending : head.pending = none)
    (hkind : u.kind = .whitespace) (hbudget : 0 < s.budget) (hcurrent : st.current = u)
    (hcurrent' : st'.current = u)
    (h : afterBlank group u head (s.withStream st) =
      afterBlank group u head (s.withStream st')) :
    selectorRest group t (some head) (s.withStream st) =
      selectorRest group t (some head) (s.withStream st') := by
  obtain ⟨b, hb⟩ : ∃ b, s.budget = b + 1 := ⟨s.budget - 1, by omega⟩
  unfold selectorRest
  refine bind_eq ?_
  rw [repeating_apply, repeating_apply, show (s.withStream st).budget = b + 1 from hb,
    show (s.withStream st').budget = b + 1 from hb]
  refine bind_eq ?_
  rw [selectorStep_blank (s := s.withStream st) hpending hcurrent hkind,
    selectorStep_blank (s := s.withStream st') hpending hcurrent' hkind]
  exact h

/-- What follows a blank depends on the next token. -/
theorem Parser.afterBlank_congr {blank : Token} {sofar : SelectorSoFar}
    (h : st.get false false = st'.get false false) :
    afterBlank group blank sofar (s.withStream st) =
      afterBlank group blank sofar (s.withStream st') :=
  bind_eq (next_congr h)

/-- When a colon follows, it depends on the token after the colon. -/
theorem Parser.afterBlank_colon_congr {blank : Token} {sofar : SelectorSoFar}
    {st₁ st₁' : Stream} (hget : st.get false false = (u, st₁))
    (hget' : st'.get false false = (u, st₁')) (hkind : u.kind = .colon)
    (hcustom : u.isCustomIdent = false) (hbudget : 0 < s.budget)
    (h : st₁.get false true = st₁'.get false true) :
    afterBlank group blank sofar (s.withStream st) =
      afterBlank group blank sofar (s.withStream st') := by
  have hnext : ∀ {st st₁ : Stream}, st.get false false = (u, st₁) →
      grab (s.withStream st) = (.ok u, s.withStream st₁) := by
    intro st st₁ hget
    show (Except.ok (st.get false false).1, s.withStream (st.get false false).2) = _
    rw [hget]
  unfold afterBlank
  rw [bind_ok (hnext hget), bind_ok (hnext hget'), hkind]
  exact bind_eq (compound_colon_congr hkind hcustom hbudget h)

end Twice

namespace Rewound

variable {group : GroupParser} {s : State} {t : Token} {r : Reader} {behind : List Token}
  {st : Stream}

/-- A blank starts no modifier. -/
theorem modifier?_blank {u : Token} (h : u.kind = .whitespace) :
    modifier? group u = pure none := by
  unfold modifier?
  rw [h]

/-- **A selector that starts with what was read on and back** is the one
that is read from the text itself, unless a blank and a newline that is
escaped are ahead. -/
theorem selectorWith_eq (h : Rewound t r behind st) (hname : IsElementName t)
    (hcustom : t.isCustomIdent = false) (hat : r.IsAt) (hbudget : 0 < s.budget)
    (hplain : (r.lex spaced).1.kind = .whitespace →
      st = ⟨((r.lex spaced).2.lex .visible).2, t :: behind,
        [(r.lex spaced).1, ((r.lex spaced).2.lex .visible).1]⟩ →
      ((r.lex spaced).2.lex .visible).1.kind ≠ .whitespace) (relative : Bool) :
    selectorWith group (some t) relative (s.withStream st) =
      selectorWith group (some t) relative (s.withStream ⟨r, t :: behind, []⟩) := by
  have hlength : ∀ {n : Nat}, behind.length ≤ n → (t :: behind).length ≤ n + 1 :=
    fun h => Nat.succ_le_succ h
  cases h with
  | one hbehind =>
    refine selectorWith_congr hname.looksOn hcustom hbudget ?_ relative
    rw [get_spaced, get_bare _ _ (hlength hbehind)]
  | two hkind hbehind =>
    have hget := get_spaced r ((r.lex spaced).2.lex spaced).2 (t :: behind)
      [((r.lex spaced).2.lex spaced).1]
    have hget' := get_bare r (t :: behind) (Nat.le_succ_of_le (hlength hbehind))
    -- after the bar or the colon, both find the token after it
    have hagree : Stream.get ⟨((r.lex spaced).2.lex spaced).2, (r.lex spaced).1 :: t :: behind,
          [((r.lex spaced).2.lex spaced).1]⟩ false true =
        Stream.get ⟨(r.lex spaced).2, (r.lex spaced).1 :: t :: behind, []⟩ false true := by
      rw [get_spaced, get_bare _ ((r.lex spaced).1 :: t :: behind)
        (Nat.succ_le_succ (hlength hbehind))]
    rw [selectorWith_apply hname.looksOn, selectorWith_apply hname.looksOn]
    refine bind_eq ?_
    rw [compound_name hname hcustom hbudget hget,
      compound_name hname hcustom hbudget hget']
    rcases hkind with hkind | hkind <;> rw [hkind]
    · exact bind_eq (bind_eq (matchKinds_congr hagree))
    · exact compoundRest_colon_congr rfl hkind hbudget hagree
  | blank hblank hbehind =>
    have hget := get_spaced r ((r.lex spaced).2.lex .visible).2 (t :: behind)
      [((r.lex spaced).2.lex .visible).1]
    have hget' := get_bare r (t :: behind) (Nat.le_succ_of_le (hlength hbehind))
    have hbar : (r.lex spaced).1.kind ≠ .pipe := by
      rw [hblank]
      exact TokenKind.noConfusion
    rw [selectorWith_apply hname.looksOn, selectorWith_apply hname.looksOn,
      bind_ok (compound_alone hname hcustom hbudget hget hbar (modifier?_blank hblank)),
      bind_ok (compound_alone hname hcustom hbudget hget' hbar (modifier?_blank hblank))]
    refine selectorRest_congr rfl hblank hbudget rfl rfl (afterBlank_congr ?_)
    have hshown : Mode.visible.hides ((r.lex spaced).2.lex .visible).1 = false :=
      ((r.lex spaced).2.hides_lex_cases rfl).resolve_right fun h => hplain hblank rfl h.1
    rw [Stream.get_of_ahead _ _ _ hshown,
      grab_bare _ ((r.lex spaced).1 :: t :: behind) (Nat.succ_le_succ (hlength hbehind))]
  | blankColon hblank hcolon hbehind =>
    have hget := get_spaced r (((r.lex spaced).2.lex .visible).2.lex spaced).2 (t :: behind)
      [((r.lex spaced).2.lex .visible).1, (((r.lex spaced).2.lex .visible).2.lex spaced).1]
    have hget' := get_bare r (t :: behind)
      (Nat.le_succ_of_le (Nat.le_succ_of_le (hlength hbehind)))
    have hbar : (r.lex spaced).1.kind ≠ .pipe := by
      rw [hblank]
      exact TokenKind.noConfusion
    rw [selectorWith_apply hname.looksOn, selectorWith_apply hname.looksOn,
      bind_ok (compound_alone hname hcustom hbudget hget hbar (modifier?_blank hblank)),
      bind_ok (compound_alone hname hcustom hbudget hget' hbar (modifier?_blank hblank))]
    have hshown : Mode.visible.hides ((r.lex spaced).2.lex .visible).1 = false := by
      unfold Mode.hides
      rw [hcolon]
      rfl
    have hat' : (r.lex spaced).2.IsAt := (hat.lex rfl).2.2.1
    have hcut : ((r.lex spaced).2.lex .visible).1.IsCut _ := (hat'.lex rfl).1
    refine selectorRest_congr rfl hblank hbudget rfl rfl
      (afterBlank_colon_congr (Stream.get_of_ahead _ _ _ hshown)
        (grab_bare _ ((r.lex spaced).1 :: t :: behind)
          (Nat.le_succ_of_le (Nat.succ_le_succ (hlength hbehind)))) hcolon
        (hcut.isCustomIdent_eq (by rw [hcolon]; exact TokenKind.noConfusion)) hbudget ?_)
    rw [get_spaced, get_bare _ (((r.lex spaced).2.lex .visible).1 :: (r.lex spaced).1 :: t :: behind)
      (Nat.succ_le_succ (Nat.succ_le_succ (hlength hbehind)))]

end Rewound

end Stylesheet
