import Stylesheet.Parse.Rule
import Stylesheet.Proofs.Core.Lexemes

/-!
# Selectors of the core language

A selector is read with the token after it, which is a comma, a brace, or
the blanks before one of these. After blanks one token more is read. So
when a selector has been read the comma or the brace behind it is the token
handed out last, whatever blanks there are.
-/

namespace Stylesheet

open Parse (State)
open Stylesheet.Parser

namespace Core

variable {s : State} {a z cs : List Char} {l : List Token} {f : GroupParser}

variable {n : Nat} {t : Token} {g : Gap} {s₁ : State}

/-! ## First tokens -/

/-- The text of the first token of a selector. -/
def Simple.read : Simple → List Char
  | .element name => name.chars
  | .className _ => ['.']
  | .id name => '#' :: name.chars

/-- The text of a selector after its first token. -/
def Simple.unread : Simple → List Char
  | .element _ => []
  | .className name => name.chars
  | .id _ => []

/-- What the first token of a selector is. -/
def Simple.lexeme : Simple → Lexeme
  | .element name => name.lexeme
  | .className _ => ⟨.dot, .none, 1⟩
  | .id name => name.hash

theorem Simple.read_append_unread (x : Simple) : x.read ++ x.unread = x.chars := by
  cases x with
  | element name => exact List.append_nil _
  | className name => rfl
  | id name => exact List.append_nil _

theorem Simple.significant (x : Simple) (h : Ends z) (hcolon : z.head? ≠ some ':') :
    Lexeme.significant (x.read ++ (x.unread ++ z)) = x.lexeme := by
  cases x with
  | element name => exact name.significant h fun _ hhead => absurd hhead hcolon
  | className name => exact significant_dot name
  | id name => exact significant_hash name h

theorem Simple.solid (x : Simple) : Solid (x.read ++ (x.unread ++ z)) := by
  cases x with
  | element name => exact name.solid
  | className name => exact .cons (by decide)
  | id name => exact .cons (by decide)

theorem Simple.size_lexeme (x : Simple) : x.lexeme.size = x.read.length := by
  cases x <;> rfl

/-- The first token of a selector, where it stands. -/
def Simple.token (x : Simple) (a : List Char) : Token := x.lexeme.after a x.read

/-- **The first token of a selector.** -/
theorem next_simple (p : Bool) (g : Gap) (x : Simple) (h : Ends z) (hcolon : z.head? ≠ some ':') :
    next p false (s.on a (g.chars ++ (x.chars ++ z)) l []) =
      (.ok (x.token (a ++ g.chars)), s.on (a ++ g.chars ++ x.read) (x.unread ++ z)
        (x.token (a ++ g.chars) :: l.take 4) []) := by
  have hnext : next p false (s.on a (g.chars ++ (x.read ++ (x.unread ++ z)))
      l []) = _ := next_on g x.solid (x.significant h hcolon) x.size_lexeme
  rw [← List.append_assoc x.read, x.read_append_unread] at hnext
  exact hnext

/-- **Grabbing the first token of a selector.** -/
theorem grab_simple (g : Gap) (x : Simple) (h : Ends z) (hcolon : z.head? ≠ some ':') :
    grab (s.on a (g.chars ++ (x.chars ++ z)) l []) =
      (.ok (x.token (a ++ g.chars)), s.on (a ++ g.chars ++ x.read) (x.unread ++ z)
        (x.token (a ++ g.chars) :: l.take 4) []) := next_simple false g x h hcolon

/-! ## What comes after a selector -/

/-- **The end of a selector**: a comma or an opening brace. -/
def headEnds : List (Char × TokenKind) := [(',', .comma), ('\x7b', .lBrace)]

variable {m : Char} {kind : TokenKind}

theorem mem_marks_of_headEnds (h : (m, kind) ∈ headEnds) : (m, kind) ∈ marks := by
  have hall : ∀ e ∈ headEnds, e ∈ marks := by decide
  exact hall _ h

theorem kind_of_headEnds (h : (m, kind) ∈ headEnds) : kind = .comma ∨ kind = .lBrace := by
  have hall : ∀ e ∈ headEnds, e.2 = .comma ∨ e.2 = .lBrace := by decide
  exact hall _ h

theorem ends_of_headEnds (h : (m, kind) ∈ headEnds) : Ends (m :: z) := by
  have hall : ∀ e ∈ headEnds, isBoundary e.1 = true := by decide
  exact .cons (hall _ h)

theorem head_ne_colon (g : Gap) (h : (m, kind) ∈ headEnds) :
    (g.chars ++ m :: z).head? ≠ some ':' := by
  have hall : ∀ e ∈ headEnds, e.1 ≠ ':' := by decide
  cases hchars : g.chars with
  | nil => exact fun hhead => hall _ h (Option.some.inj hhead)
  | cons b blanks =>
    rintro hhead
    obtain rfl : b = ':' := Option.some.inj hhead
    obtain hb | hb := g.blank ':' (hchars ▸ List.mem_cons_self) <;> cases hb

/-- **The token after a selector** and the state it leaves: the blanks, or
without any the mark. -/
inductive LooksOn (s : State) (a : List Char) (g : Gap) (m : Char) (kind : TokenKind)
    (z : List Char) : Token → State → Prop
  /-- There are blanks. -/
  | blank (l : List Token) (hg : g.chars ≠ []) :
    LooksOn s a g m kind z (g.lexeme.after a g.chars)
      (s.on (a ++ g.chars) (m :: z) (g.lexeme.after a g.chars :: l) [])
  /-- There are none. -/
  | mark (l : List Token) (hg : g.chars = []) :
    LooksOn s a g m kind z (markAt m kind a)
      (s.on (a ++ [m]) z (markAt m kind a :: l) [])

/-- **Looking at what comes after a selector.** -/
theorem next_looksOn (g : Gap) (h : (m, kind) ∈ headEnds) :
    ∃ u s', next false true (s.on a (g.chars ++ m :: z) l []) = (.ok u, s') ∧
      LooksOn s a g m kind z u s' := by
  have hmark := mem_marks_of_headEnds h
  by_cases hg : g.chars = []
  · refine ⟨_, _, ?_, .mark (l.take 4) hg⟩
    have hnext : next false true (s.on a ([m] ++ z) l []) = _ :=
      next_solid (solid_mark hmark) (significant_mark hmark) rfl
    rw [hg]
    exact hnext
  · exact ⟨_, _, next_gap g hg (solid_mark hmark), .blank (l.take 4) hg⟩

namespace LooksOn

variable {g : Gap} {u : Token} {s' : State}

/-- The token does not go on with a selector. -/
theorem kind_eq (h : LooksOn s a g m kind z u s') (hm : (m, kind) ∈ headEnds) :
    u.kind = .whitespace ∨ u.kind = .comma ∨ u.kind = .lBrace := by
  cases h with
  | blank => exact .inl rfl
  | mark => exact .inr (kind_of_headEnds hm)

theorem budget (h : LooksOn s a g m kind z u s') : s'.budget = s.budget := by
  cases h <;> rfl

/-- The text before can be cut out again. -/
theorem slice {p cs : List Char} (h : LooksOn s (p ++ cs) g m kind z u s') :
    Parser.slice (Location.start.advance p).offset (Location.start.advance (p ++ cs)).offset s' =
      (.ok (String.ofList cs), s') := by
  cases h with
  | blank => exact slice_on (q := g.chars ++ m :: z) (by simp)
  | mark => exact slice_on (q := m :: z) (by simp)

end LooksOn

/-! ## Compounds -/

/-- A token after a selector is no modifier. -/
theorem modifier?_after {u : Token}
    (h : u.kind = .whitespace ∨ u.kind = .comma ∨ u.kind = .lBrace) :
    modifier? f u s = (.ok none, s) := by
  unfold modifier?
  rcases h with h | h | h <;> rw [h] <;> rfl

/-- **No more modifiers.** -/
theorem modifiers_after {c : CompoundSoFar} (h : (m, kind) ∈ headEnds)
    (hpending : c.pending = none) :
    ∃ u s', rounds (modifierStep f) (n + 1) c
        (s.on a (g.chars ++ m :: z) l []) = (.ok { c with pending := none }, s') ∧
      LooksOn s a g m kind z u s' := by
  obtain ⟨u, s', hnext, hlooks⟩ := next_looksOn (s := s) (a := a) (z := z)
    (l := l) g h
  refine ⟨u, s', rounds_done ?_, hlooks⟩
  unfold modifierStep
  rw [hpending]
  refine (bind_ok hnext).trans ?_
  exact bind_ok (modifier?_after (hlooks.kind_eq h))

/-- **A single modifier**, which starts with a token that has been read. -/
theorem modifiers_single (loc : Location) {s₀ : State} {md : Modifier Selector} {stop : Location}
    (h : (m, kind) ∈ headEnds)
    (hmodifier : modifier? f t s₀ =
      (.ok (some (md, stop)), s.on a (g.chars ++ m :: z) l [])) (hbudget : s₀.budget = n + 2) :
    ∃ u s', repeating ⟨[], loc, some t⟩ (modifierStep f) s₀ =
        (.ok ⟨[md], stop, none⟩, s') ∧ LooksOn s a g m kind z u s' := by
  obtain ⟨u, s', hrounds, hlooks⟩ := modifiers_after (s := s) (f := f) (n := n)
    (a := a) (z := z) (c := ⟨[md], stop, none⟩) (l := l) (g := g) h rfl
  refine ⟨u, s', ?_, hlooks⟩
  rw [repeating_apply, hbudget]
  exact (rounds_yield (bind_ok hmodifier)).trans hrounds

/-- **The element name and the modifiers of a selector** after its first
token. There is no mark of nesting among the modifiers. -/
theorem element_modifiers (x : Simple) (g : Gap) (h : (m, kind) ∈ headEnds)
    (hbudget : s.budget = n + 2) :
    ∃ element c u s₁ s',
      elementName (x.token a) (x.token a).stop (s.on (a ++ x.read)
        (x.unread ++ (g.chars ++ m :: z)) (x.token a :: l) []) =
          (.ok (some element), s₁) ∧
      repeating ⟨[], element.stop, element.pending⟩ (modifierStep f) s₁ =
        (.ok c, s') ∧
      c.stop = Location.start.advance (a ++ x.chars) ∧
      Selector.ampInModifiers c.modifiers.reverse = false ∧
      LooksOn s (a ++ x.chars) g m kind z u s' := by
  have hends : Ends (g.chars ++ m :: z) := g.ends (ends_of_headEnds h)
  have hcolon := head_ne_colon (z := z) g h
  cases x with
  | element w =>
    obtain ⟨u, s', hnext, hlooks⟩ := next_looksOn (s := s) (a := a ++ w.chars)
      (z := z) (l := (Simple.element w).token a :: l) g h
    have hkind := hlooks.kind_eq h
    refine ⟨⟨none, some (String.ofList w.chars), Location.start.advance (a ++ w.chars), some u⟩,
      ⟨[], Location.start.advance (a ++ w.chars), none⟩, u, s', s', ?_, ?_, rfl, rfl, hlooks⟩
    · have hpipe : ¬(u.kind == .pipe) = true := by
        rcases hkind with hkind | hkind | hkind <;> rw [hkind] <;> decide
      refine (show elementName _ _ _ = _ from bind_ok hnext).trans ?_
      rw [if_neg hpipe]
      rfl
    · rw [repeating_apply, hlooks.budget, hbudget]
      exact rounds_done (bind_ok (modifier?_after hkind))
  | className w =>
    have hname : mustMatch [.ident] (s.on (a ++ ['.']) (w.chars ++ (g.chars ++ m :: z))
        ((Simple.className w).token a :: l) []) = _ := mustMatch_of_next
      (next_solid w.solid (w.significant hends fun _ hhead => absurd hhead hcolon) rfl)
      List.mem_cons_self
    have hmodifier : modifier? f ((Simple.className w).token a)
        (s.on (a ++ ['.']) (w.chars ++ (g.chars ++ m :: z))
          ((Simple.className w).token a :: l) []) =
        (.ok (some (⟨.className, "." ++ String.ofList w.chars, Location.start.advance a⟩,
            Location.start.advance (a ++ ['.'] ++ w.chars))),
          s.on (a ++ ['.'] ++ w.chars) (g.chars ++ m :: z)
            (w.lexeme.after (a ++ ['.']) w.chars ::
              ((Simple.className w).token a :: l).take 4) []) :=
      (show modifier? _ _ _ = _ from bind_ok hname).trans rfl
    obtain ⟨u, s', hrounds, hlooks⟩ := modifiers_single
      (Location.start.advance (a ++ ['.'])) h hmodifier hbudget
    rw [List.append_assoc] at hrounds hlooks
    exact ⟨⟨none, none, _, _⟩, _, u, _, s', rfl, hrounds, rfl, rfl, hlooks⟩
  | id w =>
    have hmodifier : modifier? f ((Simple.id w).token a)
        (s.on (a ++ '#' :: w.chars) (g.chars ++ m :: z)
          ((Simple.id w).token a :: l) []) =
        (.ok (some (⟨.id, String.ofList ('#' :: w.chars), Location.start.advance a⟩,
            Location.start.advance (a ++ '#' :: w.chars))),
          s.on (a ++ '#' :: w.chars) (g.chars ++ m :: z)
            ((Simple.id w).token a :: l) []) := rfl
    obtain ⟨u, s', hrounds, hlooks⟩ := modifiers_single
      (Location.start.advance (a ++ '#' :: w.chars)) h hmodifier hbudget
    exact ⟨⟨none, none, _, _⟩, _, u, _, s', rfl, hrounds, rfl, rfl, hlooks⟩

/-! ## Selectors -/

/-- **A compound of the core language.** -/
theorem compound_on (x : Simple) (g : Gap) (h : (m, kind) ∈ headEnds) (hbudget : s.budget = n + 2) :
    ∃ c u s', compound f (some (x.token a)) (s.on (a ++ x.read)
        (x.unread ++ (g.chars ++ m :: z)) (x.token a :: l) []) =
          (.ok (some (c, Location.start.advance (a ++ x.chars))), s') ∧
      Selector.ampInCompound c = false ∧
      LooksOn s (a ++ x.chars) g m kind z u s' := by
  obtain ⟨element, c, u, s₁, s', helement, hmodifiers, hstop, hamp, hlooks⟩ :=
    element_modifiers (f := f) (a := a) (z := z) (l := l) x g h
      hbudget
  have hkind : ((x.token a).kind == .amp) = false ∧
      ((x.token a).isCustomIdent || !selectorStart.contains (x.token a).kind) = false := by
    cases x <;> exact ⟨rfl, rfl⟩
  have hamps : repeating (⟨[], (x.token a).stop, none⟩, x.token a) ampStep
      (s.on (a ++ x.read) (x.unread ++ (g.chars ++ m :: z)) (x.token a :: l) []) =
        (.ok (⟨[], (x.token a).stop, none⟩, x.token a), s.on (a ++ x.read)
          (x.unread ++ (g.chars ++ m :: z)) (x.token a :: l) []) := by
    rw [repeating_apply]
    show rounds _ s.budget _ _ = _
    rw [hbudget]
    refine rounds_done ?_
    unfold ampStep
    dsimp only
    rw [hkind.1]
    rfl
  have hslice := hlooks.slice
  rw [← hstop] at hslice
  have hcompound : compound f (some (x.token a)) (s.on (a ++ x.read)
      (x.unread ++ (g.chars ++ m :: z)) (x.token a :: l) []) =
        (.ok (some (⟨element.ns, element.name, c.modifiers.reverse, String.ofList x.chars,
          Location.start.advance a⟩, c.stop)), s') := by
    unfold compound
    show (if ((x.token a).isCustomIdent || !selectorStart.contains (x.token a).kind) = true
      then _ else _ : Parser (Option (Compound Selector × Location))) _ = _
    rw [if_neg (Bool.eq_false_iff.mp hkind.2)]
    refine (bind_ok hamps).trans ?_
    refine (bind_ok helement).trans ?_
    refine (bind_ok hmodifiers).trans ?_
    exact bind_ok hslice
  rw [hstop] at hcompound
  exact ⟨_, u, s', hcompound, hamp, hlooks⟩

/-- A mark after a selector is no compound. -/
theorem compound_mark (h : t.kind = .comma ∨ t.kind = .lBrace) :
    compound f (some t) s = (.ok none, s) := by
  unfold compound
  show (if (t.isCustomIdent || !selectorStart.contains t.kind) = true
    then _ else _ : Parser (Option (Compound Selector × Location))) _ = _
  rw [if_pos (by rcases h with h | h <;> simp [h, selectorStart])]
  rfl

/-- A mark ends a selector. -/
theorem selectorStep_mark {items : List (SelectorItem Selector)} {loc : Location}
    (h : (m, kind) ∈ headEnds) :
    selectorStep f ⟨items, loc, none⟩ (s.on a z (markAt m kind cs :: l) []) =
      (.ok (.done ⟨items, loc, none⟩), s.on a z (markAt m kind cs :: l) []) := by
  rcases kind_of_headEnds h with rfl | rfl <;> rfl

/-- After blanks a comma leaves a selector as it is, and a brace ends
it. -/
theorem selectorStep_blank (items : List (SelectorItem Selector)) (loc : Location) {b : List Char}
    (h : (m, kind) ∈ headEnds) :
    ∃ r, (r = .done ⟨items, loc, none⟩ ∨ r = .yield ⟨items, loc, none⟩) ∧
      selectorStep f ⟨items, loc, none⟩
          (s.on a (m :: z) (g.lexeme.after b g.chars :: l) []) =
        (.ok r, s.on (a ++ [m]) z
          (markAt m kind a :: (g.lexeme.after b g.chars :: l).take 4) []) := by
  have hgrab : grab (s.on a (m :: z) (g.lexeme.after b g.chars :: l) []) =
      (.ok (markAt m kind a), s.on (a ++ [m]) z
        (markAt m kind a :: (g.lexeme.after b g.chars :: l).take 4) []) := by
    have hnext : next false false (s.on a (noGap.chars ++ m :: z)
        (g.lexeme.after b g.chars :: l) []) = _ := next_mark noGap (mem_marks_of_headEnds h)
    rw [show noGap.chars = [] from rfl, List.append_nil] at hnext
    exact hnext
  have hstep : selectorStep f ⟨items, loc, none⟩
      (s.on a (m :: z) (g.lexeme.after b g.chars :: l) []) =
        afterBlank f (g.lexeme.after b g.chars) ⟨items, loc, none⟩
          (s.on a (m :: z) (g.lexeme.after b g.chars :: l) []) := rfl
  rw [hstep]
  unfold afterBlank
  rw [bind_ok hgrab]
  rcases kind_of_headEnds h with rfl | rfl
  · exact ⟨_, .inr rfl, bind_ok (compound_mark (.inl rfl))⟩
  · exact ⟨_, .inl rfl, rfl⟩

/-- **What comes after a selector ends it**, and the mark is the token
handed out last. -/
theorem selectorSteps (items : List (SelectorItem Selector)) (loc : Location) {u : Token}
    {s' : State} (h : (m, kind) ∈ headEnds) (hlooks : LooksOn s a g m kind z u s')
    (hbudget : s.budget = n + 2) :
    ∃ l, repeating ⟨items, loc, none⟩ (selectorStep f) s' =
      (.ok ⟨items, loc, none⟩, s.on (a ++ g.chars ++ [m]) z
        (markAt m kind (a ++ g.chars) :: l) []) := by
  rw [repeating_apply, hlooks.budget, hbudget]
  cases hlooks with
  | blank l hg =>
    obtain ⟨r, hr, hstep⟩ := selectorStep_blank (s := s) (f := f)
      (a := a ++ g.chars) (z := z) (b := a) (l := l) (g := g) items loc h
    rcases hr with rfl | rfl
    · exact ⟨_, rounds_done hstep⟩
    · exact ⟨_, (rounds_yield hstep).trans (rounds_done (selectorStep_mark h))⟩
  | mark l hg =>
    rw [hg, List.append_nil]
    exact ⟨l, rounds_done (selectorStep_mark h)⟩

/-- **A selector that stands by itself**: what rules ask of it. -/
structure Reads (x : Simple) (selector : Selector) : Prop where
  /-- Its text. -/
  text : selector.text = String.ofList x.chars
  /-- There is no mark of nesting in it. -/
  usesAmp : selector.usesAmp = false
  /-- It starts with no combinator. -/
  isRelative : selector.isRelative = false

/-- **A selector of the core language** after its first token. -/
theorem selectorWith_on (x : Simple) (g : Gap) (h : (m, kind) ∈ headEnds)
    (hbudget : s.budget = n + 2) (relative : Bool) :
    ∃ selector l', selectorWith f (some (x.token a)) relative
        (s.on (a ++ x.read) (x.unread ++ (g.chars ++ m :: z)) (x.token a :: l) []) =
          (.ok (some selector), s.on (a ++ x.chars ++ g.chars ++ [m]) z
            (markAt m kind (a ++ x.chars ++ g.chars) :: l') []) ∧
      Reads x selector := by
  obtain ⟨c, u, s', hcompound, hamp, hlooks⟩ := compound_on (f := f) (a := a)
    (z := z) (l := l) x g h hbudget
  obtain ⟨l', hsteps⟩ := selectorSteps (f := f) [.compound c]
    (Location.start.advance (a ++ x.chars)) h hlooks hbudget
  have hkind : ((x.token a).kind == .uvar) = false ∧
      combinatorKinds.contains (x.token a).kind = false := by
    cases x <;> exact ⟨rfl, rfl⟩
  have hslice : Parser.slice (Location.start.advance a).offset
      (Location.start.advance (a ++ x.chars)).offset (s.on (a ++ x.chars ++ g.chars ++ [m])
        z (markAt m kind (a ++ x.chars ++ g.chars) :: l') []) =
      (.ok (String.ofList x.chars), s.on (a ++ x.chars ++ g.chars ++ [m]) z
        (markAt m kind (a ++ x.chars ++ g.chars) :: l') []) :=
    slice_on (q := g.chars ++ m :: z) (by simp)
  refine ⟨⟨[.compound c], String.ofList x.chars, Location.start.advance a,
    Location.start.advance (a ++ x.chars)⟩, l', ?_, rfl, ?_, rfl⟩
  · unfold selectorWith
    show (if ((x.token a).kind == .uvar) = true then _ else _ : Parser (Option Selector)) _ = _
    rw [hkind.1, if_neg Bool.false_ne_true]
    show (if (relative && combinatorKinds.contains (x.token a).kind) = true then _ else _ :
      Parser (Option Selector)) _ = _
    rw [hkind.2, Bool.and_false, if_neg Bool.false_ne_true]
    refine (bind_ok hcompound).trans ?_
    refine (bind_ok hsteps).trans ?_
    exact bind_ok hslice
  · cases c
    simp only [Selector.usesAmp, Selector.ampInItems, Selector.ampInItem, hamp, Bool.or_false]

/-- A selector whose first token has not been read. -/
theorem selectorWith_none {relative : Bool} (hgrab : grab s = (.ok t, s₁))
    (ht : (t.kind == .uvar) = false) :
    selectorWith f none relative s =
      selectorWith f (some t) relative s₁ := by
  unfold selectorWith
  show _ = (if (t.kind == .uvar) = true then _ else _ : Parser (Option Selector)) s₁
  rw [ht, if_neg Bool.false_ne_true]
  exact bind_ok hgrab

/-! ## Lists of selectors -/

/-- **One selector of a list**, and the mark after it. -/
theorem groupStep_on (x : Simple) (g : Gap) (h : (m, kind) ∈ headEnds)
    (hbudget : s.budget = n + 2) (relative lax : Bool) (sofar : List Selector) (comma : Bool) :
    ∃ selector l', groupStep f relative lax ⟨sofar, some (x.token a), comma⟩
        (s.on (a ++ x.read) (x.unread ++ (g.chars ++ m :: z)) (x.token a :: l) []) =
          (.ok (if kind = .comma then .yield ⟨selector :: sofar, none, true⟩
              else .done ⟨selector :: sofar, none, false⟩),
            s.on (a ++ x.chars ++ g.chars ++ [m]) z
              (markAt m kind (a ++ x.chars ++ g.chars) :: l') []) ∧
      Reads x selector := by
  obtain ⟨selector, l', hselector, hreads⟩ := selectorWith_on (f := f)
    (a := a) (z := z) (l := l) x g h hbudget relative
  refine ⟨selector, l', ?_, hreads⟩
  unfold groupStep
  refine (bind_ok hselector).trans ?_
  rcases kind_of_headEnds h with rfl | rfl <;> rfl

/-- A selector of a list whose first token has not been read. -/
theorem groupStep_none {relative lax : Bool} {sofar : List Selector} {comma : Bool}
    (hgrab : grab s = (.ok t, s₁)) (ht : (t.kind == .uvar) = false) :
    groupStep f relative lax ⟨sofar, none, comma⟩ s =
      groupStep f relative lax ⟨sofar, some t, comma⟩ s₁ := by
  unfold groupStep
  exact bind_eq (selectorWith_none hgrab ht)

/-- **The selectors of a rule**, one after the other, up to and including
the brace. -/
theorem groupSteps_on (hs : Heads) (hn : hs.selectors.length ≤ n) (hbudget : 2 ≤ s.budget)
    (relative lax : Bool) (sofar : List Selector) (comma : Bool) :
    ∃ (read : List Selector) (brace : Token) (l' : List Token),
      rounds (groupStep f relative lax) n ⟨sofar, none, comma⟩
        (s.on a (hs.chars ++ z) l []) =
          (.ok ⟨read.reverse ++ sofar, none, false⟩,
            s.on (a ++ hs.chars) z (brace :: l') []) ∧
      brace.kind = .lBrace ∧ read.map (·.text) = hs.selectors ∧
      ∀ selector ∈ read, selector.usesAmp = false ∧ selector.isRelative = false := by
  obtain ⟨b, hb⟩ : ∃ b, s.budget = b + 2 := ⟨s.budget - 2, by omega⟩
  have hround : ∀ (g₀ : Gap) (x : Simple) (g : Gap) (a z l sofar comma) {m : Char}
      {kind : TokenKind}, (m, kind) ∈ headEnds →
      ∃ selector l', groupStep f relative lax ⟨sofar, none, comma⟩
          (s.on a (g₀.chars ++ (x.chars ++ (g.chars ++ m :: z))) l []) =
            (.ok (if kind = .comma then .yield ⟨selector :: sofar, none, true⟩
                else .done ⟨selector :: sofar, none, false⟩),
              s.on (a ++ g₀.chars ++ x.chars ++ g.chars ++ [m]) z
                (markAt m kind (a ++ g₀.chars ++ x.chars ++ g.chars) :: l') []) ∧
        Reads x selector := by
    intro g₀ x g a z l sofar comma m kind h
    have hgrab := grab_simple (s := s) (a := a) (l := l) g₀ x
      (g.ends (ends_of_headEnds (z := z) h)) (head_ne_colon g h)
    rw [groupStep_none hgrab (by cases x <;> rfl)]
    exact groupStep_on x g h hb relative lax sofar comma
  induction hs generalizing n a l sofar comma with
  | last g₀ x g =>
    obtain ⟨n, rfl⟩ : ∃ k, n = k + 1 := ⟨n - 1, by simp [Heads.selectors] at hn; omega⟩
    obtain ⟨selector, l', hstep, hreads⟩ := hround g₀ x g a z l sofar comma
      (show ('\x7b', TokenKind.lBrace) ∈ headEnds by decide)
    refine ⟨[selector], markAt '\x7b' .lBrace (a ++ g₀.chars ++ x.chars ++ g.chars),
      l', ?_, rfl, by simp [Heads.selectors, hreads.text], ?_⟩
    · have hchars : (Heads.last g₀ x g).chars ++ z =
          g₀.chars ++ (x.chars ++ (g.chars ++ '\x7b' :: z)) := by simp [Heads.chars]
      have hbefore : a ++ (Heads.last g₀ x g).chars =
          a ++ g₀.chars ++ x.chars ++ g.chars ++ ['\x7b'] := by simp [Heads.chars]
      rw [hchars, hbefore]
      exact rounds_done hstep
    · intro other hother
      obtain rfl := List.mem_singleton.mp hother
      exact ⟨hreads.usesAmp, hreads.isRelative⟩
  | more g₀ x g hs ih =>
    obtain ⟨n, rfl⟩ : ∃ k, n = k + 1 := ⟨n - 1, by simp [Heads.selectors] at hn; omega⟩
    obtain ⟨selector, behind₁, hstep, hreads⟩ := hround g₀ x g a (hs.chars ++ z) l
      sofar comma (show (',', TokenKind.comma) ∈ headEnds by decide)
    obtain ⟨read, brace, l', hrounds, hbrace, htexts, hread⟩ :=
      ih (n := n) (a := a ++ g₀.chars ++ x.chars ++ g.chars ++ [','])
        (l := markAt ',' .comma (a ++ g₀.chars ++ x.chars ++ g.chars) :: behind₁)
        (by simp [Heads.selectors] at hn; omega) (selector :: sofar) true
    refine ⟨selector :: read, brace, l', ?_, hbrace, by
      simp [Heads.selectors, hreads.text, htexts], ?_⟩
    · have hchars : (Heads.more g₀ x g hs).chars ++ z =
          g₀.chars ++ (x.chars ++ (g.chars ++ ',' :: (hs.chars ++ z))) := by
        simp [Heads.chars]
      have hbefore : a ++ (Heads.more g₀ x g hs).chars =
          a ++ g₀.chars ++ x.chars ++ g.chars ++ [','] ++ hs.chars := by simp [Heads.chars]
      rw [hchars, hbefore]
      refine (rounds_yield hstep).trans ?_
      rw [hrounds]
      simp
    · intro other hother
      rcases List.mem_cons.mp hother with rfl | hother
      · exact ⟨hreads.usesAmp, hreads.isRelative⟩
      · exact hread other hother

theorem Heads.selectors_ne_nil (hs : Heads) : hs.selectors ≠ [] := by
  cases hs <;> exact List.cons_ne_nil _ _

/-- **The selectors of a rule** after its first token, up to and including
the brace. -/
theorem ruleHead_on (hs : Heads) (hgrab : grab (s.on a (hs.chars ++ z) l []) = (.ok t, s₁))
    (ht : (t.kind == .uvar) = false) (hbudget : hs.selectors.length + 1 < s.budget) :
    ∃ (read : List Selector) (brace : Token) (l' : List Token),
      ruleHead t s₁ =
        (.ok (some read), s.on (a ++ hs.chars) z (brace :: l') []) ∧
      brace.kind = .lBrace ∧ read.map (·.text) = hs.selectors ∧
      ∀ selector ∈ read, selector.usesAmp = false ∧ selector.isRelative = false := by
  obtain ⟨b, hb⟩ : ∃ b, s.budget = b + 1 := ⟨s.budget - 1, by omega⟩
  have hs₁ : s₁.budget = s.budget := by
    have h : s₁ = { s.on a (hs.chars ++ z) l [] with stream := s₁.stream } :=
      (Prod.mk.inj hgrab).2 ▸ rfl
    rw [h]
    rfl
  obtain ⟨read, brace, l', hrounds, hbrace, htexts, hread⟩ :=
    groupSteps_on (s := s) (f := groupTo b) (a := a) (z := z)
      (l := l) hs (n := s.budget) (by omega) (by omega) true false [] false
  refine ⟨read, brace, l', ?_, hbrace, htexts, hread⟩
  have hne : read.reverse ≠ [] := by
    intro hnil
    rw [List.reverse_eq_nil_iff.mp hnil] at htexts
    exact hs.selectors_ne_nil htexts.symm
  have hloop : repeating ⟨[], some t, false⟩ (groupStep (groupTo b) true false)
      s₁ = (.ok ⟨read.reverse ++ [], none, false⟩,
        s.on (a ++ hs.chars) z (brace :: l') []) := by
    rw [repeating_apply, ← hrounds, hs₁, hb]
    exact bind_eq (groupStep_none hgrab ht).symm
  have hgroup : selectorGroup (some t) true false s₁ = (.ok (some read),
      s.on (a ++ hs.chars) z (brace :: l') []) := by
    show groupTo s₁.budget (some t) true false s₁ = _
    rw [hs₁, hb]
    refine (bind_ok hloop).trans ?_
    show (Except.ok (if (read.reverse ++ []).isEmpty = true then none
      else some (read.reverse ++ []).reverse), _) = _
    rw [List.append_nil, if_neg (by simpa using hne), List.reverse_reverse]
  exact bind_ok hgroup

end Core

end Stylesheet
