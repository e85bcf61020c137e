import Stylesheet.Proofs.Lookahead.Value

/-!
# Looking ahead in selectors

Every reader of selectors reads one token too far, so that a token is at
hand when it is done. The one exception is a name that is followed by a bar
and then by no name: there is no compound then, the bar is taken back, and
two tokens are ahead. Wherever that happens the list of selectors is over,
because neither the name nor the bar is what must come after it.

A selector may also be read from its first token on where the window is
empty. Then the first token must be a name that does not end in such a
bar, or there would be nothing to take back.
-/

namespace Stylesheet

open Parse (State)
open Parse.State (Keeps)
open Stylesheet.Stream (Fresh Front IsElementName Stopped looksOn)
open Stylesheet.Parser

/-- **Where a selector starts**, after its first token: the token is at
hand, or it is a name, the window is empty, and no bar comes next. -/
inductive Starts (t : Token) (s : Stream) : Prop where
  /-- The token is at hand. -/
  | hand (h : s.At t)
  /-- The window is empty. -/
  | empty (hbare : s.ahead = []) (hname : IsElementName t) (hcustom : t.isCustomIdent = false)
      (hbar : (s.get false true).1.kind ≠ .pipe)

namespace Starts

variable {t : Token} {st : Stream}

theorem near (h : Starts t st) : st.Near := by
  rcases h with h | hbare
  · exact h.near
  · unfold Stream.Near
    rw [hbare]
    exact Nat.zero_le 1

/-- Only a name can start a selector where the window is empty. -/
theorem at_of_kind (h : Starts t st) (ht : ¬IsElementName t) : st.At t := by
  rcases h with h | ⟨-, hname, -, -⟩
  · exact h
  · exact absurd hname ht

end Starts

/-- A token of another kind is no name. -/
theorem not_isElementName {t : Token} {kind : TokenKind} (h : (t.kind == kind) = true)
    (hident : kind ≠ .ident) (hstar : kind ≠ .star) : ¬IsElementName t := by
  have hkind := eq_of_beq h
  rintro (hname | hname)
  · exact hident (hkind.symm.trans hname)
  · exact hstar (hkind.symm.trans hname)

/-- **The rest of a selector**, once its first compound or combinator has been
read; without one there is no selector. -/
def Parser.selectorRest (group : GroupParser) (t : Token) :
    Option SelectorSoFar → Parser (Option Selector)
  | none => return none
  | some head => do
    let sofar ← Parser.repeating head (Parser.selectorStep group)
    return some
      { items := sofar.items.reverse
        text := ← slice t.location.offset sofar.stop.offset
        location := t.location
        stop := sofar.stop }

namespace Orderly

/-- What ran did run. -/
theorem ran {α : Type} {p : Parser α} {s : State} {Q : α → State → Prop} (h : Orderly p s Q) :
    Orderly p s fun a s' => Q a s' ∧ p s = (.ok a, s') :=
  ⟨h.keeps, h.inOrder, h.error, fun a ha => ⟨h.ok a ha, Prod.ext ha rfl⟩⟩

/-- What a request for a token of the window or the source did to it. -/
theorem asked {α : Type} {s : State} {f : Stream → α × Stream} {Q : α → State → Prop}
    (h : Orderly (Parser.ask f) s Q) :
    Orderly (Parser.ask f) s fun r s' => Q r s' ∧ f s.stream = (r, s'.stream) := by
  refine h.ran.weaken fun r s' _ ⟨hQ, hran⟩ => ⟨hQ, ?_⟩
  obtain ⟨hr, hs'⟩ := Prod.mk.inj hran
  obtain rfl : (f s.stream).1 = r := Except.ok.inj hr
  rw [← hs']

variable {s : State} {t : Token} {group : GroupParser}

/-! ## Modifiers -/

theorem attributeHead (hs : s.InOrder) (ht : s.stream.At t) :
    Orderly (Parser.attributeHead t) s fun _ s' => s'.stream.Fresh := by
  unfold Parser.attributeHead
  split
  · exact pure hs ⟨t, ht⟩
  · refine (discard (Q := fun _ s' => s'.stream.Fresh) ((mustMatch hs ht.near _).weaken
      fun bar _ _ h => ⟨bar, h.1⟩)).bind fun _ s₁ _ hs₁ hfresh => pure hs₁ hfresh
  · refine (next hs ht.near false true).bind fun after s₁ _ hs₁ hafter => ?_
    split
    · exact pure hs₁ ⟨after, hafter.1⟩
    · exact pure hs₁ ⟨after, hafter.1⟩
    · exact pure hs₁ ⟨after, hafter.1⟩
    · exact pure hs₁ ⟨after, hafter.1⟩
    · exact pure hs₁ ⟨after, hafter.1⟩
    · exact failAt hs₁ hafter.1.near.ready

theorem attributeOp (hs : s.InOrder) (hfresh : s.stream.Fresh) (head : AttributeHead) :
    Orderly (Parser.attributeOp head) s fun _ s' => s'.stream.Fresh := by
  unfold Parser.attributeOp
  refine ite (fun _ => ?_) fun _ => pure hs hfresh
  refine (mustMatchSmart hs hfresh.near _).bind fun t s₁ _ hs₁ ht => ?_
  exact ite (fun _ => pure hs₁ ⟨t, ht.1⟩) fun _ => pure hs₁ ⟨t, ht.1⟩

theorem attributeValue (hs : s.InOrder) (hfresh : s.stream.Fresh) :
    Orderly Parser.attributeValue s fun _ s' => s'.stream.Fresh := by
  unfold Parser.attributeValue
  refine (mustMatchSmart hs hfresh.near _).bind fun value s₁ _ hs₁ hvalue => ?_
  refine (grab hs₁ hvalue.1.near).bind fun t s₂ _ hs₂ ht => ?_
  refine ite (fun _ => pure hs₂ ⟨t, ht.1⟩) fun _ => ite (fun _ => pure hs₂ ⟨t, ht.1⟩) fun _ => ?_
  exact failAt hs₂ ht.1.near.ready

theorem attributeTest (hs : s.InOrder) (ht : s.stream.At t) :
    Orderly (Parser.attributeTest t) s fun _ s' => s'.stream.Fresh := by
  unfold Parser.attributeTest
  refine (mustMatchSmart hs ht.near _).bind fun first s₁ _ hs₁ hfirst => ?_
  refine (setPair hs₁ _).bind fun _ s₂ _ hs₂ hstream => ?_
  refine (attributeHead hs₂ (hstream ▸ hfirst.1)).bind fun head s₃ _ hs₃ hfresh => ?_
  extract_lets afterName
  have hafterName : ∀ (name : String) {s₁ : State}, s₁.InOrder → s₁.stream.Fresh →
      Orderly (afterName name) s₁ fun _ s' => s'.stream.Fresh := by
    intro name s₁ hs₁ hfresh₁
    refine (attributeOp hs₁ hfresh₁ head).bind fun head s₂ _ hs₂ hfresh₂ => ?_
    extract_lets afterValue
    have hafterValue : ∀ (found : Option String × Option String × Option Token) {s₂ : State},
        s₂.InOrder → s₂.stream.Fresh →
        Orderly (afterValue found) s₂ fun _ s' => s'.stream.Fresh := by
      rintro ⟨value, flag, close⟩ s₂ hs₂ hfresh₂
      have hend : ∀ (close : Token) {s₃ : State}, s₃.InOrder → s₃.stream.Fresh →
          Orderly (do
            Parser.update fun s => { s with pair := none }
            return (⟨.attribute ⟨head.ns, name, head.op, value, flag⟩,
              ← slice t.location.offset close.stop.offset, t.location⟩ :
                Modifier Selector)) s₃ fun _ s' => s'.stream.Fresh := by
        intro close s₃ hs₃ hfresh₃
        refine (setPair hs₃ none).bind fun _ s₄ _ hs₄ hstream => slice_bind (pure hs₄ ?_)
        rwa [hstream]
      cases close with
      | some close => exact pure_bind (hend close hs₂ hfresh₂)
      | none =>
        exact (mustMatchSmart hs₂ hfresh₂.near _).bind fun close s₃ _ hs₃ hclose =>
          hend close hs₃ ⟨close, hclose.1⟩
    refine ite (fun _ => ?_) fun _ =>
      pure_bind (hafterValue (none, none, head.close) hs₂ hfresh₂)
    refine (attributeValue hs₂ hfresh₂).bind fun ⟨value, flag, close⟩ s₃ _ hs₃ hfresh₃ => ?_
    exact pure_bind (hafterValue (some value, flag, close) hs₃ hfresh₃)
  cases head.name with
  | some name => exact pure_bind (hafterName name hs₃ hfresh)
  | none =>
    exact (mustMatch hs₃ hfresh.near _).bind fun name s₄ _ hs₄ hname =>
      pure_bind (hafterName name.text hs₄ ⟨name, hname.1⟩)

/-- **Where a list of selectors starts**: after its first token, or before
it. -/
def GroupStart (first : Option Token) (s : State) : Prop :=
  match first with
  | some t => Starts t s.stream
  | none => s.stream.Near

theorem GroupStart.near {first : Option Token} (h : GroupStart first s) : s.stream.Near := by
  cases first with
  | none => exact h
  | some t => exact Starts.near h

/-- **A reader of lists of selectors that is orderly**: an item can start
with the token at hand after it. -/
def OrderlyGroup (group : GroupParser) : Prop :=
  ∀ first relative lax {s : State}, s.InOrder → GroupStart first s →
    Orderly (group first relative lax) s fun _ s' => s'.stream.Stopped

/-- Demanding what must come after a list of selectors. -/
theorem reuse_front {u : Token} (hs : s.InOrder) (hu : Front u s.stream) {kinds : List TokenKind}
    (hkinds : ∀ kind ∈ kinds, looksOn kind = false) :
    Orderly (Functor.discard (Parser.mustReuse kinds)) s fun _ s' => s'.stream.At u := by
  refine discard ((mustReuse hs kinds fun _ => hu.ready_back).weaken fun v s' _ h => ?_)
  obtain ⟨hstream, rfl, hkind⟩ := h
  rw [hu.current_eq] at hkind
  rw [hstream]
  exact hu.at_of_kind (hkinds _ (List.contains_iff_mem.mp hkind))

section Compounds

variable (hgroup : OrderlyGroup group)

include hgroup

theorem selectorArgs (hs : s.InOrder) (hnear : s.stream.Near) (name : String) :
    Orderly (Parser.selectorArgs group name) s fun _ s' => s'.stream.Fresh := by
  unfold Parser.selectorArgs
  refine (hgroup none _ _ hs hnear).bind fun r s₁ _ hs₁ ⟨u, hu⟩ => ?_
  cases r with
  | none => exact failHere hs₁ hu.ready
  | some list =>
    exact (reuse_front hs₁ hu (by decide)).bind fun _ s₂ _ hs₂ hat => pure hs₂ ⟨u, hat⟩

theorem countArgs (hs : s.InOrder) (name : String) :
    Orderly (Parser.countArgs group name) s fun _ s' => s'.stream.Fresh := by
  unfold Parser.countArgs
  refine (readNth hs).bind fun count s₁ _ hs₁ hbare => ?_
  have hnear : s₁.stream.Near := by
    unfold Stream.Near
    rw [hbare]
    exact Nat.zero_le 1
  refine (next hs₁ hnear false true).bind fun first s₂ _ hs₂ hfirst => ?_
  extract_lets rest
  have hrest : ∀ (t : Token) {s₃ : State}, s₃.InOrder → s₃.stream.Fresh →
      Orderly (rest t) s₃ fun _ s' => s'.stream.Fresh := by
    intro t s₃ hs₃ hfresh
    cases count with
    | some count =>
      refine ite (fun _ => ?_) fun _ => ite (fun _ => pure hs₃ hfresh) fun _ =>
        failAt hs₃ hfresh.ready
      exact (selectorArgs hgroup hs₃ hfresh.near name).bind
        fun _ s₄ _ hs₄ hfresh₄ => pure hs₄ hfresh₄
    | none => exact ite (fun _ => pure hs₃ hfresh) fun _ => failAt hs₃ hfresh.ready
  refine ite (fun _ => ?_) fun _ => pure_bind (hrest first hs₂ ⟨first, hfirst.1⟩)
  exact (grab hs₂ hfirst.1.near).bind fun t s₃ _ hs₃ ht => hrest t hs₃ ⟨t, ht.1⟩

theorem pseudoArgs (hs : s.InOrder) (hnear : s.stream.Near) (name : String) :
    Orderly (Parser.pseudoArgs group name) s fun _ s' => s'.stream.Fresh := by
  unfold Parser.pseudoArgs
  refine ite (fun _ => countArgs hgroup hs name) fun _ => ite (fun _ => ?_) fun _ => ?_
  · exact (selectorArgs hgroup hs hnear name).bind fun _ s₁ _ hs₁ hfresh => pure hs₁ hfresh
  · refine (expr hs hnear _ _).bind fun value s₁ _ hs₁ hfresh => current_bind ?_
    exact ite (fun _ => pure hs₁ hfresh) fun _ => failAt_bind hs₁ hfresh.ready

theorem pseudo (hs : s.InOrder) (ht : s.stream.At t) :
    Orderly (Parser.pseudo group t) s fun _ s' => s'.stream.Fresh := by
  unfold Parser.pseudo
  refine (matchKinds hs ht.near _).bind fun second s₁ _ hs₁ hsecond => ?_
  have hnear₁ : s₁.stream.Near := (Found.between hsecond ht.held).1
  refine (mustMatch hs₁ hnear₁ _).bind fun name s₂ _ hs₂ hname => ?_
  extract_lets rest
  have hrest : ∀ (found : String × Option (PseudoArgs Selector)) {s₃ : State}, s₃.InOrder →
      s₃.stream.Fresh → Orderly (rest found) s₃ fun _ s' => s'.stream.Fresh :=
    fun _ {_} hs₃ hfresh => current_bind (slice_bind (pure hs₃ hfresh))
  refine ite (fun _ => pure_bind (hrest (name.lower, none) hs₂ ⟨name, hname.1⟩)) fun _ => ?_
  refine (setPair hs₂ _).bind fun _ s₃ _ hs₃ hstream₃ => ?_
  have hnear₃ : s₃.stream.Near := hstream₃ ▸ hname.1.near
  refine (pseudoArgs hgroup hs₃ hnear₃ _).bind fun args s₄ _ hs₄ hfresh => ?_
  refine (setPair hs₄ _).bind fun _ s₅ _ hs₅ hstream₅ => pure_bind ?_
  exact hrest (name.name, some args) hs₅ (hstream₅ ▸ hfresh)

/-- A modifier that the token at hand starts; without one the token is
still at hand. -/
theorem modifier? (hs : s.InOrder) (ht : s.stream.At t) :
    Orderly (Parser.modifier? group t) s fun _ s' => s'.stream.Fresh := by
  unfold Parser.modifier?
  have hsame : ∀ r : Option (Modifier Selector × Location),
      Orderly (return r) s fun _ s' => s'.stream.Fresh := fun _ => pure hs ⟨t, ht⟩
  split
  · exact hsame _
  · exact hsame _
  · exact (mustMatch hs ht.near _).bind fun name s₁ _ hs₁ hname =>
      current_bind (pure hs₁ ⟨name, hname.1⟩)
  · exact (attributeTest hs ht).bind fun _ s₁ _ hs₁ hfresh => current_bind (pure hs₁ hfresh)
  · exact (pseudo hgroup hs ht).bind fun _ s₁ _ hs₁ hfresh => current_bind (pure hs₁ hfresh)
  · exact hsame _

/-! ## Compounds -/

/-- **Between two modifiers**: a token is at hand, and it is the one that
was read too far if there is one. -/
def ModifierInv (c : CompoundSoFar) (s : State) : Prop :=
  s.stream.Fresh ∧ ∀ t, c.pending = some t → s.stream.At t

theorem modifierStep (hs : s.InOrder) (c : CompoundSoFar) (hc : ModifierInv c s) :
    Orderly (Parser.modifierStep group c) s (Turn ModifierInv fun _ s' => s'.stream.Fresh) := by
  unfold Parser.modifierStep
  extract_lets rest
  have hrest : ∀ (t : Token) {s₁ : State}, s₁.InOrder → s₁.stream.At t →
      Orderly (rest t) s₁ (Turn ModifierInv fun _ s' => s'.stream.Fresh) := by
    intro t s₁ hs₁ ht
    refine (modifier? hgroup hs₁ ht).bind fun r s₂ _ hs₂ hfresh => ?_
    rcases r with _ | ⟨m, stop⟩
    · exact pure hs₂ hfresh
    · exact pure hs₂ ⟨hfresh, fun _ h => by cases h⟩
  cases hpending : c.pending with
  | some t => exact pure_bind (hrest t hs (hc.2 t hpending))
  | none => exact (next hs hc.1.near false true).bind fun t s₁ _ hs₁ ht => hrest t hs₁ ht.1

end Compounds

theorem ampStep (hs : s.InOrder) (sofar : CompoundSoFar × Token)
    (hstarts : Starts sofar.2 s.stream) :
    Orderly (Parser.ampStep sofar) s
      (Turn (fun sofar s' => Starts sofar.2 s'.stream)
        fun sofar s' => Starts sofar.2 s'.stream) := by
  obtain ⟨c, t⟩ := sofar
  unfold Parser.ampStep
  refine ite (fun hamp => ?_) fun _ => pure hs hstarts
  have hat := hstarts.at_of_kind (not_isElementName hamp TokenKind.noConfusion
    TokenKind.noConfusion)
  exact (next hs hat.near false true).bind fun u s₁ _ hs₁ hu => pure hs₁ (.hand hu.1)

/-- **A name after a bar.** Without one the bar is at hand as before, and
what is no name is ahead. -/
theorem barName {r : Reader} {behind : List Token} (hs : s.InOrder)
    (hstream : s.stream = ⟨r, t :: behind, []⟩) :
    Orderly (Parser.matchKinds [.ident, .star]) s fun found s' =>
      (∀ u, found = some u → s'.stream.At u) ∧ (found = none →
        s'.stream = ⟨(r.lex Stream.spaced).2, t :: behind.take 3, [(r.lex Stream.spaced).1]⟩) := by
  have hat : s.stream.At t := by
    rw [hstream]
    exact ⟨rfl, rfl⟩
  refine (asked (matchKinds hs hat.near _)).weaken fun found s' _ h => ⟨?_, ?_⟩
  · rintro u rfl
    exact h.1.1
  · rintro rfl
    -- the token after the bar is looked at in the mode of selectors
    have hget : Stream.get ⟨r, t :: behind, []⟩ false true =
        ((r.lex Stream.spaced).1, ⟨(r.lex Stream.spaced).2,
          (r.lex Stream.spaced).1 :: t :: behind.take 3, []⟩) := rfl
    have hask := h.2
    unfold Stream.matchKinds Stream.accept at hask
    rw [hstream, hget] at hask
    split_ifs at hask with htest
    · exact absurd (Prod.mk.inj hask).1 (by simp)
    · exact (Prod.mk.inj hask).2.symm

/-- **What an element name leaves**: what was read too far is at hand, or
there is no compound, and an item can start with the token at hand. -/
def NameEnd : Option ElementName → State → Prop
  | some e, s => s.stream.Fresh ∧ ∀ u, e.pending = some u → s.stream.At u
  | none, s => s.stream.Stopped

/-- **A name after the bar that a compound starts with.** -/
theorem nameInNamespace_bar (hs : s.InOrder) (ht : s.stream.At t) (hkind : t.kind = .pipe)
    (ns : String) : Orderly (nameInNamespace ns t) s NameEnd := by
  unfold nameInNamespace
  refine (barName hs ht.eq).bind fun found s₁ _ hs₁ hfound => ?_
  cases found with
  | some name => exact pure hs₁ ⟨⟨name, hfound.1 name rfl⟩, fun _ h => by cases h⟩
  | none =>
    have hstream := hfound.2 rfl
    have hfront : Front t s₁.stream := by
      rw [hstream]
      exact .mark (Or.inl hkind) (List.length_take_le 3 _) hs.isSound.stream.isAt
        (ht.location_eq hs.flush)
    exact ite (fun _ => pure hs₁ ⟨t, hfront⟩) fun hne => absurd (beq_iff_eq.mpr hkind) hne

/-- **A name after the bar that follows the name of a namespace.** Without
one the bar is taken back. -/
theorem nameInNamespace_name {r : Reader} {behind : List Token} (hs : s.InOrder)
    (hkind : IsElementName t) (hbar : (r.lex Stream.spaced).1.kind = .pipe) (hat : r.IsAt)
    (hstop : r.location = t.stop)
    (hstream : s.stream = ⟨(r.lex Stream.spaced).2, (r.lex Stream.spaced).1 :: t :: behind, []⟩)
    (ns : String) : Orderly (nameInNamespace ns t) s NameEnd := by
  unfold nameInNamespace
  refine (barName hs hstream).bind fun found s₁ _ hs₁ hfound => ?_
  cases found with
  | some name => exact pure hs₁ ⟨⟨name, hfound.1 name rfl⟩, fun _ h => by cases h⟩
  | none =>
    have hstream₁ := hfound.2 rfl
    refine ite (fun hpipe => ?_) fun _ => ?_
    · rcases hkind with hkind | hkind <;> rw [hkind] at hpipe <;> cases hpipe
    have hheld : s₁.stream.Held := by
      rw [hstream₁]
      exact List.cons_ne_nil _ _
    refine (unget hs₁ hheld).bind fun _ s₂ _ hs₂ hback => pure hs₂ ⟨t, ?_⟩
    rw [hback, hstream₁]
    exact .name hkind hbar (List.length_take_le 2 behind) hat hstop

theorem elementName (hs : s.InOrder) (hstarts : Starts t s.stream) (stop : Location) :
    Orderly (Parser.elementName t stop) s NameEnd := by
  unfold Parser.elementName
  refine ite (fun hbar => ?_) fun _ => ite (fun hname => ?_) fun hother => ?_
  · have hat := hstarts.at_of_kind (not_isElementName hbar TokenKind.noConfusion
      TokenKind.noConfusion)
    exact nameInNamespace_bar hs hat (eq_of_beq hbar) ""
  · have hkind : IsElementName t := by
      simpa [IsElementName, or_comm] using hname
    refine (get hs false true).bind fun after s₁ h₁ hs₁ hget => ?_
    have hafter : s₁.stream.At after := by
      have := hstarts.near.get false true
      rwa [hget] at this
    refine ite (fun hpipe => ?_) fun _ =>
      pure hs₁ ⟨⟨after, hafter⟩, fun u hu => Option.some.inj hu ▸ hafter⟩
    have hpipe := eq_of_beq hpipe
    rcases hstarts with hat | ⟨-, -, -, hbar⟩
    · -- with the name at hand, the bar is cut from the source right after it
      have hstream₁ : s₁.stream = ⟨(s.stream.reader.lex Stream.spaced).2,
          (s.stream.reader.lex Stream.spaced).1 :: t :: s.stream.behind.tail.take 3, []⟩ := by
        rw [hat.eq] at hget
        exact (Prod.mk.inj hget).2.symm
      have hlex : (s.stream.reader.lex Stream.spaced).1 = after := by
        rw [hat.eq] at hget
        exact (Prod.mk.inj hget).1
      refine nameInNamespace_name hs₁ hkind ?_ hs.isSound.stream.isAt (hat.location_eq hs.flush)
        hstream₁ t.text
      rw [hlex]
      exact hpipe
    · rw [hget] at hbar
      exact absurd hpipe hbar
  · have hat := hstarts.at_of_kind fun hname =>
      hother (by simpa [IsElementName, or_comm] using hname)
    exact pure hs ⟨⟨t, hat⟩, fun u hu => Option.some.inj hu ▸ hat⟩

section Selectors

variable (hgroup : OrderlyGroup group)

include hgroup

/-- **What a compound leaves**: the token after it at hand. Without one an
item can start with the token at hand. -/
def CompoundEnd : Option (Compound Selector × Location) → State → Prop
  | some _, s => s.stream.Fresh
  | none, s => s.stream.Stopped

/-- **A compound after its first token.** -/
theorem compound_some (hs : s.InOrder) (hstarts : Starts t s.stream) :
    Orderly (compound group (some t)) s CompoundEnd := by
  unfold compound
  refine pure_bind (ite (fun hnone => ?_) fun hsome => ?_)
  · -- a name that starts no compound is custom, and then the token is at hand
    refine pure hs ⟨t, .bare ?_⟩
    rcases hstarts with hat | ⟨-, hname, hcustom, -⟩
    · exact hat
    · rw [hcustom] at hnone
      rcases hname with hname | hname <;> rw [hname] at hnone <;> cases hnone
  · refine (repeating (I := fun sofar s' => Starts sofar.2 s'.stream)
      (Q := fun sofar s' => Starts sofar.2 s'.stream) (a := (⟨[], t.stop, none⟩, t)) hs hstarts
      (fun sofar s₁ _ hs₁ hI => ampStep hs₁ sofar hI) fun _ _ => id).bind
      fun ⟨c, u⟩ s₁ _ hs₁ hstarts₁ => ?_
    refine (elementName hs₁ hstarts₁ c.stop).bind fun element s₂ _ hs₂ hname => ?_
    cases element with
    | none => exact pure hs₂ hname
    | some element =>
      obtain ⟨hfresh, hpending⟩ := hname
      refine (repeating (I := ModifierInv) (Q := fun _ s' => s'.stream.Fresh) hs₂
        ⟨hfresh, hpending⟩ (fun c s₃ _ hs₃ hc => modifierStep hgroup hs₃ c hc)
        fun _ _ hc => hc.1).bind fun _ s₃ _ hs₃ hfresh₃ => slice_bind (pure hs₃ hfresh₃)

/-- A compound by itself. -/
theorem compound_none (hs : s.InOrder) (hnear : s.stream.Near) :
    Orderly (compound group none) s CompoundEnd := by
  have hgrab : ∀ {u : Token} {s₁ : State}, s₁.InOrder → s₁.stream.At u →
      Orderly (compound group (some u)) s₁ CompoundEnd :=
    fun {_ _} hs₁ hu => compound_some hgroup hs₁ (.hand hu)
  exact (grab hs hnear).bind fun u s₁ _ hs₁ hu => hgrab hs₁ hu.1

/-! ## Selectors -/

/-- **Between two steps of a selector**: an item can start with the token
at hand, and none is ahead while a combinator is pending. -/
def SelectorInv (sofar : SelectorSoFar) (s : State) : Prop :=
  s.stream.Stopped ∧ (sofar.pending.isSome → s.stream.Near)

omit hgroup in
theorem selectorInv_of_fresh {sofar : SelectorSoFar} (h : s.stream.Fresh) :
    SelectorInv sofar s := ⟨h.stopped, fun _ => h.near⟩

theorem afterCombinator (hs : s.InOrder) (hnear : s.stream.Near) (t : Token)
    (sofar : SelectorSoFar) :
    Orderly (do
      match ← compound group none with
      | some (c, stop) => return ForInStep.yield (sofar.push (combinatorOf t) c stop)
      | none => Parser.failHere "") s (Turn SelectorInv fun _ s' => s'.stream.Stopped) := by
  refine (compound_none hgroup hs hnear).bind fun r s₁ _ hs₁ hend => ?_
  rcases r with _ | ⟨c, stop⟩
  · exact failHere hs₁ (hend.elim fun _ hu => hu.ready)
  · exact pure hs₁ (selectorInv_of_fresh hend)

theorem afterBlank (hs : s.InOrder) (hnear : s.stream.Near) (blank : Token)
    (sofar : SelectorSoFar) (hpending : sofar.pending = none) :
    Orderly (Parser.afterBlank group blank sofar) s
      (Turn SelectorInv fun _ s' => s'.stream.Stopped) := by
  unfold Parser.afterBlank
  refine (grab hs hnear).bind fun t s₁ _ hs₁ ht => ?_
  refine ite (fun _ => pure hs₁ ⟨t, .bare ht.1⟩) fun _ =>
    ite (fun _ => afterCombinator hgroup hs₁ ht.1.near t sofar) fun _ => ?_
  refine (compound_some hgroup hs₁ (.hand ht.1)).bind fun r s₂ _ hs₂ hend => ?_
  rcases r with _ | ⟨c, stop⟩
  · refine pure hs₂ ⟨hend, fun h => ?_⟩
    rw [hpending] at h
    cases h
  · exact pure hs₂ (selectorInv_of_fresh hend)

omit hgroup in
theorem looksOn_of_combinator {kind : TokenKind} (h : combinatorKinds.contains kind = true) :
    looksOn kind = false := by
  have hall : ∀ kind ∈ combinatorKinds, looksOn kind = false := by decide
  exact hall kind (List.contains_iff_mem.mp h)

theorem selectorStep (hs : s.InOrder) (sofar : SelectorSoFar) (hI : SelectorInv sofar s) :
    Orderly (Parser.selectorStep group sofar) s
      (Turn SelectorInv fun _ s' => s'.stream.Stopped) := by
  obtain ⟨⟨u, hu⟩, hnear⟩ := hI
  unfold Parser.selectorStep
  extract_lets plain step rest
  have hstep : ∀ (t : Token) {s₁ : State}, s₁.InOrder → s₁.stream.Stopped →
      ((t.kind == .whitespace) = true → s₁.stream.Near) →
      Orderly (step t) s₁ (Turn SelectorInv fun _ s' => s'.stream.Stopped) :=
    fun t {_} hs₁ hfront hnear₁ => ite (fun hblank =>
      afterBlank hgroup hs₁ (hnear₁ hblank) t plain rfl) fun _ => pure hs₁ hfront
  -- a combinator, a placeholder and a blank have none ahead
  have hrest : ∀ t : Token, (looksOn t.kind = false → s.stream.Near) →
      Orderly (rest t) s (Turn SelectorInv fun _ s' => s'.stream.Stopped) := by
    intro t ht
    refine ite (fun hcombinator => ?_) fun _ => ite (fun hplaceholder => ?_) fun _ => ?_
    · exact afterCombinator hgroup hs (ht (looksOn_of_combinator hcombinator)) t plain
    · have hnear₁ := ht (by rw [eq_of_beq hplaceholder]; rfl)
      exact (next hs hnear₁ false true).bind fun v s₁ _ hs₁ hv =>
        hstep v hs₁ ⟨v, .bare hv.1⟩ fun _ => hv.1.near
    · exact pure_bind (hstep t hs ⟨u, hu⟩ fun hblank => ht (by rw [eq_of_beq hblank]; rfl))
  cases hpending : sofar.pending with
  | some t => exact pure_bind (hrest t fun _ => hnear (by rw [hpending]; rfl))
  | none =>
    refine current_bind (hrest _ fun hother => ?_)
    rw [hu.current_eq] at hother
    exact (hu.at_of_kind hother).near

/-- **The rest of a selector** after its first compound or combinator. -/
theorem selectorRest (hs : s.InOrder) (t : Token) {head : SelectorSoFar}
    (hstep : Orderly (Parser.selectorStep group head) s
      (Turn SelectorInv fun _ s' => s'.stream.Stopped)) :
    Orderly (Parser.selectorRest group t (some head)) s fun _ s' => s'.stream.Stopped := by
  unfold Parser.selectorRest
  refine (repeating_first (I := SelectorInv) (Q := fun _ s' => s'.stream.Stopped) hs hstep
    (fun sofar s₁ _ hs₁ hI => selectorStep hgroup hs₁ sofar hI) fun _ _ hI => hI.1).bind
    fun _ s₁ _ hs₁ hstopped => slice_bind (pure hs₁ hstopped)

theorem selectorWith (hs : s.InOrder) {first : Option Token} (hfirst : GroupStart first s)
    (relative : Bool) :
    Orderly (Parser.selectorWith group first relative) s fun _ s' => s'.stream.Stopped := by
  unfold Parser.selectorWith
  extract_lets rest
  have hrest : ∀ (t : Token) {s₁ : State}, s₁.InOrder → Starts t s₁.stream →
      Orderly (rest t) s₁ fun _ s' => s'.stream.Stopped := by
    intro t s₁ hs₁ hstarts
    have hitems : ∀ (head : SelectorSoFar) {s₂ : State}, s₂.InOrder →
        SelectorInv head s₂ → Orderly (Parser.selectorRest group t (some head)) s₂
          fun _ s' => s'.stream.Stopped :=
      fun head {_} hs₂ hI => selectorRest hgroup hs₂ t (selectorStep hgroup hs₂ head hI)
    refine ite (fun hcombinator => pure_bind (hitems _ hs₁ ?_)) fun _ => ?_
    · have hother := looksOn_of_combinator (Bool.and_eq_true_iff.mp hcombinator).2
      refine selectorInv_of_fresh ⟨t, hstarts.at_of_kind ?_⟩
      rintro (hname | hname) <;> rw [hname] at hother <;> cases hother
    · refine (compound_some hgroup hs₁ hstarts).bind fun r s₂ _ hs₂ hend => ?_
      rcases r with _ | ⟨c, stop⟩
      · exact pure_bind (pure hs₂ hend)
      · exact pure_bind (hitems _ hs₂ (selectorInv_of_fresh hend))
  have hgrab : ∀ {s₁ : State}, s₁.InOrder → s₁.stream.Near →
      Orderly (Parser.grab >>= rest) s₁ fun _ s' => s'.stream.Stopped :=
    fun {_} hs₁ hnear => (grab hs₁ hnear).bind fun t s₂ _ hs₂ ht => hrest t hs₂ (.hand ht.1)
  cases first with
  | none => exact hgrab hs hfirst
  | some t =>
    have hstarts : Starts t s.stream := hfirst
    exact ite (fun _ => hgrab hs hstarts.near) fun _ => pure_bind (hrest t hs hstarts)

end Selectors

/-- **What a reader of a selector leaves**: a token at hand with which an
item can start, and a selector that has a property if it ends there. -/
def SelectorEnd (P : Selector → Prop) (r : Option Selector) (s : State) : Prop :=
  s.stream.Stopped ∧ ∀ selector, r = some selector → s.EndsSelector → P selector

/-- **What a list of selectors leaves**: a token at hand with which an item can
start, and selectors that have a property if it is a brace. -/
def SelectorsEnd (P : Selector → Prop) (selectors : List Selector) (s : State) : Prop :=
  s.stream.Stopped ∧ (s.stream.current.kind = .lBrace → ∀ selector ∈ selectors, P selector)

/-- **One more selector, and the comma after it**, where the selector is read
in order. -/
theorem groupStep {P : Selector → Prop} {relative lax : Bool} {sofar : GroupSoFar}
    (hselector : Orderly (Parser.selectorWith group sofar.first relative) s (SelectorEnd P))
    (hP : ∀ selector ∈ sofar.selectors, P selector) :
    Orderly (Parser.groupStep group relative lax sofar) s
      (Turn (fun sofar s' => sofar.first = none ∧ s'.stream.Fresh ∧
          ∀ selector ∈ sofar.selectors, P selector)
        fun sofar s' => SelectorsEnd P sofar.selectors s') := by
  unfold Parser.groupStep
  refine hselector.bind fun selector s₁ _ hs₁ ⟨⟨u, hu⟩, hselected⟩ => ?_
  refine ite (fun _ => pure hs₁ ⟨⟨u, hu⟩, fun _ => hP⟩) fun _ => current_bind ?_
  unfold State.EndsSelector at hselected
  rw [hu.current_eq] at hselected ⊢
  extract_lets rest
  -- the token after the selector, and the placeholder
  have hrest : ∀ (t : Token) {s₂ : State}, s₂.InOrder → s₂.stream.Stopped →
      s₂.stream.current = t → ((t.kind == .comma) = true → s₂.stream.Fresh) →
      (∀ x, selector = some x → [TokenKind.comma, .lBrace].contains t.kind = true → P x) →
      Orderly (rest t) s₂ (Turn (fun sofar s' => sofar.first = none ∧ s'.stream.Fresh ∧
          ∀ selector ∈ sofar.selectors, P selector)
        fun sofar s' => SelectorsEnd P sofar.selectors s') := by
    intro t s₂ hs₂ hstopped hcurrent hfresh hended
    have hall : [TokenKind.comma, .lBrace].contains t.kind = true →
        ∀ x ∈ selector.toList ++ sofar.selectors, P x := fun hkind x hx =>
      (List.mem_append.mp hx).elim (fun hx => hended x (Option.mem_toList.mp hx) hkind) (hP x)
    refine ite (fun hcomma => pure hs₂ ⟨rfl, hfresh hcomma, hall ?_⟩) fun _ =>
      pure hs₂ ⟨hstopped, fun hbrace => hall ?_⟩
    · rw [eq_of_beq hcomma]
      rfl
    · rw [← hcurrent, hbrace]
      rfl
  -- neither a placeholder nor a comma has anything ahead
  have hat : ∀ kind : TokenKind, looksOn kind = false → (u.kind == kind) = true →
      s₁.stream.At u := by
    intro kind hother hkind
    rw [← eq_of_beq hkind] at hother
    exact hu.at_of_kind hother
  refine ite (fun hplaceholder => ?_) fun hplain => pure_bind (hrest u hs₁ ⟨u, hu⟩ hu.current_eq
    (fun hcomma => ?_) fun x hx => ?_)
  · have hnear := (hat .uvar rfl hplaceholder).near
    refine (grab hs₁ hnear).ran.bind fun t s₂ _ hs₂ ⟨ht, hran⟩ =>
      hrest t hs₂ ⟨t, .bare ht.1⟩ ht.1.current_eq (fun _ => ⟨t, ht.1⟩) fun x hx => ?_
    have htoken : (s₁.stream.get false false).1 = t :=
      Except.ok.inj (congrArg Prod.fst hran)
    have := hselected x hx
    rwa [if_pos hplaceholder, htoken] at this
  · exact ⟨u, hat .comma rfl hcomma⟩
  · have := hselected x hx
    rwa [if_neg hplain] at this

/-- **A list of selectors**, where the first one and those after a comma are
read in order. -/
theorem groupTo_succ {P : Selector → Prop} {depth : Nat} {first : Option Token}
    {relative : Bool} (hs : s.InOrder)
    (hfirst : Orderly (Parser.selectorWith (Parser.groupTo depth) first relative) s (SelectorEnd P))
    (hmore : ∀ s₁, Keeps s s₁ → s₁.InOrder → s₁.stream.Fresh →
      Orderly (Parser.selectorWith (Parser.groupTo depth) none relative) s₁ (SelectorEnd P))
    (lax : Bool) :
    Orderly (Parser.groupTo (depth + 1) first relative lax) s fun r s' =>
      s'.stream.Stopped ∧ ∀ selectors, r = some selectors → s'.stream.current.kind = .lBrace →
        ∀ selector ∈ selectors, P selector := by
  unfold Parser.groupTo
  refine (repeating_first (I := fun (sofar : GroupSoFar) s' => sofar.first = none ∧
      s'.stream.Fresh ∧ ∀ selector ∈ sofar.selectors, P selector)
    (Q := fun sofar s' => SelectorsEnd P sofar.selectors s')
    (a := ⟨[], first, false⟩) hs
    (groupStep hfirst fun _ h => absurd h List.not_mem_nil)
    (fun sofar s₁ h₁ hs₁ ⟨hnone, hfresh, hP⟩ => groupStep ?_ hP)
    fun sofar s₁ hI => ⟨hI.2.1.stopped, fun _ => hI.2.2⟩).bind
    fun sofar s₁ _ hs₁ ⟨⟨u, hu⟩, hP⟩ => ?_
  · rw [hnone]
    exact hmore s₁ h₁ hs₁ hfresh
  · refine ite (fun _ => failHere_bind hs₁ hu.ready) fun _ => pure hs₁ ⟨⟨u, hu⟩, ?_⟩
    intro selectors hsome hbrace selector hselector
    split_ifs at hsome
    obtain rfl := Option.some.inj hsome
    exact hP hbrace selector (List.mem_reverse.mp hselector)

theorem groupTo (depth : Nat) : OrderlyGroup (Parser.groupTo depth) := by
  induction depth with
  | zero =>
    exact fun _ _ _ {_} hs hstart =>
      throw hs tooDeep_not_isExhausted fun _ => hstart.near.ready
  | succ depth ih =>
    intro first relative lax s hs hstart
    have hselector : ∀ {first : Option Token} {s₁ : State}, s₁.InOrder → GroupStart first s₁ →
        Orderly (Parser.selectorWith (Parser.groupTo depth) first relative) s₁
          (SelectorEnd fun _ => True) := fun {_ _} hs₁ hstart₁ =>
      (selectorWith ih hs₁ hstart₁ relative).weaken
        fun _ _ _ hstopped => ⟨hstopped, fun _ _ _ => trivial⟩
    exact (groupTo_succ hs (hselector hs hstart)
      (fun s₁ _ hs₁ hfresh => hselector hs₁ hfresh.near) lax).weaken fun _ _ _ h => h.1

theorem selectorGroup : OrderlyGroup Parser.selectorGroup := fun first relative lax {_} hs hstart =>
  budget_bind (groupTo _ first relative lax hs hstart)

theorem selector (hs : s.InOrder) {first : Option Token} (hfirst : GroupStart first s)
    (relative : Bool) : Orderly (Parser.selector first relative) s fun _ s' => s'.stream.Stopped :=
  budget_bind (selectorWith (groupTo _) hs hfirst relative)

/-! ## The selectors of a rule -/

/-- **A selector that is read at a site** was read in the run. -/
theorem selectorWith_isRead {o : Options} {source : List Char} {first : Option Token} {depth : Nat}
    (h : Orderly (Parser.selectorWith (Parser.groupTo depth) first true) s
      fun _ s' => s'.stream.Stopped)
    (hsite : Selector.IsSite o source first s) (hbudget : s.budget = depth + 1) :
    Orderly (Parser.selectorWith (Parser.groupTo depth) first true) s
      (SelectorEnd (Selector.IsRead o source)) := by
  refine h.ran.weaken fun r _ hkeeps ⟨hstopped, hran⟩ => ⟨hstopped, ?_⟩
  rintro selector rfl hends
  exact ⟨s, first, depth, _, hsite, hbudget, hran, hkeeps.source_eq.trans hsite.source_eq, hends⟩

/-- **The selectors of a rule**, once the first one is read in order: those
after a comma are read where nothing is ahead. -/
theorem ruleSelectors {depth : Nat} (hs : s.InOrder) (hbudget : s.budget = depth + 1)
    (hfirst : Orderly (Parser.selectorWith (Parser.groupTo depth) (some t) true) s
      (SelectorEnd (Selector.IsRead s.options s.stream.source))) :
    Orderly (Parser.selectorGroup (some t) true false) s fun r s' =>
      s'.stream.Stopped ∧ ∀ selectors, r = some selectors → s'.stream.current.kind = .lBrace →
        ∀ selector ∈ selectors, selector.IsRead s.options s.stream.source := by
  refine budget_bind ?_
  rw [hbudget]
  refine groupTo_succ hs hfirst (fun s₁ h₁ hs₁ ⟨u, hu⟩ => ?_) false
  have hstart : GroupStart none s₁ := hu.near
  refine selectorWith_isRead (selectorWith (groupTo depth) hs₁ hstart true) (.bare ?_ hs₁.flush ?_)
    (h₁.budget_eq.trans hbudget)
  · exact ⟨hs₁.isSound, hu.bare, h₁.options_eq, h₁.source_eq⟩
  · exact fun _ h => by cases h

end Orderly

end Stylesheet
