import Stylesheet.Proofs.Compositional.Rule

/-!
# What parsers leave behind

A parser counts the blocks it is in, holds events back, and notes the
bracket that would have to be closed if something went wrong. Whoever runs
it next relies on finding all that as it was. The counters are put back
however a construct ends, and so is the holding back of events. The note
about the bracket is another matter: it is taken off only where a
construct ends well, and by whoever passes over a broken one.

`Settles` says this of a parser that is not strict. It tells apart the
parsers that take the note off whatever happens, which are **tidy**, from
those that may fail with it still there. No value and no media query notes a
bracket. An attribute test and the argument of a pseudo-class do, and take the
note off at their end only, so that selectors are not tidy. Whoever passes over
what is broken takes it off first of all.
-/

namespace Stylesheet

open Parse (State)
open Stylesheet.Parser

namespace Parse.State

/-- **What every run puts back**, and what it only adds to. -/
structure Restored (s s' : State) : Prop where
  /-- The number of blocks. -/
  depth : s'.depth = s.depth
  /-- The number of those that hold declarations. -/
  inStyle : s'.inStyle = s.inStyle
  /-- The number of those that belong to `@scope`. -/
  inScope : s'.inScope = s.inScope
  /-- No events are held back that were not before. -/
  deferred : s.deferred = none → s'.deferred = none
  /-- The options. -/
  options : s'.options = s.options
  /-- Events are added. -/
  events : s.events <:+ s'.events

variable {s s' s'' : State}

theorem Restored.refl (s : State) : Restored s s := ⟨rfl, rfl, rfl, id, rfl, List.suffix_rfl⟩

theorem Restored.trans (h : Restored s s') (h' : Restored s' s'') : Restored s s'' where
  depth := h'.depth.trans h.depth
  inStyle := h'.inStyle.trans h.inStyle
  inScope := h'.inScope.trans h.inScope
  deferred := h'.deferred ∘ h.deferred
  options := h'.options.trans h.options
  events := h.events.trans h'.events

/-- A run after which the parse is as strict as before. -/
theorem Restored.lax (h : Restored s s') (hs : s.options.strict = false) :
    s'.options.strict = false := (congrArg Options.strict h.options).trans hs

end Parse.State

open Parse.State (Restored)

/-- **No bracket is noted.** -/
def Unpaired (pair : Option TokenKind) : Prop := pair = none

/-- **A parser puts back what it changes**, run where the parse is not
strict and a bracket is noted, if any, that has a property. -/
structure Settles {α : Type} (P : Option TokenKind → Prop) (tidy : Bool) (p : Parser α) : Prop where
  /-- What every run puts back. -/
  restores : ∀ s, s.options.strict = false → Restored s (p s).2
  /-- After a success no bracket is noted. -/
  ok : ∀ s, s.options.strict = false → P s.pair → ∀ a, (p s).1 = .ok a → Unpaired (p s).2.pair
  /-- A tidy one leaves none after a failure either. -/
  error : tidy = true → ∀ s, s.options.strict = false → P s.pair →
    ∀ e, (p s).1 = .error e → Unpaired (p s).2.pair

namespace Settles

variable {α β σ : Type} {P P' : Option TokenKind → Prop} {tidy tidy' : Bool} {p q : Parser α}
  {f : α → Parser β}

/-! ## Constructs -/

/-- A tidy parser can be used where none is asked for, and for any bracket
that is noted one that is noted before. -/
theorem weaken (h : Settles P tidy p) (hpair : ∀ pair, P' pair → P pair)
    (htidy : tidy' = true → tidy = true) : Settles P' tidy' p where
  restores := h.restores
  ok s hs hP := h.ok s hs (hpair _ hP)
  error ht s hs hP := h.error (htidy ht) s hs (hpair _ hP)

/-- A tidy parser where none is asked for. -/
theorem anyway (h : Settles P true p) : Settles P tidy p := h.weaken (fun _ => id) fun _ => rfl

theorem pure (a : α) : Settles Unpaired tidy (Pure.pure a : Parser α) where
  restores s _ := Restored.refl s
  ok _ _ hP _ _ := hP
  error _ _ _ hP _ _ := hP

theorem throw (e : Diagnostic) : Settles Unpaired tidy (MonadExcept.throw e : Parser α) where
  restores s _ := Restored.refl s
  ok _ _ _ _ ha := by cases ha
  error _ _ _ hP _ _ := hP

/-- A failure with a bracket that is noted. -/
theorem throw_untidy (e : Diagnostic) : Settles P false (MonadExcept.throw e : Parser α) where
  restores s _ := Restored.refl s
  ok _ _ _ _ ha := by cases ha
  error ht := by cases ht

/-- What the rest of a run puts back. -/
theorem restores_bind (h : ∀ s, s.options.strict = false → Restored s (p s).2)
    (hf : ∀ a s, s.options.strict = false → Restored s (f a s).2) (s : State)
    (hs : s.options.strict = false) : Restored s ((p >>= f) s).2 := by
  have hfirst := h s hs
  rcases hrun : p s with ⟨e | a, s₁⟩ <;> rw [hrun] at hfirst
  · rw [bind_error hrun]
    exact hfirst
  · rw [bind_ok hrun]
    exact hfirst.trans (hf a s₁ (hfirst.lax hs))

theorem bind (h : Settles P tidy p) (hf : ∀ a, Settles Unpaired tidy (f a)) :
    Settles P tidy (p >>= f) where
  restores := restores_bind h.restores fun a => (hf a).restores
  ok s hs hP b hb := by
    have hrestored := h.restores s hs
    have hok := h.ok s hs hP
    rcases hrun : p s with ⟨e | a, s₁⟩ <;> rw [hrun] at hrestored hok
    · rw [bind_error hrun] at hb
      cases hb
    · rw [bind_ok hrun] at hb ⊢
      exact (hf a).ok s₁ (hrestored.lax hs) (hok a rfl) b hb
  error htidy s hs hP e he := by
    have hrestored := h.restores s hs
    have hok := h.ok s hs hP
    have herror := h.error htidy s hs hP
    rcases hrun : p s with ⟨e' | a, s₁⟩ <;> rw [hrun] at hrestored hok herror
    · rw [bind_error hrun]
      exact herror e' rfl
    · rw [bind_ok hrun] at he ⊢
      exact (hf a).error htidy s₁ (hrestored.lax hs) (hok a rfl) e he

/-- **After anything that puts back what it changes**, a parser that takes
the note off. -/
theorem bind_clears (h : Settles P' false p) (hf : ∀ a, Settles (fun _ => True) false (f a)) :
    Settles P false (p >>= f) where
  restores := restores_bind h.restores fun a => (hf a).restores
  ok s hs _ b hb := by
    have hrestored := h.restores s hs
    rcases hrun : p s with ⟨e | a, s₁⟩ <;> rw [hrun] at hrestored
    · rw [bind_error hrun] at hb
      cases hb
    · rw [bind_ok hrun] at hb ⊢
      exact (hf a).ok s₁ (hrestored.lax hs) trivial b hb
  error htidy := by cases htidy

theorem pure_bind {a : α} (h : Settles P tidy (f a)) : Settles P tidy (Pure.pure a >>= f) :=
  ⟨h.restores, h.ok, h.error⟩

theorem ite {c : Prop} [Decidable c] (hpos : Settles P tidy p) (hneg : Settles P tidy q) :
    Settles P tidy (if c then p else q) := by
  by_cases hc : c
  · rwa [if_pos hc]
  · rwa [if_neg hc]

/-- **A failure that is caught.** What comes after it finds a bracket noted
unless the parser that failed was tidy. -/
theorem attempt_bind {f : Except Diagnostic α → Parser β} (h : Settles P tidy p)
    (hok : ∀ a, Settles Unpaired tidy' (f (.ok a)))
    (herror : ∀ e, Settles (fun pair => tidy = true → Unpaired pair) tidy' (f (.error e))) :
    Settles P tidy' (Parser.attempt p >>= f) := by
  have hrun : ∀ s, (Parser.attempt p >>= f) s = f (p s).1 (p s).2 := fun s =>
    bind_ok (attempt_apply p s)
  refine ⟨fun s hs => ?_, fun s hs hP b hb => ?_, fun htidy s hs hP e he => ?_⟩
  · rw [hrun]
    have hfirst := h.restores s hs
    rcases hanswer : (p s).1 with e | a
    · exact hfirst.trans ((herror e).restores _ (hfirst.lax hs))
    · exact hfirst.trans ((hok a).restores _ (hfirst.lax hs))
  · rw [hrun] at hb ⊢
    have hlax := (h.restores s hs).lax hs
    rcases hanswer : (p s).1 with e | a <;> rw [hanswer] at hb
    · exact (herror e).ok _ hlax (fun htidy => h.error htidy s hs hP e hanswer) b hb
    · exact (hok a).ok _ hlax (h.ok s hs hP a hanswer) b hb
  · rw [hrun] at he ⊢
    have hlax := (h.restores s hs).lax hs
    rcases hanswer : (p s).1 with e' | a <;> rw [hanswer] at he
    · exact (herror e').error htidy _ hlax (fun htidy => h.error htidy s hs hP e' hanswer) e he
    · exact (hok a).error htidy _ hlax (h.ok s hs hP a hanswer) e he

/-- A failure that is caught and answered, by a tidy parser. -/
theorem attempt (h : Settles P true p) : Settles P tidy (Parser.attempt p) where
  restores s hs := by
    rw [attempt_apply]
    exact h.restores s hs
  ok s hs hP r _ := by
    rw [attempt_apply]
    rcases hanswer : (p s).1 with e | a
    · exact h.error rfl s hs hP e hanswer
    · exact h.ok s hs hP a hanswer
  error _ s _ _ e he := by
    rw [attempt_apply] at he
    cases he

theorem ofExcept (r : Except Diagnostic α) : Settles Unpaired tidy (Parser.ofExcept r) := by
  cases r with
  | ok a => exact pure a
  | error e => exact throw e

/-! ## The state -/

theorem state_bind {f : State → Parser β}
    (h : ∀ s, Settles (fun pair => pair = s.pair ∧ P pair) tidy (f s)) :
    Settles P tidy (state >>= f) where
  restores s hs := (h s).restores s hs
  ok s hs hP b hb := (h s).ok s hs ⟨rfl, hP⟩ b hb
  error htidy s hs hP e he := (h s).error htidy s hs ⟨rfl, hP⟩ e he

/-- Looking at the state, whatever bracket is noted. -/
theorem looking {f : State → Parser β} (h : ∀ s, Settles P tidy (f s)) :
    Settles P tidy (state >>= f) :=
  state_bind fun s => (h s).weaken (fun _ => And.right) id

theorem options_bind {f : Options → Parser β} (h : ∀ o, Settles P tidy (f o)) :
    Settles P tidy (Parser.options >>= f) :=
  have h' := looking (f := fun s => f s.options) fun s => h s.options
  ⟨h'.restores, h'.ok, h'.error⟩

/-- **A parse that is not strict goes on.** -/
theorem unless_strict {q : Parser β} {r : Options → Parser β} (h : Settles P tidy q)
    (hr : ∀ o, o.strict = false → r o = q) : Settles P tidy (Parser.options >>= r) := by
  have hrun : ∀ s : State, s.options.strict = false → (Parser.options >>= r) s = q s := by
    intro s hs
    show r s.options s = q s
    rw [hr _ hs]
  refine ⟨fun s hs => ?_, fun s hs => ?_, fun htidy s hs => ?_⟩ <;> rw [hrun s hs]
  · exact h.restores s hs
  · exact h.ok s hs
  · exact h.error htidy s hs

/-- **A change of the state that puts everything back but the note**, with
an answer made from the state. -/
theorem of_modifyGet {m : State → α × State}
    (hrestored : ∀ s, Restored s (m s).2) (hpair : ∀ s, P s.pair → Unpaired (m s).2.pair) :
    Settles P tidy (modifyGet m : Parser α) where
  restores s _ := hrestored s
  ok s _ hP _ _ := hpair s hP
  error _ _ _ _ _ he := by cases he

/-- **A change for as long as a parser runs**, which is undone however it
ends. -/
theorem within {enter leave : State → State}
    (hleave : ∀ s s', Restored (enter s) s' → Restored s (leave s'))
    (hkept : ∀ s, (enter s).pair = s.pair ∧ (enter s).options = s.options ∧
      (leave s).pair = s.pair)
    (h : Settles Unpaired tidy p) (hf : ∀ a, Settles Unpaired tidy (f a)) :
    Settles Unpaired tidy (do
      update enter
      let r ← Parser.attempt p
      update leave
      let a ← Parser.ofExcept r
      f a) := by
  have hrun : ∀ s, (do
      update enter
      let r ← Parser.attempt p
      update leave
      let a ← Parser.ofExcept r
      f a : Parser β) s =
        (Parser.ofExcept (p (enter s)).1 >>= f) (leave (p (enter s)).2) := fun s =>
    bind_ok (attempt_apply p (enter s))
  have hend : ∀ r, Settles Unpaired tidy (Parser.ofExcept r >>= f) := fun r =>
    (ofExcept r).bind hf
  have hlax : ∀ s, s.options.strict = false → (enter s).options.strict = false := fun s hs => by
    rw [(hkept s).2.1, hs]
  refine ⟨fun s hs => ?_, fun s hs hP b hb => ?_, fun htidy s hs hP e he => ?_⟩
  all_goals
    have hrestored := hleave s _ (h.restores (enter s) (hlax s hs))
  · rw [hrun]
    exact hrestored.trans ((hend _).restores _ (hrestored.lax hs))
  · have hP' : Unpaired (enter s).pair := (hkept s).1.trans hP
    rw [hrun] at hb ⊢
    rcases hanswer : (p (enter s)).1 with e | a <;> rw [hanswer] at hb
    · cases hb
    · exact (hend (.ok a)).ok _ (hrestored.lax hs)
        ((hkept _).2.2.trans (h.ok _ (hlax s hs) hP' a hanswer)) b hb
  · have hP' : Unpaired (enter s).pair := (hkept s).1.trans hP
    rw [hrun] at he ⊢
    have hpair : Unpaired (leave (p (enter s)).2).pair := by
      refine (hkept _).2.2.trans ?_
      rcases hanswer : (p (enter s)).1 with e' | a
      · exact h.error htidy _ (hlax s hs) hP' e' hanswer
      · exact h.ok _ (hlax s hs) hP' a hanswer
    exact (hend _).error htidy _ (hrestored.lax hs) hpair e he

/-- **Taking the note off.** -/
theorem unpair : Settles P tidy (update fun s => { s with pair := none }) :=
  of_modifyGet (fun _ => ⟨rfl, rfl, rfl, id, rfl, List.suffix_rfl⟩) fun _ _ => rfl

/-- **Noting a bracket**, which is taken off afterwards. -/
theorem pair_bind {pair : Option TokenKind} {f : Unit → Parser β}
    (hf : Settles (fun _ => True) false (f ())) :
    Settles P false ((update fun s => { s with pair := pair }) >>= f) where
  restores := restores_bind (fun _ _ => ⟨rfl, rfl, rfl, id, rfl, List.suffix_rfl⟩) fun _ =>
    hf.restores
  ok s hs _ b hb := hf.ok { s with pair := pair } hs trivial b hb
  error htidy := by cases htidy

/-- Moving the stream, whatever bracket is noted. -/
theorem moveStream_bind {move : Stream → Stream} {f : Unit → Parser β}
    (hf : Settles P tidy (f ())) : Settles P tidy (moveStream move >>= f) where
  restores := restores_bind (fun _ _ => ⟨rfl, rfl, rfl, id, rfl, List.suffix_rfl⟩) fun _ =>
    hf.restores
  ok s hs hP b hb := hf.ok { s with stream := move s.stream } hs hP b hb
  error htidy s hs hP e he := hf.error htidy { s with stream := move s.stream } hs hP e he

/-! ## Events -/

theorem dispatch (e : Event) : Settles Unpaired tidy (Parser.dispatch e) :=
  of_modifyGet (fun _ => ⟨rfl, rfl, rfl, id, rfl, List.suffix_cons _ _⟩) fun _ hP => hP

theorem dispatchAll (events : List Event) :
    Settles Unpaired tidy (events.forM Parser.dispatch) := by
  induction events with
  | nil => exact pure ()
  | cons e events ih => exact (dispatch e).bind fun _ => ih

theorem fire (kind : EventKind) (loc : Location) :
    Settles Unpaired tidy (Parser.fire kind loc) := by
  refine ⟨fun s _ => ?_, fun s _ hP _ _ => ?_, fun _ s _ hP _ _ => ?_⟩ <;>
    obtain ⟨_, _, _, _, events, deferred, _, _, _, pair, _⟩ := s <;> cases deferred
  · exact ⟨rfl, rfl, rfl, id, rfl, List.suffix_cons _ _⟩
  · exact ⟨rfl, rfl, rfl, nofun, rfl, List.suffix_rfl⟩
  all_goals exact hP

/-- **What is put together from parsers that note no bracket** puts back what it
changes. -/
theorem reads : Reporting fun _ p => Settles Unpaired tidy p where
  pure := pure
  throw := throw
  bind := bind
  look _ := looking
  ask _ := of_modifyGet (fun _ => ⟨rfl, rfl, rfl, id, rfl, List.suffix_rfl⟩) fun _ => id
  warn _ _ := fire _ _
  fire _ := fire _ _

theorem report (e : Diagnostic) : Settles Unpaired tidy (Parser.report e) :=
  looking fun _ => fire _ _

/-- **Passing over what is broken** takes the note off, and never fails. -/
theorem recover (e : Diagnostic) (inBlock : Bool) : Settles P tidy (Parser.recover e inBlock) := by
  unfold Parser.recover
  refine state_bind fun s => ?_
  have hend : Settles Unpaired tidy (do
      moveStream (·.skipBroken inBlock)
      Parser.report e) := (reads.moveStream _).bind fun _ => report e
  cases s.pair with
  | some close =>
    exact unpair.bind fun _ => (reads.discard (reads.expr _ _).attempt).bind fun _ => hend
  | none => exact (hend.weaken (fun _ => And.left) id).pure_bind

/-! ## Selectors -/

/-- An attribute test takes the note off at its end only. -/
theorem attributeTest (t : Token) : Settles Unpaired false (Parser.attributeTest t) := by
  unfold Parser.attributeTest
  refine (reads.mustMatchSmart _).bind fun first => pair_bind ?_
  refine (reads.attributeHead first).bind_clears fun head => ?_
  extract_lets afterName
  have hafterName : ∀ name, Settles (fun _ => True) false (afterName name) := by
    intro name
    refine (reads.attributeOp head).bind_clears fun head => ?_
    extract_lets afterValue
    have hafterValue : ∀ found, Settles (fun _ => True) false (afterValue found) := by
      rintro ⟨value, flag, close⟩
      have hend : ∀ close : Token, Settles (fun _ => True) false (do
          update fun s => { s with pair := none }
          return (⟨.attribute ⟨head.ns, name, head.op, value, flag⟩,
            ← slice t.location.offset close.stop.offset, t.location⟩ : Modifier Selector)) :=
        fun close => unpair.bind fun _ => (reads.slice _ _).bind fun _ => pure _
      cases close with
      | some close => exact (hend close).pure_bind
      | none => exact (reads.mustMatchSmart _).bind_clears hend
    exact ite (reads.attributeValue.bind_clears fun _ => (hafterValue _).pure_bind)
      (hafterValue _).pure_bind
  cases head.name with
  | some name => exact (hafterName name).pure_bind
  | none => exact (reads.mustMatch _).bind_clears fun _ => (hafterName _).pure_bind

/-- The argument of a pseudo-class takes the note off at its end only. -/
theorem pseudo {group : GroupParser}
    (hgroup : ∀ first relative lax, Settles Unpaired false (group first relative lax)) (t : Token) :
    Settles Unpaired false (Parser.pseudo group t) := by
  unfold Parser.pseudo
  refine (reads.matchKinds _).bind fun colons => (reads.mustMatch _).bind fun name => ?_
  extract_lets rest
  have hrest : ∀ found, Settles Unpaired false (rest found) := fun _ =>
    reads.current.bind fun _ => (reads.slice _ _).bind fun _ => pure _
  exact ite (hrest _).pure_bind (pair_bind ((reads.pseudoArgs hgroup _).bind_clears fun _ =>
    unpair.bind fun _ => (hrest _).pure_bind))

/-- **Selectors** put back what they change, but are not tidy. -/
theorem selecting : Selecting fun _ p => Settles Unpaired false p where
  toReading := reads.toReading
  attributeTest := attributeTest
  pseudo := pseudo

end Settles

end Stylesheet
