import Stylesheet.Event

/-!
# How events nest

The events of a stylesheet are flat, and blocks are told by their start
and their end. `Nests` runs a stack of blocks over a list of events: the
start of a block puts it on the stack, and its end takes it off again.
An error may take any number of blocks off the stack, as those are given
up at it; nothing else may. So a list without errors that leads from the
empty stack to the empty stack is `Balanced`, with every block closed in
its place.
-/

namespace Stylesheet

/-- **Neither a block's start or end nor an error.** -/
def Event.IsPlain (e : Event) : Prop :=
  match e.kind with
  | .start _ | .stop _ _ | .error _ _ => False
  | _ => True

/-- **An error.** -/
def Event.IsError (e : Event) : Prop :=
  match e.kind with
  | .error _ _ => True
  | _ => False

instance : DecidablePred Event.IsError := fun e => by
  unfold Event.IsError
  exact match e.kind with
    | .error _ _ => isTrue trivial
    | .startStylesheet | .endStylesheet | .charset _ | .import_ _ _ _ | .namespace_ _ _ | .layer _
    | .start _ | .stop _ _ | .supportsSelector _ | .property _ | .warning _ => isFalse id

/-- **A run of a stack of open blocks over events**, the innermost block
first. -/
inductive Nests : List BlockKind → List Event → List BlockKind → Prop where
  /-- Without events nothing changes. -/
  | done (open_ : List BlockKind) : Nests open_ [] open_
  /-- A block is opened. -/
  | start {open_ after : List BlockKind} {events : List Event} {kind : BlockKind} {loc : Location} :
      Nests (kind :: open_) events after → Nests open_ (⟨.start kind, loc⟩ :: events) after
  /-- The innermost block, and no other, is closed. -/
  | stop {open_ after : List BlockKind} {events : List Event} {kind : BlockKind} {empty : Bool}
      {loc : Location} :
      Nests open_ events after → Nests (kind :: open_) (⟨.stop kind empty, loc⟩ :: events) after
  /-- Some blocks are given up at an error. -/
  | error {open_ after : List BlockKind} {events : List Event} {e : Diagnostic}
      {recoverable : Bool} {loc : Location} (lost : List BlockKind) :
      Nests open_ events after → Nests (lost ++ open_) (⟨.error e recoverable, loc⟩ :: events) after
  /-- All other events leave the stack alone. -/
  | plain {open_ after : List BlockKind} {events : List Event} {e : Event} :
      e.IsPlain → Nests open_ events after → Nests open_ (e :: events) after

namespace Nests

variable {before between after : List BlockKind} {es es' : List Event} {e : Event}

/-- **Runs can be put together.** -/
theorem append (h : Nests before es between) (h' : Nests between es' after) :
    Nests before (es ++ es') after := by
  induction h with
  | done => exact h'
  | start _ ih => exact .start (ih h')
  | stop _ ih => exact .stop (ih h')
  | error lost _ ih => exact .error lost (ih h')
  | plain he _ ih => exact .plain he (ih h')

/-- A run can be taken apart after its first event. -/
theorem uncons (h : Nests before (e :: es) after) :
    ∃ between, Nests before [e] between ∧ Nests between es after := by
  cases h with
  | start h => exact ⟨_, .start (.done _), h⟩
  | stop h => exact ⟨_, .stop (.done _), h⟩
  | error lost h => exact ⟨_, .error lost (.done _), h⟩
  | plain he h => exact ⟨_, .plain he (.done _), h⟩

/-- **What becomes of an open block** in a run that leaves none open: it
is closed when everything inside it is, or it is given up at an error,
with what is still open inside it. -/
theorem fate {kind : BlockKind} {inner open_ : List BlockKind}
    (h : Nests (inner ++ kind :: open_) es []) :
    (∃ body empty loc rest, es = body ++ ⟨.stop kind empty, loc⟩ :: rest ∧ Nests inner body []) ∨
      ∃ body e rest lost, es = body ++ e :: rest ∧ e.IsError ∧ Nests inner body lost := by
  obtain ⟨before, hbefore⟩ : ∃ before, inner ++ kind :: open_ = before := ⟨_, rfl⟩
  obtain ⟨after, hafter⟩ : ∃ after : List BlockKind, [] = after := ⟨_, rfl⟩
  rw [hbefore, hafter] at h
  induction h generalizing inner with
  | done => simp [← hafter] at hbefore
  | start _ ih =>
    subst hbefore
    obtain ⟨body, empty, loc, rest, rfl, hbody⟩ | ⟨body, e, rest, lost, rfl, he, hbody⟩ :=
      ih List.cons_append hafter
    · exact .inl ⟨_ :: body, empty, loc, rest, rfl, .start hbody⟩
    · exact .inr ⟨_ :: body, e, rest, lost, rfl, he, .start hbody⟩
  | stop _ ih =>
    cases inner with
    | nil =>
      obtain ⟨rfl, -⟩ := List.cons.inj hbefore
      exact .inl ⟨[], _, _, _, rfl, .done _⟩
    | cons first inner =>
      obtain ⟨rfl, htail⟩ := List.cons.inj hbefore
      obtain ⟨body, empty, loc, rest, rfl, hbody⟩ | ⟨body, e, rest, lost, rfl, he, hbody⟩ :=
        ih htail hafter
      · exact .inl ⟨_ :: body, empty, loc, rest, rfl, .stop hbody⟩
      · exact .inr ⟨_ :: body, e, rest, lost, rfl, he, .stop hbody⟩
  | error lost _ ih =>
    rcases List.append_eq_append_iff.mp hbefore with ⟨more, rfl, hmore⟩ | ⟨more, rfl, hmore⟩
    · -- the block is among those that are given up
      exact .inr ⟨[], _, _, inner, rfl, trivial, .done _⟩
    · obtain ⟨body, empty, loc, rest, rfl, hbody⟩ | ⟨body, e, rest, lost', rfl, he, hbody⟩ :=
        ih hmore.symm hafter
      · exact .inl ⟨_ :: body, empty, loc, rest, rfl, .error lost hbody⟩
      · exact .inr ⟨_ :: body, e, rest, lost', rfl, he, .error lost hbody⟩
  | plain he _ ih =>
    obtain ⟨body, empty, loc, rest, rfl, hbody⟩ | ⟨body, e, rest, lost, rfl, herror, hbody⟩ :=
      ih hbefore hafter
    · exact .inl ⟨_ :: body, empty, loc, rest, rfl, .plain he hbody⟩
    · exact .inr ⟨_ :: body, e, rest, lost, rfl, herror, .plain he hbody⟩

/-- A run can be taken apart anywhere. -/
theorem split {es' : List Event} (h : Nests before (es ++ es') after) :
    ∃ between, Nests before es between ∧ Nests between es' after := by
  induction es generalizing before with
  | nil => exact ⟨before, .done _, h⟩
  | cons e es ih =>
    obtain ⟨first, hfirst, hrest⟩ := uncons h
    obtain ⟨between, hes, hes'⟩ := ih hrest
    exact ⟨between, hfirst.append hes, hes'⟩

end Nests

/-! ## Without errors -/

/-- **Every block is closed in its place.** -/
inductive Balanced : List Event → Prop where
  /-- Nothing is balanced. -/
  | nil : Balanced []
  /-- An event that is no start or end of a block. -/
  | plain {e : Event} {events : List Event} : e.IsPlain → Balanced events → Balanced (e :: events)
  /-- A block from its start to its end, and what follows. -/
  | block {kind : BlockKind} {empty : Bool} {loc stop : Location} {body rest : List Event} :
      Balanced body → Balanced rest →
      Balanced (⟨.start kind, loc⟩ :: (body ++ ⟨.stop kind empty, stop⟩ :: rest))

/-- **Events that close some open blocks in turn**, with balanced events
before the first, between them and after the last. -/
def Unwinds : List BlockKind → List Event → Prop
  | [], events => Balanced events
  | kind :: open_, events => ∃ body empty loc rest,
      events = body ++ ⟨.stop kind empty, loc⟩ :: rest ∧ Balanced body ∧ Unwinds open_ rest

namespace Unwinds

variable {open_ : List BlockKind} {es : List Event}

/-- A plain event in front closes nothing. -/
theorem cons_plain {e : Event} (he : e.IsPlain) (h : Unwinds open_ es) :
    Unwinds open_ (e :: es) := by
  cases open_ with
  | nil => exact Balanced.plain he h
  | cons kind open_ =>
    obtain ⟨body, empty, loc, rest, rfl, hbody, hrest⟩ := h
    exact ⟨e :: body, empty, loc, rest, rfl, hbody.plain he, hrest⟩

/-- Nor does a whole block in front. -/
theorem cons_block {kind : BlockKind} {loc : Location} (h : Unwinds (kind :: open_) es) :
    Unwinds open_ (⟨.start kind, loc⟩ :: es) := by
  obtain ⟨body, empty, stop, rest, rfl, hbody, hrest⟩ := h
  cases open_ with
  | nil => exact Balanced.block hbody hrest
  | cons outer open_ =>
    obtain ⟨body', empty', stop', rest', rfl, hbody', hrest'⟩ := hrest
    refine ⟨⟨.start kind, loc⟩ :: (body ++ ⟨.stop kind empty, stop⟩ :: body'), empty', stop', rest',
      by simp, hbody.block hbody', hrest'⟩

end Unwinds

/-- **A run without errors closes every open block.** -/
theorem Nests.unwinds {open_ : List BlockKind} {es : List Event} (h : Nests open_ es [])
    (hnone : ∀ e ∈ es, ¬e.IsError) : Unwinds open_ es := by
  generalize hafter : ([] : List BlockKind) = after at h
  induction h with
  | done => exact hafter ▸ Balanced.nil
  | start _ ih => exact (ih (fun e he => hnone e (List.mem_cons_of_mem _ he)) hafter).cons_block
  | stop _ ih =>
    exact ⟨[], _, _, _, rfl, Balanced.nil,
      ih (fun e he => hnone e (List.mem_cons_of_mem _ he)) hafter⟩
  | error => exact absurd trivial (hnone _ List.mem_cons_self)
  | plain he _ ih =>
    exact (ih (fun e he => hnone e (List.mem_cons_of_mem _ he)) hafter).cons_plain he

end Stylesheet
