import Stylesheet.Parse.Declaration
import Stylesheet.Proofs.Lookahead.Window
import Stylesheet.Proofs.Passing
import Stylesheet.Proofs.Reads.Basic

/-!
# Parsers that can take back what they take back

A production looks ahead by handing out tokens and taking them back, and
the window from which it takes them back is short. `Orderly` says of a
parser, run from a state, that it never runs out of tokens to take back,
and what a caller needs to know to go on in the same way: where the reader
stands, and what is left ahead when the parser fails.

It says one thing more. Wherever a value or a list of selectors is read
that ends up in an event, nothing is ahead: what is read is decided by the
text that is left, and not by what was looked at before.
-/

namespace Stylesheet

open Parse (State)
open Parse.State (Keeps)

/-! ## What is reported -/

/-- **The complaint that there is nothing to take back.** -/
def Diagnostic.IsExhausted (e : Diagnostic) : Prop := e.message = "Too much lookahead."

/-- A message is told by its first letter. -/
theorem Diagnostic.not_isExhausted {e : Diagnostic} (h : e.message.toList.head? ≠ some 'T') :
    ¬e.IsExhausted := by
  intro he
  rw [he] at h
  exact h rfl

/-- A text starts as its first part does. -/
theorem head?_append_of_head? {lead rest : String} {c : Char}
    (h : lead.toList.head? = some c) : (lead ++ rest).toList.head? = some c := by
  rw [String.toList_append, List.head?_append, h]
  rfl

theorem Token.unexpected_not_isExhausted (t : Token) (expected : String) :
    ¬(t.unexpected expected).IsExhausted := by
  refine Diagnostic.not_isExhausted ?_
  unfold Token.unexpected Diagnostic.at_
  dsimp only
  split_ifs
  · rw [head?_append_of_head? (c := 'U') rfl]
    decide
  · rw [head?_append_of_head? (head?_append_of_head? (head?_append_of_head? (c := 'E') rfl))]
    decide

theorem tooDeep_not_isExhausted : ¬Parser.tooDeep.IsExhausted :=
  Diagnostic.not_isExhausted (by decide)

namespace Parse

/-- **A place of a run where a construct is read**: nothing is ahead. -/
structure State.IsSite (o : Options) (source : List Char) (s : State) : Prop where
  /-- The state is sound. -/
  isSound : s.IsSound
  /-- Nothing is ahead. -/
  bare : s.stream.ahead = []
  /-- The options are those of the run. -/
  options_eq : s.options = o
  /-- The source is that of the run. -/
  source_eq : s.stream.source = source

end Parse

/-- **A value that was read in a run**, as that of a declaration whose name
is not custom. -/
def Value.IsRead (o : Options) (source : List Char) (v : Value) : Prop :=
  ∃ s ends, s.IsSite o source ∧ (ends = Parser.valueEnd ∨ ends = Parser.bracketEnd) ∧
    (Parser.expr ends false s).1 = .ok (some v)

/-- **Where a selector is read**, whose first token may have been read
already. Nothing is ahead then, with one exception: the selector starts
with a name that was first taken for that of a property, and after a blank
there is a newline that is escaped. That counts as a blank, and as such it
is passed over where it is ahead, but not where it is cut. -/
inductive Selector.IsSite (o : Options) (source : List Char) : Option Token → State → Prop where
  /-- Nothing is ahead. -/
  | bare {first : Option Token} {s : State} (hsite : s.IsSite o source) (hflush : s.stream.Flush)
      (hfirst : ∀ t, first = some t → t.IsCut source ∧ s.stream.reader.location = t.stop) :
      Selector.IsSite o source first s
  /-- A blank and a newline that is escaped are ahead. -/
  | escaped {t : Token} {r : Reader} {behind : List Token} {s : State} (hs : s.IsSound)
      (hoptions : s.options = o) (hsource : s.stream.source = source) (ht : t.IsCut source)
      (hname : Stream.IsElementName t) (hcustom : t.isCustomIdent = false) (hat : r.IsAt)
      (hstop : r.location = t.stop) (hblank : (r.lex Stream.spaced).1.kind = .whitespace)
      (hseen : ((r.lex Stream.spaced).2.lex .visible).1.kind = .whitespace)
      (hstream : s.stream = ⟨((r.lex Stream.spaced).2.lex .visible).2, t :: behind,
        [(r.lex Stream.spaced).1, ((r.lex Stream.spaced).2.lex .visible).1]⟩) :
      Selector.IsSite o source (some t) s

/-- A site is one of the source. -/
theorem Selector.IsSite.source_eq {o : Options} {source : List Char} {first : Option Token}
    {s : State} (h : Selector.IsSite o source first s) : s.stream.source = source := by
  cases h with
  | bare hsite => exact hsite.source_eq
  | escaped _ _ hsource => exact hsource

/-- **A state in which a selector of a rule ends**: a comma or a brace comes
next, placeholders aside. -/
def Parse.State.EndsSelector (s : State) : Prop :=
  [TokenKind.comma, .lBrace].contains (if s.stream.current.kind == .uvar
    then (s.stream.get false false).1 else s.stream.current).kind = true

/-- **A selector that was read in a run**, as one of a rule. -/
def Selector.IsRead (o : Options) (source : List Char) (selector : Selector) : Prop :=
  ∃ s first depth s', Selector.IsSite o source first s ∧ s.budget = depth + 1 ∧
    Parser.selectorWith (Parser.groupTo depth) first true s = (.ok (some selector), s') ∧
    s'.stream.source = source ∧ s'.EndsSelector

/-- **What is so of every event of a run**: no error complains that there
was nothing to take back, the values of declarations and the selectors of
rules were read where nothing was ahead, and what is wrong with a declaration
was found when it was checked. -/
def Event.IsOrderly (o : Options) (source : List Char) (e : Event) : Prop :=
  match e.kind with
  | .error d _ => ¬d.IsExhausted
  | .property d =>
    ((∀ t : Token, t.IsCut source → t.location = d.property.location → t.isCustomIdent = false) →
      d.value.IsRead o source) ∧
    ∀ e, d.invalid = some e → d.value.IsRead o source ∧
      ∃ v : Validator, (v.check d.property d.value d.scope).1 = .error e
  | .start (.rule selectors) => ∀ selector ∈ selectors, selector.IsRead o source
  | _ => True

namespace Parse.State

/-- **A state of a run that has gone well so far.** -/
structure InOrder (s : State) : Prop where
  /-- The state is sound. -/
  isSound : s.IsSound
  /-- The reader stands right after the window. -/
  flush : s.stream.Flush
  /-- The events reported are orderly. -/
  events : ∀ e ∈ s.events, e.IsOrderly s.options s.stream.source
  /-- Those held back are so, too. -/
  deferred : ∀ held, s.deferred = some held → ∀ e ∈ held, e.IsOrderly s.options s.stream.source

variable {s s' : State}

/-- Another stream of the same source. -/
theorem InOrder.withStream (h : s.InOrder) {st : Stream} (hst : st.IsSound) (hflush : st.Flush)
    (hsource : st.source = s.stream.source) : InOrder { s with stream := st } where
  isSound := (h.isSound.withStream hst hsource).isSound
  flush := hflush
  events e he := by
    show e.IsOrderly s.options st.source
    rw [hsource]
    exact h.events e he
  deferred held hheld e he := by
    show e.IsOrderly s.options st.source
    rw [hsource]
    exact h.deferred held hheld e he

/-- A change that events do not depend on. -/
theorem InOrder.of_eq (h : s.InOrder) (hsound : s'.IsSound) (hstream : s'.stream = s.stream)
    (hoptions : s'.options = s.options) (hevents : s'.events = s.events)
    (hdeferred : s'.deferred = s.deferred) : s'.InOrder where
  isSound := hsound
  flush := hstream ▸ h.flush
  events e he := by
    rw [hstream, hoptions]
    exact h.events e (hevents ▸ he)
  deferred held hheld e he := by
    rw [hstream, hoptions]
    exact h.deferred held (hdeferred ▸ hheld) e he

/-- A state with nothing ahead is a site. -/
theorem InOrder.isSite (h : s.InOrder) (hbare : s.stream.ahead = []) :
    s.IsSite s.options s.stream.source := ⟨h.isSound, hbare, rfl, rfl⟩

end Parse.State

/-- **A parser is orderly from a state.** Usually the next item can start
where it fails. A strict parse ends there, and nothing has to be said of
what it leaves. -/
structure Orderly {α : Type} (p : Parser α) (s : State) (Q : α → State → Prop)
    (E : Stream → Prop := Stream.Ready) : Prop where
  /-- What every run keeps is kept. -/
  keeps : Keeps s (p s).2
  /-- The run has still gone well. -/
  inOrder : (p s).2.InOrder
  /-- A failure is none to take tokens back, and it has its condition, too. -/
  error : ∀ e, (p s).1 = .error e →
    ¬e.IsExhausted ∧ ((p s).2.options.strict = false → E (p s).2.stream)
  /-- A success has its condition. -/
  ok : ∀ a, (p s).1 = .ok a → Q a (p s).2

namespace Orderly

variable {α β σ : Type} {s : State} {p q : Parser α} {f : α → Parser β} {Q R : α → State → Prop}
  {Q' : β → State → Prop} {E E' : Stream → Prop}

variable {expected : String} {t : Token} {e : Diagnostic} {step : σ → Parser (ForInStep σ)}
  {I : σ → State → Prop}

/-! ## Constructs -/

theorem weaken (h : Orderly p s Q E) (himp : ∀ a s', Keeps s s' → Q a s' → R a s') :
    Orderly p s R E :=
  ⟨h.keeps, h.inOrder, h.error, fun a ha => himp a _ h.keeps (h.ok a ha)⟩

/-- Less can be said of a failure. -/
theorem loosen (h : Orderly p s Q E) (hE : ∀ st, E st → E' st) : Orderly p s Q E' :=
  ⟨h.keeps, h.inOrder, fun e he =>
    ⟨(h.error e he).1, fun hstrict => hE _ ((h.error e he).2 hstrict)⟩, h.ok⟩

/-- Where an item can start, nothing comes after the end of one. -/
theorem lax (h : Orderly p s Q) : Orderly p s Q fun st => Stream.EndsLast st.ahead :=
  h.loosen fun _ => Stream.Ready.endsLast

theorem pure {a : α} (hs : s.InOrder) (hQ : Q a s) : Orderly (Pure.pure a) s Q E where
  keeps := Keeps.refl hs.isSound
  inOrder := hs
  error _ he := by cases he
  ok b hb := by
    obtain rfl : a = b := Except.ok.inj hb
    exact hQ

theorem throw (hs : s.InOrder) (he : ¬e.IsExhausted) (hE : s.options.strict = false → E s.stream) :
    Orderly (MonadExcept.throw e : Parser α) s Q E where
  keeps := Keeps.refl hs.isSound
  inOrder := hs
  error e' he' := by
    obtain rfl : e = e' := Except.error.inj he'
    exact ⟨he, hE⟩
  ok _ ha := by cases ha

theorem bind (h : Orderly p s Q E)
    (hf : ∀ a s₁, Keeps s s₁ → s₁.InOrder → Q a s₁ → Orderly (f a) s₁ Q' E) :
    Orderly (p >>= f) s Q' E := by
  obtain ⟨hkeeps, hinOrder, herror, hok⟩ := h
  rcases hp : p s with ⟨e | a, s₁⟩ <;> rw [hp] at hkeeps hinOrder herror hok
  · have hrun : (p >>= f) s = (.error e, s₁) := Parser.bind_error hp
    refine ⟨?_, ?_, ?_, ?_⟩ <;> rw [hrun]
    · exact hkeeps
    · exact hinOrder
    · rintro _ ⟨⟩
      exact herror e rfl
    · exact fun _ hb => by cases hb
  · have hrun : (p >>= f) s = f a s₁ := Parser.bind_ok hp
    have hnext := hf a s₁ hkeeps hinOrder (hok a rfl)
    refine ⟨?_, ?_, ?_, ?_⟩ <;> rw [hrun]
    · exact hkeeps.trans hnext.keeps
    · exact hnext.inOrder
    · exact hnext.error
    · exact hnext.ok

theorem pure_bind {a : α} (h : Orderly (f a) s Q' E) : Orderly (Pure.pure a >>= f) s Q' E :=
  ⟨h.keeps, h.inOrder, h.error, h.ok⟩

theorem throw_bind (hs : s.InOrder) (he : ¬e.IsExhausted)
    (hE : s.options.strict = false → E s.stream) :
    Orderly ((MonadExcept.throw e : Parser α) >>= f) s Q' E :=
  (throw (Q := fun _ _ => False) hs he hE).bind fun _ _ _ _ h => h.elim

theorem ite {c : Prop} [Decidable c] (hpos : c → Orderly p s Q E) (hneg : ¬c → Orderly q s Q E) :
    Orderly (if c then p else q) s Q E := by
  by_cases hc : c
  · rw [if_pos hc]
    exact hpos hc
  · rw [if_neg hc]
    exact hneg hc

theorem discard {Q : Unit → State → Prop} (h : Orderly p s (fun _ => Q ()) E) :
    Orderly (Functor.discard p) s Q E := by
  show Orderly (p >>= fun _ => Pure.pure ()) s Q E
  exact h.bind fun _ _ _ hs₁ hQ => pure hs₁ hQ

theorem attempt_bind {f : Except Diagnostic α → Parser β} (h : Orderly p s Q E)
    (hok : ∀ a s₁, Keeps s s₁ → s₁.InOrder → Q a s₁ → Orderly (f (.ok a)) s₁ Q' E')
    (herror : ∀ e s₁, Keeps s s₁ → s₁.InOrder → ¬e.IsExhausted →
      (s₁.options.strict = false → E s₁.stream) → Orderly (f (.error e)) s₁ Q' E') :
    Orderly (Parser.attempt p >>= f) s Q' E' := by
  have hrun : (Parser.attempt p >>= f) s = f (p s).1 (p s).2 :=
    Parser.bind_ok (Parser.attempt_apply p s)
  have hnext : Orderly (f (p s).1) (p s).2 Q' E' := by
    rcases hanswer : (p s).1 with e | a
    · obtain ⟨he, hE⟩ := h.error e hanswer
      exact herror e _ h.keeps h.inOrder he hE
    · exact hok a _ h.keeps h.inOrder (h.ok a hanswer)
  refine ⟨?_, ?_, ?_, ?_⟩ <;> rw [hrun]
  · exact h.keeps.trans hnext.keeps
  · exact hnext.inOrder
  · exact hnext.error
  · exact hnext.ok

/-! ## The state -/

theorem state_bind {f : State → Parser β} (h : Orderly (f s) s Q' E) :
    Orderly (Parser.state >>= f) s Q' E := ⟨h.keeps, h.inOrder, h.error, h.ok⟩

theorem options_bind {f : Options → Parser β} (h : Orderly (f s.options) s Q' E) :
    Orderly (Parser.options >>= f) s Q' E := ⟨h.keeps, h.inOrder, h.error, h.ok⟩

theorem budget_bind {f : Nat → Parser β} (h : Orderly (f s.budget) s Q' E) :
    Orderly (Parser.budget >>= f) s Q' E := ⟨h.keeps, h.inOrder, h.error, h.ok⟩

theorem current_bind {f : Token → Parser β} (h : Orderly (f s.stream.current) s Q' E) :
    Orderly (Parser.current >>= f) s Q' E := ⟨h.keeps, h.inOrder, h.error, h.ok⟩

theorem slice_bind {start stop : Nat} {f : String → Parser β}
    (h : Orderly (f (s.stream.slice start stop)) s Q' E) :
    Orderly (Parser.slice start stop >>= f) s Q' E := ⟨h.keeps, h.inOrder, h.error, h.ok⟩

theorem update {g : State → State} {Q : Unit → State → Prop} (hkeeps : Keeps s (g s))
    (hinOrder : (g s).InOrder) (hQ : Q () (g s)) : Orderly (Parser.update g) s Q E where
  keeps := hkeeps
  inOrder := hinOrder
  error _ he := by cases he
  ok _ _ := hQ

theorem adjust {g : State → State} (hs : s.InOrder)
    (hsame : (g s).stream = s.stream ∧ (g s).options = s.options ∧ (g s).budget = s.budget ∧
      (g s).store = s.store ∧ (g s).deferred = s.deferred ∧ (g s).events = s.events) :
    Orderly (Parser.update g) s (fun _ s' => s'.stream = s.stream) E := by
  obtain ⟨hstream, hoptions, hbudget, hstore, hdeferred, hevents⟩ := hsame
  have hkeeps := hs.isSound.keeps_of_eq hstream hoptions hbudget hstore hdeferred hevents
  exact update hkeeps (hs.of_eq hkeeps.isSound hstream hoptions hevents hdeferred) hstream

theorem setPair (hs : s.InOrder) (pair : Option TokenKind) :
    Orderly (Parser.update fun s => { s with pair := pair }) s
      (fun _ s' => s'.stream = s.stream) E :=
  adjust hs ⟨rfl, rfl, rfl, rfl, rfl, rfl⟩

/-! ## Failing at a token -/

theorem failAt (hs : s.InOrder) (hE : E s.stream) :
    Orderly (Parser.failAt expected t : Parser α) s Q E :=
  throw hs (t.unexpected_not_isExhausted expected) fun _ => hE

theorem failAt_bind (hs : s.InOrder) (hE : E s.stream) :
    Orderly ((Parser.failAt expected t : Parser α) >>= f) s Q' E :=
  throw_bind hs (t.unexpected_not_isExhausted expected) fun _ => hE

theorem failHere (hs : s.InOrder) (hE : E s.stream) :
    Orderly (Parser.failHere expected : Parser α) s Q E :=
  current_bind (failAt hs hE)

theorem failHere_bind (hs : s.InOrder) (hE : E s.stream) :
    Orderly ((Parser.failHere expected : Parser α) >>= f) s Q' E :=
  (failHere (Q := fun _ _ => False) hs hE).bind fun _ _ _ _ h => h.elim

/-! ## Tokens -/

theorem ask {f : Stream → α × Stream} (hs : s.InOrder) (hsound : (f s.stream).2.IsSound)
    (hflush : (f s.stream).2.Flush) (hsource : (f s.stream).2.source = s.stream.source)
    (hQ : Q (f s.stream).1 { s with stream := (f s.stream).2 }) :
    Orderly (Parser.ask f) s Q E where
  keeps := hs.isSound.withStream hsound hsource
  inOrder := hs.withStream hsound hflush hsource
  error _ he := by cases he
  ok a ha := by
    obtain rfl : (f s.stream).1 = a := Except.ok.inj ha
    exact hQ

theorem moveStream {f : Stream → Stream} {Q : Unit → State → Prop} (hs : s.InOrder)
    (hsound : (f s.stream).IsSound) (hflush : (f s.stream).Flush)
    (hsource : (f s.stream).source = s.stream.source)
    (hQ : Q () { s with stream := f s.stream }) : Orderly (Parser.moveStream f) s Q E :=
  update (hs.isSound.withStream hsound hsource) (hs.withStream hsound hflush hsource) hQ

theorem get (hs : s.InOrder) (placeholders blanks : Bool) :
    Orderly (Parser.next placeholders blanks) s (fun t s' =>
      s.stream.get placeholders blanks = (t, s'.stream)) E := by
  have hgot := hs.isSound.stream.get placeholders blanks
  exact ask hs hgot.isSound (hs.flush.get _ _) hgot.source_eq rfl

/-- **The next token with at most one ahead.** -/
theorem next (hs : s.InOrder) (hnear : s.stream.Near) (placeholders blanks : Bool) :
    Orderly (Parser.next placeholders blanks) s (fun t s' =>
      s'.stream.At t ∧ t.IsCut s.stream.source) E := by
  have hgot := hs.isSound.stream.get placeholders blanks
  exact ask hs hgot.isSound (hs.flush.get _ _) hgot.source_eq
    ⟨hnear.get placeholders blanks, hgot.isCut⟩

theorem grab (hs : s.InOrder) (hnear : s.stream.Near) :
    Orderly Parser.grab s (fun t s' => s'.stream.At t ∧ t.IsCut s.stream.source) E :=
  next hs hnear false false

/-- **What a request leaves** where at most one token was ahead: the token
asked for at hand, or again at most one ahead. -/
def Found (st : Stream) (accepted : Token → Prop) : Option Token → Stream → Prop
  | some t, st' => st'.At t ∧ accepted t ∧ t.IsCut st.source
  | none, st' => st'.Near ∧ (st.Held → st'.Held)

/-- **What a request did to the stream**: the next token was handed out, or it
was refused and taken back. -/
def Taken (st : Stream) (placeholders blanks : Bool) (test : Token → Bool) :
    Option Token → Stream → Prop
  | some t, st' => st.get placeholders blanks = (t, st') ∧ test t = true
  | none, st' =>
    st' = (st.get placeholders blanks).2.back ∧ test (st.get placeholders blanks).1 = false

/-- **A request for a token that passes a test**, whatever is ahead. -/
theorem accept_taken (hs : s.InOrder) (placeholders blanks : Bool) (test : Token → Bool) :
    Orderly (Parser.ask fun st => Stream.accept (st.get placeholders blanks) test) s
      (fun r s' => Taken s.stream placeholders blanks test r s'.stream) E := by
  have hgot := hs.isSound.stream.get placeholders blanks
  have hflush := hs.flush.get placeholders blanks
  by_cases htest : test (s.stream.get placeholders blanks).1 = true
  · have heq : Stream.accept (s.stream.get placeholders blanks) test =
        (some (s.stream.get placeholders blanks).1, (s.stream.get placeholders blanks).2) :=
      if_pos htest
    refine ask hs ?_ ?_ ?_ ?_ <;> rw [heq]
    · exact hgot.isSound
    · exact hflush
    · exact hgot.source_eq
    · exact ⟨rfl, htest⟩
  · have heq : Stream.accept (s.stream.get placeholders blanks) test =
        (none, (s.stream.get placeholders blanks).2.back) := if_neg htest
    have hstays := hgot.back
    refine ask hs ?_ ?_ ?_ ?_ <;> rw [heq]
    · exact hstays.isSound
    · exact hflush.back
    · exact hstays.source_eq
    · exact ⟨rfl, Bool.eq_false_iff.mpr htest⟩

theorem accept (hs : s.InOrder) (hnear : s.stream.Near) (placeholders blanks : Bool)
    (test : Token → Bool) :
    Orderly (Parser.ask fun st => Stream.accept (st.get placeholders blanks) test) s
      (fun r s' => Found s.stream (fun t => test t = true) r s'.stream) E := by
  refine (accept_taken hs placeholders blanks test).weaken fun r s' _ htaken => ?_
  have hgot := hs.isSound.stream.get placeholders blanks
  cases r with
  | none =>
    have hback : s'.stream = (s.stream.get placeholders blanks).2.back := htaken.1
    show s'.stream.Near ∧ _
    rw [hback]
    exact hnear.get_back placeholders blanks
  | some t =>
    obtain ⟨hget, htest⟩ := htaken
    rw [hget] at hgot
    have hat := hnear.get placeholders blanks
    rw [hget] at hat
    exact ⟨hat, htest, hgot.isCut⟩

theorem matchKinds (hs : s.InOrder) (hnear : s.stream.Near) (kinds : List TokenKind) :
    Orderly (Parser.matchKinds kinds) s (fun r s' =>
      Found s.stream (fun t => kinds.contains t.kind = true) r s'.stream) E :=
  accept hs hnear false true _

theorem matchSmart (hs : s.InOrder) (hnear : s.stream.Near) (kinds : List TokenKind) :
    Orderly (Parser.matchSmart kinds) s (fun r s' =>
      Found s.stream (fun t => kinds.contains t.kind = true) r s'.stream) E :=
  accept hs hnear false (kinds.contains .whitespace) _

theorem matchKeyword (hs : s.InOrder) (hnear : s.stream.Near) (set : Keywords) :
    Orderly (Parser.matchKeyword set) s (fun r s' =>
      Found s.stream (fun t => (t.kind == .ident && set.has t.text) = true) r s'.stream) E :=
  accept hs hnear false false _

/-- **Demanding a token** that a request may find. When it does not, the next
token is looked at for the complaint. -/
theorem demand_of {request : Stream → Option Token × Stream} {R : Token → Stream → Prop}
    (hs : s.InOrder)
    (h : Orderly (Parser.ask request) s (fun r s' =>
      (∀ t, r = some t → R t s'.stream) ∧
        (r = none → E (s'.stream.get false false).2.back)) E)
    {f : Stream → Except Diagnostic Token × Stream}
    (hf : f s.stream = match request s.stream with
      | (some t, st) => (.ok t, st)
      | (none, st) => st.complain expected) :
    Orderly (Parser.demand f) s (fun t s' => R t s'.stream) E := by
  have hask : (Parser.ask request s) =
      (.ok (request s.stream).1, { s with stream := (request s.stream).2 }) := rfl
  have hkeeps := h.keeps
  have hinOrder := h.inOrder
  have hfound := h.ok _ (congrArg Prod.fst hask)
  rw [hask] at hkeeps hinOrder hfound
  rcases hrequest : request s.stream with ⟨_ | t, st⟩ <;>
    rw [hrequest] at hkeeps hinOrder hfound hf
  · have hgot := hinOrder.isSound.stream.get false false
    have hstays := hgot.back
    have hsource : (f s.stream).2.source = s.stream.source := by
      rw [hf]
      exact hstays.source_eq.trans hkeeps.source_eq
    refine (ask (Q := fun r s' => (∃ t, r = .error (Token.unexpected expected t)) ∧
      E s'.stream) hs ?_ ?_ hsource ?_).bind fun r s₁ _ hs₁ hr => ?_
    · rw [hf]
      exact hstays.isSound
    · rw [hf]
      exact (hinOrder.flush.get false false).back
    · rw [hf]
      exact ⟨⟨_, rfl⟩, hfound.2 rfl⟩
    · obtain ⟨⟨t, rfl⟩, hends⟩ := hr
      exact throw hs₁ (t.unexpected_not_isExhausted expected) fun _ => hends
  · have hsource : (f s.stream).2.source = s.stream.source := by
      rw [hf]
      exact hkeeps.source_eq
    refine (ask (Q := fun r s' => r = .ok t ∧ s'.stream = st) hs ?_ ?_ hsource ?_).bind
      fun r s₁ _ hs₁ hr => ?_
    · rw [hf]
      exact hinOrder.isSound.stream
    · rw [hf]
      exact hinOrder.flush
    · rw [hf]
      exact ⟨rfl, rfl⟩
    · obtain ⟨rfl, rfl⟩ := hr
      exact pure hs₁ (hfound.1 t rfl)

/-- Demanding a token where at most one is ahead. -/
theorem demand {request : Stream → Option Token × Stream} {accepted : Token → Prop}
    (hs : s.InOrder)
    (h : Orderly (Parser.ask request) s fun r s' => Found s.stream accepted r s'.stream)
    {f : Stream → Except Diagnostic Token × Stream}
    (hf : f s.stream = match request s.stream with
      | (some t, st) => (.ok t, st)
      | (none, st) => st.complain expected) :
    Orderly (Parser.demand f) s fun t s' =>
      s'.stream.At t ∧ accepted t ∧ t.IsCut s.stream.source := by
  refine demand_of hs (R := fun t st => st.At t ∧ accepted t ∧ t.IsCut s.stream.source)
    (h.weaken fun r s' _ hfound => ⟨?_, ?_⟩) hf
  · rintro t rfl
    exact hfound
  · rintro rfl
    have hnear : s'.stream.Near := hfound.1
    exact (hnear.get_back false false).1.ready

theorem mustMatch (hs : s.InOrder) (hnear : s.stream.Near) (kinds : List TokenKind) :
    Orderly (Parser.mustMatch kinds) s fun t s' =>
      s'.stream.At t ∧ kinds.contains t.kind = true ∧ t.IsCut s.stream.source :=
  demand hs (matchKinds hs hnear kinds) rfl

theorem mustMatchSmart (hs : s.InOrder) (hnear : s.stream.Near) (kinds : List TokenKind) :
    Orderly (Parser.mustMatchSmart kinds) s fun t s' =>
      s'.stream.At t ∧ kinds.contains t.kind = true ∧ t.IsCut s.stream.source :=
  demand hs (matchSmart hs hnear kinds) rfl

theorem mustMatchKeyword (hs : s.InOrder) (hnear : s.stream.Near) (set : Keywords) :
    Orderly (Parser.mustMatchKeyword set) s fun t s' =>
      s'.stream.At t ∧ (t.kind == .ident && set.has t.text) = true ∧ t.IsCut s.stream.source :=
  demand hs (matchKeyword hs hnear set) rfl

/-- **Taking the last token back**, where there is one. -/
theorem unget (hs : s.InOrder) (hheld : s.stream.Held) :
    Orderly Parser.unget s (fun _ s' => s'.stream = s.stream.back) E := by
  refine state_bind ?_
  have hunget : s.stream.unget = .ok s.stream.back := by
    unfold Stream.unget
    exact if_neg fun hnil => hheld (List.isEmpty_iff.mp hnil)
  rw [hunget]
  exact moveStream (f := fun _ => s.stream.back) hs hs.isSound.stream.back.1 hs.flush.back
    s.stream.back_source rfl

/-- Looking at the token at hand; without a fit it is taken back. -/
theorem matchReuse (hs : s.InOrder) (ht : s.stream.At t) (kinds : List TokenKind) :
    Orderly (Parser.matchReuse kinds) s (fun r s' =>
      (∀ u, r = some u → s'.stream = s.stream ∧ u = t) ∧ s'.stream.Near) E := by
  by_cases hkind : kinds.contains s.stream.current.kind = true
  · have heq : s.stream.matchReuse kinds = (some s.stream.current, s.stream) := if_pos hkind
    refine ask hs ?_ ?_ ?_ ?_ <;> rw [heq]
    · exact hs.isSound.stream
    · exact hs.flush
    · refine ⟨?_, ht.near⟩
      rintro _ ⟨⟩
      exact ⟨rfl, ht.current_eq⟩
  · have heq : s.stream.matchReuse kinds = (none, s.stream.back) := if_neg hkind
    refine ask hs ?_ ?_ ?_ ?_ <;> rw [heq]
    · exact hs.isSound.stream.back.1
    · exact hs.flush.back
    · exact s.stream.back_source
    · exact ⟨fun _ hu => absurd hu (by simp), ht.near_back⟩

/-- **Demanding that the token handed out last is of some kinds.** A
failure takes it back. -/
theorem mustReuse (hs : s.InOrder) (kinds : List TokenKind)
    (hE : kinds.contains s.stream.current.kind = false → E s.stream.back) :
    Orderly (Parser.mustReuse kinds) s (fun t s' =>
      s'.stream = s.stream ∧ t = s.stream.current ∧ kinds.contains t.kind = true) E := by
  by_cases hkind : kinds.contains s.stream.current.kind = true
  · have heq : s.stream.mustReuse kinds = (.ok s.stream.current, s.stream) := by
      unfold Stream.mustReuse Stream.matchReuse
      rw [if_pos hkind]
    refine (ask (Q := fun r s' => r = .ok s.stream.current ∧ s'.stream = s.stream)
      hs ?_ ?_ ?_ ?_).bind fun r s₁ _ hs₁ hr => ?_
    · rw [heq]
      exact hs.isSound.stream
    · rw [heq]
      exact hs.flush
    · rw [heq]
    · rw [heq]
      exact ⟨rfl, rfl⟩
    · obtain ⟨rfl, hstream⟩ := hr
      exact pure hs₁ ⟨hstream, rfl, hkind⟩
  · have heq : s.stream.mustReuse kinds =
        (.error (s.stream.current.unexpected (TokenKind.describeAll kinds)), s.stream.back) := by
      unfold Stream.mustReuse Stream.matchReuse
      rw [if_neg hkind]
    refine (ask (Q := fun r s' => (∃ t, r = .error (Token.unexpected
      (TokenKind.describeAll kinds) t)) ∧ s'.stream = s.stream.back) hs ?_ ?_ ?_ ?_).bind
      fun r s₁ _ hs₁ hr => ?_
    · rw [heq]
      exact hs.isSound.stream.back.1
    · rw [heq]
      exact hs.flush.back
    · rw [heq]
      exact s.stream.back_source
    · rw [heq]
      exact ⟨⟨_, rfl⟩, rfl⟩
    · obtain ⟨⟨t, rfl⟩, hstream⟩ := hr
      refine throw hs₁ (t.unexpected_not_isExhausted _) fun _ => ?_
      rw [hstream]
      exact hE (by simpa using hkind)

/-- With a token at hand it is the one that is looked at. -/
theorem mustReuse_at (hs : s.InOrder) (ht : s.stream.At t) (kinds : List TokenKind) :
    Orderly (Parser.mustReuse kinds) s fun u s' => s'.stream = s.stream ∧ u = t :=
  (mustReuse hs kinds fun _ => ht.near_back.ready).weaken fun _ _ _ h =>
    ⟨h.1, h.2.1.trans ht.current_eq⟩

theorem seek {loc : Location} (hs : s.InOrder) (hloc : IsPlace s.stream.source loc) :
    Orderly (Parser.seek loc) s (fun _ s' => s'.stream = s.stream.seek loc) E :=
  moveStream hs (Stream.isSound_seek hloc).1 (Stream.flush_of_reader _) rfl rfl

theorem rewindTo (hs : s.InOrder) (ht : t.IsCut s.stream.source) :
    Orderly (Parser.moveStream (·.rewindTo t)) s
      (fun _ s' => s'.stream = s.stream.rewindTo t) E := by
  obtain ⟨hsound, hsource, -⟩ := hs.isSound.stream.rewindTo ht
  exact moveStream hs hsound (hs.flush.rewindTo t) hsource rfl

theorem skipBroken (hs : s.InOrder) (hends : Stream.EndsLast s.stream.ahead) (inBlock : Bool) :
    Orderly (Parser.moveStream (·.skipBroken inBlock)) s (fun _ s' => s'.stream.Near) E := by
  have hmoves := hs.isSound.stream.skipBroken inBlock
  exact moveStream hs hmoves.isSound (hs.flush.skipBroken inBlock) hmoves.source_eq
    (Stream.near_skipBroken hends inBlock)

/-- **Reading a count**, which leaves nothing in the window. -/
theorem readNth (hs : s.InOrder) :
    Orderly (Parser.ask (·.readNth)) s (fun _ s' => s'.stream.ahead = []) E := by
  have hmoves := hs.isSound.stream.readNth
  refine ask hs hmoves.isSound ?_ hmoves.source_eq ?_
  · rw [s.stream.readNth_eq]
    exact Stream.flush_of_reader _
  · show s.stream.readNth.2.ahead = []
    rw [s.stream.readNth_eq]

/-! ## Events -/

theorem dispatch {e : Event} (hs : s.InOrder) (hinner : e.IsInner)
    (he : e.IsOrderly s.options s.stream.source) :
    Orderly (Parser.dispatch e) s (fun _ s' => s'.stream = s.stream) E := by
  have hreads := Reads.dispatch (n := 0) hs.isSound hinner
  refine update hreads.keeps ⟨hreads.keeps.isSound, hs.flush, fun e' he' => ?_, hs.deferred⟩ rfl
  rcases List.mem_cons.mp he' with rfl | he'
  · exact he
  · exact hs.events e' he'

/-- Reporting an orderly event, or holding it back. -/
theorem fire {kind : EventKind} {location : Location} (hs : s.InOrder)
    (hinner : Event.IsInner ⟨kind, location⟩)
    (he : Event.IsOrderly s.options s.stream.source ⟨kind, location⟩) :
    Orderly (Parser.fire kind location) s (fun _ s' => s'.stream = s.stream) E := by
  have hkeeps := (Reads.fire (n := 0) hs.isSound hinner).keeps
  cases hdeferred : s.deferred with
  | none =>
    unfold Parser.fire
    refine state_bind ?_
    rw [hdeferred]
    exact dispatch hs hinner he
  | some held =>
    rw [Parser.fire_apply_of_held hdeferred] at hkeeps
    unfold Parser.fire
    refine state_bind ?_
    rw [hdeferred]
    refine update hkeeps ⟨hkeeps.isSound, hs.flush, hs.events, ?_⟩ rfl
    rintro _ ⟨⟩ e' he'
    rcases List.mem_cons.mp he' with rfl | he'
    · exact he
    · exact hs.deferred held hdeferred e' he'

theorem warn {message : String} {location : Location} (hs : s.InOrder) :
    Orderly (Parser.warn message location) s (fun _ s' => s'.stream = s.stream) E :=
  fire hs ⟨EventKind.noConfusion, EventKind.noConfusion⟩ trivial

theorem report (hs : s.InOrder) (he : ¬e.IsExhausted) :
    Orderly (Parser.report e) s (fun _ s' => s'.stream = s.stream) E :=
  state_bind (fire hs ⟨EventKind.noConfusion, EventKind.noConfusion⟩ he)

/-! ## Repetition -/

/-- **What a round of a loop leaves**: the condition of the result if it is
done, and otherwise the invariant. -/
def Turn (I Q : σ → State → Prop) : ForInStep σ → State → Prop
  | .done a, s => Q a s
  | .yield a, s => I a s

/-- **A step over and over**, where the invariant is a condition of the
result as well. -/
theorem rounds {Q : σ → State → Prop} {s₀ : State}
    (hstep : ∀ a s, Keeps s₀ s → s.InOrder → I a s → Orderly (step a) s (Turn I Q) E)
    (hlast : ∀ a s, I a s → Q a s) (n : Nat) {a : σ} (hkeeps : Keeps s₀ s) (hs : s.InOrder)
    (hI : I a s) : Orderly (Parser.rounds step n a) s Q E := by
  induction n generalizing a s with
  | zero => exact pure hs (hlast a s hI)
  | succ n ih =>
    refine (hstep a s hkeeps hs hI).bind fun r s₁ h₁ hs₁ hturn => ?_
    cases r with
    | done b => exact pure hs₁ hturn
    | yield b => exact ih (hkeeps.trans h₁) hs₁ hturn

/-- **A step over and over, as long as the source can ask for it.** The
first round is one that the budget allows for, so that the invariant need
not hold before it. -/
theorem repeating_first {Q : σ → State → Prop} {a : σ} (hs : s.InOrder)
    (hfirst : Orderly (step a) s (Turn I Q) E)
    (hstep : ∀ a s₁, Keeps s s₁ → s₁.InOrder → I a s₁ → Orderly (step a) s₁ (Turn I Q) E)
    (hlast : ∀ a s₁, I a s₁ → Q a s₁) : Orderly (Parser.repeating a step) s Q E := by
  refine budget_bind ?_
  obtain ⟨n, hbudget⟩ : ∃ n, s.budget = n + 1 := by
    refine ⟨s.budget - 1, ?_⟩
    have hbound : Text.byteLength s.stream.source + 64 ≤ s.budget := hs.isSound.budget
    omega
  rw [hbudget]
  refine hfirst.bind fun r s₁ h₁ hs₁ hturn => ?_
  cases r with
  | done b => exact pure hs₁ hturn
  | yield b => exact rounds hstep hlast n h₁ hs₁ hturn

theorem repeating {Q : σ → State → Prop} {a : σ} (hs : s.InOrder) (hI : I a s)
    (hstep : ∀ a s₁, Keeps s s₁ → s₁.InOrder → I a s₁ → Orderly (step a) s₁ (Turn I Q) E)
    (hlast : ∀ a s₁, I a s₁ → Q a s₁) : Orderly (Parser.repeating a step) s Q E :=
  repeating_first hs (hstep a s (Keeps.refl hs.isSound) hs hI) hstep hlast

end Orderly

end Stylesheet
