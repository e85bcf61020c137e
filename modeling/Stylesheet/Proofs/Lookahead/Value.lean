import Stylesheet.Parse.Media
import Stylesheet.Proofs.Lookahead.Basic

/-!
# Looking ahead in values and media queries

A value reads on and takes nothing back, whatever was ahead when it was
begun. It is the one thing that may be read where a construct broke off,
to find the bracket that closes it.
-/

namespace Stylesheet

open Parse (State)
open Parse.State (Keeps)

namespace Stream

/-- **Some token is at hand.** -/
def Fresh (s : Stream) : Prop := ∃ t, s.At t

theorem Fresh.near {s : Stream} (h : s.Fresh) : s.Near := h.elim fun _ ht => ht.near

theorem Fresh.held {s : Stream} (h : s.Fresh) : s.Held := h.elim fun _ ht => ht.held

theorem Fresh.stopped {s : Stream} (h : s.Fresh) : s.Stopped := h.elim fun t ht => ⟨t, .bare ht⟩

theorem Fresh.ready {s : Stream} (h : s.Fresh) : s.Ready := h.near.ready

/-- **Between two parts of a construct**: at most one token is ahead, and
one can be taken back. -/
def Between (s : Stream) : Prop := s.Near ∧ s.Held

theorem Fresh.between {s : Stream} (h : s.Fresh) : s.Between := ⟨h.near, h.held⟩

/-- **A closing bracket is at hand.** -/
def Closed (s : Stream) : Prop := ∃ t, s.At t ∧ t.kind = .rParen

theorem Closed.fresh {s : Stream} (h : s.Closed) : s.Fresh := h.elim fun t ht => ⟨t, ht.1⟩

/-- **A stream that was read on**: some of the tokens ahead are gone, or
none were. -/
structure ReadOn (s s' : Stream) : Prop where
  /-- Tokens were taken from those ahead. -/
  ahead : ∃ n, s'.ahead = s.ahead.drop (n + 1)
  /-- The last of them can be taken back. -/
  held : s'.Held

variable {s s' s'' : Stream}

theorem ReadOn.endsLast (h : ReadOn s s') (hs : EndsLast s.ahead) : EndsLast s'.ahead := by
  obtain ⟨n, hahead⟩ := h.ahead
  rw [hahead]
  exact hs.drop (n + 1)

theorem ReadOn.trans (h : ReadOn s s') (h' : ReadOn s' s'') : ReadOn s s'' := by
  obtain ⟨n, hahead⟩ := h.ahead
  obtain ⟨m, hahead'⟩ := h'.ahead
  refine ⟨⟨n + 1 + m, ?_⟩, h'.held⟩
  rw [hahead', hahead, List.drop_drop]
  rfl

/-- **Where at most one token was ahead** one is at hand after reading
on. -/
theorem ReadOn.fresh (h : ReadOn s s') (hs : s.Near) : s'.Fresh := by
  obtain ⟨n, hahead⟩ := h.ahead
  obtain ⟨t, behind, hbehind⟩ := List.exists_cons_of_ne_nil h.held
  refine ⟨t, ?_, ?_⟩
  · rw [hahead]
    exact List.drop_eq_nil_of_le (Nat.le_trans hs (Nat.le_add_left 1 n))
  · rw [hbehind]
    rfl

theorem ReadOn.near (h : ReadOn s s') (hs : s.Near) : s'.Near := (h.fresh hs).near

theorem readOn_get (s : Stream) (placeholders blanks : Bool) :
    ReadOn s (s.get placeholders blanks).2 := ⟨s.get_ahead _ _, s.get_held _ _⟩

end Stream

open Stylesheet.Stream (EndsLast Fresh ReadOn Between)

namespace Orderly

variable {s : State} {E : Stream → Prop}

/-! ## Values -/

/-- **A reader of values that only reads on**, from streams that stay in a
class. -/
def OrderlyExpr (E : Stream → Prop) (inner : Parser.ExprParser) : Prop :=
  ∀ ends raw {s : State}, s.InOrder → E s.stream →
    Orderly (inner ends raw) s (fun _ s' => ReadOn s.stream s'.stream) E

/-- What reads on, or reads nothing. -/
def MayReadOn (st : Stream) {α : Type} (_ : α) (s' : State) : Prop :=
  s'.stream = st ∨ ReadOn st s'.stream

theorem hashPart (hs : s.InOrder) (t : Token) :
    Orderly (Parser.hashPart t) s (MayReadOn s.stream) E := by
  unfold Parser.hashPart
  extract_lets part
  refine ite (fun _ => pure hs (Or.inl rfl)) fun _ => ?_
  exact (warn hs).bind fun _ s₁ _ hs₁ hstream => pure hs₁ (Or.inl hstream)

section Parts

variable (hread : ∀ st st', ReadOn st st' → E st → E st')

include hread

theorem blockPart {inner : Parser.ExprParser} (hinner : OrderlyExpr E inner) (hs : s.InOrder)
    (hE : E s.stream) (t : Token) (close : TokenKind) (raw : Bool) :
    Orderly (Parser.blockPart inner t close raw) s (MayReadOn s.stream) E := by
  unfold Parser.blockPart
  refine (hinner _ _ hs hE).bind fun inside s₁ _ hs₁ hon => current_bind ?_
  extract_lets rest
  refine ite (fun _ => slice_bind (pure hs₁ (Or.inr hon))) fun _ => ?_
  exact failAt_bind hs₁ (hread _ _ hon hE)

theorem functionPart {inner : Parser.ExprParser} (hinner : OrderlyExpr E inner) (hs : s.InOrder)
    (hE : E s.stream) (t : Token) (raw : Bool) :
    Orderly (Parser.functionPart inner t raw) s (fun _ s' =>
      ReadOn s.stream s'.stream ∧ s'.stream.current.kind = .rParen) E := by
  unfold Parser.functionPart
  refine (hinner _ _ hs hE).bind fun args s₁ _ hs₁ hon => current_bind ?_
  extract_lets rest
  refine ite (fun hclose => slice_bind ?_) fun _ => failAt_bind hs₁ (hread _ _ hon hE)
  cases args with
  | none => exact pure hs₁ ⟨hon, eq_of_beq hclose⟩
  | some args => exact pure hs₁ ⟨hon, eq_of_beq hclose⟩

theorem plainPart {inner : Parser.ExprParser} (hinner : OrderlyExpr E inner) (hs : s.InOrder)
    (hE : E s.stream) (t : Token) (raw : Bool) :
    Orderly (Parser.plainPart inner t raw) s (MayReadOn s.stream) E := by
  unfold Parser.plainPart
  have hsame : ∀ part : ValuePart, Orderly (return part) s (MayReadOn s.stream) E :=
    fun _ => pure hs (Or.inl rfl)
  refine ite (fun _ => ?_) fun _ => ite (fun _ => hsame _) fun _ =>
    ite (fun _ => hashPart hs t) fun _ => ite (fun _ => hsame _) fun _ => hsame _
  extract_lets rest
  refine options_bind (ite (fun _ => failAt_bind hs hE) fun _ => ?_)
  exact (functionPart hread hinner hs hE t raw).weaken fun _ _ _ h => Or.inr h.1

/-- **One more part**, which at least its first token is read for. -/
theorem exprStep {inner : Parser.ExprParser} (hinner : OrderlyExpr E inner) (hs : s.InOrder)
    (hE : E s.stream) (ends : List TokenKind) (raw : Bool)
    (parts : List ValuePart) :
    Orderly (Parser.exprStep inner ends raw parts) s
      (fun _ s' => ReadOn s.stream s'.stream) E := by
  unfold Parser.exprStep
  refine (get hs true false).bind fun t s₁ _ hs₁ hget => ?_
  have hon : ReadOn s.stream s₁.stream := by
    have := s.stream.readOn_get true false
    rwa [hget] at this
  have hpart : ∀ {p : Parser ValuePart}, Orderly p s₁ (MayReadOn s₁.stream) E →
      Orderly (do return .yield ((← p) :: parts)) s₁
        (fun (_ : ForInStep (List ValuePart)) s' => ReadOn s.stream s'.stream) E := by
    refine fun hp => hp.bind fun part s₂ _ hs₂ hmay => pure hs₂ ?_
    rcases hmay with hsame | hmore
    · rwa [hsame]
    · exact hon.trans hmore
  refine ite (fun _ => pure hs₁ hon) fun _ => ?_
  split
  · exact ite (fun _ => pure hs₁ hon) fun _ =>
      hpart (blockPart hread hinner hs₁ (hread _ _ hon hE) t _ raw)
  · exact hpart (plainPart hread hinner hs₁ (hread _ _ hon hE) t raw)

theorem exprTo (depth : Nat) : OrderlyExpr E (Parser.exprTo depth) := by
  induction depth with
  | zero => exact fun _ _ _ hs hE => throw hs tooDeep_not_isExhausted fun _ => hE
  | succ depth ih =>
    intro ends raw s hs hE
    unfold Parser.exprTo
    have hstep : ∀ parts {s₁ : State}, s₁.InOrder → E s₁.stream →
        Orderly (Parser.exprStep (Parser.exprTo depth) ends raw parts) s₁
          (Turn (fun _ s' => ReadOn s₁.stream s'.stream) fun _ s' =>
            ReadOn s₁.stream s'.stream) E := by
      refine fun parts {s₁} hs₁ hE₁ => (exprStep hread ih hs₁ hE₁ ends raw parts).weaken ?_
      rintro (_ | _) s' _ hon <;> exact hon
    -- the first round reads a token, and so the value has read on after any
    refine (repeating_first (I := fun _ s' => ReadOn s.stream s'.stream)
      (Q := fun _ s' => ReadOn s.stream s'.stream) hs (hstep [] hs hE)
      (fun parts s₁ _ hs₁ hon => (hstep parts hs₁ (hread _ _ hon hE)).weaken ?_)
      fun _ _ => id).bind fun parts s₁ _ hs₁ hon => ?_
    · rintro (_ | _) s' _ hmore <;> exact hon.trans hmore
    · exact ite (fun _ => pure hs₁ hon) fun _ => state_bind (pure hs₁ hon)

/-- A value reads on. -/
theorem expr_readOn : OrderlyExpr E Parser.expr := by
  intro ends raw s hs hE
  exact budget_bind (exprTo hread s.budget ends raw hs hE)

end Parts

/-- **A value, with at most one token ahead.** -/
theorem expr (hs : s.InOrder) (hnear : s.stream.Near) (ends : List TokenKind) (raw : Bool) :
    Orderly (Parser.expr ends raw) s fun _ s' => s'.stream.Fresh :=
  ((expr_readOn (fun _ _ => ReadOn.near) ends raw hs hnear).loosen
    fun _ => Stream.Near.ready).weaken fun _ _ _ hon => hon.fresh hnear

theorem function (hs : s.InOrder) (hnear : s.stream.Near) (t : Token) (raw : Bool) :
    Orderly (Parser.function t raw) s fun _ s' => s'.stream.Closed := by
  have hnear_of : ∀ st st' : Stream, ReadOn st st' → st.Near → st'.Near := fun _ _ => ReadOn.near
  refine ((functionPart hnear_of (expr_readOn hnear_of) hs hnear t raw).loosen
    fun _ => Stream.Near.ready).weaken fun _ s₁ _ ⟨hon, hclose⟩ => ?_
  obtain ⟨u, hu⟩ := hon.fresh hnear
  exact ⟨u, hu, hu.current_eq ▸ hclose⟩

/-- **Passing over what is broken**, which a strict parse does not do. -/
theorem recover (hs : s.InOrder) (hstrict : s.options.strict = false)
    (hends : EndsLast s.stream.ahead) {e : Diagnostic} (he : ¬e.IsExhausted) (inBlock : Bool) :
    Orderly (Parser.recover e inBlock) s (fun _ s' => s'.stream.Near) E := by
  unfold Parser.recover
  refine state_bind ?_
  extract_lets rest
  have hrest : ∀ {s₁ : State}, s₁.InOrder → EndsLast s₁.stream.ahead →
      Orderly (rest ()) s₁ (fun _ s' => s'.stream.Near) E := by
    intro s₁ hs₁ hends₁
    refine (skipBroken hs₁ hends₁ inBlock).bind fun _ s₂ _ hs₂ hnear => ?_
    refine (report hs₂ he).weaken fun _ s₃ _ hstream => ?_
    rwa [hstream]
  cases s.pair with
  | none => exact pure_bind (hrest hs hends)
  | some close =>
    refine (setPair hs none).bind fun _ s₁ h₁ hs₁ hstream => ?_
    have hends₁ : EndsLast s₁.stream.ahead := by rwa [hstream]
    have hclose : Orderly (Functor.discard (Parser.attempt (Parser.expr [close] true))) s₁
        (fun _ s' => EndsLast s'.stream.ahead) E := by
      show Orderly (Parser.attempt (Parser.expr [close] true) >>= fun _ => Pure.pure ()) s₁ _ E
      refine (expr_readOn (E := fun st => EndsLast st.ahead) (fun _ _ => ReadOn.endsLast) [close]
        true hs₁ hends₁).attempt_bind (fun _ s₂ _ hs₂ hon => pure hs₂ (hon.endsLast hends₁))
        fun _ s₂ h₂ hs₂ _ hends₂ => pure hs₂ (hends₂ ?_)
      rw [h₂.options_eq, h₁.options_eq]
      exact hstrict
    exact hclose.bind fun _ s₂ _ hs₂ hends₂ => hrest hs₂ hends₂

/-! ## Media queries -/

theorem mediaFeature (hs : s.InOrder) (hnear : s.stream.Near) (start : Option Token) :
    Orderly (Parser.mediaFeature start) s fun _ s' => s'.stream.Fresh := by
  unfold Parser.mediaFeature
  extract_lets rest
  have hrest : ∀ (t : Token) {s₁ : State}, s₁.InOrder → s₁.stream.Near →
      Orderly (rest t) s₁ fun _ s' => s'.stream.Fresh := by
    intro t s₁ hs₁ hnear₁
    unfold rest
    extract_lets more
    refine ite (fun _ => ?_) fun _ => failAt_bind hs₁ hnear₁.ready
    refine (mustMatchSmart hs₁ hnear₁ _).bind fun name s₂ _ hs₂ hname => ?_
    refine (expr hs₂ hname.1.near _ _).bind fun inside s₃ _ hs₃ hfresh => ?_
    obtain ⟨u, hu⟩ := hfresh
    refine (mustReuse_at hs₃ hu _).bind fun close s₄ _ hs₄ hclose => slice_bind (pure hs₄ ?_)
    exact ⟨u, hclose.1 ▸ hu⟩
  cases start with
  | some t => exact pure_bind (hrest t hs hnear)
  | none => exact (grab hs hnear).bind fun t s₁ _ hs₁ ht => hrest t hs₁ ht.1.near

/-- What a request leaves between two parts. -/
theorem Found.between {st st' : Stream} {accepted : Token → Prop} {r : Option Token}
    (h : Found st accepted r st') (hheld : st.Held) : st'.Between := by
  cases r with
  | none => exact ⟨h.1, h.2 hheld⟩
  | some t => exact Fresh.between ⟨t, h.1⟩

theorem featureStep (hs : s.InOrder) (hbetween : s.stream.Between)
    (sofar : List MediaFeature × Keywords × Bool) :
    Orderly (Parser.featureStep sofar) s
      (Turn (fun _ s' => s'.stream.Between) fun _ s' => s'.stream.Between) := by
  obtain ⟨features, joiners, settled⟩ := sofar
  refine (matchKeyword hs hbetween.1 joiners).bind fun r s₁ _ hs₁ hfound => ?_
  cases r with
  | none => exact pure hs₁ (Found.between hfound hbetween.2)
  | some word =>
    refine (mediaFeature hs₁ hfound.1.near none).bind fun _ s₂ _ hs₂ hfresh => ?_
    exact pure hs₂ (hfresh.between)

theorem mediaQuery (hs : s.InOrder) (hbetween : s.stream.Between) (start : Token) :
    Orderly (Parser.mediaQuery start) s fun _ s' => s'.stream.Between := by
  unfold Parser.mediaQuery
  extract_lets modifier found
  have hfound : ∀ (first : Token) {s₁ : State}, s₁.InOrder → s₁.stream.Between →
      Orderly (found first) s₁ fun _ s' => s'.stream.Between := by
    intro first s₁ hs₁ hbetween₁
    unfold found
    extract_lets mediaType joiners features
    have hfeatures : ∀ (read : List MediaFeature) {s₂ : State}, s₂.InOrder → s₂.stream.Between →
        Orderly (features read) s₂ fun _ s' => s'.stream.Between := by
      intro read s₂ hs₂ hbetween₂
      refine (repeating (I := fun _ s' => s'.stream.Between)
        (Q := fun _ s' => s'.stream.Between) hs₂ hbetween₂
        (fun sofar s₃ _ hs₃ hbetween₃ => featureStep hs₃ hbetween₃ sofar)
        fun _ _ => id).bind fun r s₃ _ hs₃ hbetween₃ => ?_
      exact current_bind (slice_bind (pure hs₃ hbetween₃))
    refine ite (fun _ => pure_bind (hfeatures _ hs₁ hbetween₁)) fun _ => ?_
    refine (mediaFeature hs₁ hbetween₁.1 (some first)).bind fun _ s₂ _ hs₂ hfresh => ?_
    exact pure_bind (hfeatures _ hs₂ (hfresh.between))
  refine ite (fun _ => ?_) fun _ => pure_bind (hfound start hs hbetween)
  refine (mustMatchSmart hs hbetween.1 _).bind fun first s₁ _ hs₁ hfirst => ?_
  exact hfound first hs₁ (Fresh.between ⟨first, hfirst.1⟩)

theorem queryStep (hs : s.InOrder) (sofar : List MediaQuery × Option Token)
    (hbetween : sofar.2.isSome → s.stream.Held) (hnear : s.stream.Near) :
    Orderly (Parser.queryStep sofar) s
      (Turn (fun sofar s' => s'.stream.Near ∧ (sofar.2.isSome → s'.stream.Held))
        fun _ s' => s'.stream.Near) := by
  obtain ⟨queries, _ | t⟩ := sofar
  · exact pure hs hnear
  · refine (mediaQuery hs ⟨hnear, hbetween rfl⟩ t).bind fun query s₁ _ hs₁ hbetween₁ => ?_
    refine (matchSmart hs₁ hbetween₁.1 _).bind fun r s₂ _ hs₂ hfound => ?_
    have hbetween₂ : s₂.stream.Between := Found.between hfound hbetween₁.2
    refine ite (fun _ => pure hs₂ hbetween₂.1) fun _ => ?_
    refine (matchSmart hs₂ hbetween₂.1 _).bind fun r s₃ _ hs₃ hfound₃ => pure hs₃ ?_
    have hbetween₃ : s₃.stream.Between := Found.between hfound₃ hbetween₂.2
    exact ⟨hbetween₃.1, fun _ => hbetween₃.2⟩

theorem mediaQueries (hs : s.InOrder) (reuse : Bool) (hnear : s.stream.Near)
    (hreuse : reuse = true → s.stream.Fresh) :
    Orderly (Parser.mediaQueries reuse) s fun _ s' => s'.stream.Near := by
  unfold Parser.mediaQueries
  extract_lets rest
  have hrest : ∀ (first : Option Token) {s₁ : State}, s₁.InOrder → s₁.stream.Near →
      (first.isSome → s₁.stream.Held) → Orderly (rest first) s₁ fun _ s' => s'.stream.Near := by
    intro first s₁ hs₁ hnear₁ hheld₁
    refine (repeating (I := fun sofar s' => s'.stream.Near ∧ (sofar.2.isSome → s'.stream.Held))
      (Q := fun _ s' => s'.stream.Near) hs₁ ⟨hnear₁, hheld₁⟩
      (fun sofar s₂ _ hs₂ hI => queryStep hs₂ sofar hI.2 hI.1) fun _ _ hI => hI.1).bind
      fun r s₂ _ hs₂ hnear₂ => pure hs₂ hnear₂
  refine ite (fun htrue => ?_) fun _ => ?_
  · obtain ⟨t, ht⟩ := hreuse htrue
    refine (matchReuse hs ht _).bind fun r s₁ _ hs₁ hr => hrest r hs₁ hr.2 fun hsome => ?_
    obtain ⟨u, rfl⟩ := Option.isSome_iff_exists.mp hsome
    rw [(hr.1 u rfl).1]
    exact ht.held
  · refine (matchSmart hs hnear _).bind fun r s₁ _ hs₁ hfound => ?_
    cases r with
    | none => exact hrest none hs₁ hfound.1 fun h => by cases h
    | some t => exact hrest (some t) hs₁ hfound.1.near fun _ => hfound.1.held

end Orderly

end Stylesheet
