import Stylesheet.Parse.Media
import Stylesheet.Proofs.Reads.Runs

/-!
# Reading values and media queries reads on

Every part of a value takes a token, and what stands in brackets starts
after the bracket. So the parts of a value and the depth of its brackets
are both bounded by what is left to read, and a value that was read has
its last token in hand.

Passing over what is broken reads at most a value and then moves on.

A feature of a media query ends with its closing bracket in hand. Every
further feature takes the word that joins it, and every further query the
comma before it.
-/

namespace Stylesheet

open Parse (State)
open Parse.State (Keeps Stands stands_false stands_true)

/-- **A value depends on the next token only**, however it is to be had. -/
theorem Parser.expr_of_next {s s₁ : State} {ends : List TokenKind} {raw : Bool}
    (hnext : Parser.next true false s = Parser.next true false s₁) (hbudget : s.budget = s₁.budget)
    (hpos : 1 < s.budget) : Parser.expr ends raw s = Parser.expr ends raw s₁ := by
  obtain ⟨b, hb⟩ : ∃ b, s.budget = b + 1 := ⟨s.budget - 1, by omega⟩
  have hstep : ∀ i, Parser.repeating [] (Parser.exprStep i ends raw) s =
      Parser.repeating [] (Parser.exprStep i ends raw) s₁ := by
    intro i
    rw [Parser.repeating_apply, Parser.repeating_apply, ← hbudget, hb]
    refine Parser.bind_eq ?_
    unfold Parser.exprStep
    exact Parser.bind_eq hnext
  show Parser.exprTo s.budget ends raw s = Parser.exprTo s₁.budget ends raw s₁
  rw [← hbudget, hb]
  exact Parser.bind_eq (hstep _)

/-- **A reader of values that reads on** wherever less than a bound is
left. -/
def RunsExpr (d : Nat) (inner inner' : Parser.ExprParser) : Prop :=
  ∀ (ends : List TokenKind) (raw : Bool), Runs d false true (inner ends raw) (inner' ends raw)

namespace Runs

variable {d : Nat} {a : Bool} {inner inner' : Parser.ExprParser}

/-! ## Parts -/

theorem hashPart (t : Token) : Runs d a a (Parser.hashPart t) (Parser.hashPart t) := by
  unfold Parser.hashPart
  exact ite (fun _ => pure _) fun _ => (warn _ _).bind fun _ => pure _

theorem blockPart (hinner : RunsExpr d inner inner') (t : Token) (close : TokenKind) (raw : Bool) :
    Runs d false true (Parser.blockPart inner t close raw)
      (Parser.blockPart inner' t close raw) := by
  unfold Parser.blockPart
  refine (hinner _ _).bind fun inside => current.bind fun last => ?_
  exact ite (fun _ => (slice _ _).bind fun _ => pure _) fun _ => failAt_bind _ _

theorem functionPart (hinner : RunsExpr d inner inner') (t : Token) (raw : Bool) :
    Runs d false true (Parser.functionPart inner t raw) (Parser.functionPart inner' t raw) := by
  unfold Parser.functionPart
  refine (hinner _ _).bind fun args => current.bind fun close => ?_
  refine ite (fun _ => (slice _ _).bind fun text => ?_) fun _ => failAt_bind _ _
  cases args with
  | none => exact pure _
  | some args => exact pure _

/-- A part other than a bracketed block. -/
theorem plainPart (hinner : RunsExpr d inner inner') (t : Token) (raw : Bool) :
    Runs d false false (Parser.plainPart inner t raw) (Parser.plainPart inner' t raw) := by
  unfold Parser.plainPart
  refine ite (fun _ => ?_) fun _ => ?_
  · exact options.bind fun _ => ite (fun _ => failAt_bind _ _) fun _ =>
      (functionPart hinner t raw).release
  · exact ite (fun _ => pure _) fun _ => ite (fun _ => hashPart t) fun _ =>
      ite (fun _ => pure _) fun _ => pure _

/-! ## Values -/

theorem exprStep (hinner : RunsExpr d inner inner') (ends : List TokenKind) (raw : Bool)
    (parts : List ValuePart) :
    Steps (d + 1) false true (Parser.exprStep inner ends raw parts)
      (Parser.exprStep inner' ends raw parts) := by
  intro s n hs hd hstands₀
  have hn := hstands₀.1
  unfold Parser.exprStep
  refine (Reads.next hs true false).bind fun t s₁ h₁ hgot => ?_
  have hstands : Stands true n s₁ := stands_of_got hn hgot
  refine Reads.ite (fun _ => Reads.pure h₁.isSound hstands) fun hends => ?_
  -- the token is not the end of the source, so the brackets it opens hold less
  have heof : t.kind ≠ .eof := by
    intro heof
    simp [Token.isEof, heof] at hends
  have hlt : s.offset < s₁.offset := hgot.place_lt_place heof
  have hd₁ : Text.byteLength s₁.stream.source < n + 1 + d := by
    rw [h₁.source_eq]
    omega
  have hyield : ∀ {p p' : Parser ValuePart}, Runs d false false p p' →
      Reads n (p >>= fun part => Pure.pure (ForInStep.yield (part :: parts)))
        (p' >>= fun part => Pure.pure (ForInStep.yield (part :: parts))) s₁ (Round true n) := by
    intro p p' hp
    refine ((hp s₁ (n + 1) h₁.isSound hd₁ (stands_false (by omega))).lower (Nat.le_succ n)).bind
      fun part s₂ h₂ hstands₂ => ?_
    exact Reads.pure h₂.isSound hstands₂.1
  cases Parser.closingKind? t.kind with
  | some close =>
    refine Reads.ite (fun _ => Reads.pure h₁.isSound hstands) fun _ => ?_
    exact hyield (blockPart hinner t close raw).release
  | none => exact hyield (plainPart hinner t raw)

theorem exprTo {k d d' : Nat} (hd : k ≤ d) (hd' : k ≤ d') :
    RunsExpr k (Parser.exprTo d) (Parser.exprTo d') := by
  induction k generalizing d d' with
  | zero =>
    intro ends raw s n hs hd hstands
    have hle := hs.offset_le
    have hn := hstands.1
    omega
  | succ k ih =>
    obtain ⟨d, rfl⟩ : ∃ i, d = i + 1 := ⟨d - 1, by omega⟩
    obtain ⟨d', rfl⟩ : ∃ i, d' = i + 1 := ⟨d' - 1, by omega⟩
    have hinner := ih (Nat.le_of_succ_le_succ hd) (Nat.le_of_succ_le_succ hd')
    intro ends raw
    unfold Parser.exprTo
    refine (repeating fun parts => exprStep hinner ends raw parts).bind fun parts => ?_
    refine ite (fun _ => pure _) fun _ => fun s n hs _ hstands => ?_
    exact Reads.state fun _ => Reads.pure hs hstands

theorem expr : RunsExpr d Parser.expr Parser.expr := by
  intro ends raw s n hs _ hstands
  refine Reads.budget (fun b hb => ?_) hs
  have hbound : Text.byteLength s.stream.source < n + s.bound := by
    unfold Parse.State.bound
    omega
  exact exprTo hs.budget hb ends raw s n hs hbound hstands

theorem function (t : Token) (raw : Bool) :
    Runs d false true (Parser.function t raw) (Parser.function t raw) :=
  functionPart expr t raw

/-! ## Recovery -/

theorem recover (e : Diagnostic) (inBlock : Bool) :
    Runs d a false (Parser.recover e inBlock) (Parser.recover e inBlock) := by
  intro s n hs hd hstands
  unfold Parser.recover
  have hskip : Runs d false false
      (do Parser.moveStream (·.skipBroken inBlock); Parser.report e)
      (do Parser.moveStream (·.skipBroken inBlock); Parser.report e) :=
    (skipBroken inBlock).bind fun _ => report e
  refine Reads.state fun b => ?_
  dsimp only [Parse.State.withBudget]
  cases s.pair with
  | none => exact hskip s n hs hd hstands.release
  | some close =>
    have hclose : Runs d false false (do
        Parser.update fun s => { s with pair := none }
        Functor.discard (Parser.attempt (Parser.expr [close] true))) (do
        Parser.update fun s => { s with pair := none }
        Functor.discard (Parser.attempt (Parser.expr [close] true))) :=
      (setPair none).bind fun _ => (attempt (expr [close] true)).discard
    exact hclose.bind (fun _ => hskip) s n hs hd hstands.release

/-! ## Media queries -/

theorem mediaFeature (start : Option Token) :
    Runs d false true (Parser.mediaFeature start) (Parser.mediaFeature start) := by
  unfold Parser.mediaFeature
  extract_lets feature
  have hfeature : ∀ t, Runs d false true (feature t) (feature t) := by
    intro t
    refine ite (fun _ => ?_) fun _ => failAt_bind _ _
    refine (mustMatchSmart _).bind fun name => (expr _ _).of_false.bind fun inside => ?_
    exact (mustReuse _).bind fun close => (slice _ _).bind fun _ => pure _
  cases start with
  | some t => exact (hfeature t).pure_bind
  | none => exact grab.bind fun t => (hfeature t).of_false

/-- One more feature takes the word that joins it. -/
theorem featureStep (sofar : List MediaFeature × Keywords × Bool) :
    Steps d false false (Parser.featureStep sofar) (Parser.featureStep sofar) := by
  unfold Parser.featureStep
  refine Steps.matchKeyword_bind (fun word => ?_) (Steps.done _)
  exact GoesOn.bind (mediaFeature none) fun _ => GoesOn.yield _

theorem mediaQuery (start : Token) :
    Runs d false false (Parser.mediaQuery start) (Parser.mediaQuery start) := by
  unfold Parser.mediaQuery
  extract_lets modifier query
  have hquery : ∀ first, Runs d false false (query first) (query first) := by
    intro first
    unfold query
    extract_lets mediaType joiners rest
    have hrest : ∀ features, Runs d false false (rest features) (rest features) := fun features =>
      (repeating featureStep).bind fun _ => current.bind fun _ => (slice _ _).bind fun _ => pure _
    exact ite (fun _ => (hrest _).pure_bind) fun _ =>
      (mediaFeature _).release.bind fun _ => (hrest _).pure_bind
  exact ite (fun _ => (mustMatchSmart _).release.bind hquery) fun _ => (hquery _).pure_bind

/-- One more query takes the comma before it. -/
theorem queryStep (sofar : List MediaQuery × Option Token) :
    Steps d false false (Parser.queryStep sofar) (Parser.queryStep sofar) := by
  unfold Parser.queryStep
  rcases sofar with ⟨queries, _ | t⟩
  · exact Steps.done _
  · refine Steps.bind (mediaQuery t) fun query => ?_
    refine Steps.matched_bind (fun _ _ hs => Reads.matchSmart hs _) (by decide) (fun _ => ?_)
      (Steps.done _)
    exact GoesOn.bind (matchSmart _) fun _ => GoesOn.yield _

theorem mediaQueries (reuse : Bool) :
    Runs d reuse false (Parser.mediaQueries reuse) (Parser.mediaQueries reuse) := by
  unfold Parser.mediaQueries
  extract_lets queries
  have hqueries : ∀ first, Runs d false false (queries first) (queries first) := fun first =>
    (repeating queryStep).bind fun _ => pure _
  cases reuse with
  | true => exact (matchReuse _).bind hqueries
  | false => exact (matchSmart _).bind hqueries

end Runs

end Stylesheet
