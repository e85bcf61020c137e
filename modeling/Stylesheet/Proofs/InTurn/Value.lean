import Stylesheet.Parse.AtRule
import Stylesheet.Parse.Rule
import Stylesheet.Proofs.InTurn.Pointing

/-!
# Failures in values and selectors

Readers of values and selectors look one token too far, and most of their
failures are at that token, which is in hand. The exceptions are a blank in
the argument of `:nth-child()`, at which reading fails after it has looked at
the token behind it, and the token a media query starts with.

A reader of lists of selectors may be given its first token. If nothing starts
there, nothing is read, and that token is still the one in hand.
-/

namespace Stylesheet

open Stylesheet.Stream (Anyhow Beyond Enters Grasps GraspsTwo Has IsElementName Passed)

namespace Points

variable {d : Nat} {P : Nat → Stream → Prop} {inner : Parser.ExprParser}
  {group : Parser.GroupParser}

/-- What is in hand starts no earlier than an earlier offset. -/
theorem grasps_of_succ {α : Type} (_ : α) (n : Nat) (st : Stream) (h : Grasps (n + 1) st) :
    Grasps n st := h.mono (Nat.le_succ n)

/-! ## Values -/

/-- **A reader of values whose failures point** to where reading stands. -/
def PointsExpr (d : Nat) (inner : Parser.ExprParser) : Prop :=
  ∀ ends raw, Points d Anyhow (inner ends raw) fun _ => Grasps

theorem hashPart (t : Token) : Points d P (Parser.hashPart t) fun _ => P := by
  unfold Parser.hashPart
  exact ite (fun _ => pure fun _ _ _ => id) fun _ =>
    (warn _ _).bind fun _ => pure fun _ _ _ => id

theorem blockPart (hinner : PointsExpr d inner) (t : Token) (close : TokenKind) (raw : Bool) :
    Points d Anyhow (Parser.blockPart inner t close raw) fun _ => Grasps := by
  unfold Parser.blockPart
  refine (hinner _ _).bind fun inside => current_bind fun last => ?_
  exact ite (fun _ => slice_bind fun _ => pure fun _ _ _ => Has.grasps) fun _ => failAt_has_bind

theorem functionPart (hinner : PointsExpr d inner) (t : Token) (raw : Bool) :
    Points d Anyhow (Parser.functionPart inner t raw) fun _ => Grasps := by
  unfold Parser.functionPart
  refine (hinner _ _).bind fun args => current_bind fun close => ?_
  refine ite (fun _ => slice_bind fun text => ?_) fun _ => failAt_has_bind
  cases args <;> exact pure fun _ _ _ => Has.grasps

/-- A token in hand that is not the end of the source has something after
it. -/
theorem deeper_has {α : Type} {p : Parser α} {t : Token} (h : Points d Anyhow p fun _ => Grasps)
    (ht : t.kind ≠ .eof) : Points (d + 1) (Has t) p fun _ => Grasps :=
  h.deeper (fun _ _ hs hhas => ⟨hhas.lt_place hs ht, trivial⟩) grasps_of_succ

theorem plainPart (hinner : PointsExpr d inner) {t : Token} (ht : t.kind ≠ .eof) (raw : Bool) :
    Points (d + 1) (Has t) (Parser.plainPart inner t raw) fun _ => Grasps := by
  have hplain : ∀ part : ValuePart, Points (d + 1) (Has t) (Pure.pure part) fun _ => Grasps :=
    fun _ => pure fun _ _ _ => Has.grasps
  unfold Parser.plainPart
  refine ite (fun _ => ?_) fun _ => ite (fun _ => hplain _) fun _ => ite (fun _ => ?_) fun _ =>
    ite (fun _ => hplain _) fun _ => hplain _
  · have hfunction := deeper_has (functionPart hinner t raw) ht
    exact options_bind fun _ => ite (fun _ => failAt_has_bind) fun _ => hfunction
  · exact (hashPart t).weaken fun _ _ _ _ => Has.grasps

theorem exprStep (hinner : PointsExpr d inner) (ends : List TokenKind) (raw : Bool)
    (parts : List ValuePart) :
    Points (d + 1) Anyhow (Parser.exprStep inner ends raw parts)
      (Turn (fun _ => Grasps) fun _ => Grasps) := by
  unfold Parser.exprStep
  refine (next true false).bind fun t => ite (fun _ => pure fun _ _ _ => Has.grasps) fun hends => ?_
  have heof : t.kind ≠ .eof := by
    intro heof
    simp [Token.isEof, heof] at hends
  cases Parser.closingKind? t.kind with
  | some close =>
    refine ite (fun _ => pure fun _ _ _ => Has.grasps) fun _ => ?_
    exact (deeper_has (blockPart hinner t close raw) heof).bind fun _ => pure fun _ _ _ => id
  | none => exact (plainPart hinner heof raw).bind fun _ => pure fun _ _ _ => id

theorem exprTo (depth : Nat) (hd : d ≤ depth) : PointsExpr d (Parser.exprTo depth) := by
  induction depth generalizing d with
  | zero =>
    intro ends raw s n hs hleft hn _
    have hle := hs.offset_le
    omega
  | succ depth ih =>
    intro ends raw
    cases d with
    | zero =>
      intro s n hs hleft hn _
      have hle := hs.offset_le
      omega
    | succ d =>
      have hinner : PointsExpr d (Parser.exprTo depth) := ih (Nat.le_of_succ_le_succ hd)
      unfold Parser.exprTo
      refine (repeating_first (exprStep hinner ends raw _)
        (fun parts => (exprStep hinner ends raw parts).of_anyhow) fun _ _ _ => id).bind
        fun parts => ite (fun _ => pure fun _ _ _ => id) fun _ => ?_
      exact state_bind fun _ => pure fun _ _ _ => id

theorem expr : PointsExpr d Parser.expr := by
  intro ends raw s n hs _ hn hP
  have hbudget : Text.byteLength s.stream.source + 64 ≤ s.budget := hs.budget
  have hrun := exprTo s.budget (Nat.le_refl _) ends raw s n hs (by omega) hn hP
  exact ⟨hrun.keeps, hrun.error, hrun.ok⟩

theorem function (t : Token) (raw : Bool) :
    Points d Anyhow (Parser.function t raw) fun _ => Grasps := functionPart expr t raw

/-! ## Media queries -/

/-- **A feature in brackets**, whose first token may have been read already. -/
theorem mediaFeature (start : Option Token) (hP : ∀ t, start = some t → t.kind ≠ .lParen →
    ∀ n st, P n st → Passed t n st) : Points d P (Parser.mediaFeature start) fun _ => Grasps := by
  unfold Parser.mediaFeature
  extract_lets feature
  have hfeature : ∀ t, Points d (fun n st => t.kind ≠ .lParen → Passed t n st) (feature t)
      fun _ => Grasps := by
    intro t
    refine ite (fun _ => ?_) fun hother => failAt_bind.of fun _ _ _ h => h fun hkind =>
      hother (by rw [hkind]; rfl)
    refine (mustMatchSmart _).bind fun name => (expr _ _).of_anyhow.bind fun inside => ?_
    exact (mustReuse _).bind fun close => slice_bind fun _ => pure fun _ _ _ => Has.grasps
  cases start with
  | some t => exact pure_bind ((hfeature t).of fun n st _ h hkind => hP t rfl hkind n st h)
  | none => exact grab.bind fun t => (hfeature t).of fun _ _ hs ht _ => ht.passed hs

theorem featureStep (sofar : List MediaFeature × Keywords × Bool) :
    Points d Grasps (Parser.featureStep sofar) (Turn (fun _ => Grasps) fun _ => Grasps) := by
  unfold Parser.featureStep
  refine (matchKeyword lasts_grasps _).bind fun word => ?_
  cases word with
  | none => exact pure fun _ _ _ => id
  | some word =>
    exact (mediaFeature none fun _ h => (by cases h)).bind fun _ => pure fun _ _ _ => id

theorem mediaQuery (start : Token) :
    Points d (Has start) (Parser.mediaQuery start) fun _ => Grasps := by
  unfold Parser.mediaQuery
  extract_lets modifier query
  have hquery : ∀ first, Points d (Has first) (query first) fun _ => Grasps := by
    intro first
    unfold query
    extract_lets mediaType joiners rest
    have hrest : ∀ features, Points d Grasps (rest features) fun _ => Grasps := fun features =>
      (repeating (fun _ _ => id) featureStep fun _ _ _ => id).bind fun r =>
        current_bind fun _ => slice_bind fun _ => pure fun _ _ _ => Has.grasps
    refine ite (fun _ => pure_bind ((hrest _).of fun _ _ _ => Has.grasps)) fun _ => ?_
    exact ((mediaFeature (P := Passed first) (some first) (by rintro _ ⟨⟩ _ _ _ h; exact h)).of
      fun _ _ hs ht => ht.passed hs).bind fun _ => pure_bind (hrest _)
  exact ite (fun _ => (mustMatchSmart _).bind hquery) fun _ => pure_bind (hquery _)

/-- The first token of a query that is still to be read is in hand. -/
def Starts (P : Nat → Stream → Prop) (r : List MediaQuery × Option Token) :
    Nat → Stream → Prop := Found P r.2

theorem queryStep (sofar : List MediaQuery × Option Token) :
    Points d (Starts Anyhow sofar) (Parser.queryStep sofar) (Turn (Starts Anyhow) fun _ => Anyhow) := by
  unfold Parser.queryStep
  obtain ⟨queries, _ | t⟩ := sofar
  · exact pure fun _ _ _ _ => trivial
  · refine (mediaQuery t).bind fun query => (matchSmart lasts_anyhow _).of_anyhow.bind fun comma => ?_
    refine ite (fun _ => pure fun _ _ _ _ => trivial) fun _ => ?_
    exact (matchSmart lasts_anyhow _).of_anyhow.bind fun next => pure fun _ _ _ => id

/-- **A list of media queries**, whose first token may be in hand. -/
theorem mediaQueries (reuse : Bool) (hP : reuse = true → ∀ n st, P n st → Grasps n st) :
    Points d P (Parser.mediaQueries reuse) fun _ => Anyhow := by
  unfold Parser.mediaQueries
  extract_lets queries
  have hqueries : ∀ first, Points d (Found Anyhow first) (queries first) fun _ => Anyhow := by
    intro first
    have hloop : Points d (Found Anyhow first)
        (Parser.repeating (([], first) : List MediaQuery × Option Token) Parser.queryStep)
        fun _ => Anyhow :=
      repeating (I := Starts Anyhow) (fun _ _ => id) queryStep fun _ _ _ _ => trivial
    exact hloop.bind fun _ => pure fun _ _ _ _ => trivial
  cases reuse with
  | true => exact ((matchReuse _).of fun n st _ => hP rfl n st).bind hqueries
  | false => exact (matchSmart lasts_anyhow _).of_anyhow.bind hqueries

/-! ## Modifiers -/

/-- The start of an attribute test, whose first token is in hand. -/
theorem attributeHead (t : Token) : Points d Grasps (Parser.attributeHead t) fun _ => Grasps := by
  unfold Parser.attributeHead
  split
  · exact pure fun _ _ _ => id
  · exact (mustMatch _).discard_grasps.bind fun _ =>
      pure fun _ _ _ => id
  · refine (next false true).bind fun after => ?_
    split <;> first | exact pure fun _ _ _ => Has.grasps | exact failAt_has

theorem attributeOp (head : Parser.AttributeHead) :
    Points d Grasps (Parser.attributeOp head) fun _ => Grasps := by
  unfold Parser.attributeOp
  refine ite (fun _ => ?_) fun _ => pure fun _ _ _ => id
  exact (mustMatchSmart _).bind fun t =>
    ite (fun _ => pure fun _ _ _ => Has.grasps) fun _ => pure fun _ _ _ => Has.grasps

theorem attributeValue : Points d P Parser.attributeValue fun _ => Grasps := by
  unfold Parser.attributeValue
  refine (mustMatchSmart _).bind fun value => grab.bind fun t => ?_
  exact ite (fun _ => pure fun _ _ _ => Has.grasps) fun _ =>
    ite (fun _ => pure fun _ _ _ => Has.grasps) fun _ => failAt_has

theorem attributeTest (start : Token) :
    Points d P (Parser.attributeTest start) fun _ => Grasps := by
  unfold Parser.attributeTest
  refine (mustMatchSmart _).bind fun first => (setPair _).bind fun _ => ?_
  refine ((attributeHead first).of fun _ _ _ => Has.grasps).bind fun head => ?_
  extract_lets afterName
  have hafterName : ∀ name, Points d Grasps (afterName name) fun _ => Grasps := by
    intro name
    refine (attributeOp head).bind fun head => ?_
    extract_lets afterValue
    have hafterValue : ∀ found, Points d Grasps (afterValue found) fun _ => Grasps := by
      rintro ⟨value, flag, close⟩
      cases close with
      | some t => exact pure_bind ((setPair _).bind fun _ => slice_bind fun _ => pure fun _ _ _ => id)
      | none =>
        exact (mustMatchSmart _).bind fun _ => (setPair _).bind fun _ =>
          slice_bind fun _ => pure fun _ _ _ => Has.grasps
    refine ite (fun _ => ?_) fun _ => pure_bind (hafterValue (none, none, head.close))
    exact attributeValue.bind fun ⟨value, flag, close⟩ =>
      pure_bind (hafterValue (some value, flag, close))
  cases head.name with
  | some name => exact pure_bind (hafterName name)
  | none => exact (mustMatch _).bind fun _ => pure_bind ((hafterName _).of fun _ _ _ => Has.grasps)

/-! ## Pseudo-classes -/

/-- **A reader of lists of selectors whose failures point** to where reading
stands. A first token that was read already is in hand, and some token is in
hand when it is done. -/
def PointsGroup (d : Nat) (group : Parser.GroupParser) : Prop :=
  ∀ first relative lax, Points d (fun n st => ∀ t, first = some t → Enters t n st)
    (group first relative lax) fun _ => Grasps

/-- Without a first token nothing has to be in hand. -/
theorem PointsGroup.withoutFirst (h : PointsGroup d group) (relative lax : Bool) :
    Points d P (group none relative lax) fun _ => Grasps :=
  (h none relative lax).of fun _ _ _ _ _ h => by cases h

theorem selectorArgs (hgroup : PointsGroup d group) (name : String) :
    Points d P (Parser.selectorArgs group name) fun _ => Grasps := by
  unfold Parser.selectorArgs
  refine (hgroup.withoutFirst _ _).bind fun list => ?_
  cases list with
  | none => exact failHere
  | some list =>
    exact (mustReuse _).discard_grasps.bind fun _ =>
      pure fun _ _ _ => id

/-- Reading a count leaves nothing in hand. -/
theorem readNth : Points d P (Parser.ask (·.readNth)) fun _ => Anyhow :=
  of_ask fun _ _ hs hn _ =>
    let hmoves := hs.readNth
    ⟨hmoves.isSound, hmoves.source_eq, Nat.le_trans hn hmoves.place_le, trivial⟩

theorem countArgs (hgroup : PointsGroup d group) (name : String) :
    Points d P (Parser.countArgs group name) fun _ => Grasps := by
  unfold Parser.countArgs
  refine readNth.bind fun count => (next false true).bind fun first => ?_
  extract_lets rest
  -- a failure is at the first token, which may be a blank that was passed over
  have hrest : ∀ t, Points d (fun n st => Has t n st ∧ Passed first n st) (rest t)
      fun _ => Grasps := by
    intro t
    have hfail : ∀ {α : Type} {Q : α → Nat → Stream → Prop},
        Points d (fun n st => Has t n st ∧ Passed first n st)
          (Parser.failAt "" first : Parser α) Q := failAt.of fun _ _ _ => And.right
    cases count with
    | some count =>
      exact ite (fun _ => (selectorArgs hgroup name).bind fun _ => pure fun _ _ _ => id) fun _ =>
        ite (fun _ => pure fun _ _ _ h => h.1.grasps) fun _ => hfail
    | none => exact ite (fun _ => pure fun _ _ _ h => h.1.grasps) fun _ => hfail
  refine ite (fun _ => ?_) fun _ => pure_bind ((hrest first).of fun _ _ hs h => ⟨h, h.passed hs⟩)
  exact ((next_passed false false).of fun _ _ hs h => h.passed hs).bind hrest

theorem pseudoArgs (hgroup : PointsGroup d group) (name : String) :
    Points d P (Parser.pseudoArgs group name) fun _ => Grasps := by
  unfold Parser.pseudoArgs
  refine ite (fun _ => countArgs hgroup name) fun _ => ite (fun _ => ?_) fun _ => ?_
  · exact (selectorArgs hgroup name).bind fun _ => pure fun _ _ _ => id
  · refine (expr _ _).of_anyhow.bind fun value => current_bind fun close => ?_
    exact ite (fun _ => pure fun _ _ _ => Has.grasps) fun _ => failAt_has_bind

theorem pseudo (hgroup : PointsGroup d group) (colon : Token) :
    Points (d + 1) P (Parser.pseudo group colon) fun _ => Grasps := by
  unfold Parser.pseudo
  refine (matchKinds lasts_anyhow _).of_anyhow.bind fun second => ?_
  extract_lets colons rest
  refine (mustMatch_kind _).bind fun t => ?_
  have hrest : ∀ found, Points (d + 1) Grasps (rest found) fun _ => Grasps := fun _ =>
    current_bind fun _ => slice_bind fun _ => pure fun _ _ _ => Has.grasps
  refine ite (fun _ => pure_bind ((hrest (t.lower, none)).of fun _ _ _ h => h.1.grasps))
    fun _ => ?_
  refine (setPair _).bind fun _ => ?_
  have hargs : Points (d + 1)
      (fun n st => Has t n st ∧ [TokenKind.function, .ident].contains t.kind = true)
      (Parser.pseudoArgs group t.name) fun _ => Grasps := by
    refine (pseudoArgs (P := Anyhow) hgroup t.name).deeper (fun n st hs h => ⟨?_, trivial⟩)
      grasps_of_succ
    refine h.1.lt_place hs fun heof => ?_
    rw [heof] at h
    exact Bool.false_ne_true h.2
  exact hargs.bind fun args => (setPair _).bind fun _ => pure_bind (hrest (t.name, some args))

theorem modifier? (hgroup : PointsGroup d group) (t : Token) :
    Points (d + 1) Grasps (Parser.modifier? group t) fun _ => Grasps := by
  unfold Parser.modifier?
  have hcurrent : ∀ m : Modifier Selector, Points (d + 1) Grasps
      (do return some (m, (← Parser.current).stop)) fun _ => Grasps := fun _ =>
    current_bind fun _ => pure fun _ _ _ => Has.grasps
  split
  · exact pure fun _ _ _ => id
  · exact pure fun _ _ _ => id
  · exact (mustMatch _).bind fun _ => current_bind (fun _ => pure fun _ _ _ => Has.grasps) |>.of
      fun _ _ _ => Has.grasps
  · exact (attributeTest t).bind hcurrent
  · exact (pseudo hgroup t).bind hcurrent
  · exact pure fun _ _ _ => id

/-! ## Compounds -/

theorem ampStep (sofar : Parser.CompoundSoFar × Token) :
    Points d (Enters sofar.2) (Parser.ampStep sofar)
      (Turn (fun sofar => Enters sofar.2) fun sofar => Enters sofar.2) := by
  unfold Parser.ampStep
  exact ite (fun _ => (next false true).bind fun _ => pure fun _ _ _ h => Or.inl h.grasps) fun _ =>
    pure fun _ _ _ => id

theorem modifierStep (hgroup : PointsGroup d group) (c : Parser.CompoundSoFar) :
    Points (d + 1) Grasps (Parser.modifierStep group c)
      (Turn (fun _ => Grasps) fun _ => Grasps) := by
  unfold Parser.modifierStep
  extract_lets rest
  have hrest : ∀ t, Points (d + 1) Grasps (rest t) (Turn (fun _ => Grasps) fun _ => Grasps) :=
    fun t => (modifier? hgroup t).bind fun r => by
      rcases r with _ | ⟨m, stop⟩ <;> exact pure fun _ _ _ => id
  cases c.pending with
  | some t => exact pure_bind (hrest t)
  | none => exact (next false true).bind fun t => (hrest t).of fun _ _ _ => Has.grasps

/-- **A name after a namespace.** Without one the bar may be taken back, and
then the name of the namespace is in hand. -/
theorem nameInNamespace (ns : String) (t : Token) :
    Points d (fun n st => Grasps n st ∧ (t.kind ≠ .pipe → GraspsTwo n st))
      (Parser.nameInNamespace ns t) fun _ => Grasps := by
  unfold Parser.nameInNamespace
  have hlasts : Lasts fun n st => Grasps n st ∧ (t.kind ≠ .pipe → GraspsTwo n st) :=
    fun st n placeholders blanks hs hn h => ⟨h.1.get_back hs hn placeholders blanks,
      fun ht => (h.2 ht).get_back hs hn placeholders blanks⟩
  refine (matchKinds hlasts _).bind fun found => ?_
  cases found with
  | some name => exact pure fun _ _ _ => Has.grasps
  | none =>
    refine ite (fun _ => pure fun _ _ _ h => h.1) fun ht => ?_
    have hback := unget_back (d := d) (P := Found
      (fun n st => Grasps n st ∧ (t.kind ≠ .pipe → GraspsTwo n st)) none)
      (R := Grasps) fun n st h => ⟨h.1, (h.2 (by simpa using ht)).2⟩
    exact hback.bind fun _ => pure fun _ _ _ => id

/-- The token after a name where no bar comes next. -/
theorem next_noBar {P : Nat → Stream → Prop} (hP : ∀ n st, P n st →
    (st.get false true).1.kind ≠ .pipe) : Points d P (Parser.next false true) fun t n st =>
      Has t n st ∧ t.kind ≠ .pipe :=
  of_ask fun st n hs hn h =>
    let hgot := hs.get false true
    ⟨hgot.isSound, hgot.source_eq, Nat.le_trans hn hgot.place_le_place, hgot.has hn, hP n st h⟩

theorem elementName (t : Token) (stop : Location) :
    Points d (Enters t) (Parser.elementName t stop) fun _ => Grasps := by
  unfold Parser.elementName
  refine ite (fun hpipe => ?_) fun _ => ite (fun _ => ?_) fun hother => ?_
  · refine (nameInNamespace "" t).of fun _ _ _ h => ⟨h.resolve_right fun hname => ?_,
      fun hne => absurd (eq_of_beq hpipe) hne⟩
    rcases hname.1 with hkind | hkind <;> rw [hkind] at hpipe <;> cases hpipe
  · refine or ?_ ?_
    · refine (next_second false true).bind fun after => ite (fun _ => ?_) fun _ =>
        pure fun _ _ _ => And.left
      exact (nameInNamespace t.text t).of fun _ _ _ h => ⟨h.1, fun _ => h⟩
    · refine (next_noBar fun _ _ h => h.2.2).bind fun after => ite (fun hpipe => ?_) fun _ =>
        pure fun _ _ _ h => h.1.grasps
      exact (nameInNamespace t.text t).of fun _ _ _ h => absurd (eq_of_beq hpipe) h.2
  · refine pure fun _ _ _ h => h.resolve_right fun hname => hother ?_
    rcases hname.1 with hkind | hkind <;> rw [hkind] <;> rfl

/-- **A compound**, whose first token may have been read already. Some token
is in hand when it is done, and also when there is none. -/
theorem compound (hgroup : PointsGroup d group) (start : Option Token) :
    Points (d + 1) (fun n st => ∀ t, start = some t → Enters t n st)
      (Parser.compound group start) fun _ => Grasps := by
  unfold Parser.compound
  extract_lets rest
  have hrest : ∀ t, Points (d + 1) (Enters t) (rest t) fun _ => Grasps := by
    intro t
    refine ite (fun hnone => pure fun _ _ _ h => h.resolve_right fun hname => ?_) fun _ => ?_
    · obtain ⟨hname, hcustom, -⟩ := hname
      rw [hcustom] at hnone
      rcases hname with hkind | hkind <;> rw [hkind] at hnone <;> cases hnone
    have hamps : Points (d + 1) (Enters t)
        (Parser.repeating (⟨[], t.stop, none⟩, t) Parser.ampStep) fun sofar => Enters sofar.2 :=
      repeating (I := fun sofar => Enters sofar.2) (fun _ _ => id) ampStep fun _ _ _ => id
    refine hamps.bind fun ⟨sofar, t⟩ => (elementName t sofar.stop).bind fun element => ?_
    cases element with
    | none => exact pure fun _ _ _ => id
    | some element =>
      refine (repeating (Q := fun _ => Grasps) (fun _ _ => id) (modifierStep hgroup)
        fun _ _ _ => id).bind fun sofar => ?_
      exact slice_bind fun _ => pure fun _ _ _ => id
  cases start with
  | some t => exact pure_bind ((hrest t).of fun _ _ _ h => h t rfl)
  | none => exact grab.bind fun t => (hrest t).of fun _ _ _ h => Or.inl h.grasps

/-! ## Selectors -/

/-- The compound after a combinator; without one reading fails. -/
theorem compoundAfter (hgroup : PointsGroup d group) {sofar : Parser.SelectorSoFar}
    {comb : Combinator} :
    Points (d + 1) Grasps (do
      match ← Parser.compound group none with
      | some (c, stop) => return .yield (sofar.push comb c stop)
      | none => Parser.failHere "") (Turn (fun _ => Grasps) fun _ => Grasps) := by
  refine ((compound hgroup none).of fun _ _ _ _ _ h => (by cases h)).bind fun found => ?_
  rcases found with _ | ⟨c, stop⟩
  · exact failHere
  · exact pure fun _ _ _ => id

theorem afterBlank (hgroup : PointsGroup d group) (blank : Token) (sofar : Parser.SelectorSoFar) :
    Points (d + 1) P (Parser.afterBlank group blank sofar)
      (Turn (fun _ => Grasps) fun _ => Grasps) := by
  unfold Parser.afterBlank
  refine grab.bind fun t => ite (fun _ => pure fun _ _ _ => Has.grasps) fun _ => ite (fun _ => ?_)
    fun _ => ?_
  · exact (compoundAfter hgroup).of fun _ _ _ => Has.grasps
  · refine ((compound hgroup (some t)).of fun _ _ _ h _ _ => Or.inl h.grasps).bind fun found => ?_
    rcases found with _ | ⟨c, stop⟩ <;> exact pure fun _ _ _ => id

theorem selectorStep (hgroup : PointsGroup d group) (sofar : Parser.SelectorSoFar) :
    Points (d + 1) Grasps (Parser.selectorStep group sofar)
      (Turn (fun _ => Grasps) fun _ => Grasps) := by
  unfold Parser.selectorStep
  extract_lets sofar after rest
  have hafter : ∀ t, Points (d + 1) Grasps (after t) (Turn (fun _ => Grasps) fun _ => Grasps) :=
    fun t => ite (fun _ => afterBlank hgroup t _) fun _ => pure fun _ _ _ => id
  have hrest : ∀ t, Points (d + 1) Grasps (rest t) (Turn (fun _ => Grasps) fun _ => Grasps) := by
    intro t
    refine ite (fun _ => compoundAfter hgroup) fun _ => ite (fun _ => ?_) fun _ =>
      pure_bind (hafter t)
    exact (next false true).bind fun t => (hafter t).of fun _ _ _ => Has.grasps
  split
  · exact pure_bind (hrest _)
  · exact current_bind fun t => (hrest t).of fun _ _ _ => Has.grasps

/-- **A selector**, whose first token may have been read already. Some token
is in hand when it is done, and also when there is none. -/
theorem selectorWith (hgroup : PointsGroup d group) (first : Option Token) (relative : Bool) :
    Points (d + 1) (fun n st => ∀ t, first = some t → Enters t n st)
      (Parser.selectorWith group first relative) fun _ => Grasps := by
  unfold Parser.selectorWith
  extract_lets afterFirst
  have hafterFirst : ∀ t, Points (d + 1) (Enters t) (afterFirst t) fun _ => Grasps := by
    intro t
    unfold afterFirst
    extract_lets rest
    have hrest : ∀ head, Points (d + 1) Grasps (rest head) fun _ => Grasps := by
      intro head
      cases head with
      | none => exact pure fun _ _ _ => id
      | some head =>
        refine (repeating (Q := fun _ => Grasps) (fun _ _ => id) (selectorStep hgroup)
          fun _ _ _ => id).bind fun sofar => ?_
        exact slice_bind fun _ => pure fun _ _ _ => id
    refine ite (fun hcombinator => pure_bind ((hrest (some _)).of fun _ _ _ h =>
      h.resolve_right fun hname => ?_)) fun _ => ?_
    · rcases hname.1 with hkind | hkind <;> rw [hkind] at hcombinator <;>
        exact Bool.false_ne_true (Bool.and_eq_true_iff.mp hcombinator).2
    refine ((compound hgroup (some t)).of fun _ _ _ h u hu => Option.some.inj hu ▸ h).bind
      fun found => ?_
    rcases found with _ | ⟨c, stop⟩
    · exact pure_bind (hrest none)
    · exact pure_bind (hrest (some _))
  cases first with
  | none => exact grab.bind fun t => (hafterFirst t).of fun _ _ _ h => Or.inl h.grasps
  | some t =>
    refine ite (fun _ => ?_) fun _ => pure_bind ?_
    · exact grab.bind fun t => (hafterFirst t).of fun _ _ _ h => Or.inl h.grasps
    · exact (hafterFirst t).of fun _ _ _ h => h t rfl

/-- **One more selector of a list**, and the comma after it. -/
theorem groupStep (hgroup : PointsGroup d group) (relative lax : Bool) (sofar : Parser.GroupSoFar) :
    Points (d + 1) (fun n st => ∀ t, sofar.first = some t → Enters t n st)
      (Parser.groupStep group relative lax sofar) (Turn (fun _ => Grasps) fun _ => Grasps) := by
  unfold Parser.groupStep
  refine (selectorWith hgroup sofar.first relative).bind fun selector => ?_
  refine ite (fun _ => pure fun _ _ _ => id) fun _ => ?_
  extract_lets selectors after
  have hafter : ∀ t, Points (d + 1) Grasps (after t) (Turn (fun _ => Grasps) fun _ => Grasps) :=
    fun t => ite (fun _ => pure fun _ _ _ => id) fun _ => pure fun _ _ _ => id
  refine current_bind fun t => ite (fun _ => ?_) fun _ => pure_bind ((hafter t).of fun _ _ _ => Has.grasps)
  exact grab.bind fun t => (hafter t).of fun _ _ _ => Has.grasps

theorem groupTo (depth : Nat) (hd : d ≤ depth) : PointsGroup d (Parser.groupTo depth) := by
  induction depth generalizing d with
  | zero =>
    intro first relative lax s n hs hleft hn _
    have hle := hs.offset_le
    omega
  | succ depth ih =>
    intro first relative lax
    cases d with
    | zero =>
      intro s n hs hleft hn _
      have hle := hs.offset_le
      omega
    | succ d =>
      have hgroup : PointsGroup d (Parser.groupTo depth) := ih (Nat.le_of_succ_le_succ hd)
      unfold Parser.groupTo
      refine (repeating_first (Q := fun _ => Grasps)
        (groupStep hgroup relative lax ⟨[], first, false⟩) (fun sofar => (groupStep hgroup relative lax sofar).of fun _ _ _ h _ _ => Or.inl h)
        fun _ _ _ => id).bind fun sofar => ?_
      exact ite (fun _ => failHere_bind) fun _ => pure fun _ _ _ => id

theorem selectorGroup : PointsGroup d Parser.selectorGroup := by
  intro first relative lax s n hs _ hn hP
  have hbudget : Text.byteLength s.stream.source + 64 ≤ s.budget := hs.budget
  have hrun := groupTo s.budget (Nat.le_refl _) first relative lax s n hs (by omega) hn hP
  exact ⟨hrun.keeps, hrun.error, hrun.ok⟩

theorem selector (first : Option Token) (relative : Bool) :
    Points d (fun n st => ∀ t, first = some t → Enters t n st) (Parser.selector first relative)
      fun _ => Grasps := by
  intro s n hs _ hn hP
  have hbudget : Text.byteLength s.stream.source + 64 ≤ s.budget := hs.budget
  obtain ⟨depth, hdepth⟩ : ∃ depth, s.budget = depth + 1 := ⟨s.budget - 1, by omega⟩
  have hrun := selectorWith (groupTo s.budget (Nat.le_refl _)) first relative s n hs (by omega) hn hP
  exact ⟨hrun.keeps, hrun.error, hrun.ok⟩

theorem ruleHead (t : Token) : Points d (Enters t) (Parser.ruleHead t) fun r n st =>
    r ≠ none → Grasps n st := by
  unfold Parser.ruleHead
  refine ((selectorGroup (some t) true false).of fun _ _ _ h u hu =>
    Option.some.inj hu ▸ h).bind fun found => ?_
  cases found with
  | some selectors => exact pure fun _ _ _ h _ => h
  | none => exact unget.bind fun _ => pure fun _ _ _ _ h => absurd rfl h

theorem scopeSelectors : Points d P Parser.scopeSelectors fun _ => Grasps := by
  unfold Parser.scopeSelectors
  refine (selectorGroup.withoutFirst _ _).bind fun selectors => ?_
  exact (mustReuse _).discard_grasps.bind fun _ => pure fun _ _ _ => id

theorem scopePrelude : Points d P Parser.scopePrelude fun _ => Beyond := by
  unfold Parser.scopePrelude
  refine grab.bind fun t => ?_
  extract_lets rest
  have hrest : ∀ r, Points d Grasps (rest r) fun _ => Beyond := by
    rintro ⟨first, t⟩
    dsimp only [rest]
    have hlast : ∀ last : Option (List Selector), Points d Grasps (do
        Functor.discard (Parser.mustReuse [.lBrace])
        return (first, last)) fun _ => Beyond := fun _ =>
      ((beyond (by decide) (mustReuse_kind _)).weaken fun _ _ _ _ h => h.2).discard.bind fun _ =>
        pure fun _ _ _ => id
    refine ite (fun _ => ?_) fun _ => pure_bind (hlast none)
    refine (mustMatchSmart _).discard_grasps.bind fun _ => ?_
    refine scopeSelectors.bind fun l => ?_
    exact grab.discard_grasps.bind fun _ => pure_bind (hlast l)
  refine ite (fun _ => ?_) fun _ => pure_bind ((hrest (none, t)).of fun _ _ _ => Has.grasps)
  exact scopeSelectors.bind fun first => grab.bind fun t =>
    pure_bind ((hrest (first, t)).of fun _ _ _ => Has.grasps)

end Points

end Stylesheet
