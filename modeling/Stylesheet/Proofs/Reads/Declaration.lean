import Stylesheet.Parse.Condition
import Stylesheet.Proofs.Reads.Selector

/-!
# Reading declarations reads on
-/

namespace Stylesheet

open Parse (State)
open Parse.State (Keeps Stands stands_false stands_true)

namespace Runs

variable {d : Nat} {a : Bool}

theorem propertyName (t : Token) :
    Runs d false false (Parser.propertyName t) (Parser.propertyName t) := by
  unfold Parser.propertyName
  refine ite (fun _ => (mustMatch _).release.bind fun _ => pure _) fun _ => ?_
  exact options.bind fun _ => ite (fun _ => pure _) fun _ => pure _

/-- A check changes only what the checks remember. -/
theorem checked (name : PropertyName) (value : Value) (scope : Option String) :
    Runs d a a (Parser.checked name value scope) (Parser.checked name value scope) := by
  intro s n hs _ hstands
  have hkeeps : ∀ v, Keeps s { s with validator := v } := fun _ =>
    hs.keeps_of_eq rfl rfl rfl rfl rfl rfl
  unfold Parser.checked
  rcases hcheck : s.validator.check name value scope with ⟨e | u, v⟩
  · refine Reads.modifyGet (r := some e) ?_ ?_ (hkeeps v) hstands
    · simp only [hcheck]
    · intro b
      simp only [Parse.State.withBudget, hcheck]
  · refine Reads.modifyGet (r := none) ?_ ?_ (hkeeps v) hstands
    · simp only [hcheck]
    · intro b
      simp only [Parse.State.withBudget, hcheck]

end Runs

/-- What a value answers whose events are held back. -/
theorem Parser.exprHeldBack_apply (ends : List TokenKind) (s : State) :
    exprHeldBack ends s = match expr ends false { s with deferred := some [] } with
      | (.ok v, s₁) =>
        (.ok (v, (s₁.deferred.getD []).reverse), { s₁ with deferred := none })
      | (.error e, s₁) => (.error e, { s₁ with deferred := none }) := by
  rcases hrun : expr ends false { s with deferred := some [] } with ⟨r, s₁⟩
  have hattempt : attempt (expr ends false) { s with deferred := some [] } = (.ok r, s₁) := by
    rw [attempt_apply, hrun]
  refine (bind_ok (s := { s with deferred := some [] }) hattempt).trans ?_
  cases r <;> rfl

/-- **What is held back** is what reading the value put aside. -/
theorem Parser.mem_of_exprHeldBack {ends : List TokenKind} {s : State}
    {r : Option Value × List Event} {e : Event} (h : (exprHeldBack ends s).1 = .ok r)
    (he : e ∈ r.2) :
    e ∈ (expr ends false { s with deferred := some [] }).2.deferred.getD [] := by
  rw [exprHeldBack_apply] at h
  rcases hrun : expr ends false { s with deferred := some [] } with ⟨_ | v, s₁⟩ <;> rw [hrun] at h
  · cases h
  · cases h
    exact List.mem_reverse.mp he

namespace Reads

variable {d n : Nat} {s : State}

/-- **What follows the name of a property**; after a colon there is a
token in hand. -/
theorem afterName (hs : s.IsSound) (hn : n ≤ s.offset) (colon : Option Token) :
    Reads n (Parser.afterName colon) (Parser.afterName colon) s
      fun r s' => n ≤ s'.offset ∧ (∀ first, r = .value first → s'.stream.HeldFrom n) := by
  unfold Parser.afterName
  extract_lets rest
  have hrest : ∀ (found : Token × Token) {s₁ : State}, s₁.IsSound → n ≤ s₁.offset →
      Reads n (rest found) (rest found) s₁
        fun r s' => n ≤ s'.offset ∧ (∀ first, r = .value first → s'.stream.HeldFrom n) := by
    rintro ⟨raw, seen⟩ s₁ hs₁ hn₁
    refine ite (fun _ => ?_) fun _ => pure hs₁ ⟨hn₁, fun _ h => by cases h⟩
    refine (next hs₁ true true).bind fun first s₂ h₂ hgot => ?_
    exact pure h₂.isSound ⟨Nat.le_trans hn₁ hgot.place_le_place, fun _ _ => hgot.heldFrom hn₁⟩
  cases colon with
  | some c => exact pure_bind (hrest (c, c) hs hn)
  | none =>
    refine (next hs false true).bind fun raw s₁ h₁ hgot => ?_
    have hn₁ : n ≤ s₁.offset := Nat.le_trans hn hgot.place_le_place
    refine ite (fun _ => ?_) fun _ => pure_bind (hrest (raw, raw) h₁.isSound hn₁)
    refine (grab h₁.isSound).bind fun seen s₂ h₂ hgot₂ =>
      pure_bind (hrest (raw, seen) h₂.isSound ?_)
    exact Nat.le_trans hn₁ hgot₂.place_le_place

/-- **A value whose events are held back**; they are inner ones, and
afterwards none are. -/
theorem exprHeldBack (hs : s.IsSound) (hn : n ≤ s.offset) (ends : List TokenKind) :
    Reads n (Parser.exprHeldBack ends) (Parser.exprHeldBack ends) s
      fun r s' => Stands true n s' ∧ ∀ e ∈ r.2, e.IsInner := by
  set s₀ : State := { s with deferred := some [] }
  have hs₀ : s₀.IsSound :=
    ⟨hs.stream, hs.budget, hs.store, by rintro _ ⟨⟩ e he; cases he⟩
  have hvalue := Runs.reads (fun _ => Runs.expr ends false) hs₀ (stands_false hn)
  rcases hrun : Parser.expr ends false s₀ with ⟨r, s₁⟩
  obtain ⟨hsame, hkeeps, herror, hok⟩ := hvalue
  rw [hrun] at hkeeps herror hok
  simp only [hrun] at hsame
  have halike : ∀ b, s.IsEnough b →
      Parser.expr ends false { s.withBudget b with deferred := some [] } = (r, s₁.withBudget b) :=
    hsame
  have hdropped : Keeps s { s₁ with deferred := none } :=
    ⟨⟨hkeeps.isSound.stream, hkeeps.isSound.budget, hkeeps.isSound.store, by rintro _ ⟨⟩⟩,
      hkeeps.source_eq, hkeeps.options_eq, hkeeps.budget_eq, hkeeps.events, fun _ => rfl⟩
  have hinner : ∀ e ∈ (s₁.deferred.getD []).reverse, e.IsInner := by
    intro e he
    rw [List.mem_reverse] at he
    cases hdeferred : s₁.deferred with
    | none =>
      rw [hdeferred] at he
      exact absurd he List.not_mem_nil
    | some held =>
      rw [hdeferred] at he
      exact hkeeps.isSound.deferred held hdeferred e he
  have hanswer := Parser.exprHeldBack_apply ends s
  rw [hrun] at hanswer
  cases r with
  | error e =>
    refine ⟨fun b hb => ?_, ?_, ?_, ?_⟩ <;> rw [hanswer]
    · rw [Parser.exprHeldBack_apply, halike b hb]
      rfl
    · exact hdropped
    · exact fun _ _ => herror e rfl
    · exact fun _ ha => by cases ha
  | ok v =>
    refine ⟨fun b hb => ?_, ?_, ?_, ?_⟩ <;> rw [hanswer]
    · rw [Parser.exprHeldBack_apply, halike b hb]
      rfl
    · exact hdropped
    · exact fun _ he => by cases he
    · rintro _ ⟨⟩
      exact ⟨hok v rfl, hinner⟩

/-- The end of a declaration; in brackets it is the closing one. -/
theorem declarationEnd (hs : s.IsSound) (hstands : Stands true n s)
    (site : Parser.DeclarationSite) (t : Token) :
    Reads n (Parser.declarationEnd site t) (Parser.declarationEnd site t) s
      fun last s' => Stands true n s' ∧ (site.inParens = true → last.kind = .rParen) := by
  unfold Parser.declarationEnd
  extract_lets kinds
  have hkinds : ∀ last : Token, kinds.contains last.kind = true → site.inParens = true →
      last.kind = .rParen := by
    intro last hlast hparens
    unfold kinds at hlast
    rw [if_pos hparens] at hlast
    simpa using hlast
  refine ite (fun _ => ?_) fun _ => ite (fun heof => ?_) fun _ => ?_
  · refine (discard (Q := fun _ s' => n ≤ s'.offset) ((mustMatchKeyword hs hstands.1 _).weaken
      fun _ _ _ hgot => Nat.le_trans hstands.1 hgot.1.place_le_place)).bind fun _ s₁ h₁ hn₁ => ?_
    refine (mustMatchSmart h₁.isSound hn₁ _).weaken fun last s₂ _ hgot => ?_
    exact ⟨Runs.stands_of_got hn₁ hgot.1, hkinds last hgot.2⟩
  · refine pure hs ⟨hstands, fun hparens => ?_⟩
    rw [hparens] at heof
    simp at heof
  · refine (mustReuse hs hstands _).weaken fun last s₁ _ hlast => ?_
    exact ⟨hstands.of_stream hlast.1, hkinds last hlast.2.2⟩

end Reads

namespace Runs

variable {d : Nat}

/-- The end of a declaration and its event. In brackets the closing one
is left in hand, and elsewhere a closing brace is taken back. -/
theorem declarationEnd (site : Parser.DeclarationSite) (t : Token) (kind : EventKind)
    (location : Location) (he : Event.IsInner ⟨kind, location⟩) :
    Runs d true site.inParens
      (do
        let last ← Parser.declarationEnd site t
        Parser.fire kind location
        if last.kind == .rBrace then Parser.unget)
      (do
        let last ← Parser.declarationEnd site t
        Parser.fire kind location
        if last.kind == .rBrace then Parser.unget) := by
  intro s n hs hd hstands
  refine (Reads.declarationEnd hs hstands site t).bind fun last s₁ h₁ hlast => ?_
  refine (Reads.fire h₁.isSound he).bind fun _ s₂ h₂ hstream => ?_
  have hstands₂ : Stands true n s₂ := hlast.1.of_stream hstream
  refine Reads.ite (fun hbrace => ?_) fun _ => Reads.pure h₂.isSound (hstands₂.of_true _)
  cases hparens : site.inParens with
  | true =>
    rw [hlast.2 hparens] at hbrace
    exact absurd hbrace (by decide)
  | false =>
    refine unget (d := d) s₂ n h₂.isSound ?_ hstands₂
    rw [h₂.source_eq, h₁.source_eq]
    exact hd

theorem declarationTail (site : Parser.DeclarationSite) (t : Token) (property : PropertyName)
    (read : Option Value) :
    Runs d true site.inParens (Parser.declarationTail site t property read)
      (Parser.declarationTail site t property read) := by
  unfold Parser.declarationTail
  refine current.bind fun after => ?_
  extract_lets important afterRead
  have hafterRead : ∀ value, Runs d true site.inParens (afterRead value) (afterRead value) := by
    intro value
    refine options.bind fun opts => ?_
    extract_lets afterCheck
    have hafterCheck : ∀ invalid,
        Runs d true site.inParens (afterCheck invalid) (afterCheck invalid) := by
      intro invalid
      have hend := declarationEnd (d := d) site after
        (.property ⟨property, value, important, site.inParens, site.scope, invalid⟩) t.location
        ⟨EventKind.noConfusion, EventKind.noConfusion⟩
      refine options.bind fun opts => ite (fun _ => ?_) fun _ => hend
      cases invalid with
      | some e => exact throw_bind e
      | none => exact hend
    exact ite (fun _ => (hafterCheck _).pure_bind) fun _ => (checked _ _ _).bind hafterCheck
  refine ite (fun _ => (setPair _).bind fun _ => throw_bind _) fun _ => ?_
  cases read with
  | some v => exact (hafterRead v).pure_bind
  | none => exact ite (fun _ => (hafterRead _).pure_bind) fun _ => failAt_bind _ _

end Runs

namespace Reads

variable {n : Nat} {s : State}

/-- Reporting events that were held back. -/
theorem dispatchAll (hs : s.IsSound) {events : List Event} (hinner : ∀ e ∈ events, e.IsInner) :
    Reads n (events.forM Parser.dispatch) (events.forM Parser.dispatch) s
      fun _ s' => s'.stream = s.stream := by
  induction events generalizing s with
  | nil => exact pure hs rfl
  | cons e events ih =>
    refine (dispatch hs (hinner e (List.mem_cons_self ..))).bind fun _ s₁ h₁ hstream => ?_
    refine (ih h₁.isSound fun e he => hinner e (List.mem_cons_of_mem _ he)).weaken
      fun _ s₂ _ hstream₂ => hstream₂.trans hstream

/-- **What a declaration leaves.** If it turned out to be none, its first
token is the only one that can be taken back. -/
def Declared (site : Parser.DeclarationSite) (t : Token) (n : Nat) (declared : Bool) (s : State) :
    Prop :=
  Stands site.inParens n s ∧ (declared = false → s.stream.HeldFrom t.location.offset)

/-- **The value of a declaration and the rest of it.** If it was none,
reading goes on after its first token. -/
theorem declarationValue (hs : s.IsSound) (hstands : Stands true n s)
    (site : Parser.DeclarationSite) {t : Token} (ht : t.IsCut s.stream.source)
    (hn : n ≤ t.stop.offset) (property : PropertyName) (first : TokenKind) :
    Reads n (Parser.declarationValue site t property first)
      (Parser.declarationValue site t property first) s (Declared site t n) := by
  unfold Parser.declarationValue
  extract_lets custom rest
  have hrest : ∀ {s₁ : State}, Keeps s s₁ → n ≤ s₁.offset →
      Reads n (rest ()) (rest ()) s₁ (Declared site t n) := by
    intro s₁ h₁ hn₁
    refine ite (fun hspeculative => ?_) fun _ => ?_
    · have hparens : site.inParens = false := by
        cases hparens : site.inParens with
        | false => rfl
        | true => simp [hparens] at hspeculative
      refine (exprHeldBack h₁.isSound hn₁ _).bind fun r s₂ h₂ hr => current ?_
      refine ite (fun _ => ?_) fun _ => ?_
      · have hplace : IsPlace s₂.stream.source t.stop := by
          rw [h₂.source_eq, h₁.source_eq]
          exact ht.stop_isPlace
        refine (seek h₂.isSound hplace).bind fun _ s₃ h₃ hsought => ?_
        refine pure h₃.isSound ⟨?_, fun _ u hu => ?_⟩
        · rw [hparens]
          exact stands_false (by rw [hsought.1]; exact hn)
        · rw [hsought.2] at hu
          cases hu
      · refine (dispatchAll h₂.isSound hr.2).bind fun _ s₃ h₃ hstream => ?_
        refine (Runs.reads (fun _ => Runs.declarationTail site t property r.1) h₃.isSound
          (hr.1.of_stream hstream)).bind fun _ s₄ h₄ hstands₄ => ?_
        exact pure h₄.isSound ⟨hstands₄, fun h => by cases h⟩
    · refine (Runs.reads (fun _ => Runs.expr (site.ends custom) custom) h₁.isSound
        (stands_false hn₁)).bind fun value s₂ h₂ hstands₂ => ?_
      refine (Runs.reads (fun _ => Runs.declarationTail site t property value) h₂.isSound
        hstands₂).bind fun _ s₃ h₃ hstands₃ => ?_
      exact pure h₃.isSound ⟨hstands₃, fun h => by cases h⟩
  refine ite (fun _ => hrest (Keeps.refl hs) hstands.1) fun _ => ?_
  refine (unget hs hstands.1 hstands.1 (hstands.2 rfl)).bind fun _ s₁ h₁ hback => ?_
  exact hrest h₁ hback.1

/-- **A declaration.** If it turns out to be none, reading goes on after
its first token. -/
theorem declaration (hs : s.IsSound) (hn : n ≤ s.offset) (site : Parser.DeclarationSite)
    {t : Token} (ht : t.IsCut s.stream.source) (hstop : n ≤ t.stop.offset) :
    Reads n (Parser.declaration site t) (Parser.declaration site t) s (Declared site t n) := by
  unfold Parser.declaration
  refine (Runs.reads (fun _ => Runs.propertyName t) hs (stands_false hn)).bind
    fun property s₁ h₁ hstands₁ => ?_
  refine (afterName h₁.isSound hstands₁.1 site.colon).bind fun after s₂ h₂ hafter => ?_
  have ht₂ : t.IsCut s₂.stream.source := by
    rw [h₂.source_eq, h₁.source_eq]
    exact ht
  -- in brackets every way back fails
  have hback : ∀ {p : Parser Bool}, (∀ s₃ : State, s₃.IsSound → n ≤ s₃.offset →
        s₃.stream.HeldFrom t.location.offset → Reads n p p s₃ (Declared site t n)) →
      Reads n (do Parser.moveStream (·.rewindTo t); p) (do Parser.moveStream (·.rewindTo t); p) s₂
        (Declared site t n) := by
    intro p hp
    refine (rewindTo h₂.isSound ht₂).bind fun _ s₃ h₃ hrewound => ?_
    exact hp s₃ h₃.isSound (Nat.le_trans hstop hrewound.1) hrewound.2
  have hfalse : ∀ {s₃ : State}, s₃.IsSound → n ≤ s₃.offset →
      s₃.stream.HeldFrom t.location.offset → site.inParens = false →
      Reads n (return false) (return false) s₃ (Declared site t n) := by
    intro s₃ hs₃ hn₃ hheld hparens
    refine pure hs₃ ⟨?_, fun _ => hheld⟩
    rw [hparens]
    exact stands_false hn₃
  cases after with
  | value first =>
    exact declarationValue h₂.isSound (stands_true hafter.1 (hafter.2 first rfl)) site ht₂ hstop
      property first
  | pseudo raw =>
    refine hback fun s₃ hs₃ hn₃ hheld => ite (fun _ => failAt_bind hs₃ hn₃) fun hparens => ?_
    exact hfalse hs₃ hn₃ hheld (by simpa using hparens)
  | other raw seen =>
    refine hback fun s₃ hs₃ hn₃ hheld => ite (fun hopen => ?_) fun _ =>
      ite (fun _ => failAt_bind hs₃ hn₃) fun hparens => ?_
    · refine hfalse hs₃ hn₃ hheld ?_
      cases hparens : site.inParens with
      | false => rfl
      | true => simp [hparens] at hopen
    · refine hfalse hs₃ hn₃ hheld ?_
      cases hinside : site.inParens with
      | false => rfl
      | true => simp [hinside] at hparens

end Reads

/-!
## Reading conditions reads on

A test ends with its last bracket in hand, because a test that is read
by another one is closed twice: the inner reading closes it, the bracket
is taken back, and the outer reading closes it again.

Tests nest after a bracket, so the depth is bounded by what is left to
read. There is one exception: the test of a style in `@container` is a
condition that starts with the bracket of a function that was read
already. That condition is an ordinary one, in which the exception does
not come up again, so one level more is enough.
-/

/-- **A reader of tests of a kind that reads on** wherever less than a
bound is left. -/
def RunsTest (d : Nat) (kind : ConditionKind) (test test' : Parser.TestParser) : Prop :=
  ∀ first : Option Token, Runs d false true (test kind first) (test' kind first)

namespace Runs

variable {d : Nat} {a : Bool} {kind : ConditionKind} {test test' : Parser.TestParser}

theorem closeTest : Runs d a true Parser.closeTest Parser.closeTest := (mustMatchSmart _).discard

/-- One more test takes the word that joins it. -/
theorem joinedStep (htest : RunsTest d kind test test') (sofar : Option Token × Keywords × Bool) :
    Steps d false true (Parser.joinedStep test kind sofar)
      (Parser.joinedStep test' kind sofar) := by
  unfold Parser.joinedStep
  refine Steps.bind (htest _) fun _ => ?_
  exact Steps.matchKeyword_bind (fun _ => GoesOn.yield _) (Steps.done _)

theorem conditionWith (htest : RunsTest d kind test test') (first : Option Token) :
    Runs d false true (Parser.conditionWith test kind first)
      (Parser.conditionWith test' kind first) := by
  unfold Parser.conditionWith
  extract_lets rest rest'
  have hrest : ∀ t, Runs d false true (rest t) (rest' t) := fun t =>
    ite (fun _ => htest none) fun _ => (repeating fun sofar => joinedStep htest sofar).discard
  cases first with
  | some t => exact (hrest t).pure_bind
  | none => exact grab.bind fun t => (hrest t).of_false

theorem ownTest_none (htest : kind = .container → RunsTest d .plain test test') (t : Token) :
    Runs d false false (Parser.ownTest test kind t none) (Parser.ownTest test' kind t none) := by
  unfold Parser.ownTest
  cases kind with
  | plain => exact pure _
  | supports =>
    refine ite (fun _ => ?_) fun _ => pure _
    refine (selector false).bind fun found => ?_
    cases found with
    | none => exact failHere _
    | some found =>
      exact unget.bind fun _ =>
        (fire ⟨EventKind.noConfusion, EventKind.noConfusion⟩).bind fun _ => pure _
  | container =>
    refine ite (fun _ => ?_) fun _ => pure _
    exact (conditionWith (htest rfl) _).bind fun _ => unget.bind fun _ => pure _

end Runs

namespace Reads

variable {d n : Nat} {s : State} {kind : ConditionKind} {test test' : Parser.TestParser}

/-- A test that only one at-rule has, after a bracket. When the token
starts none, nothing is read. -/
theorem ownTest_some (hs : s.IsSound) (hstands : Stands true n s) (t bracket : Token) :
    Reads n (Parser.ownTest test kind t (some bracket)) (Parser.ownTest test' kind t (some bracket))
      s fun r s' => n ≤ s'.offset ∧ (r = false → s'.stream = s.stream) := by
  unfold Parser.ownTest
  cases kind with
  | plain => exact pure hs ⟨hstands.1, fun _ => rfl⟩
  | supports => exact pure hs ⟨hstands.1, fun _ => rfl⟩
  | container =>
    refine ite (fun _ => ?_) fun _ => pure hs ⟨hstands.1, fun _ => rfl⟩
    refine (Runs.reads (fun _ => Runs.unget) hs hstands).bind fun _ s₁ h₁ hstands₁ => ?_
    refine (Runs.reads (fun _ => (Runs.mediaFeature _).discard) h₁.isSound hstands₁).bind
      fun _ s₂ h₂ hstands₂ => ?_
    refine (Runs.reads (fun _ => Runs.unget) h₂.isSound hstands₂).bind fun _ s₃ h₃ hstands₃ => ?_
    exact pure h₃.isSound ⟨hstands₃.1, fun h => by cases h⟩

theorem nameTest (hs : s.IsSound) (hn : n ≤ s.offset) {t : Token} (ht : t.IsCut s.stream.source)
    (hstop : n ≤ t.stop.offset) :
    Reads n (Parser.nameTest t) (Parser.nameTest t) s fun _ => Stands true n := by
  unfold Parser.nameTest
  refine (matchSmart hs _).bind fun found s₁ h₁ hfound => ?_
  cases found with
  | none =>
    exact Runs.reads (fun _ => Runs.closeTest) h₁.isSound
      (stands_false (Nat.le_trans hn hfound.place_le))
  | some after =>
    have hstands₁ : Stands true n s₁ := Runs.stands_of_got hn hfound.1
    have ht₁ : t.IsCut s₁.stream.source := by
      rw [h₁.source_eq]
      exact ht
    refine ite (fun _ => ?_) fun _ => ?_
    · have hdeclared := declaration h₁.isSound hstands₁.1
        { colon := some after, inParens := true } ht₁ hstop
      exact (hdeclared.weaken fun _ _ _ hdeclared => hdeclared.1).discard
    · exact Runs.reads (fun _ => (Runs.expr _ _).discard.bind fun _ => (Runs.mustReuse _).discard)
        h₁.isSound hstands₁.release

theorem bracketTest (htest : RunsTest d .plain test test') (bracket : Token) :
    Runs (d + 1) false true (Parser.bracketTest test kind bracket)
      (Parser.bracketTest test' kind bracket) := by
  intro s n hs hd hstands
  have hn := hstands.1
  unfold Parser.bracketTest
  refine (matchSmart hs _).bind fun found s₁ h₁ hfound => ?_
  cases found with
  | none =>
    exact Runs.reads (fun _ => Runs.closeTest) h₁.isSound (Runs.stands_of_stays hstands hfound)
  | some t =>
    obtain ⟨hgot, hkind⟩ := hfound
    have heof : t.kind ≠ .eof := by
      intro heof
      rw [heof] at hkind
      exact absurd hkind (by decide)
    have hlt : s.offset < s₁.offset := hgot.place_lt_place heof
    refine (ownTest_some h₁.isSound (Runs.stands_of_got hn hgot) t bracket).bind
      fun own s₂ h₂ hown => ?_
    refine ite (fun _ => ?_) fun hfalse => ?_
    · exact Runs.reads (fun _ => Runs.closeTest) h₂.isSound (stands_false hown.1)
    · -- nothing was read after the token, and what is nested starts after it
      have hoffset : s₂.offset = s₁.offset :=
        Parse.State.offset_of_stream (hown.2 (by simpa using hfalse))
      have hd₂ : Text.byteLength s₂.stream.source < n + 1 + d := by
        rw [h₂.source_eq, h₁.source_eq]
        omega
      have hinner : ∀ {p p' : Parser Unit}, Runs d false true p p' →
          Reads n p p' s₂ fun _ => Stands true n := fun hp =>
        ((hp s₂ (n + 1) h₂.isSound hd₂ (stands_false (by omega))).lower (Nat.le_succ n)).weaken
          fun _ _ _ hstands₃ => hstands₃.mono (Nat.le_succ n)
      refine ite (fun _ => ?_) fun _ => ite (fun _ => ?_) fun _ => ?_
      · exact hinner ((Runs.conditionWith htest _).bind fun _ => Runs.closeTest)
      · exact hinner ((htest none).bind fun _ => Runs.closeTest)
      · have ht : t.IsCut s₂.stream.source := by
          rw [h₂.source_eq, h₁.source_eq]
          exact hgot.isCut
        have hstop : n ≤ t.stop.offset :=
          Nat.le_trans hn (Nat.le_trans hgot.place_le hgot.isCut.location_le_stop)
        exact nameTest h₂.isSound (by omega) ht hstop

end Reads

namespace Runs

variable {d : Nat} {kind : ConditionKind}

/-- One level of tests. -/
theorem testTo_succ {k i j : Nat} (hinner : RunsTest k .plain (Parser.testTo i) (Parser.testTo j))
    (hd : d ≤ k + 1) (hown : kind = .container → d ≤ k) :
    RunsTest d kind (Parser.testTo (i + 1)) (Parser.testTo (j + 1)) := by
  intro first
  unfold Parser.testTo
  extract_lets rest rest'
  have hrest : ∀ t, Runs d false true (rest t) (rest' t) := by
    intro t
    have htest : kind = .container → RunsTest d .plain (Parser.testTo i) (Parser.testTo j) :=
      fun hkind first => (hinner first).mono (hown hkind)
    refine (ownTest_none htest t).bind fun own => ite (fun _ => closeTest) fun _ => ?_
    refine ite (fun _ => (function t false).discard) fun _ => ite (fun _ => ?_) fun _ => closeTest
    exact (Reads.bracketTest hinner t).mono hd
  cases first with
  | some t => exact (hrest t).pure_bind
  | none => exact (mustMatchSmart _).bind fun t => (hrest t).of_false

/-- **Tests nested to a depth** that is more than what is left to
read. -/
theorem testTo_plain {k i j : Nat} (hi : k ≤ i) (hj : k ≤ j) :
    RunsTest k .plain (Parser.testTo i) (Parser.testTo j) := by
  induction k generalizing i j with
  | zero =>
    intro first s n hs hd hstands
    have hle := hs.offset_le
    have hn := hstands.1
    omega
  | succ k ih =>
    obtain ⟨i, rfl⟩ : ∃ l, i = l + 1 := ⟨i - 1, by omega⟩
    obtain ⟨j, rfl⟩ : ∃ l, j = l + 1 := ⟨j - 1, by omega⟩
    have hinner := ih (Nat.le_of_succ_le_succ hi) (Nat.le_of_succ_le_succ hj)
    exact testTo_succ hinner (Nat.le_refl _) fun h => by cases h

theorem testTo {k i j : Nat} (hi : k + 1 ≤ i) (hj : k + 1 ≤ j) :
    RunsTest k kind (Parser.testTo i) (Parser.testTo j) := by
  obtain ⟨i, rfl⟩ : ∃ l, i = l + 1 := ⟨i - 1, by omega⟩
  obtain ⟨j, rfl⟩ : ∃ l, j = l + 1 := ⟨j - 1, by omega⟩
  have hinner := testTo_plain (Nat.le_of_succ_le_succ hi) (Nat.le_of_succ_le_succ hj)
  exact testTo_succ hinner (Nat.le_succ k) fun _ => Nat.le_refl k

/-- What a parser of conditions needs to know of the budget. -/
theorem of_testTo {p : Nat → Parser Unit} (h : ∀ {k i j : Nat}, k + 1 ≤ i → k + 1 ≤ j →
    Runs k false true (p i) (p j)) :
    Runs d false true (Parser.budget >>= p) (Parser.budget >>= p) := by
  intro s n hs _ hstands
  refine Reads.budget (fun b hb => ?_) hs
  have hbudget := hs.budget
  unfold Parse.State.IsEnough Parse.State.bound at hb hbudget
  exact h (k := Text.byteLength s.stream.source + 1) (by omega) (by omega) s n hs (by omega) hstands

theorem conditionInParens (first : Option Token) :
    Runs d false true (Parser.conditionInParens kind first)
      (Parser.conditionInParens kind first) :=
  of_testTo fun hi hj => testTo hi hj first

theorem condition (kind : ConditionKind) :
    Runs d false true (Parser.condition kind) (Parser.condition kind) :=
  of_testTo fun hi hj => conditionWith (testTo hi hj) none

end Runs

end Stylesheet
