import Stylesheet.Proofs.Completion
import Stylesheet.Proofs.Settles.Block

/-!
# Between two rules

Each rule of a stylesheet is read from a clean state: outside of all
blocks, with no events held back, and with no bracket noted that would have
to be closed. `between_rules` says how far that holds. All of it does but
for the bracket, and the bracket is missed in one case: a selector that is
tested by `@supports`, or by the condition of an import, and that breaks
off within brackets. The rule fails without anything being passed over, so
that the note stays, and the next error, however far away, is taken for
one within those brackets (`bracket_left_open`).
-/

namespace Stylesheet

open Parse (State)
open Parse.State (Restored)
open Stylesheet.Parser

variable {s s' : State} {u u' : Unit}

namespace Settles

variable {tidy : Bool}

/-- **A rule that stands in no block** is tidy unless its prelude tests
selectors. -/
theorem topRule (t : Token)
    (htidy : tidy = true → t.kind = .at → t.name ≠ "supports" ∧ t.name ≠ "import") :
    Settles Unpaired tidy (Parser.topRule t) := by
  unfold Parser.topRule
  split
  · next hkind => exact atRule block t true fun h => htidy h hkind
  · exact pure ()
  · refine (styleRule block t).bind fun outcome => ?_
    split
    · exact reads.grab.bind fun u => ite (pure _) (reads.failAt _ _)
    · exact pure ()

end Settles

/-! ## Rounds -/

/-- **Reporting an error** leaves the note about the bracket alone. -/
theorem Parser.report_inv (e : Diagnostic) (s : State) :
    ∃ s', Parser.report e s = (.ok (), s') ∧ s'.pair = s.pair := by
  obtain ⟨_, _, _, _, _, deferred, _, _, _, _, _⟩ := s
  cases deferred <;> exact ⟨_, rfl, rfl⟩

/-- **A round of the loop over the rules** that is not the last grabs a
token and reads a rule, and reports the failure if it fails. -/
theorem Parser.sheetStep_inv (hlax : s.options.strict = false)
    (hrun : sheetStep u s = (.ok (.yield u'), s')) :
    let read := Parser.topRule s.stream.grab.1 { s with stream := s.stream.grab.2 }
    read.1 = .ok () ∧ s' = read.2 ∨
      ∃ e, read.1 = .error e ∧ s' = (Parser.report e read.2).2 := by
  intro read
  have hrestored : Restored { s with stream := s.stream.grab.2 } read.2 :=
    (Settles.topRule _ nofun : Settles Unpaired false _).restores _ hlax
  have hgrab : grab s = (.ok s.stream.grab.1, { s with stream := s.stream.grab.2 }) := rfl
  unfold sheetStep at hrun
  rw [bind_ok hgrab] at hrun
  dsimp only at hrun
  split at hrun
  · cases hrun
  rw [bind_ok (attempt_apply _ _)] at hrun
  rcases hanswer : read.1 with e | _ <;> rw [show (Parser.topRule _ _).1 = _ from hanswer] at hrun
  · refine .inr ⟨e, rfl, ?_⟩
    have hgoes : (do
        if (← options).strict then throw e
        Parser.report e
        return .yield () : Parser (ForInStep Unit)) read.2 =
          (Parser.report e >>= fun _ => Pure.pure (.yield ()) : Parser (ForInStep Unit)) read.2 := by
      refine (bind_ok (show options read.2 = (.ok read.2.options, read.2) from
        rfl)).trans ?_
      rw [if_neg (by rw [hrestored.lax hlax]; nofun)]
    obtain ⟨s₁, hreport, -⟩ := report_inv e read.2
    rw [hreport]
    exact (Prod.mk.inj (hrun.symm.trans (hgoes.trans (bind_ok hreport)))).2
  · exact .inl ⟨rfl, (Prod.mk.inj hrun).2.symm⟩

/-- **A round notes no bracket** that was not noted before, unless the rule
it reads tests selectors in its prelude and fails with the bracket open. -/
theorem Parser.sheetStep_pair (hlax : s.options.strict = false)
    (hrun : sheetStep u s = (.ok (.yield u'), s')) (hnone : s.pair = none)
    (hsome : s'.pair ≠ none) :
    s.stream.grab.1.kind = .at ∧
      (s.stream.grab.1.name = "supports" ∨ s.stream.grab.1.name = "import") ∧
      ∃ e s₁, Parser.topRule s.stream.grab.1 { s with stream := s.stream.grab.2 } =
        (.error e, s₁) ∧ s₁.pair = s'.pair := by
  by_cases htidy : s.stream.grab.1.kind = .at →
      s.stream.grab.1.name ≠ "supports" ∧ s.stream.grab.1.name ≠ "import"
  · have hsettles : Settles Unpaired true (Parser.topRule s.stream.grab.1) :=
      Settles.topRule _ fun _ => htidy
    refine absurd ?_ hsome
    obtain ⟨hok, rfl⟩ | ⟨e, herror, rfl⟩ := sheetStep_inv hlax hrun
    · exact hsettles.ok { s with stream := s.stream.grab.2 } hlax hnone () hok
    · obtain ⟨s₁, hreport, hpair⟩ := report_inv e
        (Parser.topRule s.stream.grab.1 { s with stream := s.stream.grab.2 }).2
      rw [hreport, hpair]
      exact hsettles.error rfl { s with stream := s.stream.grab.2 } hlax hnone e herror
  · obtain ⟨hkind, hname⟩ := Classical.not_imp.mp htidy
    refine ⟨hkind, (Classical.not_and_iff_not_or_not.mp hname).imp Classical.not_not.mp
      Classical.not_not.mp, ?_⟩
    obtain ⟨hok, rfl⟩ | ⟨e, herror, rfl⟩ := sheetStep_inv hlax hrun
    · refine absurd ?_ hsome
      exact (Settles.topRule _ nofun : Settles Unpaired false _).ok
        { s with stream := s.stream.grab.2 } hlax hnone () hok
    · obtain ⟨s₁, hreport, hpair⟩ := report_inv e
        (Parser.topRule s.stream.grab.1 { s with stream := s.stream.grab.2 }).2
      rw [hreport]
      exact ⟨e, _, Prod.ext herror rfl, hpair.symm⟩

/-- A round puts back what it changes. -/
theorem Parser.sheetStep_restored (hlax : s.options.strict = false)
    (hrun : sheetStep u s = (.ok (.yield u'), s')) : Restored s s' := by
  have hrestored : Restored s
      (Parser.topRule s.stream.grab.1 { s with stream := s.stream.grab.2 }).2 := by
    have h := (Settles.topRule s.stream.grab.1 nofun : Settles Unpaired false _).restores
      { s with stream := s.stream.grab.2 } hlax
    exact ⟨h.depth, h.inStyle, h.inScope, h.deferred, h.options, h.events⟩
  obtain ⟨-, rfl⟩ | ⟨e, -, rfl⟩ := sheetStep_inv hlax hrun
  · exact hrestored
  · exact hrestored.trans
      ((Settles.report e : Settles Unpaired false _).restores _ (hrestored.lax hlax))

/-- Rounds put back what they change. -/
theorem Parser.LoopsTo.restored (h : LoopsTo sheetStep () s u s')
    (hlax : s.options.strict = false) : Restored s s' := by
  induction h with
  | start => exact Restored.refl s
  | round _ hstep ih => exact ih.trans (sheetStep_restored (ih.lax hlax) hstep)

/-- **A bracket that is noted between two rules** was noted by a rule before
that tests selectors in its prelude and failed. -/
theorem Parser.LoopsTo.pair (h : LoopsTo sheetStep () s u s') (hlax : s.options.strict = false)
    (hnone : s.pair = none) (hsome : s'.pair ≠ none) :
    ∃ s₁ s₂, LoopsTo sheetStep () s () s₁ ∧ sheetStep () s₁ = (.ok (.yield ()), s₂) ∧
      LoopsTo sheetStep () s₂ u s' ∧ s₁.pair = none ∧ s₁.stream.grab.1.kind = .at ∧
      (s₁.stream.grab.1.name = "supports" ∨ s₁.stream.grab.1.name = "import") ∧
      ∃ e s₃, topRule s₁.stream.grab.1 { s₁ with stream := s₁.stream.grab.2 } = (.error e, s₃) ∧
        s₃.pair ≠ none := by
  induction h with
  | start => exact absurd hnone hsome
  | @round _ _ s₁ s₂ h hstep ih =>
    by_cases hbefore : s₁.pair = none
    · obtain ⟨hkind, hname, e, s₃, hfails, hpair⟩ :=
        sheetStep_pair ((h.restored hlax).lax hlax) hstep hbefore hsome
      exact ⟨s₁, s₂, h, hstep, .start, hbefore, hkind, hname, e, s₃, hfails, hpair ▸ hsome⟩
    · obtain ⟨s₄, s₅, h₄, hstep₄, h₅, hrest⟩ := ih hbefore
      exact ⟨s₄, s₅, h₄, hstep₄, .round h₅ hstep, hrest⟩

/-! ## Whole stylesheets -/

/-- The state in which the first rule of a text is read. -/
def Parse.State.atFirstRule (text : String) (options : Options) (validator : Validator)
    (store : Option BlockStore) : State :=
  (Parser.fire .startStylesheet .start (State.initial text options validator store)).2

/-- **What holds whenever a top-level token is about to be read.** Whatever
errors there were, no events are held back and no block is open, no style
block and no `@scope` among them. A bracket is noted only if some rule
before was an `@supports` or an import that failed with it open. -/
theorem between_rules (text : String) (options : Options) (validator : Validator)
    (store : Option BlockStore) (hlax : options.strict = false) (u : Unit) (s : State)
    (h : LoopsTo sheetStep () (State.atFirstRule text options validator store) u s) :
    s.deferred = none ∧ s.depth = 0 ∧ s.inStyle = 0 ∧ s.inScope = 0 ∧
      (s.pair ≠ none → ∃ s₁ s₂,
        LoopsTo sheetStep () (State.atFirstRule text options validator store) () s₁ ∧
        sheetStep () s₁ = (.ok (.yield ()), s₂) ∧
        LoopsTo sheetStep () s₂ u s ∧ s₁.pair = none ∧
        s₁.stream.grab.1.kind = .at ∧
        (s₁.stream.grab.1.name = "supports" ∨ s₁.stream.grab.1.name = "import") ∧
        ∃ e s₃, Parser.topRule s₁.stream.grab.1 { s₁ with stream := s₁.stream.grab.2 } =
          (.error e, s₃) ∧ s₃.pair ≠ none) := by
  have hrestored := h.restored hlax
  exact ⟨hrestored.deferred rfl, hrestored.depth, hrestored.inStyle, hrestored.inScope,
    h.pair hlax rfl⟩

/-- What a round leaves, if it is not the last. -/
def Parser.afterRound (s : State) : Option State :=
  match sheetStep () s with
  | (.ok (.yield ()), s') => some s'
  | _ => none

theorem Parser.sheetStep_of_afterRound (h : afterRound s = some s') :
    sheetStep () s = (.ok (.yield ()), s') := by
  unfold afterRound at h
  split at h
  · next hrun => rw [hrun, Option.some.inj h]
  · cases h

/-- The counters after an `@supports` that leaves a bracket noted. -/
theorem between_rules_supports :
    ∃ u s, LoopsTo sheetStep ()
        (State.atFirstRule "@supports selector([a!])\x7b\x7d" {} .fresh none) u s ∧
      s.pair.isSome = true ∧ s.deferred = none ∧ s.depth = 0 ∧ s.inStyle = 0 ∧ s.inScope = 0 := by
  obtain ⟨s, hrun, hpair⟩ := Option.map_eq_some_iff.mp (show (afterRound
    (State.atFirstRule "@supports selector([a!])\x7b\x7d" {} .fresh none)).map (·.pair.isSome) =
      some true by decide +kernel)
  have hloops := LoopsTo.round .start (sheetStep_of_afterRound hrun)
  obtain ⟨hdeferred, hdepth, hinStyle, hinScope, -⟩ :=
    between_rules _ _ _ _ rfl () s hloops
  exact ⟨(), s, hloops, hpair, hdeferred, hdepth, hinStyle, hinScope⟩

/-- **A bracket that is left noted** after an attribute test that breaks off
in a condition. The rule `e` is lost behind an error of the rule before it,
which it is not without the `@supports` in front. -/
theorem bracket_left_open :
    (∃ u s, LoopsTo sheetStep ()
        (State.atFirstRule "@supports selector([a!])\x7b\x7db!\x7b\x7de\x7b\x7d" {} .fresh none) u s ∧
      s.pair = some .rBracket) ∧
      (parseSheet "@supports selector([a!])\x7b\x7db!\x7b\x7de\x7b\x7d" {}).events.map (·.display) =
        ["1:1 startstylesheet", "1:22 error Expected \"]\" but found \"!\".",
          "1:23 error Unexpected \"]\".", "1:24 error Unexpected \")\".",
          "1:25 error Unexpected \"\x7b\".", "1:26 error Unexpected \"\x7d\".",
          "1:28 error Expected \"\x7b\" but found \"!\".", "1:34 endstylesheet"] ∧
      (parseSheet "b!\x7b\x7de\x7b\x7d" {}).events.map (·.display) =
        ["1:1 startstylesheet", "1:2 error Expected \"\x7b\" but found \"!\".",
          "1:5 startrule e", "1:7 endrule", "1:8 endstylesheet"] := by
  have hpair : (afterRound (State.atFirstRule
      "@supports selector([a!])\x7b\x7db!\x7b\x7de\x7b\x7d" {} .fresh none)).map (·.pair) =
        some (some .rBracket) := by decide +kernel
  obtain ⟨s, hrun, hs⟩ := Option.map_eq_some_iff.mp hpair
  exact ⟨⟨(), s, .round .start (sheetStep_of_afterRound hrun), hs⟩, by decide +kernel,
    by decide +kernel⟩

end Stylesheet
