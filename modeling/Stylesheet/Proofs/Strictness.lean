import Stylesheet.Proofs.Completion
import Stylesheet.Proofs.Lockstep.Block

/-!
# Strict parses

A strict parse stops at the first error instead of reporting it. What it
reports until then is what any other parse of the text reports first
(`strict_events_prefix`).

One that succeeds should have found nothing to complain about. That is so
but for one complaint: a selector that refers to a rule around it, where
there is none, is reported as an error and the parse goes on, strict or not
(`strict_complaints`, `strict_passes_nesting`).
-/

namespace Stylesheet

open Parse (State)
open Parse.State (Together Grows AddsMild)

namespace Lockstep

theorem topRule (t : Token) : InStep .frank (Parser.topRule t) := by
  unfold Parser.topRule
  split
  · exact atRule block t true
  · exact pure ()
  · refine (styleRule block t).bind fun outcome => ?_
    split
    · exact inStep.grab.bind fun u => ite (pure _) (throw _)
    · exact pure ()

/-- One more rule that stands in no block; at a broken one a strict parse
fails. -/
theorem sheetStep (u : Unit) : InStep .frank (Parser.sheetStep u) := by
  unfold Parser.sheetStep
  refine inStep.grab.bind fun t => ite (pure _) (attempt_bind (topRule t) (fun r => ?_) fun e =>
    .unless_strict)
  cases r with
  | ok _ => exact pure _
  | error e => exact unless_strict ((report e).bind fun _ => pure _)

theorem sheet : InStep .frank Parser.sheet :=
  (fireMild rfl).bind fun _ => (inStep.repeating sheetStep ()).bind fun _ =>
    inStep.current.bind fun _ => fireMild rfl

end Lockstep

/-- **Without a store** two parses part only where the first one stops. -/
theorem Lockstep.events_suffix {α : Type} {p : Parser α} (h : InStep .frank p) {s s' : State}
    (htogether : Together s s') (hstore : s.store = none) :
    (p s).2.events <:+ (p s').2.events := by
  cases h.paired s s' htogether nofun with
  | alike _ htogether' =>
    exact (congrArg ((p s).2.events <:+ ·) htogether'.events).mpr List.suffix_rfl
  | found hlt =>
    have hnone : (p s).2.hits = 0 := by
      unfold State.hits
      rw [(h.left s).store hstore]
      rfl
    rw [hnone] at hlt
    exact absurd hlt (Nat.not_lt_zero _)
  | stopped _ _ _ _ hevents => exact hevents

/-- **Strict parsing reports the beginning of what tolerant parsing
reports**, whether it succeeds or not. -/
theorem strict_events_prefix (text : String) (o : Options) :
    (parseSheet text { o with strict := true }).events <+:
      (parseSheet text { o with strict := false }).events := by
  have htogether : Together (State.initial text { o with strict := true } .fresh none)
      (State.initial text { o with strict := false } .fresh none) :=
    @Together.intro _ false o.reuseCache .fresh nofun (.inr rfl)
  rw [parseSheet, parseSheet, Parser.events_run, Parser.events_run, List.reverse_prefix]
  exact Lockstep.sheet.events_suffix htogether rfl

/-- **What a strict parse that succeeds complains about**: nothing but
nested selectors outside of style rules. -/
theorem strict_complaints {text : String} {o : Options} (hstrict : o.strict = true)
    (hok : (parseSheet text o).result = .ok ()) :
    ∀ e ∈ (parseSheet text o).events, e.diagnostic? = none ∨ ∃ loc, e = .nestingComplaint loc := by
  intro e he
  rw [parseSheet, Parser.result_run] at hok
  rw [parseSheet, Parser.events_run] at he
  have hmild := Lockstep.sheet.frank rfl (State.initial text o .fresh none) hstrict rfl () hok
  exact (hmild.events e (List.mem_reverse.mp he)).resolve_left List.not_mem_nil

/-- One that succeeds and makes the one complaint. -/
theorem strict_complaints_nested :
    let outcome := parseSheet "&\x7bq:1\x7d" { strict := true, noValidation := true }
    (diagnosticsOf outcome.events).map (·.message) =
        ["Nested selector must be inside a style rule."] ∧
      ∀ e ∈ outcome.events, e.diagnostic? = none ∨ ∃ loc, e = .nestingComplaint loc :=
  have hok : ∀ r : Except Diagnostic Unit, r.isOk = true → r = .ok ()
    | .ok (), _ => rfl
  ⟨by decide +kernel, strict_complaints rfl (hok _ (by decide +kernel))⟩

/-- **A strict parse lets a nested selector pass** that stands in no style
rule. -/
theorem strict_passes_nesting :
    let outcome := parseSheet "&\x7bq:1\x7d" { strict := true, noValidation := true }
    outcome.result.isOk = true ∧ outcome.events.map (·.display) =
      ["1:1 startstylesheet", "1:1 error Nested selector must be inside a style rule.",
        "1:1 startrule &", "1:3 property q: 1", "1:6 endrule", "1:7 endstylesheet"] :=
  ⟨by decide +kernel, by decide +kernel⟩

/-!
## Parses with other options

A text is parsed again in one session, with other options than before. As
long as no rule of an earlier parse is found, that parse comes to what it
comes to without the rules: the options take effect at once
(`Session.parse_again`). What the checks of earlier parses remember can
matter still, unless one of the two parses makes no checks.

A rule that is found is another matter. It is found by its text alone,
whatever options it was parsed with, and its events are reported as they
were then (`Session.parse_again_strictly`).
-/

/-- **Two parses come to the same**: the same answer and the same
events. -/
def Outcome.Agrees {α : Type} (o o' : Outcome α) : Prop :=
  o.result = o'.result ∧ o.events = o'.events

/-- **Without a rule that is found** and without another strictness two
parses do not part. -/
theorem Lockstep.agrees {α : Type} {p : Parser α} (h : InStep .frank p) {s s' : State}
    (htogether : Together s s') (hstrict : s'.options.strict = s.options.strict)
    (hhits : ¬s.hits < (p s).2.hits) :
    (p s).1 = (p s').1 ∧ (p s).2.events = (p s').2.events := by
  cases h.paired s s' htogether nofun with
  | alike hanswer htogether' => exact ⟨hanswer, htogether'.events.symm⟩
  | found hlt => exact absurd hlt hhits
  | stopped _ _ hs hs' _ =>
    rw [hstrict, hs] at hs'
    cases hs'

/-- Beginning a parse finds no rule. -/
theorem BlockStore.hits_start (s : BlockStore) (now : Nat) : (s.start now).hits = s.hits := by
  unfold BlockStore.start
  dsimp only
  split_ifs <;> rfl

namespace Session

variable {s : Session} {text : String} {o : Options} {now : Nat}

/-- The rules of earlier parses that a parse can use. -/
def storeFor (s : Session) (o : Options) (now : Nat) : Option BlockStore :=
  if o.reuseCache = true then some (s.store.start now) else none

/-- The parse that a session makes. -/
theorem outcome_parse : (s.parse text o now).1 =
    Parser.sheet.run text o s.validator (s.storeFor o now) := rfl

/-- **A parse that finds no rule** counts none. -/
theorem hits_le_of_unused (hunused : (s.parse text o now).2.hits = s.hits) :
    (Parser.sheet (State.initial text o s.validator (s.storeFor o now))).2.hits ≤
      (State.initial text o s.validator (s.storeFor o now)).hits := by
  have hgrows := Lockstep.sheet.left (State.initial text o s.validator (s.storeFor o now))
  have hkept : (((Parser.sheet (State.initial text o s.validator
      (s.storeFor o now))).2.store).getD s.store).hits = s.hits := hunused
  generalize (Parser.sheet (State.initial text o s.validator (s.storeFor o now))).2 = after
    at hgrows hkept
  have hbegun : (State.initial text o s.validator (s.storeFor o now)).store =
      s.storeFor o now := rfl
  unfold State.hits
  rw [hbegun]
  cases hstore : after.store with
  | none => exact Nat.zero_le _
  | some store =>
    rw [hstore, Option.getD_some] at hkept
    cases hreuse : s.storeFor o now with
    | none =>
      rw [hgrows.store (hbegun.trans hreuse)] at hstore
      cases hstore
    | some begun =>
      unfold storeFor at hreuse
      split_ifs at hreuse
      obtain rfl := Option.some.inj hreuse
      exact Nat.le_of_eq (hkept.trans (s.store.hits_start now).symm)

/-- **A parse that finds no rule** comes to what one comes to that has no
rules, and that remembers the same of the checks if there are any. -/
theorem parse_agrees (hunused : (s.parse text o now).2.hits = s.hits) {v : Validator}
    (hchecks : o.noValidation = true ∨ v = s.validator) :
    (s.parse text o now).1.Agrees
      (Parser.sheet.run text { o with reuseCache := false } v none) := by
  have htogether : Together (State.initial text o s.validator (s.storeFor o now))
      (State.initial text { o with reuseCache := false } v none) :=
    @Together.intro _ o.strict false v id hchecks
  obtain ⟨hanswer, hevents⟩ := Lockstep.sheet.agrees htogether rfl
    (Nat.not_lt_of_le (hits_le_of_unused hunused))
  rw [outcome_parse]
  unfold Outcome.Agrees
  rw [Parser.result_run, Parser.result_run, Parser.events_run, Parser.events_run]
  exact ⟨hanswer, congrArg List.reverse hevents⟩

/-- **A text is parsed again with other options.** If the second parse
finds no rule, it comes to what a parse without rules comes to with these
options in the same session; and if one of the two parses makes no checks,
to what it comes to in a new session. -/
theorem parse_again {retention : Retention} {text : String} {o o' : Options} {now now' : Nat}
    (hunused : (((new retention).parse text o now).2.parse text o' now').2.hits =
      ((new retention).parse text o now).2.hits) :
    let session := ((new retention).parse text o now).2
    let plain := { o' with reuseCache := false }
    (session.parse text o' now').1.Agrees (session.parse text plain now').1 ∧
      (o.noValidation = true ∨ o'.noValidation = true →
        (session.parse text o' now').1.Agrees ((new retention).parse text plain now').1) := by
  refine ⟨parse_agrees hunused (.inr rfl), fun hunchecked => parse_agrees hunused ?_⟩
  refine hunchecked.symm.imp id fun ho => ?_
  exact ((Lockstep.sheet.left (State.initial text o .fresh
    ((new retention).storeFor o now))).validator ho).symm

/-- A rule that is broken at first is read when the options let it. -/
theorem parse_again_starred :
    let o : Options := { reuseCache := true, noValidation := true }
    let session := ((new {}).parse "a\x7b*q:1\x7d" o 0).2
    let again := (session.parse "a\x7b*q:1\x7d" { o with starHack := true } 0).1
    again.events.map (·.display) = ["1:1 startstylesheet", "1:1 startrule a",
        "1:3 property *q: 1", "1:7 endrule", "1:8 endstylesheet"] ∧
      again.Agrees
        ((new {}).parse "a\x7b*q:1\x7d" { starHack := true, noValidation := true } 0).1 :=
  ⟨by decide +kernel,
    (@parse_again {} _ _ { starHack := true, reuseCache := true, noValidation := true } 0 0
      (by decide +kernel)).2 (.inl rfl)⟩

/-- **A rule with an error is reused by a strict parse**, which does not
fail then as it does without the rule. -/
theorem parse_again_strictly :
    let o : Options := { reuseCache := true, noValidation := true }
    let session := ((new {}).parse "a\x7bq:1;]\x7d" o 0).2
    let again := (session.parse "a\x7bq:1;]\x7d" { o with strict := true } 0).1
    let fresh := ((new {}).parse "a\x7bq:1;]\x7d" { strict := true, noValidation := true } 0).1
    again.result.isOk = true ∧ again.events.map (·.display) =
      ["1:1 startstylesheet", "1:1 startrule a", "1:3 property q: 1",
        "1:7 error Unexpected \"]\".", "1:8 endrule", "1:9 endstylesheet"] ∧
    fresh.result.isOk = false ∧ fresh.events.map (·.display) =
      ["1:1 startstylesheet", "1:1 startrule a", "1:3 property q: 1"] :=
  ⟨by decide +kernel, by decide +kernel, by decide +kernel, by decide +kernel⟩

end Session

end Stylesheet
