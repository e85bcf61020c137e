import Stylesheet.Proofs.Completion
import Stylesheet.Proofs.WellFormed.Block

/-!
# All selectors are well formed

Whatever is parsed, and whatever was parsed before in the same session, the
selectors in its events are well formed (`Parser.selectors_isWellFormed`):
they alternate between compounds and combinators, at every depth, and stand
in the source where they say. What earlier parses leave for later ones is a
store all of whose rules are laid, and that is all a parse asks of it.
-/

namespace Stylesheet

open Parse (State)
open Parse.State (Stands stands_false stands_true)

/-! ## Whole texts -/

namespace Walks

variable {source : List Char} {a : Bool}

theorem sheet : Walks source false false Parser.sheet := by
  unfold Parser.sheet
  have hfire : ∀ (kind : EventKind) (loc : Location), (Event.selectors ⟨kind, loc⟩ = []) →
      Walks source false false (Parser.fire kind loc) := fun kind loc hnone starts s m hs hstands =>
    (Lays.fire hs (Event.isBehind_of_nil hnone)).weaken fun _ _ hs' =>
      hs'.1.reaches (hstands.of_stream hs'.2) (Nat.le_refl m)
  refine (hfire _ _ rfl).bind fun _ => (repeating fun _ => sheetStep).bind fun _ => ?_
  exact current_bind fun t => hfire _ _ rfl

theorem expectEnd : Walks source a false Parser.expectEnd := by
  unfold Parser.expectEnd
  refine current_bind fun t => ite (fun _ => ?_) fun _ => ?_
  · exact grab.release.bind fun _ => ite (fun _ => pure _) fun _ => throw _
  · exact pure_bind (ite (fun _ => (pure _).release) fun _ => throw _)

theorem singleRule : Walks source false false Parser.singleRule := by
  intro starts s m hs hstands
  unfold Parser.singleRule
  refine (Lays.of_quiet Quiet.composes.grab hs (Reads.grab hs.isSound)).bind
    fun t s₁ ⟨hs₁, hgot⟩ => ?_
  have hcut : t.IsCut source := hs.source_eq ▸ hgot.isCut
  have hm : m ≤ t.location.offset := Nat.le_trans hstands.1 hgot.place_le
  have hs₁ := hs₁.mono hm
  have hle := hcut.location_le_stop
  have hstop : t.stop.offset ≤ s₁.offset := hgot.stop_le
  extract_lets rest
  have hrest : Walks source false false (rest ()) :=
    grab.discard.release.bind fun _ => expectEnd
  refine (Lays.lower (Q := fun _ s' => s'.Reaches source starts false t.location.offset)
    (Lays.ite (fun _ => ?_) fun _ => ?_) hm).weaken fun _ _ hs' => hs'.lower hm
  · exact (Lays.atRule LaysBlock.block hs₁ (Nat.le_trans hle hstop) hcut hle false).bind
      fun _ _ hs₂ => hrest.lays hs₂
  · refine (Lays.styleRule LaysBlock.block hs₁ hcut hstop hgot.heldFrom_location).bind
      fun outcome s₂ hs₂ => ?_
    exact Lays.ite (fun _ => Lays.throw_bind hs₂) fun _ => hrest.lays hs₂

theorem styleAttribute : Walks source false false Parser.styleAttribute :=
  fun _ _ _ hs hstands => ((Lays.blockItems LaysBlock.block hs hstands.1 _ true).weaken
    fun _ _ hs' => hs'.reaches).discard

/-- **What a run reports and leaves**, begun with a store whose rules are
laid. -/
theorem run {α : Type} {p : Parser α} (text : String)
    (h : Walks (normalizeNewlines text.toList) false a p) (options : Options)
    (validator : Validator) (store : Option BlockStore)
    (hstore : ∀ x, store = some x → x.IsLaid (normalizeNewlines text.toList) [] 0) :
    (∀ e ∈ (p.run text options validator store).events,
      e.IsWellFormed (normalizeNewlines text.toList)) ∧
      ∀ x, (p.run text options validator store).store = some x → x.IsFiledWell := by
  have hlaid : (State.initial text options validator store).IsLaid
      (normalizeNewlines text.toList) [] 0 :=
    ⟨Parse.State.isSound_initial text options validator, rfl, fun _ h => absurd h List.not_mem_nil,
      rfl, ⟨fun _ h => absurd h List.not_mem_nil, hstore⟩⟩
  have hrun := h [] _ 0 hlaid (stands_false (Nat.zero_le _))
  have hreaches : (p (State.initial text options validator store)).2.Reaches
      (normalizeNewlines text.toList) [] false 0 := by
    cases hresult : (p (State.initial text options validator store)).1 with
    | error e => exact hrun.error e hresult
    | ok x => exact (hrun.ok x hresult).release
  obtain ⟨m, -, hlaid', -⟩ := hreaches
  refine ⟨fun e he => ?_, fun x hx => (hlaid'.holds.store x hx).filed⟩
  rw [Parser.events_run, List.mem_reverse] at he
  exact hlaid'.holds.events e he

end Walks

namespace Ensures

variable {source : List Char} {s : State}

theorem expectEnd (hs : s.IsSound) : Ensures Parser.expectEnd s fun _ _ => True := by
  unfold Parser.expectEnd
  refine current_bind ?_
  extract_lets rest
  have hrest : ∀ (t : Token) {s₁ : State}, s₁.IsSound → Ensures (rest t) s₁ fun _ _ => True :=
    fun _ {_} hs₁ => ite (fun _ => pure hs₁ trivial) fun _ => failAt _ _
  refine ite (fun _ => ?_) fun _ => pure_bind (hrest _ hs)
  exact (Reads.grab (n := 0) hs).ensures.bind fun t s₁ h₁ _ => hrest t h₁.isSound

theorem singleSelector (hs : s.IsSound) (hsource : s.stream.source = source) :
    Ensures Parser.singleSelector s fun x _ => x.IsWellFormed source false := by
  unfold Parser.singleSelector
  refine (Reads.grab (n := 0) hs).ensures.bind fun t s₁ h₁ hgot => ?_
  have hsource₁ := h₁.source_eq.trans hsource
  have hstarts : StartsList source 0 (some t) s₁ := by
    refine ⟨Nat.zero_le _, ?_⟩
    rintro _ ⟨⟩
    exact ⟨hsource ▸ hgot.isCut, Nat.zero_le _, hgot.stop_le, fun _ _ => Nat.zero_le _⟩
  refine (selector h₁.isSound hsource₁ hstarts false).bind fun r s₂ h₂ ⟨_, hr⟩ => ?_
  cases r with
  | none => exact failAt _ _
  | some x => exact (expectEnd h₂.isSound).bind fun _ s₃ h₃ _ => pure h₃.isSound (hr x rfl).1

end Ensures

/-! ## Sessions -/

namespace Session

/-- **A session that a caller can come to**: what it did so far are parses,
turns to documents and feedback. -/
inductive Reached : Session → Prop where
  /-- A new session. -/
  | new (retention : Retention) : Reached (new retention)
  /-- After turning to a document. -/
  | openDocument {s : Session} (id : String) : Reached s → Reached (s.openDocument id)
  /-- After a parse. -/
  | parse {s : Session} (text : String) (options : Options) (now : Nat) :
      Reached s → Reached (s.parse text options now).2
  /-- After feedback. -/
  | feedback {s : Session} (diagnostics : List Diagnostic) :
      Reached s → Reached (s.feedback diagnostics)

/-- **A parse with a store whose rules are laid** reports well-formed
selectors, and leaves such a store. -/
theorem parse_of_isFiledWell {s : Session} (h : s.store.IsFiledWell) (text : String)
    (options : Options) (now : Nat) :
    (∀ e ∈ (s.parse text options now).1.events, e.IsWellFormed (normalizeNewlines text.toList)) ∧
      (s.parse text options now).2.store.IsFiledWell := by
  have hrun := Walks.run text Walks.sheet options s.validator
    (if options.reuseCache then some (s.store.start now) else none) fun x hx => by
      split_ifs at hx
      obtain rfl := Option.some.inj hx
      exact h.start _ now
  refine ⟨hrun.1, ?_⟩
  show ((Parser.sheet.run text options s.validator _).store.getD s.store).IsFiledWell
  cases hstore : (Parser.sheet.run text options s.validator
      (if options.reuseCache then some (s.store.start now) else none)).store with
  | none => exact h
  | some x => exact hrun.2 x hstore

/-- **The rules that a session remembers are laid.** -/
theorem Reached.isFiledWell {s : Session} (h : s.Reached) : s.store.IsFiledWell := by
  induction h with
  | new retention => exact .empty retention
  | @openDocument s id _ ih =>
    unfold Session.openDocument
    split_ifs
    · exact ih
    · exact .reset _
  | parse text options now _ ih => exact (parse_of_isFiledWell ih text options now).2
  | feedback diagnostics _ ih => exact ih.feedback _

end Session

/-- **Selectors are well formed at every depth**: in what is parsed as one, in
the events of what is parsed by itself, and in those of a parse in a session,
whatever happened in it before. -/
theorem Parser.selectors_isWellFormed (text : String) :
    let source := normalizeNewlines text.toList
    (∀ s, parseSelector text = .ok s → s.IsWellFormed source false) ∧
      (∀ p ∈ [sheet, singleRule, styleAttribute], ∀ options validator,
        ∀ e ∈ (p.run text options validator none).events, e.IsWellFormed source) ∧
      ∀ session : Session, session.Reached → ∀ options now,
        ∀ e ∈ (session.parse text options now).1.events, e.IsWellFormed source := by
  refine ⟨fun s hs => ?_, fun p hp options validator => ?_, fun session hsession options now =>
    (Session.parse_of_isFiledWell hsession.isFiledWell text options now).1⟩
  · have hensures := Ensures.singleSelector
      (Parse.State.isSound_initial text {} .fresh) rfl
    exact (hensures.ok s _ (Prod.ext hs rfl)).2
  · have hwalks : Walks (normalizeNewlines text.toList) false false p := by
      rcases List.mem_cons.mp hp with rfl | hp
      · exact Walks.sheet
      rcases List.mem_cons.mp hp with rfl | hp
      · exact Walks.singleRule
      · obtain rfl := List.mem_singleton.mp hp
        exact Walks.styleAttribute
    exact (Walks.run text hwalks options validator none fun x hx => by cases hx).1

/-- A relative selector in the argument of a pseudo-class, and a rule that a
second parse takes from the first one. -/
theorem Parser.selectors_isWellFormed_has :
    (∃ s, parseSelector "a:has(> b)" = .ok s ∧
        s.IsWellFormed (normalizeNewlines "a:has(> b)".toList) false) ∧
      (((Session.new {}).parse "a b\x7bc:d\x7d" { reuseCache := true } 0).2.parse " a b\x7bc:d\x7d"
        { reuseCache := true } 0).2.hits = 1 ∧
      ∃ e ∈ (((Session.new {}).parse "a b\x7bc:d\x7d" { reuseCache := true } 0).2.parse
          " a b\x7bc:d\x7d" { reuseCache := true } 0).1.events,
        e.selectors ≠ [] ∧ e.IsWellFormed (normalizeNewlines " a b\x7bc:d\x7d".toList) := by
  refine ⟨?_, by decide +kernel, ?_⟩
  · cases hresult : parseSelector "a:has(> b)" with
    | ok s => exact ⟨s, rfl, (selectors_isWellFormed "a:has(> b)").1 s hresult⟩
    | error e =>
      have hok : (parseSelector "a:has(> b)").toBool = true := by decide +kernel
      rw [hresult] at hok
      cases hok
  · have hany : ((((Session.new {}).parse "a b\x7bc:d\x7d" { reuseCache := true } 0).2.parse
        " a b\x7bc:d\x7d" { reuseCache := true } 0).1.events.any fun e => !e.selectors.isEmpty) =
        true := by decide +kernel
    obtain ⟨e, he, hne⟩ := List.any_eq_true.mp hany
    refine ⟨e, he, fun hnil => ?_, (selectors_isWellFormed " a b\x7bc:d\x7d").2.2 _
      (.parse _ _ _ (.new _)) _ _ e he⟩
    rw [hnil] at hne
    cases hne

end Stylesheet
