import Stylesheet.Parse.Sheet
import Stylesheet.Proofs.Reads.Block

/-!
# Parses that complete

A stylesheet that is not parsed strictly is always read to its end, and
its events say so: the first is its start, the last its end, and neither
occurs in between. What stands behind it is that every round of the loop
over the rules reads something, whatever went wrong in it, and that no
bound on the rounds or on the depth of nesting is ever reached.
-/

namespace Stylesheet

open Parse (State)
open Parse.State (Keeps Stands stands_false stands_true)

/-! ## Runs -/

section

variable {α : Type} (p : Parser α) (text : String) (options : Options) (validator : Validator)
  (store : Option BlockStore)

theorem Parse.State.events_initial : (State.initial text options validator store).events = [] := rfl

theorem Parser.events_run : (p.run text options validator store).events =
    (p (State.initial text options validator store)).2.events.reverse := rfl

theorem Parser.result_run : (p.run text options validator store).result =
    (p (State.initial text options validator store)).1 := rfl

end

/-- A character takes four bytes at most. -/
theorem Text.byteLength_le (cs : List Char) : byteLength cs ≤ 4 * cs.length := by
  induction cs with
  | nil => exact Nat.le_refl _
  | cons c cs ih =>
    have hsize := c.utf8Size_le_four
    rw [byteLength_cons, List.length_cons]
    omega

/-- **A parse starts in a sound state.** -/
theorem Parse.State.isSound_initial (text : String) (options : Options) (validator : Validator) :
    (State.initial text options validator none).IsSound where
  stream := Stream.isSound_ofString text
  budget := Nat.add_le_add_right (Text.byteLength_le _) 64
  store := rfl
  deferred _ h := by cases h

namespace Reads

variable {α : Type} {n : Nat} {s : State} {t : Token} {p p' : Parser α} {Q : α → State → Prop}

/-- **A parser that could only fail beyond the source succeeds.** -/
theorem succeeds (h : Reads (Text.byteLength s.stream.source + 1) p p' s Q) :
    ∃ a s', p s = (.ok a, s') ∧ Keeps s s' ∧ Q a s' := by
  rcases hrun : p s with ⟨r, s'⟩
  have hkeeps := h.keeps
  have herror := h.error
  have hok := h.ok
  rw [hrun] at hkeeps herror hok
  cases r with
  | ok a => exact ⟨a, s', rfl, hkeeps, hok a rfl⟩
  | error e =>
    have hle := hkeeps.isSound.offset_le
    rw [hkeeps.source_eq] at hle
    exact absurd (herror e rfl) (by omega)

/-! ## The loop over the rules -/

/-- **A rule that stands in no block.** Something is read even if there
is no rule. -/
theorem topRule (hs : s.IsSound) (ht : t.IsCut s.stream.source) (heof : t.kind ≠ .eof)
    (hstop : t.stop.offset ≤ s.offset) (hheld : s.stream.HeldFrom t.location.offset) :
    Reads (t.location.offset + 1) (Parser.topRule t) (Parser.topRule t) s
      fun _ s' => t.location.offset < s'.offset := by
  have hlt := ht.location_lt_stop heof
  have hd : Text.byteLength s.stream.source <
      t.stop.offset + (Text.byteLength s.stream.source + 1) := by omega
  unfold Parser.topRule
  split
  · refine ((atRule Runs.block hs hd hstop ht (Nat.le_refl _) true).lower hlt).weaken
      fun _ _ _ hstands => ?_
    exact Nat.lt_of_lt_of_le hlt hstands.1
  · exact pure hs (Nat.lt_of_lt_of_le hlt hstop)
  · refine ((styleRule Runs.block hs ht hstop hheld hd).lower hlt).bind
      fun outcome s₁ h₁ hruled => ?_
    split
    · -- the token is read again, or everything else is
      refine (grab h₁.isSound).bind fun u s₂ h₂ hgot => ?_
      have hle : t.location.offset ≤ u.location.offset := Nat.le_trans hruled.1 hgot.place_le
      have hread : t.location.offset < s₂.offset := by
        by_cases hend : u.kind = .eof
        · have hplace : u.location.offset = Text.byteLength s₁.stream.source := by
            rw [hgot.isCut.location_of_eof hend, Location.offset_advance_start]
          have htop := ht.stop_isPlace.offset_le
          rw [← h₁.source_eq, ← hplace] at htop
          exact Nat.lt_of_lt_of_le (Nat.lt_of_lt_of_le hlt htop)
            (Nat.le_trans hgot.isCut.location_le_stop hgot.stop_le)
        · exact Nat.lt_of_le_of_lt hle
            (Nat.lt_of_lt_of_le (hgot.isCut.location_lt_stop hend) hgot.stop_le)
      exact ite (fun _ => pure h₂.isSound hread) fun _ => failAt h₂.isSound hread
    · next hne => exact pure h₁.isSound (Nat.lt_of_lt_of_le hlt (hruled.2 hne))

/-- **What a round of the loop leaves** that starts with a token: at the
end of the source the loop is done, and otherwise the start of the token
lies behind. -/
def SheetRound (t : Token) : ForInStep Unit → State → Prop
  | .done _, s => t.kind = .eof ∧ s.stream.current = t
  | .yield _, s => t.kind ≠ .eof ∧ t.location.offset < s.offset

/-- **One more rule that stands in no block.** A parse that is not strict
does not fail. -/
theorem sheetStep (hs : s.IsSound) (hlax : s.options.strict = false) :
    Reads n (Parser.sheetStep ()) (Parser.sheetStep ()) s (SheetRound s.stream.grab.1) := by
  set t := s.stream.grab.1
  unfold Parser.sheetStep
  have hgot : Stream.Got s.stream t s.stream.grab.2 := hs.stream.get false false
  refine (ask (Q := fun u s' => u = t ∧ Stream.Got s.stream t s'.stream) hs hgot.isSound
    hgot.source_eq ⟨rfl, hgot⟩).bind fun u s₁ h₁ hu => ?_
  obtain ⟨rfl, hgot₁⟩ := hu
  refine ite (fun hend => ?_) fun hend => ?_
  · refine pure h₁.isSound ⟨beq_iff_eq.mp hend, ?_⟩
    unfold Stream.current
    rw [hgot₁.current_eq]
    rfl
  · have heof : t.kind ≠ .eof := fun hkind => hend (beq_iff_eq.mpr hkind)
    refine (attempt (Q := fun _ s' => t.location.offset < s'.offset)
      (topRule h₁.isSound (by rw [h₁.source_eq]; exact hgot₁.isCut) heof hgot₁.stop_le
        hgot₁.heldFrom_location) fun _ _ _ hlt => hlt).bind fun r s₂ h₂ hlt => ?_
    cases r with
    | ok _ => exact pure h₂.isSound ⟨heof, hlt⟩
    | error e =>
      refine options (ite (fun hstrict => ?_) fun _ => ?_)
      · rw [h₂.options_eq, h₁.options_eq, hlax] at hstrict
        cases hstrict
      · refine (report h₂.isSound).bind fun _ s₃ h₃ hstream => pure h₃.isSound ⟨heof, ?_⟩
        rw [Parse.State.offset_of_stream hstream]
        exact hlt

/-- **The loop over the rules** reads the source to its end. -/
theorem sheetLoop (hs : s.IsSound) (hlax : s.options.strict = false) :
    Reads n (Parser.repeating () Parser.sheetStep) (Parser.repeating () Parser.sheetStep) s
      fun _ s' => s'.stream.current.location = Location.start.advance s.stream.source := by
  refine repeating (fun _ _ => True) (fun _ s' => s'.left) hs trivial (by omega)
    fun _ s₁ h₁ _ => ?_
  have hgot : Stream.Got s₁.stream s₁.stream.grab.1 s₁.stream.grab.2 :=
    h₁.isSound.stream.get false false
  refine (sheetStep h₁.isSound (by rw [h₁.options_eq]; exact hlax)).weaken fun r s₂ h₂ hround => ?_
  cases r with
  | done _ =>
    show s₂.stream.current.location = _
    rw [hround.2, ← h₁.source_eq]
    exact hgot.isCut.location_of_eof hround.1
  | yield _ => exact ⟨trivial, h₂.left_lt (Nat.lt_of_le_of_lt hgot.place_le hround.2)⟩

end Reads

/-! ## Rounds of a loop -/

/-- **What a loop comes to** before its last round. -/
inductive Parser.LoopsTo {σ : Type} (step : σ → Parser (ForInStep σ)) (a : σ) (s : State) :
    σ → State → Prop
  | start : LoopsTo step a s a s
  | round {b c : σ} {s₁ s₂ : State} (h : LoopsTo step a s b s₁)
      (hstep : step b s₁ = (.ok (.yield c), s₂)) : LoopsTo step a s c s₂

/-- Every round over the rules starts in a sound state. -/
theorem Parser.LoopsTo.keeps {s s' : State} {u : Unit} (h : LoopsTo sheetStep () s u s')
    (hs : s.IsSound) (hlax : s.options.strict = false) : Keeps s s' := by
  induction h with
  | start => exact Keeps.refl hs
  | round h hstep ih =>
    have hreads := Reads.sheetStep (n := 0) ih.isSound (by rw [ih.options_eq]; exact hlax)
    have hkeeps := hreads.keeps
    rw [hstep] at hkeeps
    exact ih.trans hkeeps

/-- **A round over the rules** ends the loop at the end of the source, and
otherwise leaves the start of its first token behind. -/
theorem sheetStep_eq {s : State} (hs : s.IsSound) (hlax : s.options.strict = false) :
    (s.stream.grab.1.kind = .eof → ∃ s', Parser.sheetStep () s = (.ok (.done ()), s')) ∧
      (s.stream.grab.1.kind ≠ .eof → ∃ s', Parser.sheetStep () s = (.ok (.yield ()), s') ∧
        s.stream.grab.1.location.offset < s'.offset) := by
  obtain ⟨r, s', hrun, -, hround⟩ := (Reads.sheetStep hs hlax).succeeds
  cases r with
  | done _ => exact ⟨fun _ => ⟨s', hrun⟩, fun hne => absurd hround.1 hne⟩
  | yield _ => exact ⟨fun heof => absurd heof hround.1, fun _ => ⟨s', hrun, hround.2⟩⟩

/-- **Of two rounds of a block, one after the other, the second starts
with a later token** if it does not end the block. -/
theorem blockStep_location_lt {depth : Nat} {shape : BlockShape} {toEnd : Bool}
    {sofar sofar₁ sofar₂ : Parser.BlockSoFar} {s s₁ s₂ : State} (hs : s.IsSound)
    (hfirst : Parser.blockStep (Parser.blockTo depth) shape toEnd sofar s =
      (.ok (.yield sofar₁), s₁))
    (hsecond : Parser.blockStep (Parser.blockTo depth) shape toEnd sofar₁ s₁ =
      (.ok (.yield sofar₂), s₂)) :
    (s.stream.get true false).1.location.offset < (s₁.stream.get true false).1.location.offset := by
  have hround : ∀ {sofar sofar' : Parser.BlockSoFar} {s s' : State}, s.IsSound →
      Parser.blockStep (Parser.blockTo depth) shape toEnd sofar s = (.ok (.yield sofar'), s') →
      Keeps s s' ∧ Reads.BlockRound sofar (s.stream.get true false).1 0 (.yield sofar') s' := by
    intro sofar sofar' s s' hs hrun
    have hreads := Reads.blockStep (n := 0) (Runs.blockTo_self (Text.byteLength s.stream.source)
      depth) hs (by omega) (Nat.zero_le _) shape toEnd sofar
    have hkeeps := hreads.keeps
    have hok := hreads.ok
    rw [hrun] at hkeeps hok
    exact ⟨hkeeps, hok _ rfl⟩
  obtain ⟨h₁, heof, hle, hcase⟩ := hround hs hfirst
  obtain ⟨-, -, -, hcase₁⟩ := hround h₁.isSound hsecond
  have hgot := hs.stream.get true false
  have hgot₁ := h₁.isSound.stream.get true false
  refine Nat.lt_of_le_of_ne (Nat.le_trans hle hgot₁.place_le) fun hsame => ?_
  -- a token that starts at the same offset is the same token
  have hcut : (s.stream.get true false).1.IsCut s₁.stream.source := by
    rw [h₁.source_eq]
    exact hgot.isCut
  have hplace : s₁.offset ≤ (s₁.stream.get true false).1.location.offset := hgot₁.place_le
  rw [← hcut.eq_of_offset hgot₁.isCut hsame] at hcase₁ hplace
  rcases hcase with ⟨-, hstop, -⟩ | ⟨hitem, -, hkey⟩
  · have hlt := hgot.isCut.location_lt_stop heof
    omega
  · rcases hcase₁ with ⟨hnone, -, -⟩ | ⟨-, hfresh, -⟩
    · exact hnone hitem
    · exact hfresh hkey

/-! ## Whole parses -/

/-- The state after the start of a stylesheet is reported. -/
def Parse.State.started (s : State) : State :=
  { s with events := ⟨.startStylesheet, .start⟩ :: s.events }

/-- **A stylesheet is read to its end** whatever budget is large
enough. -/
theorem sheet_apply {s : State} (hs : s.IsSound) (hlax : s.options.strict = false)
    (hdeferred : s.deferred = none) :
    ∃ s' : State, (∀ b, s.IsEnough b → Parser.sheet (s.withBudget b) = (.ok (), s'.withBudget b)) ∧
      ∃ inner, s'.events = ⟨.endStylesheet, Location.start.advance s.stream.source⟩ ::
        (inner ++ s.started.events) ∧ ∀ e ∈ inner, e.IsInner := by
  have hstarted : s.started.IsSound := ⟨hs.stream, hs.budget, hs.store, hs.deferred⟩
  have hloop := Reads.sheetLoop (n := Text.byteLength s.started.stream.source + 1) hstarted hlax
  obtain ⟨_, s₁, hrun, hkeeps, hlocation⟩ := hloop.succeeds
  obtain ⟨inner, hevents, hinner⟩ := hkeeps.events
  have halike : ∀ b, s.IsEnough b →
      Parser.repeating () Parser.sheetStep (s.started.withBudget b) =
        (.ok (), s₁.withBudget b) := by
    intro b hb
    rw [hloop.alike b hb, hrun]
  refine ⟨{ s₁ with events := ⟨.endStylesheet, s₁.stream.current.location⟩ :: s₁.events },
    fun b hb => ?_, inner, ?_, hinner⟩
  · unfold Parser.sheet
    rw [Parser.bind_ok (Parser.fire_apply (s := s.withBudget b) hdeferred hs.store _ _)]
    refine (Parser.bind_ok (halike b hb)).trans ?_
    exact Parser.fire_apply (s := s₁.withBudget b) (hkeeps.deferred hdeferred)
      hkeeps.isSound.store _ _
  · rw [hevents, hlocation]
    rfl

/-- **Every parse that is not strict completes.** It succeeds. Its first
event is the start of the stylesheet at the start of the source, its last
one the end of the stylesheet at the end of the source, and neither
occurs in between. No larger budget makes a difference, so no loop is cut
short. Every round of the loop over the rules ends it at the end of the
source or leaves the start of its first token behind; and of two rounds
of a block, one after the other, the second starts with a later token
unless it ends the block. -/
theorem sheet_completes (text : String) (options : Options) (validator : Validator)
    (hlax : options.strict = false) :
    let source := normalizeNewlines text.toList
    let initial := State.initial text options validator none
    let outcome := Parser.sheet.run text options validator none
    outcome.result = .ok () ∧
    (∃ inner, outcome.events = ⟨.startStylesheet, ⟨1, 1, 0⟩⟩ ::
        (inner ++ [⟨.endStylesheet, Location.start.advance source⟩]) ∧
      ∀ e ∈ inner, e.kind ≠ .startStylesheet ∧ e.kind ≠ .endStylesheet) ∧
    (∀ b, initial.budget ≤ b → Parser.sheet (initial.withBudget b) =
      ((Parser.sheet initial).1, (Parser.sheet initial).2.withBudget b)) ∧
    (∀ u s, Parser.LoopsTo Parser.sheetStep () initial.started u s →
      s.IsSound ∧
      (s.stream.grab.1.kind = .eof → ∃ s', Parser.sheetStep u s = (.ok (.done ()), s')) ∧
      (s.stream.grab.1.kind ≠ .eof → ∃ s', Parser.sheetStep u s = (.ok (.yield ()), s') ∧
        s.stream.grab.1.location.offset < s'.offset)) ∧
    (∀ (depth : Nat) (shape : BlockShape) (toEnd : Bool)
      (sofar sofar₁ sofar₂ : Parser.BlockSoFar) (s s₁ s₂ : State), s.IsSound →
      Parser.blockStep (Parser.blockTo depth) shape toEnd sofar s = (.ok (.yield sofar₁), s₁) →
      Parser.blockStep (Parser.blockTo depth) shape toEnd sofar₁ s₁ = (.ok (.yield sofar₂), s₂) →
      (s.stream.get true false).1.location.offset <
        (s₁.stream.get true false).1.location.offset) := by
  intro source initial outcome
  have hs : initial.IsSound := Parse.State.isSound_initial text options validator
  obtain ⟨s', hrun, inner, hevents, hinner⟩ := sheet_apply hs hlax rfl
  have hself : Parser.sheet initial = (.ok (), s'.withBudget initial.budget) :=
    hrun initial.budget hs.budget
  have houtcome : outcome = ⟨.ok (), s'.events.reverse, s'.validator, s'.store⟩ := by
    show (let (result, s) := Parser.sheet initial
      (⟨result, s.events.reverse, s.validator, s.store⟩ : Outcome Unit)) = _
    rw [hself]
    rfl
  refine ⟨?_, ⟨inner.reverse, ?_, fun e he => hinner e (List.mem_reverse.mp he)⟩, fun b hb => ?_,
    fun u s hloops => ?_, fun _ _ _ _ _ _ _ _ _ => blockStep_location_lt⟩
  · rw [houtcome]
  · rw [houtcome]
    show s'.events.reverse = _
    rw [hevents]
    rw [List.reverse_cons, List.reverse_append]
    rfl
  · rw [hrun b (Nat.le_trans hs.budget hb), hself]
    rfl
  · have hstarted : initial.started.IsSound := ⟨hs.stream, hs.budget, hs.store, hs.deferred⟩
    have hkeeps := hloops.keeps hstarted hlax
    exact ⟨hkeeps.isSound, sheetStep_eq hkeeps.isSound (by rw [hkeeps.options_eq]; exact hlax)⟩

/-- A rule that is cut off. -/
theorem sheet_completes_truncated :
    (parseSheet "a\x7bcolor:" {}).result = .ok () :=
  (sheet_completes "a\x7bcolor:" {} .fresh rfl).1

end Stylesheet
