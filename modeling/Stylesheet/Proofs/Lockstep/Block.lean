import Stylesheet.Proofs.Compositional.Rule
import Stylesheet.Proofs.Lockstep.Basic
import Stylesheet.Proofs.Reads.Declaration

/-!
# Declarations in lockstep

A declaration that its property does not allow is reported with what is
wrong with it, and a strict parse fails before. Whether declarations are
checked at all is the same for both parses, and what the checks remember
matters only if they are. What is held back while a value is read are
warnings, whatever the state, so that it can be reported in every tone.
-/

namespace Stylesheet

open Parse (State)
open Parse.State (Together Grows AddsMild)
open Stylesheet.Parser

namespace Rethrows

variable {α : Type}

theorem state_bind {f : State → Parser α} (h : ∀ s, Rethrows (f s)) :
    Rethrows (state >>= f) := fun s hs => h s s hs

end Rethrows

namespace Lockstep

variable {tone : Tone} {β : Type}

/-! ## Values that are held back -/

theorem setDeferred {deferred : Option (List Event)} (hnone : deferred.getD [] = []) :
    InStep tone (update fun s => { s with deferred := deferred }) := by
  have hgrows : ∀ s : State, Grows s { s with deferred := deferred } := fun s =>
    ⟨rfl, List.suffix_rfl, id, Nat.le_refl _, fun _ => rfl⟩
  refine of_modifyGet (fun _ _ _ _ => rfl) hgrows hgrows (fun _ => rfl) fun _ s =>
    ⟨fun _ => .inl, fun e he => ?_⟩
  have he : e ∈ deferred.getD [] := he
  rw [hnone] at he
  cases he

theorem exprHeldBack (ends : List TokenKind) : InStep tone (Parser.exprHeldBack ends) := by
  unfold Parser.exprHeldBack
  refine (setDeferred rfl).bind fun _ => attempt_bind (inStep.expr ends false) (fun r => ?_) fun e => ?_
  · exact state_bind (fun _ _ _ _ => rfl) fun s => (setDeferred rfl).bind fun _ =>
      (ofExcept r).bind fun _ => pure _
  · exact .state_bind fun s => .update_bind .throw_bind fun _ => ⟨rfl, rfl⟩

/-- A value is read without complaints. -/
theorem expr_quiet (ends : List TokenKind) : InStep .quiet (expr ends false) :=
  inStep.expr ends false

/-- **What is held back is mild**, since a value reports only warnings. -/
theorem exprHeldBack_mild {ends : List TokenKind} (s : State) (r : Option Value × List Event)
    (h : (Parser.exprHeldBack ends s).1 = .ok r) : ∀ e ∈ r.2, e.IsMild := by
  have hquiet := (expr_quiet ends).quiet rfl { s with deferred := some [] }
  intro e he
  refine (hquiet.held e (mem_of_exprHeldBack h he)).resolve_left fun h => ?_
  cases h

/-! ## Checks -/

section Checks

variable (name : PropertyName) (value : Value) (scope : Option String)

/-- What is wrong with a value, and the state after it was checked, if it
is to be checked. -/
def verdict (s : State) : Option Diagnostic × State :=
  if s.options.noValidation = true then (none, s)
  else
    match s.validator.check name value scope with
    | (.ok _, validator) => (none, { s with validator := validator })
    | (.error e, validator) => (some e, { s with validator := validator })

/-- **A check changes nothing but what checks remember.** -/
theorem verdict_inv (s : State) :
    ∃ v, (verdict name value scope s).2 = { s with validator := v } ∧
      (s.options.noValidation = true → v = s.validator) := by
  unfold verdict
  split_ifs with hno
  · exact ⟨s.validator, rfl, fun _ => rfl⟩
  · split
    · exact ⟨_, rfl, fun h => absurd h hno⟩
    · exact ⟨_, rfl, fun h => absurd h hno⟩

/-- **Two checks agree** if the same is remembered. -/
theorem verdict_beside (s : State) (strict reuse : Bool) :
    verdict name value scope (s.beside strict reuse s.validator) =
      ((verdict name value scope s).1,
        (verdict name value scope s).2.beside strict reuse
          (verdict name value scope s).2.validator) := by
  unfold verdict
  show (if s.options.noValidation = true then _ else match s.validator.check name value scope with
    | (.ok _, validator) => _
    | (.error e, validator) => _) = _
  split_ifs
  · rfl
  · rcases s.validator.check name value scope with ⟨_ | _, v⟩ <;> rfl

/-- **Checking a value**, if declarations are checked. -/
theorem check : InStep tone (options >>= fun o =>
      if o.noValidation = true then Pure.pure none else checked name value scope) := by
  have hrun : ∀ s : State, (options >>= fun o =>
      if o.noValidation = true then Pure.pure none else checked name value scope) s =
        (.ok (verdict name value scope s).1, (verdict name value scope s).2) := by
    intro s
    show (if s.options.noValidation = true then Pure.pure none
      else checked name value scope : Parser (Option Diagnostic)) s = _
    unfold verdict
    split_ifs <;> rfl
  have hgrows : ∀ s, Grows s (verdict name value scope s).2 := by
    intro s
    obtain ⟨v, hv, hsame⟩ := verdict_inv name value scope s
    rw [hv]
    exact ⟨rfl, List.suffix_rfl, id, Nat.le_refl _, hsame⟩
  have hmild : ∀ s, AddsMild s (verdict name value scope s).2 := by
    intro s
    obtain ⟨v, hv, -⟩ := verdict_inv name value scope s
    rw [hv]
    exact ⟨fun _ => .inl, fun _ => .inl⟩
  refine ⟨fun s => hrun s ▸ hgrows s, fun s => hrun s ▸ hgrows s, fun s s' htogether _ => ?_,
    fun _ s => hrun s ▸ hmild s, fun _ s _ _ _ _ => hrun s ▸ hmild s⟩
  rw [hrun, hrun]
  obtain ⟨v, hv, -⟩ := verdict_inv name value scope s
  obtain ⟨hstrict, hno | rfl⟩ := htogether
  · have hnone : ∀ strict reuse v, verdict name value scope (s.beside strict reuse v) =
        (none, s.beside strict reuse v) := fun _ _ _ => if_pos hno
    rw [hnone, show verdict name value scope s = (none, s) from if_pos hno]
    exact .alike rfl (.intro s hstrict (.inl hno))
  · rw [verdict_beside]
    refine .alike rfl (.intro _ (fun h => ?_) (.inr rfl))
    rw [hv]
    exact hstrict h

/-- A check of what is not custom. -/
theorem check_bind {custom : Bool} {f : Option Diagnostic → Parser β}
    (hf : ∀ r, InStep tone (f r)) :
    InStep tone (options >>= fun o => if (custom || o.noValidation) = true
      then Pure.pure none >>= f else checked name value scope >>= f) := by
  cases custom with
  | true => exact options_bind (fun _ _ _ => rfl) fun _ => (hf none).pure_bind
  | false =>
    have h := (check name value scope).bind hf
    have hsplit : ((options >>= fun o => if o.noValidation = true then Pure.pure none
        else checked name value scope) >>= f) = (options >>= fun o =>
          if (false || o.noValidation) = true then Pure.pure none >>= f
          else checked name value scope >>= f) := by
      funext s
      show ((if s.options.noValidation = true then Pure.pure none
        else checked name value scope : Parser (Option Diagnostic)) >>= f) s =
          (if s.options.noValidation = true then Pure.pure none >>= f
            else checked name value scope >>= f : Parser β) s
      split_ifs <;> rfl
    rwa [hsplit] at h

end Checks

/-! ## Declarations -/

/-- **The rest of a declaration.** A strict parse fails at what is wrong
with the value, and any other reports it. -/
theorem declarationTail (site : DeclarationSite) (t : Token) (property : PropertyName)
    (read : Option Value) : InStep .frank (Parser.declarationTail site t property read) := by
  unfold Parser.declarationTail
  refine inStep.current.bind fun after => ?_
  extract_lets important afterRead
  have hafterRead : ∀ value, InStep .frank (afterRead value) := by
    intro value
    unfold afterRead
    extract_lets afterCheck
    have hend : ∀ {tone : Tone} (invalid : Option Diagnostic), (tone ≠ .loud → invalid = none) →
        InStep tone (do
          let last ← declarationEnd site after
          Parser.fire (.property
            ⟨property, value, important, site.inParens, site.scope, invalid⟩) t.location
          if last.kind == .rBrace then unget) := by
      intro tone invalid hinvalid
      refine (inStep.declarationEnd site after).bind fun last => (fire ?_).bind fun _ =>
        ite inStep.unget (pure _)
      exact fun h => .inl (hinvalid h)
    refine check_bind _ _ _ fun invalid => ?_
    cases invalid with
    | some e => exact unless_strict (hend (some e) fun h => absurd rfl h)
    | none => exact options_unused (hend none fun _ => rfl)
  refine ite ((inStep.setPair _).bind fun _ => throw_bind) ?_
  cases read with
  | some v => exact (hafterRead v).pure_bind
  | none => exact ite (hafterRead _).pure_bind throw_bind

theorem declaration (site : DeclarationSite) (t : Token) :
    InStep .frank (Parser.declaration site t) :=
  inStep.declaration fun property => inStep.declarationValue
    (K := fun events => ∀ e ∈ events, e.IsMild)
    (fun hf => bind_of (exprHeldBack _) exprHeldBack_mild exprHeldBack_mild hf) dispatchAll
    (declarationTail site t property)

end Lockstep

/-!
## Rules and blocks in lockstep

Whoever catches the failure of an item asks whether the parse is strict,
and if it is fails again before anything is reported. So a strict parse
stops at the first error that another one reports, and what comes after is
added by that other parse alone.

A rule of an earlier parse that is taken is where two parses part when one
has a store. The other parsers that deal with the store change nothing
that is read, whatever number the rule has that was opened.
-/

/-- **A parser that changes the store at most**, and never fails. -/
def TouchesStore {α : Type} (p : Parser α) : Prop :=
  ∀ s : State, ∃ a store, p s = (.ok a, { s with store := store }) ∧
    Grows s { s with store := store }

theorem Rethrows.store_bind {α β : Type} {p : Parser α} {f : α → Parser β} (hp : TouchesStore p)
    (hf : ∀ a, Rethrows (f a)) : Rethrows (p >>= f) := by
  intro s hs
  obtain ⟨a, store, hrun, -⟩ := hp s
  rw [bind_ok hrun]
  exact hf a { s with store := store } hs

namespace Lockstep

variable {tone : Tone} {block : BlockParser}

/-! ## At-rules -/

/-- **Passing over what is broken**, where the parse is not strict. -/
theorem recover (e : Diagnostic) (inBlock : Bool) : InStep .loud (Parser.recover e inBlock) :=
  inStep.recover (inStep.setPair none) (fun _ => Lockstep.attempt (inStep.expr _ _)) (report e)
    inBlock

theorem unknownRule (t : Token) : InStep .frank (Parser.unknownRule t) := by
  unfold Parser.unknownRule
  exact unless_strict ((inStep.warn _ _).bind fun _ => inStep.moveStream _)

section AtRules

variable (hblock : ∀ start shape, InStep .frank (block start shape))

include hblock

/-- **The at-rule `@scope`.** At a broken prelude a strict parse fails,
and any other passes over the rule. -/
theorem scopeRule (t : Token) : InStep .frank (Parser.scopeRule block t) := by
  have hdepth : ∀ g : Nat → Nat → Nat,
      InStep .frank (update fun s => { s with inScope := g s.inScope 1 }) := fun _ =>
    inStep.adjust (fun _ _ => rfl) fun _ => rfl
  unfold Parser.scopeRule
  refine attempt_bind inStep.scopePrelude (fun r => ?_) fun e => ?_
  · cases r with
    | error e =>
      exact (inStep.seek _).bind fun _ => (inStep.setPair none).bind fun _ =>
        unless_strict (recover e false)
    | ok found =>
      refine (hdepth (· + ·)).bind fun _ => attempt_bind (hblock _ _) (fun r => ?_) fun e => ?_
      · exact (hdepth (· - ·)).bind fun _ => (ofExcept r).discard
      · exact .update_bind .throw_bind fun _ => ⟨rfl, rfl⟩
  · exact .update_bind (.update_bind .unless_strict fun _ => ⟨rfl, rfl⟩) fun _ => ⟨rfl, rfl⟩

theorem atRule (t : Token) (top : Bool) : InStep .frank (Parser.atRule block t top) :=
  inStep.atRule declaration hblock t top (scopeRule hblock t) (unknownRule t)

end AtRules

/-! ## The store -/

/-- **Changing the store** does not part two parses, whatever the answers
are. -/
theorem store_bind {α β : Type} {p q : Parser α} {f g : α → Parser β} (hp : TouchesStore p)
    (hq : TouchesStore q) (hf : ∀ a b, Lockstep tone (f a) (g b)) :
    Lockstep tone (p >>= f) (q >>= g) := by
  have hsame : ∀ (s : State) store, AddsMild s { s with store := store } := fun _ _ =>
    ⟨fun _ => .inl, fun _ => .inl⟩
  refine ⟨fun s => ?_, fun s => ?_, fun s s' htogether hlenient => ?_, fun htone s => ?_,
    fun htone s hstrict hstore b hb => ?_⟩
  · obtain ⟨a, store, hrun, hgrows⟩ := hp s
    rw [bind_ok hrun]
    exact hgrows.trans ((hf a a).left _)
  · obtain ⟨a, store, hrun, hgrows⟩ := hq s
    rw [bind_ok hrun]
    exact hgrows.trans ((hf a a).right _)
  · obtain ⟨hs, hchecks⟩ := htogether
    rename_i strict reuse v
    obtain ⟨a, store, hrun, hgrows⟩ := hp s
    obtain ⟨b, store', hrun', hgrows'⟩ := hq (s.beside strict reuse v)
    obtain rfl : store' = none := hgrows'.store rfl
    rw [bind_ok hrun, bind_ok hrun']
    exact ((hf a b).paired { s with store := store } _ (.intro _ hs hchecks) hlenient).lift hgrows
      (Grows.refl _)
  · obtain ⟨a, store, hrun, hgrows⟩ := hp s
    rw [bind_ok hrun]
    exact (hsame s store).trans ((hf a a).quiet htone _)
  · obtain ⟨a, store, hrun, hgrows⟩ := hp s
    rw [bind_ok hrun] at hb ⊢
    exact (hsame s store).trans
      ((hf a a).frank htone { s with store := store } hstrict (hgrows.store hstore) b hb)

/-- A change of a store that finds nothing there. -/
theorem grows_store {s : State} {change : BlockStore → BlockStore}
    (hhits : ∀ store, (change store).hits = store.hits) :
    Grows s { s with store := s.store.map change } := by
  refine ⟨rfl, List.suffix_rfl, fun h => congrArg (Option.map change) h, ?_, fun _ => rfl⟩
  unfold State.hits
  cases s.store with
  | none => exact Nat.le_refl _
  | some store => exact Nat.le_of_eq (hhits store).symm

theorem openInStore_touchesStore (start : Location) : TouchesStore (openInStore start) := by
  intro s
  have hrun : openInStore start s =
      (.ok (s.store.map fun store => (store.openBlock start).1),
        { s with store := s.store.map fun store => (store.openBlock start).2 }) := by
    obtain ⟨_, _, _, store, _, _, _, _, _, _, _⟩ := s
    cases store <;> rfl
  exact ⟨_, _, hrun, grows_store fun _ => rfl⟩

theorem dropFromStore_touchesStore (id : Option Nat) : TouchesStore (dropFromStore id) := by
  intro s
  cases id with
  | none => exact ⟨(), s.store, rfl, Grows.refl s⟩
  | some id =>
    refine ⟨(), _, rfl, grows_store fun store => ?_⟩
    unfold BlockStore.cancelBlock
    split_ifs <;> rfl

theorem fileInStore_touchesStore (stop : Location) (id : Option Nat) :
    TouchesStore (fileInStore stop id) := by
  intro s
  cases id with
  | none => exact ⟨(), s.store, rfl, Grows.refl s⟩
  | some id =>
    refine ⟨(), _, rfl, grows_store fun store => ?_⟩
    unfold BlockStore.closeBlock
    cases store.open_ with
    | nil => rfl
    | cons b rest =>
      dsimp only
      split <;> rfl

/-- **Looking for a rule of an earlier parse.** Without one two parses stay
together, and one that is found is counted. -/
theorem remembered_inv (loc : Location) (s : State) :
    (∃ store, remembered loc s = (.ok none, { s with store := store }) ∧
        Grows s { s with store := store }) ∨
      ∃ r s₁, remembered loc s = (.ok (some r), s₁) ∧ Grows s s₁ ∧ s.hits < s₁.hits := by
  have happly : ∀ m : State → Option (List Event × Location) × State,
      (modifyGet m : Parser (Option (List Event × Location))) s = (.ok (m s).1, (m s).2) :=
    fun _ => rfl
  unfold remembered
  rw [happly]
  cases hstore : s.store with
  | none => exact .inl ⟨s.store, rfl, Grows.refl s⟩
  | some store =>
    have hhits : s.hits = store.hits := by
      unfold State.hits
      rw [hstore]
      rfl
    dsimp only
    obtain ⟨misses, hrun⟩ | ⟨key, blocks, b, blocks', -, -, -, -, hrun⟩ :=
      BlockStore.findBlock_inv store s.stream.source loc
    · rw [hrun]
      exact .inl ⟨_, rfl, rfl, List.suffix_rfl, fun h => absurd (hstore.symm.trans h) nofun,
        Nat.le_of_eq hhits, fun _ => rfl⟩
    · rw [hrun]
      have hlt : s.hits < store.hits + 1 := hhits ▸ Nat.lt_succ_self _
      exact .inr ⟨_, _, rfl, ⟨rfl, List.suffix_rfl, fun h => absurd (hstore.symm.trans h) nofun,
        Nat.le_of_lt hlt, fun _ => rfl⟩, hlt⟩

/-- **Going on after looking for a rule.** What becomes of one that was
found needs only to keep what every run keeps. -/
theorem remembered_bind {β : Type} {loc : Location}
    {f : Option (List Event × Location) → Parser β} (hnone : InStep .frank (f none))
    (hsome : ∀ r s, Grows s (f (some r) s).2) : InStep .frank (remembered loc >>= f) := by
  have hgrows : ∀ s, Grows s ((remembered loc >>= f) s).2 := by
    intro s
    obtain ⟨store, hrun, hgrows⟩ | ⟨r, s₁, hrun, hgrows, -⟩ := remembered_inv loc s
    · rw [bind_ok hrun]
      exact hgrows.trans (hnone.left _)
    · rw [bind_ok hrun]
      exact hgrows.trans (hsome r _)
  have halone : ∀ s : State, s.store = none → (remembered loc >>= f) s = f none s := by
    intro s hstore
    refine bind_ok ?_
    show (Except.ok _, _) = _
    rw [hstore]
  refine ⟨hgrows, hgrows, fun s s' htogether _ => ?_, nofun, fun _ s hstrict hstore b hb => ?_⟩
  · obtain ⟨hs, hchecks⟩ := htogether
    rename_i strict reuse v
    rw [halone (s.beside strict reuse v) rfl]
    obtain ⟨store, hrun, hgrows⟩ | ⟨r, s₁, hrun, -, hlt⟩ := remembered_inv loc s
    · rw [bind_ok hrun]
      exact (hnone.paired { s with store := store } _ (.intro _ hs hchecks) nofun).lift hgrows
        (Grows.refl _)
    · rw [bind_ok hrun]
      exact .found (Nat.lt_of_lt_of_le hlt (hsome r s₁).hits)
  · rw [halone s hstore] at hb ⊢
    exact hnone.frank rfl s hstrict hstore b hb

/-! ## Style rules -/

/-- **The complaint about nested selectors** is made by strict parses,
too. -/
theorem checkNesting (selectors : List Selector) (loc : Location) :
    InStep tone (Parser.checkNesting selectors loc) := by
  unfold Parser.checkNesting
  exact state_bind (fun _ _ _ _ => rfl) fun s => ite (fire fun _ => .inr ⟨loc, rfl⟩) (pure _)

/-- **A broken rule**, at which a strict parse fails. -/
theorem ruleFailed (e : Diagnostic) (braceSeen : Bool) :
    InStep .frank (Parser.ruleFailed e braceSeen) := by
  unfold Parser.ruleFailed
  exact unless_strict ((recover e braceSeen).bind fun _ => pure _)

theorem ruleBody (hblock : ∀ start shape, InStep .frank (block start shape))
    (t : Token) (storable : Bool) (selectors : List Selector) :
    InStep .frank (Parser.ruleBody block t storable selectors) := by
  unfold Parser.ruleBody
  extract_lets start shape filed rest
  have hdropped : ∀ id e braceSeen,
      Rethrows (dropFromStore id >>= fun _ => Parser.ruleFailed e braceSeen) :=
    fun id _ _ => .store_bind (dropFromStore_touchesStore id) fun _ => .unless_strict
  have hfailed : ∀ id id' e braceSeen, Lockstep .frank
      (dropFromStore id >>= fun _ => Parser.ruleFailed e braceSeen)
      (dropFromStore id' >>= fun _ => Parser.ruleFailed e braceSeen) :=
    fun id id' e braceSeen => store_bind (dropFromStore_touchesStore id)
      (dropFromStore_touchesStore id') fun _ _ => ruleFailed e braceSeen
  have hrest : ∀ id id', Lockstep .frank (rest id) (rest id') := by
    intro id id'
    refine (checkNesting selectors t.location).bind fun _ => ?_
    refine attempt_bind (inStep.mustReuse _) (fun r => ?_) fun e => hdropped id e false
    cases r with
    | error e => exact hfailed id id' e false
    | ok _ =>
      refine attempt_bind (hblock _ _) (fun r => ?_) fun e => hdropped id e true
      cases r with
      | error e => exact hfailed id id' e true
      | ok stop =>
        refine ite ?_ ?_
        · exact store_bind (dropFromStore_touchesStore id) (dropFromStore_touchesStore id')
            fun _ _ => pure _
        · exact store_bind (fileInStore_touchesStore _ id) (fileInStore_touchesStore _ id')
            fun _ _ => pure _
  exact ite (store_bind (openInStore_touchesStore start) (openInStore_touchesStore start) hrest)
    (hrest none none).pure_bind

theorem styleRule (hblock : ∀ start shape, InStep .frank (block start shape))
    (t : Token) : InStep .frank (Parser.styleRule block t) := by
  unfold Parser.styleRule
  refine state_bind (fun _ _ _ _ => rfl) fun s => ?_
  extract_lets storable rest
  have hrest : InStep .frank (rest none) := by
    refine attempt_bind (inStep.ruleHead t) (fun r => ?_) fun e => .unless_strict
    rcases r with e | _ | selectors
    · exact ruleFailed e false
    · exact pure _
    · exact ruleBody hblock t storable selectors
  refine ite (remembered_bind hrest fun r s => ?_) hrest.pure_bind
  exact ⟨rfl, List.suffix_append _ _, id, Nat.le_refl _, fun _ => rfl⟩

/-! ## Blocks -/

section Items

variable (hblock : ∀ start shape, InStep .frank (block start shape))

include hblock

theorem blockItem (shape : BlockShape) (t : Token) :
    InStep .frank (Parser.blockItem block shape t) :=
  inStep.blockItem hblock (declaration _ t) (atRule hblock t false)
    (styleRule hblock t)

/-- One item that starts with a token; at a broken one a strict parse
fails. -/
theorem blockItemStep (shape : BlockShape) (sofar : BlockSoFar) (t : Token) :
    InStep .frank (Parser.blockItemStep block shape sofar t) := by
  unfold Parser.blockItemStep
  extract_lets key rest
  refine ite throw_bind (attempt_bind (blockItem hblock shape t) (fun r => ?_) fun e =>
    .unless_strict)
  cases r with
  | ok content => exact pure _
  | error e => exact unless_strict ((recover e false).bind fun _ => pure _)

theorem blockItems (shape : BlockShape) (toEnd : Bool) :
    InStep .frank (Parser.blockItems block shape toEnd) := by
  unfold Parser.blockItems
  extract_lets styles
  have hdepth : ∀ g : Nat → Nat → Nat, InStep .frank
      (update fun s => { s with depth := g s.depth 1, inStyle := g s.inStyle styles }) :=
    fun _ => inStep.adjust (fun _ _ => rfl) fun _ => rfl
  refine (hdepth (· + ·)).bind fun _ => attempt_bind (inStep.repeating
    (inStep.blockStep (blockItemStep hblock shape) toEnd) _) (fun r => ?_) fun e => ?_
  · exact (hdepth (· - ·)).bind fun _ => (ofExcept r).bind fun _ => inStep.current.bind fun _ => pure _
  · exact .update_bind .throw_bind fun _ => ⟨rfl, rfl⟩

end Items

end Lockstep

theorem Lockstep.block (start : Location) (shape : BlockShape) :
    InStep .frank (Parser.block start shape) :=
  inStep.block (fun hblock shape => blockItems hblock shape false) start shape

end Stylesheet
