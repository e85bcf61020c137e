import Stylesheet.Proofs.Matching.Cursor
import Stylesheet.Proofs.Reads.Declaration
import Stylesheet.Proofs.Tells.Selector

/-!
# What reading declarations reports

A declaration is placed in the source with its name, its value, and what
is wrong with it. What its value reports while it is open whether this
is a declaration at all is held back, and either reported afterwards in
the same order or dropped; in both cases no block is opened or closed.
-/

/-!
## Where unfit declarations are complained about

What is wrong with a declaration is said where its name stands, where
its value or a part of it stands, or where the arguments of a function
in it stand. So a complaint is placed in the source if the declaration
is.
-/

namespace Stylesheet.Validator

variable {source : List Char} {v : Validator} {value : Value} {key : KnownValue} {grammar : String}
  {e : Diagnostic}

theorem mismatch_isPlaced {expected found : String} {location : Location}
    (h : IsPlace source location) : IsPlaced source (mismatch expected found location) := by
  rw [isPlaced_diagnostic]
  rintro loc ⟨⟩
  exact h

/-- Trying to match a value leads to a cursor that follows its start. -/
theorem attempt_follows (v : Validator) (m : Grammar.Matcher) (value : Value) (text : String) :
    (v.attempt m value text).2.parts = value.parts ∧
      ∀ b, (v.attempt m value text).2.bad = some b →
        ∃ part ∈ value.parts, Grammar.Matching.isCall part = true ∧ part.expr = some b.args := by
  have hstart : ∀ it, (Grammar.Cursor.start value.parts).Follows it →
      it.parts = value.parts ∧ ∀ b, it.bad = some b →
        ∃ part ∈ value.parts, Grammar.Matching.isCall part = true ∧
          part.expr = some b.args := by
    refine fun it h => ⟨h.parts_eq, fun b hb => ?_⟩
    rcases h.bad b hb with h | h
    · cases h
    · exact h
  have hfirst := m.run_follows v.catalog (.start value.parts)
  unfold attempt
  dsimp only
  split_ifs
  · -- the second attempt starts over with references to attributes let through
    set after := (m.run v.catalog (.start value.parts)).2
    have hagain := m.run_follows v.catalog { after with pos := 0, tryAttr := true }
    obtain ⟨hparts, hbad⟩ := hstart after hfirst
    refine ⟨hagain.parts_eq.trans hparts, fun b hb => ?_⟩
    rcases hagain.bad b hb with h | ⟨part, hmem, hcall⟩
    · exact hbad b h
    · exact ⟨part, hparts ▸ hmem, hcall⟩
  · exact hstart _ (hfirst.withPos _)
  · exact hstart _ hfirst

theorem matchGrammar_isPlaced (hvalue : IsPlaced source value)
    (he : (v.matchGrammar key grammar value).1 = .error e) : IsPlaced source e := by
  obtain ⟨hlocation, -, hparts⟩ := isPlaced_value.mp hvalue
  have hpart := isPlaced_list.mp hparts
  unfold matchGrammar at he
  split at he
  · cases he
  · next m catalog _ =>
    obtain ⟨hsame, hbad⟩ := attempt_follows { v with catalog := catalog } m value key.text
    dsimp only at he
    split at he
    · next extra hextra =>
      obtain rfl := Except.error.inj he
      have hcurrent := (Option.filter_eq_some_iff.mp hextra).1
      have hmem : extra ∈ value.parts := hsame ▸ List.mem_of_getElem? hcurrent
      exact mismatch_isPlaced (isPlaced_token.mp (isPlaced_part.mp (hpart extra hmem)).2.1).1
    · split_ifs at he
      split at he
      · next bad hb =>
        obtain rfl := Except.error.inj he
        obtain ⟨part, hmem, -, hexpr⟩ := hbad bad hb
        have hargs := (isPlaced_part.mp (hpart part hmem)).2.2
        rw [hexpr, isPlaced_some] at hargs
        exact mismatch_isPlaced (isPlaced_value.mp hargs).1
      · obtain rfl := Except.error.inj he
        exact mismatch_isPlaced hlocation

theorem checkValue_isPlaced (hvalue : IsPlaced source value)
    (he : (v.checkValue key grammar value).1 = .error e) : IsPlaced source e := by
  have hparts := isPlaced_list.mp (isPlaced_value.mp hvalue).2.2
  have hknown : (if v.known.contains key then (.ok (), v)
      else v.matchGrammar key grammar value).1 = .error e → IsPlaced source e := by
    intro he
    split at he
    · cases he
    · exact matchGrammar_isPlaced hvalue he
  unfold checkValue at he
  split at he
  · cases he
  · cases hvalue' : value.parts with
    | nil =>
      simp only [hvalue'] at he
      exact hknown he
    | cons first rest =>
      simp only [hvalue'] at he
      split at he
      · cases rest with
        | nil => cases he
        | cons part _ =>
          obtain rfl := Except.error.inj he
          have hpart := hparts part (by simp [hvalue'])
          exact mismatch_isPlaced (isPlaced_token.mp (isPlaced_part.mp hpart).2.1).1
      · exact hknown he

/-- **A complaint about a declaration is placed where the declaration
is.** -/
theorem check_isPlaced {name : PropertyName} (hname : IsPlace source name.location)
    (hvalue : IsPlaced source value) {scope : Option String}
    (he : (v.check name value scope).1 = .error e) : IsPlaced source e := by
  unfold check at he
  dsimp only at he
  split at he
  · exact checkValue_isPlaced hvalue he
  · cases he
  · split_ifs at he <;>
    · obtain rfl := Except.error.inj he
      rw [isPlaced_diagnostic]
      rintro loc ⟨⟩
      exact hname

end Stylesheet.Validator

namespace Stylesheet

open Parse (State)
open Parse.State (Keeps)

namespace Emits

variable {source : List Char} {held : Bool} {base before after open_ : List BlockKind} {t : Token}

theorem propertyName (ht : IsPlaced source t) :
    Tells source held open_ (Parser.propertyName t)
      fun name => IsPlace source name.location := by
  have hlocation := (isPlaced_token.mp ht).1
  unfold Parser.propertyName
  refine ite (fun _ => (mustMatch _).bind fun name _ => pure hlocation) fun _ => ?_
  exact options.bind fun _ _ => ite (fun _ => pure hlocation) fun _ => pure hlocation

/-- The tokens after the name of a property are placed in a source. -/
def AfterNamePlaced (source : List Char) : Parser.AfterName → Prop
  | .value _ => True
  | .pseudo raw => IsPlaced source raw
  | .other raw _ => IsPlaced source raw

theorem afterName {colon : Option Token} (hcolon : IsPlaced source colon) :
    Tells source held open_ (Parser.afterName colon) (AfterNamePlaced source) := by
  unfold Parser.afterName
  extract_lets rest
  have hrest : ∀ found : Token × Token, IsPlaced source found.1 →
      Tells source held open_ (rest found) (AfterNamePlaced source) := by
    rintro ⟨raw, seen⟩ hraw
    refine ite (fun _ => (next true true).bind fun first _ => pure ?_) fun _ => pure hraw
    split_ifs
    · exact hraw
    · trivial
  cases colon with
  | some c => exact (hrest (c, c) (isPlaced_some.mp hcolon)).pure_bind
  | none =>
    refine (next false true).bind fun raw hraw => ite (fun _ => ?_) fun _ =>
      (hrest (raw, raw) hraw.isPlaced).pure_bind
    exact grab.bind fun seen _ => (hrest (raw, seen) hraw.isPlaced).pure_bind

/-- What a value whose events are held back gives: the value is placed,
and the events can be reported where no block is opened or closed. -/
def HeldBack (source : List Char) (open_ : List BlockKind) (r : Option Value × List Event) : Prop :=
  IsPlaced source r.1 ∧ (∀ e ∈ r.2, e.IsTrue source ∧ e.IsInner) ∧ Nests open_ r.2 open_

/-- **A value whose events are held back** reports nothing yet. -/
theorem exprHeldBack (ends : List TokenKind) :
    Tells source false open_ (Parser.exprHeldBack ends) (HeldBack source open_) := by
  refine ⟨fun s hs hsource hheld => ?_⟩
  have hdeferred : s.deferred = none := by simpa using hheld
  have hs₀ : State.IsSound { s with deferred := some [] } :=
    ⟨hs.stream, hs.budget, hs.store, by rintro _ ⟨⟩ e he; cases he⟩
  obtain ⟨new, hadds, hok, herror⟩ := (expr true open_ ends false).run _ hs₀ hsource rfl
  have hkeeps := (Reads.exprHeldBack hs (Nat.zero_le _) ends).keeps
  have hanswer := Parser.exprHeldBack_apply ends s
  rcases hrun : Parser.expr ends false { s with deferred := some [] } with ⟨e | v, s₁⟩ <;>
    rw [hrun] at hanswer hadds hok herror <;> dsimp only at hanswer <;> rw [hanswer] at hkeeps ⊢
  · refine ⟨[], ⟨hkeeps, by rw [hdeferred], ?_, fun h => ?_, fun _ he => by cases he⟩,
      fun _ ha => (by cases ha), ?_⟩
    · show s₁.events = s.log
      rw [hadds.events_eq rfl, Parse.State.log, hdeferred]
      rfl
    · rw [hdeferred] at h
      cases h
    · rintro _ ⟨⟩
      exact ⟨(herror e rfl).1, [], .done _⟩
  · -- the events held back are those that the value reported
    have hlog : s₁.deferred = some new.reverse := by
      have hlog := hadds.log_eq
      have hsome : s₁.deferred.isSome = true := hadds.held_eq
      obtain ⟨events, hevents⟩ := Option.isSome_iff_exists.mp hsome
      rw [Parse.State.log, hevents] at hlog
      rw [hevents, show events = new.reverse ++ [] from hlog, List.append_nil]
    refine ⟨[], ⟨hkeeps, by rw [hdeferred], ?_, fun h => ?_, fun _ he => by cases he⟩, ?_,
      fun _ he => by cases he⟩
    · show s₁.events = s.log
      rw [hadds.events_eq rfl, Parse.State.log, hdeferred]
      rfl
    · rw [hdeferred] at h
      cases h
    · rintro _ ⟨⟩
      refine ⟨⟨(hok v rfl).1, fun e he => ?_, ?_⟩, .done _⟩
      · rw [hlog] at he
        have hmem : e ∈ new := by simpa using he
        exact ⟨hadds.isTrue e hmem, hadds.keeps.isSound.deferred _ hlog e (by simpa using hmem)⟩
      · rw [hlog]
        simpa using (hok v rfl).2

/-- Reporting an event that was held back. -/
theorem dispatch {e : Event} (htrue : e.IsTrue source) (hinner : e.IsInner)
    (hnests : Nests before [e] after) :
    Emits source false base before after (Parser.dispatch e) fun _ => True := by
  refine ⟨fun s hs _ hheld => ?_⟩
  have hdeferred : s.deferred = none := by simpa using hheld
  refine ⟨[e], ⟨(Reads.dispatch (n := 0) hs hinner).keeps, rfl, ?_, fun h => ?_, fun e' he' => ?_⟩,
    fun _ _ => ⟨trivial, hnests⟩, fun _ he => by cases he⟩
  · show s.deferred.getD (e :: s.events) = [e] ++ s.log
    rw [Parse.State.log, hdeferred]
    rfl
  · rw [hdeferred] at h
    cases h
  · exact List.mem_singleton.mp he' ▸ htrue

/-- Reporting events that were held back, in order. -/
theorem dispatchAll {events : List Event} (hevents : ∀ e ∈ events, e.IsTrue source ∧ e.IsInner)
    (hnests : Nests before events after) :
    Emits source false base before after (events.forM Parser.dispatch) fun _ => True := by
  induction events generalizing before with
  | nil =>
    cases hnests
    exact pure trivial
  | cons e events ih =>
    obtain ⟨between, hfirst, hrest⟩ := hnests.uncons
    obtain ⟨htrue, hinner⟩ := hevents e List.mem_cons_self
    exact (dispatch htrue hinner hfirst).bind fun _ _ =>
      ih (fun e he => hevents e (List.mem_cons_of_mem _ he)) hrest

theorem checked {name : PropertyName} (hname : IsPlace source name.location) {value : Value}
    (hvalue : IsPlaced source value) (scope : Option String) :
    Tells source held open_ (Parser.checked name value scope) (IsPlaced source) := by
  refine silent fun s hs _ _ => ?_
  have hkeeps : ∀ v, Keeps s { s with validator := v } := fun _ =>
    hs.keeps_of_eq rfl rfl rfl rfl rfl rfl
  have happly : ∀ g : State → Option Diagnostic × State,
      (modifyGet g : Parser (Option Diagnostic)) s = (.ok (g s).1, (g s).2) := fun _ => rfl
  rcases hcheck : s.validator.check name value scope with ⟨e | u, v⟩
  · have hrun : Parser.checked name value scope s = (.ok (some e), { s with validator := v }) := by
      unfold Parser.checked
      rw [happly]
      simp only [hcheck]
    have he : IsPlaced source e := Validator.check_isPlaced hname hvalue (by rw [hcheck])
    rw [hrun]
    refine ⟨hkeeps v, rfl, rfl, ?_, fun _ h => by cases h⟩
    rintro _ ⟨⟩
    exact isPlaced_some.mpr he
  · have hrun : Parser.checked name value scope s = (.ok none, { s with validator := v }) := by
      unfold Parser.checked
      rw [happly]
      simp only [hcheck]
    rw [hrun]
    refine ⟨hkeeps v, rfl, rfl, ?_, fun _ h => by cases h⟩
    rintro _ ⟨⟩
    exact isPlaced_none

theorem declarationEnd (site : Parser.DeclarationSite) (t : Token) :
    Tells source held open_ (Parser.declarationEnd site t) fun _ => True := by
  unfold Parser.declarationEnd
  extract_lets kinds
  refine ite (fun _ => ?_) fun _ => ite (fun _ => pure trivial) fun _ =>
    (mustReuse _).weaken fun _ _ => trivial
  exact (mustMatchKeyword _).discard.bind fun _ _ => (mustMatchSmart _).weaken fun _ _ => trivial

theorem declarationTail (site : Parser.DeclarationSite) (ht : IsPlaced source t)
    {property : PropertyName} (hproperty : IsPlace source property.location)
    {read : Option Value} (hread : IsPlaced source read) :
    Tells source held open_ (Parser.declarationTail site t property read) fun _ => True := by
  have hlocation := (isPlaced_token.mp ht).1
  unfold Parser.declarationTail
  refine current.bind fun after hafter => ?_
  extract_lets important afterRead
  have hafterRead : ∀ value, IsPlaced source value →
      Tells source held open_ (afterRead value) fun _ => True := by
    intro value hvalue
    refine options.bind fun opts _ => ?_
    extract_lets afterCheck
    have hafterCheck : ∀ invalid, IsPlaced source invalid →
        Tells source held open_ (afterCheck invalid) fun _ => True := by
      intro invalid hinvalid
      have hfire : Tells source held open_ (Parser.fire (.property
          ⟨property, value, important, site.inParens, site.scope, invalid⟩) t.location)
          fun _ => True :=
        firePlain ⟨EventKind.noConfusion, EventKind.noConfusion⟩ trivial
          (isPlaced_declaration.mpr ⟨hproperty, hvalue, hinvalid⟩) hlocation
      have hend : Tells source held open_ (do
          let last ← Parser.declarationEnd site after
          Parser.fire (.property
            ⟨property, value, important, site.inParens, site.scope, invalid⟩) t.location
          if last.kind == .rBrace then Parser.unget) fun _ => True :=
        (declarationEnd site after).bind fun last _ => hfire.bind fun _ _ =>
          ite (fun _ => unget) fun _ => pure trivial
      refine options.bind fun opts _ => ite (fun _ => ?_) fun _ => hend
      cases invalid with
      | some e => exact throw_bind (isPlaced_some.mp hinvalid)
      | none => exact hend
    exact ite (fun _ => (hafterCheck _ isPlaced_none).pure_bind) fun _ =>
      (checked hproperty hvalue _).bind hafterCheck
  refine ite (fun _ => (setPair _).bind fun _ _ => throw_bind ?_) fun _ => ?_
  · rw [isPlaced_diagnostic]
    rintro loc ⟨⟩
    exact (isPlaced_token.mp hafter).1
  · cases read with
    | some v => exact (hafterRead v (isPlaced_some.mp hread)).pure_bind
    | none =>
      have hempty : IsPlaced source (ValueOf.empty after.location) :=
        isPlaced_value.mpr ⟨(isPlaced_token.mp hafter).1, (isPlaced_token.mp hafter).1,
          isPlaced_nil⟩
      exact ite (fun _ => (hafterRead _ hempty).pure_bind) fun _ => failAt_bind hafter

theorem declarationValue (site : Parser.DeclarationSite) (ht : IsPlaced source t)
    {property : PropertyName} (hproperty : IsPlace source property.location)
    (first : TokenKind) :
    Tells source false open_ (Parser.declarationValue site t property first) fun _ => True := by
  unfold Parser.declarationValue
  extract_lets custom rest
  have hrest : Tells source false open_ (rest ()) fun _ => True := by
    refine ite (fun _ => ?_) fun _ => ?_
    · refine (exprHeldBack _).bind fun r hr => current.bind fun after _ => ite (fun _ => ?_)
        fun _ => ?_
      · exact (seek (isPlaced_token.mp ht).2).bind fun _ _ => pure trivial
      · exact (dispatchAll hr.2.1 hr.2.2).bind fun _ _ =>
          (declarationTail site ht hproperty hr.1).bind fun _ _ => pure trivial
    · exact (expr _ _ _ _).bind fun value hvalue =>
        (declarationTail site ht hproperty hvalue).bind fun _ _ => pure trivial
  exact ite (fun _ => hrest) fun _ => unget.bind fun _ _ => hrest

theorem declaration {site : Parser.DeclarationSite} (hsite : IsPlaced source site.colon)
    (ht : t.IsCut source) :
    Tells source false open_ (Parser.declaration site t) fun _ => True := by
  unfold Parser.declaration
  refine (propertyName ht.isPlaced).bind fun property hproperty => ?_
  refine (afterName hsite).bind fun after hafter => ?_
  cases after with
  | value first => exact declarationValue site ht.isPlaced hproperty first
  | pseudo raw =>
    exact (rewindTo ht).bind fun _ _ => ite (fun _ => failAt_bind hafter) fun _ => pure trivial
  | other raw seen =>
    exact (rewindTo ht).bind fun _ _ => ite (fun _ => pure trivial) fun _ =>
      ite (fun _ => failAt_bind hafter) fun _ => pure trivial

end Emits

end Stylesheet
