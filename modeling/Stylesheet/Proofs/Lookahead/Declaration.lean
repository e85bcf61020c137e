import Stylesheet.Proofs.Lookahead.Opening
import Stylesheet.Proofs.Reads.Declaration

/-!
# Looking ahead in declarations

What may be a declaration is read as one, and taken back if it was none. It
is taken back far enough because little is looked at before the question is
settled: at most three tokens after the name, which leaves the name in the
window, or a value, and then reading goes on at the place after the name.

A value is read from the text itself. The token after the colon is looked at
to see what kind of value comes, and then taken back; but it is the one that
the value starts with, however it is asked for.
-/

namespace Stylesheet

open Parse (State)
open Parse.State (Keeps)
open Parser (AfterName)
open Stylesheet.Stream (EndsLast Fresh Front IsElementName spaced)
open Stylesheet.Parser

/-! ## Complaints about values -/

namespace Validator

variable {v : Validator} {value : Value} {key : KnownValue} {grammar : String} {e : Diagnostic}

theorem mismatch_not_isExhausted (expected found : String) (location : Location) :
    ¬(mismatch expected found location).IsExhausted := by
  refine Diagnostic.not_isExhausted ?_
  show ("Expected " ++ expected ++ " but found \"" ++ Text.clip found 30 ++ "\".").toList.head? ≠ _
  rw [head?_append_of_head? (head?_append_of_head? (head?_append_of_head?
    (head?_append_of_head? (c := 'E') rfl)))]
  decide

theorem matchGrammar_not_isExhausted (he : (v.matchGrammar key grammar value).1 = .error e) :
    ¬e.IsExhausted := by
  unfold matchGrammar at he
  split at he
  · cases he
  · dsimp only at he
    split at he
    · obtain rfl := Except.error.inj he
      exact mismatch_not_isExhausted _ _ _
    · split_ifs at he
      split at he <;>
      · obtain rfl := Except.error.inj he
        exact mismatch_not_isExhausted _ _ _

theorem checkValue_not_isExhausted (he : (v.checkValue key grammar value).1 = .error e) :
    ¬e.IsExhausted := by
  have hknown : (if v.known.contains key then (.ok (), v)
      else v.matchGrammar key grammar value).1 = .error e → ¬e.IsExhausted := by
    intro he
    split at he
    · cases he
    · exact matchGrammar_not_isExhausted he
  unfold checkValue at he
  split at he
  · cases he
  · cases hvalue : value.parts with
    | nil =>
      simp only [hvalue] at he
      exact hknown he
    | cons first rest =>
      simp only [hvalue] at he
      split at he
      · cases rest with
        | nil => cases he
        | cons part _ =>
          obtain rfl := Except.error.inj he
          exact mismatch_not_isExhausted _ _ _
      · exact hknown he

/-- **A complaint about a declaration** is none about tokens. -/
theorem check_not_isExhausted {name : PropertyName} {scope : Option String}
    (he : (v.check name value scope).1 = .error e) : ¬e.IsExhausted := by
  unfold check at he
  dsimp only at he
  split at he
  · exact checkValue_not_isExhausted he
  · cases he
  · split_ifs at he with hvendor hmisplaced <;>
    · obtain rfl := Except.error.inj he
      refine Diagnostic.not_isExhausted ?_
      dsimp only [Diagnostic.unfitAt]
      rw [head?_append_of_head? (head?_append_of_head? (head?_append_of_head? rfl))]
      decide

end Validator

/-! ## The window again -/

/-- What the next token is depends on the source and the place. -/
theorem Reader.lex_congr {r r' : Reader} (hsource : r.source = r'.source)
    (hlocation : r.location = r'.location) (mode : Mode) : (r.lex mode).1 = (r'.lex mode).1 := by
  have hrest : r.rest = r'.rest := by rw [r.rest_eq, r'.rest_eq, hsource, hlocation]
  show (mode.firstOf (r.rest.drop (mode.skipped 0 r.rest))).place
    (r.location.advance (r.rest.take (mode.skipped 0 r.rest)))
      (r.rest.drop (mode.skipped 0 r.rest)) = _
  rw [hrest, hlocation]
  rfl

namespace Stream

variable {t u : Token}

/-- Going back passes over the tokens that start at other places. -/
theorem backTo?_passed {vs behind ahead : List Token}
    (hvs : ∀ v ∈ vs, v.location ≠ t.location) :
    backTo? t.location (vs ++ t :: behind) ahead = some (t :: behind, vs.reverse ++ ahead) := by
  induction vs generalizing ahead with
  | nil => exact if_pos rfl
  | cons v vs ih =>
    have hpassed : backTo? t.location (v :: vs ++ t :: behind) ahead =
        backTo? t.location (vs ++ t :: behind) (v :: ahead) := if_neg (hvs v List.mem_cons_self)
    rw [hpassed, ih fun u hu => hvs u (List.mem_cons_of_mem _ hu), List.reverse_cons,
      List.append_assoc, List.singleton_append]

/-- **Going back to a token of the window** puts those after it ahead
again. -/
theorem IsSound.rewindTo_eq {r : Reader} {us behind ahead : List Token}
    (h : IsSound ⟨r, us.reverse ++ t :: behind, ahead⟩) (ht : t.kind ≠ .eof) :
    Stream.rewindTo ⟨r, us.reverse ++ t :: behind, ahead⟩ t = ⟨r, t :: behind, us ++ ahead⟩ := by
  have hordered := h.ordered
  have hcut : t.IsCut r.source := h.isCut t (by simp [window])
  have hpassed : ∀ v ∈ us.reverse, v.location ≠ t.location := by
    intro v hv hlocation
    -- the tokens after `t` start where it ends at the earliest
    unfold window at hordered
    rw [List.reverse_append, List.reverse_reverse, List.reverse_cons, List.append_assoc,
      List.append_assoc, List.singleton_append, List.pairwise_append, List.pairwise_cons]
      at hordered
    have hle := hordered.2.1.1 v (List.mem_append_left _ (List.mem_reverse.mp hv))
    have hlt := hcut.location_lt_stop ht
    rw [hlocation] at hle
    exact absurd hle (Nat.not_le_of_lt hlt)
  unfold Stream.rewindTo
  rw [backTo?_passed hpassed, List.reverse_reverse]

/-- A token that is no blank is the next one again once it is taken
back. -/
theorem get_again {st : Stream} (hbare : st.ahead = [])
    (hblank : (st.get true true).1.kind ≠ .whitespace) :
    (st.get true true).2.back.get true false = st.get true false := by
  obtain ⟨r, behind, ahead⟩ := st
  obtain rfl : ahead = [] := hbare
  have hkind : (r.lex ⟨true, true, false⟩).1.kind ≠ .whitespace := hblank
  have hshown : Mode.hides ⟨false, true, false⟩ (r.lex ⟨true, true, false⟩).1 = false := by
    have hany : Mode.hides ⟨true, true, false⟩ (r.lex ⟨true, true, false⟩).1 = false :=
      r.hides_lex rfl rfl
    unfold Mode.hides at hany ⊢
    simpa [hkind] using hany
  have hlex : r.lex ⟨false, true, false⟩ = r.lex ⟨true, true, false⟩ := by
    refine r.lex_eq_lex rfl rfl (fun v hv => ?_) hshown
    unfold Mode.hides at hv ⊢
    simp only [Bool.not_true, Bool.false_and, Bool.or_false] at hv
    rw [hv]
    rfl
  have hback : (get ⟨r, behind, []⟩ true true).2.back =
      ⟨(r.lex ⟨true, true, false⟩).2, behind.take 4, [(r.lex ⟨true, true, false⟩).1]⟩ := rfl
  rw [hback, get_of_ahead _ _ _ hshown, get_bare, hlex]
  rfl

end Stream

/-! ## Where values start -/

namespace Parse.State

/-- **A place where a value starts**: what is read there is what the text
itself gives. -/
def StartsValue (s : State) : Prop :=
  ∃ st, (s.withStream st).IsSite s.options s.stream.source ∧ ∀ held ends raw,
    Parser.expr ends raw { s with deferred := held } =
      Parser.expr ends raw { s.withStream st with deferred := held }

variable {s : State}

/-- **What is read where a value starts** is the value of a declaration. -/
theorem StartsValue.isRead (h : s.StartsValue) {ends : List TokenKind}
    (hends : ends = valueEnd ∨ ends = bracketEnd) {held : Option (List Event)}
    (hheld : ∀ events, held = some events → ∀ e ∈ events, e.IsInner) {v : Value}
    (hv : (Parser.expr ends false { s with deferred := held }).1 = .ok (some v)) :
    v.IsRead s.options s.stream.source := by
  obtain ⟨st, hsite, hexpr⟩ := h
  have hsound := hsite.isSound
  refine ⟨{ s.withStream st with deferred := held }, ends,
    ⟨⟨hsound.stream, hsound.budget, hsound.store, hheld⟩, hsite.bare, rfl, hsite.source_eq⟩,
    hends, ?_⟩
  rw [← hexpr held ends false]
  exact hv

/-- **Right after the colon of a declaration** and the token that follows
it. -/
def AfterColon (first : TokenKind) (s : State) : Prop :=
  ∃ st, (s.withStream st).InOrder ∧ st.ahead = [] ∧ s.stream = (st.get true true).2 ∧
    first = (st.get true true).1.kind

theorem AfterColon.at (h : AfterColon first s) : s.stream.Fresh := by
  obtain ⟨st, -, hbare, hstream, -⟩ := h
  have hnear : st.Near := by
    unfold Stream.Near
    rw [hbare]
    exact Nat.zero_le 1
  rw [hstream]
  exact ⟨_, hnear.get true true⟩

/-- After a blank the value starts. -/
theorem AfterColon.startsValue (hs : s.IsSound) (h : AfterColon .whitespace s) :
    s.StartsValue := by
  obtain ⟨u, hu⟩ := h.at
  exact ⟨s.stream, ⟨hs, hu.bare, rfl, rfl⟩, fun _ _ _ => rfl⟩

/-- Another token is taken back, and there the value starts. -/
theorem AfterColon.startsValue_back {first : TokenKind} (h : AfterColon first s)
    (hfirst : first ≠ .whitespace) : (s.withStream s.stream.back).StartsValue := by
  obtain ⟨st, hst, hbare, hstream, rfl⟩ := h
  have hsource : s.stream.back.source = st.source := by
    rw [hstream, Stream.back_source, Stream.get_source]
  refine ⟨st, ⟨hst.isSound, hbare, rfl, hsource.symm⟩, fun held ends raw => ?_⟩
  refine expr_of_next ?_ rfl ?_
  · have hnext := Stream.get_again hbare hfirst
    rw [← hstream] at hnext
    exact next_congr (s := { s with deferred := held }) hnext
  · have hbound : Text.byteLength st.source + 64 ≤ s.budget := hst.isSound.budget
    show 1 < s.budget
    omega

end Parse.State

/-- Taking a token back changes the stream only. -/
theorem Parser.unget_apply {s : State} (h : s.stream.Held) :
    Parser.unget s = (.ok (), s.withStream s.stream.back) := by
  have hunget : s.stream.unget = .ok s.stream.back := by
    unfold Stream.unget
    exact if_neg fun hnil => h (List.isEmpty_iff.mp hnil)
  have hstate : state s = (.ok s, s) := rfl
  refine (bind_ok hstate).trans ?_
  rw [hunget]
  rfl

namespace Orderly

variable {s : State} {t : Token}

/-- **What is read where a value starts.** -/
theorem valueAt (hs : s.InOrder) (hnear : s.stream.Near) (hstarts : s.StartsValue)
    {ends : List TokenKind} (hends : ends = valueEnd ∨ ends = bracketEnd) :
    Orderly (Parser.expr ends false) s fun r s' => s'.stream.Fresh ∧
      ∀ v, r = some v → v.IsRead s.options s.stream.source := by
  refine (expr hs hnear ends false).ran.weaken fun r s₁ _ ⟨hfresh, hran⟩ => ⟨hfresh, ?_⟩
  rintro v rfl
  exact hstarts.isRead hends hs.isSound.deferred (congrArg Prod.fst hran)

theorem exprHeldBack (hs : s.InOrder) (hnear : s.stream.Near) (hstarts : s.StartsValue)
    {ends : List TokenKind} (hends : ends = valueEnd ∨ ends = bracketEnd) :
    Orderly (Parser.exprHeldBack ends) s fun r s' => s'.stream.Fresh ∧
      (∀ v, r.1 = some v → v.IsRead s.options s.stream.source) ∧
      ∀ e ∈ r.2, e.IsInner ∧ e.IsOrderly s.options s.stream.source := by
  have hnone : ∀ events : List Event, some [] = some events → ∀ e ∈ events, e.IsInner := by
    rintro _ ⟨⟩ e he
    cases he
  set s₀ : State := { s with deferred := some [] }
  have hsound := hs.isSound
  have hs₀ : s₀.InOrder :=
    ⟨⟨hsound.stream, hsound.budget, hsound.store, hnone⟩, hs.flush, hs.events, by
      rintro _ ⟨⟩ e he
      cases he⟩
  have hvalue := expr hs₀ hnear ends false
  have hread : ∀ v, (Parser.expr ends false s₀).1 = .ok (some v) →
      v.IsRead s.options s.stream.source := fun v hv => hstarts.isRead hends hnone hv
  rcases hrun : Parser.expr ends false s₀ with ⟨r, s₁⟩
  obtain ⟨hkeeps, hinOrder, herror, hok⟩ := hvalue
  rw [hrun] at hkeeps hinOrder herror hok hread
  have hdropped : Keeps s { s₁ with deferred := none } :=
    ⟨⟨hkeeps.isSound.stream, hkeeps.isSound.budget, hkeeps.isSound.store, by rintro _ ⟨⟩⟩,
      hkeeps.source_eq, hkeeps.options_eq, hkeeps.budget_eq, hkeeps.events, fun _ => rfl⟩
  have hlast : State.InOrder { s₁ with deferred := none } :=
    ⟨hdropped.isSound, hinOrder.flush, hinOrder.events, by rintro _ ⟨⟩⟩
  have hheld : ∀ e ∈ (s₁.deferred.getD []).reverse,
      e.IsInner ∧ e.IsOrderly s.options s.stream.source := by
    intro e he
    rw [List.mem_reverse] at he
    cases hdeferred : s₁.deferred with
    | none =>
      rw [hdeferred] at he
      exact absurd he List.not_mem_nil
    | some held =>
      rw [hdeferred] at he
      have horderly := hinOrder.deferred held hdeferred e he
      rw [hkeeps.options_eq, hkeeps.source_eq] at horderly
      exact ⟨hkeeps.isSound.deferred held hdeferred e he, horderly⟩
  have hanswer := exprHeldBack_apply ends s
  rw [hrun] at hanswer
  cases r with
  | error e =>
    refine ⟨?_, ?_, ?_, ?_⟩ <;> rw [hanswer]
    · exact hdropped
    · exact hlast
    · rintro _ ⟨⟩
      exact herror e rfl
    · exact fun _ ha => by cases ha
  | ok v =>
    refine ⟨?_, ?_, ?_, ?_⟩ <;> rw [hanswer]
    · exact hdropped
    · exact hlast
    · exact fun _ he => by cases he
    · rintro _ ⟨⟩
      exact ⟨hok v rfl, fun v' h => hread v' (congrArg Except.ok h), hheld⟩

/-- Reporting orderly events that were held back. -/
theorem dispatchAll (hs : s.InOrder) {events : List Event}
    (hevents : ∀ e ∈ events, e.IsInner ∧ e.IsOrderly s.options s.stream.source) :
    Orderly (events.forM Parser.dispatch) s fun _ s' => s'.stream = s.stream := by
  induction events generalizing s with
  | nil => exact pure hs rfl
  | cons e events ih =>
    obtain ⟨hinner, he⟩ := hevents e List.mem_cons_self
    refine (dispatch hs hinner he).bind fun _ s₁ h₁ hs₁ hstream => ?_
    refine (ih hs₁ fun e he => ?_).weaken fun _ s₂ _ hstream₂ => hstream₂.trans hstream
    rw [h₁.options_eq, h₁.source_eq]
    exact hevents e (List.mem_cons_of_mem _ he)

/-! ## The rest of a declaration -/

/-- The token that ends a declaration is at hand, and in brackets it is the
closing one. -/
theorem declarationEnd {after : Token} (hs : s.InOrder) (hafter : s.stream.At after)
    (site : DeclarationSite) :
    Orderly (Parser.declarationEnd site after) s fun last s' =>
      s'.stream.At last ∧ (site.inParens = true → last.kind = .rParen) := by
  unfold Parser.declarationEnd
  extract_lets kinds
  have hkinds : ∀ last : Token, kinds.contains last.kind = true → site.inParens = true →
      last.kind = .rParen := by
    intro last hlast hparens
    unfold kinds at hlast
    rw [if_pos hparens] at hlast
    simpa using hlast
  refine ite (fun _ => ?_) fun _ => ite (fun heof => ?_) fun _ => ?_
  · refine (discard (Q := fun _ s' => s'.stream.Near) ((mustMatchKeyword hs hafter.near _).weaken
      fun _ _ _ h => h.1.near)).bind fun _ s₁ _ hs₁ hnear => ?_
    refine (mustMatchSmart hs₁ hnear _).weaken fun last s₂ _ h => ?_
    exact ⟨h.1, hkinds last h.2.1⟩
  · refine pure hs ⟨hafter, fun hparens => ?_⟩
    rw [hparens] at heof
    simp at heof
  · refine (mustReuse hs _ fun _ => hafter.near_back.ready).weaken fun last s₁ _ h => ?_
    obtain rfl : last = after := h.2.1.trans hafter.current_eq
    exact ⟨h.1 ▸ hafter, hkinds last h.2.2⟩

/-- **What a declaration leaves** when it was one: in brackets the closing
one is at hand. -/
def Declared (site : DeclarationSite) (s : State) : Prop :=
  s.stream.Near ∧ (site.inParens = true → s.stream.Closed)

/-- What is wrong with a value is nothing about tokens. -/
theorem checked (hs : s.InOrder) (property : PropertyName) (value : Value)
    (scope : Option String) :
    Orderly (Parser.checked property value scope) s fun r s' =>
      s'.stream = s.stream ∧ ∀ e, r = some e → ¬e.IsExhausted ∧
        ∃ v : Validator, (v.check property value scope).1 = .error e := by
  have hkeeps : ∀ v, Keeps s { s with validator := v } := fun _ =>
    hs.isSound.keeps_of_eq rfl rfl rfl rfl rfl rfl
  have hinOrder : ∀ v, State.InOrder { s with validator := v } := fun v =>
    hs.of_eq (hkeeps v).isSound rfl rfl rfl rfl
  rcases hcheck : s.validator.check property value scope with ⟨e | u, v⟩
  · have hrun : Parser.checked property value scope s =
        (.ok (some e), { s with validator := v }) := by
      unfold Parser.checked
      show (Except.ok _, _) = _
      rw [hcheck]
    refine ⟨?_, ?_, ?_, ?_⟩ <;> rw [hrun]
    · exact hkeeps v
    · exact hinOrder v
    · exact fun _ he => by cases he
    · rintro _ ⟨⟩
      refine ⟨rfl, ?_⟩
      rintro _ ⟨⟩
      exact ⟨Validator.check_not_isExhausted (congrArg Prod.fst hcheck), s.validator,
        congrArg Prod.fst hcheck⟩
  · have hrun : Parser.checked property value scope s =
        (.ok none, { s with validator := v }) := by
      unfold Parser.checked
      show (Except.ok _, _) = _
      rw [hcheck]
    refine ⟨?_, ?_, ?_, ?_⟩ <;> rw [hrun]
    · exact hkeeps v
    · exact hinOrder v
    · exact fun _ he => by cases he
    · rintro _ ⟨⟩
      exact ⟨rfl, fun _ h => by cases h⟩

theorem declarationTail (hs : s.InOrder) (hfresh : s.stream.Fresh)
    (site : DeclarationSite) (ht : t.IsCut s.stream.source) {property : PropertyName}
    (hproperty : property.location = t.location) {read : Option Value}
    (hread : t.isCustomIdent = false → ∀ v, read = some v →
      v.IsRead s.options s.stream.source) :
    Orderly (Parser.declarationTail site t property read) s fun _ => Declared site := by
  obtain ⟨after, hafter⟩ := hfresh
  unfold Parser.declarationTail
  refine current_bind ?_
  rw [hafter.current_eq]
  extract_lets important afterRead rest
  have hafterRead : ∀ (value : Value),
      (t.isCustomIdent = false → value.IsRead s.options s.stream.source) →
      Orderly (afterRead value) s fun _ => Declared site := by
    intro value hvalue
    refine options_bind ?_
    extract_lets afterCheck
    have hafterCheck : ∀ (invalid : Option Diagnostic) {s₁ : State}, Keeps s s₁ → s₁.InOrder →
        s₁.stream.At after → (∀ e, invalid = some e → t.isCustomIdent = false ∧ ¬e.IsExhausted ∧
          ∃ v : Validator, (v.check property value site.scope).1 = .error e) →
        Orderly (afterCheck invalid) s₁ fun _ => Declared site := by
      intro invalid s₁ h₁ hs₁ hafter₁ hinvalid
      have hend : Orderly (do
          let last ← Parser.declarationEnd site after
          Parser.fire (.property ⟨property, value, important, site.inParens, site.scope, invalid⟩)
            t.location
          if last.kind == .rBrace then Parser.unget) s₁ fun _ => Declared site := by
        refine (declarationEnd hs₁ hafter₁ site).bind fun last s₂ h₂ hs₂ hlast => ?_
        have hevent : Event.IsOrderly s₂.options s₂.stream.source
            ⟨.property ⟨property, value, important, site.inParens, site.scope, invalid⟩,
              t.location⟩ := by
          rw [h₂.options_eq, h₂.source_eq, h₁.options_eq, h₁.source_eq]
          exact ⟨fun hcustom => hvalue (hcustom t ht hproperty.symm), fun e he =>
            ⟨hvalue (hinvalid e he).1, (hinvalid e he).2.2⟩⟩
        refine (fire hs₂ ⟨EventKind.noConfusion, EventKind.noConfusion⟩ hevent).bind
          fun _ s₃ _ hs₃ hstream => ?_
        have hlast₃ : s₃.stream.At last := hstream ▸ hlast.1
        refine ite (fun hbrace => ?_) fun _ =>
          pure hs₃ ⟨hlast₃.near, fun hparens => ⟨last, hlast₃, hlast.2 hparens⟩⟩
        refine (unget hs₃ hlast₃.held).weaken fun _ s₄ _ hback => ⟨?_, fun hparens => ?_⟩
        · rw [hback]
          exact hlast₃.near_back
        · rw [hlast.2 hparens] at hbrace
          exact absurd hbrace (by decide)
      refine options_bind (ite (fun _ => ?_) fun _ => hend)
      cases invalid with
      | none => exact hend
      | some e => exact throw_bind hs₁ (hinvalid e rfl).2.1 fun _ => hafter₁.near.ready
    refine ite (fun _ => ?_) fun hplain => ?_
    · exact pure_bind (hafterCheck none (Keeps.refl hs.isSound) hs hafter fun _ h => by cases h)
    · refine (checked hs property value site.scope).bind fun invalid s₁ h₁ hs₁ h => ?_
      have hcustom : t.isCustomIdent = false :=
        Bool.eq_false_iff.mpr fun hcustom => hplain (by rw [hcustom]; rfl)
      exact hafterCheck invalid h₁ hs₁ (h.1 ▸ hafter) fun e he => ⟨hcustom, h.2 e he⟩
  refine ite (fun _ => ?_) fun _ => ?_
  · refine (setPair hs _).bind fun _ s₁ _ hs₁ hstream => throw_bind hs₁ ?_ fun _ => ?_
    · refine Diagnostic.not_isExhausted ?_
      dsimp only [Diagnostic.at_]
      rw [head?_append_of_head? (head?_append_of_head? (c := 'U') rfl)]
      decide
    · rw [hstream]
      exact hafter.near.ready
  · cases read with
    | some v => exact pure_bind (hafterRead v fun hcustom => hread hcustom v rfl)
    | none =>
      refine ite (fun hcustom => pure_bind (hafterRead _ fun hfalse => ?_)) fun _ =>
        failAt_bind hs hafter.near.ready
      exact absurd (hfalse.symm.trans hcustom) Bool.false_ne_true

/-- **What a declaration leaves that turned out to be none** when its value
was read: it goes on right after its first token. -/
def Sought (t : Token) (st : Stream) : Prop := st.ahead = [] ∧ st.reader.location = t.stop

theorem declarationValue (hs : s.InOrder) {first : TokenKind} (hafter : s.AfterColon first)
    (site : DeclarationSite) (ht : t.IsCut s.stream.source) {property : PropertyName}
    (hproperty : property.location = t.location) :
    Orderly (Parser.declarationValue site t property first) s fun r s' =>
      (r = true → Declared site s') ∧ (r = false → site.inParens = false ∧ Sought t s'.stream) := by
  unfold Parser.declarationValue
  extract_lets custom rest
  have hends : custom = false →
      site.ends custom = valueEnd ∨ site.ends custom = bracketEnd := by
    intro hcustom
    unfold DeclarationSite.ends
    rw [hcustom]
    cases site.inParens
    · exact Or.inl rfl
    · exact Or.inr rfl
  have hrest : ∀ {s₁ : State}, Keeps s s₁ → s₁.InOrder → s₁.stream.Near → s₁.StartsValue →
      Orderly (rest ()) s₁ fun r s' =>
        (r = true → Declared site s') ∧
          (r = false → site.inParens = false ∧ Sought t s'.stream) := by
    intro s₁ h₁ hs₁ hnear₁ hstarts
    have ht₁ : t.IsCut s₁.stream.source := h₁.source_eq ▸ ht
    -- the rest of a declaration, whichever way its value was read
    have htail : ∀ (read : Option Value) {s₂ : State}, Keeps s₁ s₂ → s₂.InOrder →
        s₂.stream.Fresh → (t.isCustomIdent = false → ∀ v, read = some v →
          v.IsRead s₁.options s₁.stream.source) →
        Orderly (do Parser.declarationTail site t property read; return true) s₂ fun r s' =>
          (r = true → Declared site s') ∧
            (r = false → site.inParens = false ∧ Sought t s'.stream) := by
      intro read s₂ h₂ hs₂ hfresh₂ hread
      have ht₂ : t.IsCut s₂.stream.source := h₂.source_eq ▸ ht₁
      refine (declarationTail hs₂ hfresh₂ site ht₂ hproperty fun hcustom v hv => ?_).bind
        fun _ s₃ _ hs₃ hdeclared => pure hs₃ ⟨fun _ => hdeclared, fun h => by cases h⟩
      rw [h₂.options_eq, h₂.source_eq]
      exact hread hcustom v hv
    refine ite (fun hspeculative => ?_) fun _ => ?_
    · have hplain : site.inParens = false ∧ custom = false := by
        revert hspeculative
        cases site.inParens <;> cases custom <;> simp
      refine (exprHeldBack hs₁ hnear₁ hstarts (hends hplain.2)).bind
        fun r s₂ h₂ hs₂ ⟨hfresh₂, hread, hheld⟩ => current_bind (ite (fun _ => ?_) fun _ => ?_)
      · have hplace : IsPlace s₂.stream.source t.stop := by
          rw [h₂.source_eq]
          exact ht₁.stop_isPlace
        refine (seek hs₂ hplace).bind fun _ s₃ _ hs₃ hsought =>
          pure hs₃ ⟨fun h => (by cases h), fun _ => ⟨hplain.1, ?_⟩⟩
        rw [hsought]
        exact ⟨rfl, Reader.location_seek hplace⟩
      · refine (dispatchAll hs₂ fun e he => ?_).bind fun _ s₃ h₃ hs₃ hstream => ?_
        · rw [h₂.options_eq, h₂.source_eq]
          exact hheld e he
        · exact htail r.1 (h₂.trans h₃) hs₃ (hstream ▸ hfresh₂) fun _ => hread
    · cases hcustom : custom with
      | true =>
        refine (expr hs₁ hnear₁ _ _).bind fun value s₂ h₂ hs₂ hfresh₂ => ?_
        exact htail value h₂ hs₂ hfresh₂ fun h => absurd (h.symm.trans hcustom) Bool.false_ne_true
      | false =>
        refine (valueAt hs₁ hnear₁ hstarts (hcustom ▸ hends hcustom)).bind
          fun value s₂ h₂ hs₂ ⟨hfresh₂, hread⟩ => ?_
        exact htail value h₂ hs₂ hfresh₂ fun _ => hread
  refine ite (fun hblank => ?_) fun hblank => ?_
  · obtain rfl := beq_iff_eq.mp hblank
    exact hrest (Keeps.refl hs.isSound) hs hafter.at.near (hafter.startsValue hs.isSound)
  · obtain ⟨u, hu⟩ := hafter.at
    have hback := hafter.startsValue_back fun h => hblank (beq_iff_eq.mpr h)
    refine (unget hs hu.held).ran.bind fun _ s₁ h₁ hs₁ ⟨hstream, hran⟩ => ?_
    obtain rfl : s₁ = s.withStream s.stream.back :=
      (congrArg Prod.snd hran).symm.trans (congrArg Prod.snd (unget_apply hu.held))
    exact hrest h₁ hs₁ (hstream ▸ hu.near_back) hback

/-! ## Looking past the name -/

/-- **A few tokens past one were looked at**: all of them are still in the
window, and so is the token. -/
def LookedPast (u : Token) (r : Reader) (behind : List Token) (st : Stream) : Prop :=
  ∃ us n, 1 ≤ n ∧ st = ⟨st.reader, us.reverse ++ u :: behind.take n, []⟩ ∧
    Rewound u r (behind.take n) ⟨st.reader, u :: behind.take n, us⟩

/-- **What was found after the name of a property**, where none was ahead of
the name. -/
def Followed (u : Token) (r : Reader) (behind : List Token) (found : AfterName) (s : State) :
    Prop :=
  match found with
  | .value first => s.AfterColon first ∧ (r.lex spaced).1.kind ≠ .pipe
  | .pseudo _ => LookedPast u r behind s.stream
  | .other _ _ => LookedPast u r behind s.stream

/-- The token after a colon, in a window that holds what came before. -/
theorem afterColon {first : Token} {s s₁ : State} (hs : s.InOrder) (hbare : s.stream.ahead = [])
    (hrun : Parser.next true true s = (.ok first, s₁)) : s₁.AfterColon first.kind := by
  obtain ⟨hfirst, rfl⟩ := Prod.mk.inj hrun
  obtain rfl : (s.stream.get true true).1 = first := Except.ok.inj hfirst
  exact ⟨s.stream, hs, hbare, rfl, rfl⟩

/-- What follows the name of a property whose colon has been read. -/
def AfterOwnColon (s : State) (found : AfterName) (s' : State) : Prop :=
  match found with
  | .value first => s'.AfterColon first
  | .pseudo _ => (s.stream.get true true).1.kind = .colon ∧ s'.stream = (s.stream.get true true).2
  | .other _ _ => False

theorem afterNameColon {c : Token} (hs : s.InOrder) (hbare : s.stream.ahead = [])
    (hcolon : c.kind = .colon) :
    Orderly (Parser.afterName (some c)) s (AfterOwnColon s) := by
  unfold Parser.afterName
  extract_lets rest
  refine pure_bind (ite (fun _ => ?_) fun h => absurd (by rw [hcolon]; rfl) h)
  refine (get hs true true).ran.bind fun first s₁ _ hs₁ ⟨hget, hran⟩ => pure hs₁ ?_
  split_ifs with hfirst
  · show (s.stream.get true true).1.kind = _ ∧ s₁.stream = _
    rw [hget]
    exact ⟨eq_of_beq hfirst, rfl⟩
  · exact afterColon hs hbare hran

/-- **The oldest token is forgotten** when a new one is cut and the window is
full. -/
theorem take_capacity {x u : Token} {us behind : List Token} {n : Nat} (h : us.length + n = 3) :
    (x :: (us.reverse ++ u :: behind.take (n + 1))).take Stream.capacity =
      (us ++ [x]).reverse ++ u :: behind.take n := by
  have hlength : us.reverse.length ≤ 4 := by
    rw [List.length_reverse]
    omega
  have hrest : 4 - us.reverse.length = n + 1 := by
    rw [List.length_reverse]
    omega
  have hmin : min n (n + 1) = n := Nat.min_eq_left (Nat.le_succ n)
  show x :: (us.reverse ++ u :: behind.take (n + 1)).take 4 = _
  rw [List.take_append, List.take_of_length_le hlength, hrest, List.take_succ_cons, List.take_take,
    hmin, List.reverse_append]
  rfl

/-- A colon is found in either mode. -/
theorem lex_spaced_of_colon {r : Reader} (h : (r.lex ⟨true, true, false⟩).1.kind = .colon) :
    r.lex spaced = r.lex ⟨true, true, false⟩ := by
  refine r.lex_eq_lex rfl rfl (fun v hv => ?_) ?_
  · unfold Mode.hides at hv ⊢
    simp only [Bool.not_true, Bool.false_and, Bool.or_false] at hv
    rw [hv]
    rfl
  · unfold Mode.hides
    rw [h]
    rfl

theorem afterName {u : Token} {r : Reader} {behind : List Token} (hs : s.InOrder)
    (hstream : s.stream = ⟨r, u :: behind, []⟩) :
    Orderly (Parser.afterName none) s (Followed u r behind) := by
  unfold Parser.afterName
  extract_lets rest
  -- from the token that is no blank on
  have hrest : ∀ (raw seen : Token) (r₁ : Reader) (us : List Token) (n : Nat) {s₁ : State},
      us.length + n = 3 → 1 ≤ n → s₁.InOrder →
      s₁.stream = ⟨r₁, us.reverse ++ u :: behind.take (n + 1), []⟩ →
      Rewound u r (behind.take (n + 1)) ⟨r₁, u :: behind.take (n + 1), us⟩ →
      (seen.kind = .colon → Rewound u r (behind.take n) ⟨(r₁.lex spaced).2, u :: behind.take n,
        us ++ [(r₁.lex spaced).1]⟩) →
      (seen.kind = .colon → (r.lex spaced).1.kind ≠ .pipe) →
      Orderly (rest (raw, seen)) s₁ (Followed u r behind) := by
    intro raw seen r₁ us n s₁ hlength hn hs₁ hstream₁ hrewound hcolon hbar
    refine ite (fun hseen => ?_) fun _ => ?_
    · have hkind : seen.kind = .colon := eq_of_beq hseen
      refine (get hs₁ true true).ran.bind fun first s₂ _ hs₂ ⟨hget, hran⟩ => ?_
      rw [hstream₁, Stream.get_bare] at hget
      obtain ⟨rfl, hstream₂⟩ := Prod.mk.inj hget
      refine pure hs₂ ?_
      by_cases hfirst : (r₁.lex ⟨true, true, false⟩).1.kind = .colon
      · rw [if_pos (by rw [hfirst]; rfl)]
        have hlex : r₁.lex spaced = r₁.lex ⟨true, true, false⟩ := lex_spaced_of_colon hfirst
        have hagain := hcolon hkind
        rw [hlex] at hagain
        rw [take_capacity hlength] at hstream₂
        refine ⟨us ++ [(r₁.lex ⟨true, true, false⟩).1], n, hn, ?_, ?_⟩
        · rw [← hstream₂]
        · rw [← hstream₂]
          exact hagain
      · rw [if_neg (by simpa using hfirst)]
        exact ⟨afterColon hs₁ (by rw [hstream₁]) hran, hbar hkind⟩
    · exact pure hs₁ ⟨us, n + 1, Nat.le_add_left 1 n, by rw [hstream₁], hstream₁ ▸ hrewound⟩
  refine (get hs false true).bind fun raw s₁ _ hs₁ hget => ?_
  rw [hstream, Stream.get_bare] at hget
  obtain ⟨rfl, hstream₁⟩ := Prod.mk.inj hget
  refine ite (fun hblank => ?_) fun hblank => ?_
  · have hkind : (r.lex spaced).1.kind = .whitespace := eq_of_beq hblank
    refine (get hs₁ false false).bind fun seen s₂ _ hs₂ hget₂ => ?_
    rw [← hstream₁, Stream.get_bare] at hget₂
    obtain ⟨rfl, hstream₂⟩ := Prod.mk.inj hget₂
    refine pure_bind (hrest _ _ ((r.lex spaced).2.lex .visible).2
      [(r.lex spaced).1, ((r.lex spaced).2.lex .visible).1] 1 rfl (Nat.le_refl 1) hs₂ ?_ ?_ ?_ ?_)
    · rw [← hstream₂]
      exact congrArg (Stream.mk _ · [])
        (take_capacity (show [(r.lex spaced).1].length + 2 = 3 from rfl))
    · exact .blank hkind (List.length_take_le 2 behind)
    · exact fun hcolon => .blankColon hkind hcolon (List.length_take_le 1 behind)
    · rw [hkind]
      exact fun _ => TokenKind.noConfusion
  · refine pure_bind (hrest _ _ (r.lex spaced).2 [(r.lex spaced).1] 2 rfl (by decide) hs₁
      ?_ ?_ ?_ ?_)
    · rw [← hstream₁]
      rfl
    · exact .one (List.length_take_le 3 behind)
    · exact fun hcolon => .two (Or.inr hcolon) (List.length_take_le 2 behind)
    · intro hcolon hbar
      exact absurd (hcolon.symm.trans hbar) TokenKind.noConfusion

/-! ## Declarations -/

/-- **Where the name of a property was read** that a token starts. -/
inductive Named (t : Token) : Stream → Prop where
  /-- The token is the name. -/
  | plain {r : Reader} {behind : List Token} (hname : IsElementName t) (hat : r.IsAt)
      (hstop : r.location = t.stop) : Named t ⟨r, t :: behind, []⟩
  /-- The token is a star before the name. -/
  | starred {r r₀ : Reader} {behind : List Token} {u : Token} (hkind : t.kind = .star)
      (hu : u.kind = .ident) (hsource : r₀.source = r.source) (hstop : r₀.location = t.stop)
      (hnext : (r₀.lex spaced).1 = u) : Named t ⟨r, u :: t :: behind, []⟩
  /-- What follows the token is no declaration. -/
  | bar {r : Reader} {behind : List Token} {b x : Token} (hname : IsElementName t)
      (hbar : b.kind = .pipe) (hfront : Front t ⟨r, t :: behind, [b, x]⟩) :
      Named t ⟨r, t :: behind, [b, x]⟩

namespace Named

variable {r : Reader} {behind : List Token} {u : Token} {st : Stream}

/-- **Going back to the first token** leads to where a rule can start. -/
theorem opening_rewindTo (h : Named t ⟨r, u :: behind, []⟩) (hlooked : LookedPast u r behind st)
    (hst : st.IsSound) : Opening t (st.rewindTo t) := by
  obtain ⟨us, n, hn, hstream, hrewound⟩ := hlooked
  obtain ⟨r', behind', ahead'⟩ := st
  obtain ⟨-, rfl, rfl⟩ := Stream.mk.inj hstream
  cases h with
  | plain hname hat hstop =>
    have heof : t.kind ≠ .eof := by
      rcases hname with hkind | hkind <;> rw [hkind] <;> exact TokenKind.noConfusion
    rw [hst.rewindTo_eq heof, List.append_nil]
    exact .rewound hname hat hstop hrewound
  | @starred _ _ behind _ hkind hu _ hstop hnext =>
    have heof : t.kind ≠ .eof := by
      rw [hkind]
      exact TokenKind.noConfusion
    -- the name after the star is put ahead as well
    obtain ⟨m, rfl⟩ : ∃ m, n = m + 1 := ⟨n - 1, by omega⟩
    have hbehind : us.reverse ++ u :: (t :: behind).take (m + 1) =
        (u :: us).reverse ++ t :: behind.take m := by simp
    rw [hbehind] at hst ⊢
    rw [hst.rewindTo_eq heof, List.append_nil]
    exact .starred hkind hu hrewound.endsLast

/-- **Going on after the first token** leads to where a rule can start as
well. -/
theorem opening_of_sought (h : Named t ⟨r, u :: behind, []⟩) (hbar : (r.lex spaced).1.kind ≠ .pipe)
    (hsource : st.source = r.source) (hsought : Sought t st) : Opening t st := by
  obtain ⟨hbare, hstop⟩ := hsought
  obtain ⟨r', behind', ahead'⟩ := st
  obtain rfl : ahead' = [] := hbare
  cases h with
  | plain hname hat hstop₀ =>
    refine .sought rfl hname ?_ hstop
    rw [Stream.get_bare]
    show (r'.lex spaced).1.kind ≠ _
    have hlex : (r'.lex spaced).1 = (r.lex spaced).1 :=
      Reader.lex_congr hsource (hstop.trans hstop₀.symm) spaced
    rw [hlex]
    exact hbar
  | @starred _ r₀ _ _ hkind hu hsource₀ hstop₀ hnext =>
    refine .sought rfl (Or.inr hkind) ?_ hstop
    rw [Stream.get_bare]
    show (r'.lex spaced).1.kind ≠ _
    have hlex : (r'.lex spaced).1 = (r₀.lex spaced).1 :=
      Reader.lex_congr (hsource.trans hsource₀.symm) (hstop.trans hstop₀.symm) spaced
    rw [hlex, hnext, hu]
    exact TokenKind.noConfusion

end Named

/-- What is in the window where a declaration may start: a name at hand, and
nothing ahead or a bar. -/
theorem front_cases (hs : s.InOrder) (h : Front t s.stream) (hname : IsElementName t) :
    (∃ r behind, s.stream = ⟨r, t :: behind, []⟩ ∧ r.IsAt ∧ r.location = t.stop) ∨
      ∃ r behind b x, s.stream = ⟨r, t :: behind, [b, x]⟩ ∧ b.kind = .pipe := by
  obtain ⟨st, hstream⟩ : ∃ st, s.stream = st := ⟨_, rfl⟩
  rw [hstream] at h
  cases h with
  | bare hat =>
    subst hstream
    exact Or.inl ⟨_, _, hat.eq, hs.isSound.stream.isAt, hat.location_eq hs.flush⟩
  | mark hmark =>
    rcases hmark with hmark | ⟨hmark, -⟩ <;> rcases hname with hkind | hkind <;>
      cases hkind.symm.trans hmark
  | name _ hbar => exact Or.inr ⟨_, _, _, _, hstream, hbar⟩

/-- A bar is handed out in every mode. -/
theorem get_bar {r : Reader} {behind : List Token} {b x : Token} (hbar : b.kind = .pipe)
    (blanks : Bool) : Stream.get ⟨r, behind, [b, x]⟩ false blanks = (b, ⟨r, b :: behind, [x]⟩) := by
  refine Stream.get_of_ahead r behind [x] ?_
  unfold Mode.hides
  rw [hbar]
  simp

/-- The name after a star. -/
theorem starredName (hs : s.InOrder) (h : Front t s.stream) (hkind : t.kind = .star) :
    Orderly (Parser.mustMatch [.ident]) s fun _ s' => Named t s'.stream := by
  refine demand_of hs (R := fun _ st => Named t st)
    ((accept_taken hs false true fun u => [TokenKind.ident].contains u.kind).weaken
      fun found s₁ _ htaken => ?_) rfl
  rcases front_cases hs h (Or.inr hkind) with ⟨r, behind, hstream, -, hstop⟩ |
    ⟨r, behind, b, x, hstream, hbar⟩
  · cases found with
    | some u =>
      obtain ⟨hget, hident⟩ := htaken
      rw [hstream, Stream.get_bare] at hget
      obtain ⟨rfl, hstream₁⟩ := Prod.mk.inj hget
      refine ⟨?_, fun hnone => absurd hnone (Option.some_ne_none _)⟩
      rintro _ ⟨⟩
      have hident : (r.lex spaced).1.kind = .ident := by simpa using hident
      rw [← hstream₁]
      exact .starred hkind hident (show r.source = _ from rfl) hstop rfl
    | none =>
      have hnear : s.stream.Near := by
        rw [hstream]
        exact Nat.zero_le 1
      have hback : s₁.stream = (s.stream.get false true).2.back := htaken.1
      have hnear₁ : s₁.stream.Near := hback ▸ (hnear.get_back false true).1
      exact ⟨fun _ hsome => (by cases hsome), fun _ => (hnear₁.get_back false false).1.ready⟩
  · -- the bar is refused and taken back
    unfold Taken at htaken
    rw [hstream, get_bar hbar] at htaken
    cases found with
    | some u =>
      obtain ⟨hu, hident⟩ := htaken
      obtain ⟨rfl, -⟩ := Prod.mk.inj hu
      have hident : b.kind = .ident := by simpa using hident
      exact absurd (hbar.symm.trans hident) TokenKind.noConfusion
    | none =>
      have hback : s₁.stream = ⟨r, t :: behind, [b, x]⟩ := htaken.1
      refine ⟨fun _ hsome => (by cases hsome), fun _ => ?_⟩
      rw [hback, get_bar hbar]
      rw [hstream] at h
      exact h.ready

theorem propertyName (hs : s.InOrder) (h : Front t s.stream) (hname : IsElementName t) :
    Orderly (Parser.propertyName t) s fun property s' =>
      property.location = t.location ∧ Named t s'.stream := by
  unfold Parser.propertyName
  refine ite (fun hstar => ?_) fun hstar => ?_
  · refine (starredName hs h (eq_of_beq hstar)).bind fun name s₁ _ hs₁ hnamed => ?_
    exact pure hs₁ ⟨rfl, hnamed⟩
  · have hnamed : Named t s.stream := by
      rcases front_cases hs h hname with ⟨r, behind, hstream, hat, hstop⟩ |
        ⟨r, behind, b, x, hstream, hbar⟩ <;> rw [hstream] at h ⊢
      · exact .plain hname hat hstop
      · exact .bar hname hbar h
    refine options_bind (ite (fun _ => ?_) fun _ => ?_)
    · exact pure hs ⟨rfl, hnamed⟩
    · exact pure hs ⟨rfl, hnamed⟩

/-- **Where the question is settled** what a token started: after a colon a
value is read, and all ways back lead to where a rule can start. -/
def Settled (t : Token) (found : AfterName) (s : State) : Prop :=
  match found with
  | .value first =>
    s.AfterColon first ∧ ∀ st, st.source = s.stream.source → Sought t st → Opening t st
  | .pseudo _ => Opening t (s.stream.rewindTo t)
  | .other _ _ => Opening t (s.stream.rewindTo t)

/-- **What follows the name of a property settles the question.** -/
theorem settledName (hs : s.InOrder) (h : Named t s.stream) :
    Orderly (Parser.afterName none) s (Settled t) := by
  obtain ⟨st, hstream⟩ : ∃ st, s.stream = st := ⟨_, rfl⟩
  rw [hstream] at h
  have hplain : ∀ (r : Reader) (u : Token) (behind : List Token), s.stream = ⟨r, u :: behind, []⟩ →
      Named t ⟨r, u :: behind, []⟩ → Orderly (Parser.afterName none) s (Settled t) := by
    intro r u behind hstream h
    refine (afterName hs hstream).weaken fun found s₁ h₁ hfollowed => ?_
    have hsound := h₁.isSound.stream
    cases found with
    | value first =>
      refine ⟨hfollowed.1, fun st hst hsought => h.opening_of_sought hfollowed.2 ?_ hsought⟩
      rw [hst, h₁.source_eq, hstream]
      rfl
    | pseudo raw => exact h.opening_rewindTo hfollowed hsound
    | other raw seen => exact h.opening_rewindTo hfollowed hsound
  cases h with
  | plain hname hat hstop => exact hplain _ _ _ hstream (.plain hname hat hstop)
  | starred hkind hu hsource hstop hnext =>
    exact hplain _ _ _ hstream (.starred hkind hu hsource hstop hnext)
  | @bar r behind b x hname hbar hfront =>
    unfold Parser.afterName
    extract_lets rest
    refine (get hs false true).bind fun raw s₁ _ hs₁ hget => ?_
    rw [hstream, get_bar hbar] at hget
    obtain ⟨rfl, hstream₁⟩ := Prod.mk.inj hget
    refine ite (fun hblank => ?_) fun _ => pure_bind (ite (fun hcolon => ?_) fun _ => ?_)
    · exact absurd (hbar.symm.trans (eq_of_beq hblank)) TokenKind.noConfusion
    · exact absurd (hbar.symm.trans (eq_of_beq hcolon)) TokenKind.noConfusion
    · refine pure hs₁ ?_
      have hsound := hs₁.isSound.stream
      have heof : t.kind ≠ .eof := by
        rcases hname with hkind | hkind <;> rw [hkind] <;> exact TokenKind.noConfusion
      -- only the bar was handed out, and it is put ahead again
      show Opening t (s₁.stream.rewindTo t)
      rw [← hstream₁] at hsound ⊢
      have hwindow : Stream.IsSound ⟨r, [b].reverse ++ t :: behind, [x]⟩ := hsound
      rw [show (b :: t :: behind) = [b].reverse ++ t :: behind from rfl, hwindow.rewindTo_eq heof]
      exact .front hfront

/-- **A declaration**, as an item of a block. If it turns out to be none, a
rule can start where it leaves off. -/
theorem declaration (hs : s.InOrder) (h : Front t s.stream) (hname : IsElementName t)
    (ht : t.IsCut s.stream.source) (scope : Option String) :
    Orderly (Parser.declaration { scope := scope } t) s (fun r s' =>
      (r = true → s'.stream.Near) ∧ (r = false → Opening t s'.stream))
      fun st => EndsLast st.ahead := by
  unfold Parser.declaration
  refine (propertyName hs h hname).lax.bind fun property s₁ h₁ hs₁ ⟨hproperty, hnamed⟩ => ?_
  refine (settledName hs₁ hnamed).lax.bind fun found s₂ h₂ hs₂ hsettled => ?_
  have ht₂ : t.IsCut s₂.stream.source := by
    rw [h₂.source_eq, h₁.source_eq]
    exact ht
  have hfalse : ∀ {s₃ : State}, s₃.InOrder → Opening t s₃.stream →
      Orderly (return false) s₃ (fun r s' =>
        (r = true → s'.stream.Near) ∧ (r = false → Opening t s'.stream))
        fun st => EndsLast st.ahead :=
    fun hs₃ hopening => pure hs₃ ⟨fun h => (by cases h), fun _ => hopening⟩
  cases found with
  | value first =>
    refine (declarationValue hs₂ hsettled.1 _ ht₂ hproperty).lax.weaken
      fun r s₃ h₃ ⟨hdeclared, hsought⟩ => ⟨fun h => (hdeclared h).1, fun h => ?_⟩
    exact hsettled.2 s₃.stream h₃.source_eq (hsought h).2
  | pseudo raw =>
    refine (rewindTo hs₂ ht₂).bind fun _ s₃ _ hs₃ hstream => ?_
    have hopening : Opening t s₃.stream := hstream ▸ hsettled
    exact ite (fun h => (by cases h)) fun _ => hfalse hs₃ hopening
  | other raw seen =>
    refine (rewindTo hs₂ ht₂).bind fun _ s₃ _ hs₃ hstream => ?_
    have hopening : Opening t s₃.stream := hstream ▸ hsettled
    exact ite (fun _ => hfalse hs₃ hopening) fun _ =>
      ite (fun _ => failAt_bind hs₃ hopening.endsLast) fun _ => hfalse hs₃ hopening

/-- **A declaration in brackets**, whose name and colon have been read. -/
theorem declarationInParens {r : Reader} {behind : List Token} {c : Token} (hs : s.InOrder)
    (hstream : s.stream = ⟨r, c :: t :: behind, []⟩) (hcolon : c.kind = .colon)
    (hident : t.kind = .ident) (ht : t.IsCut s.stream.source) :
    Orderly (Parser.declaration { colon := some c, inParens := true } t) s
      fun _ s' => s'.stream.Closed := by
  have hname : Orderly (Parser.propertyName t) s fun property s' =>
      property.location = t.location ∧ s'.stream = s.stream := by
    unfold Parser.propertyName
    refine ite (fun hstar => ?_) fun _ => options_bind (ite (fun _ => ?_) fun _ => ?_)
    · exact absurd (hident.symm.trans (eq_of_beq hstar)) TokenKind.noConfusion
    · exact pure hs ⟨rfl, rfl⟩
    · exact pure hs ⟨rfl, rfl⟩
  unfold Parser.declaration
  refine hname.bind fun property s₁ h₁ hs₁ ⟨hproperty, hstream₁⟩ => ?_
  rw [hstream] at hstream₁
  refine (afterNameColon hs₁ (by rw [hstream₁]) hcolon).bind fun found s₂ h₂ hs₂ hfound => ?_
  have ht₂ : t.IsCut s₂.stream.source := by
    rw [h₂.source_eq, h₁.source_eq]
    exact ht
  cases found with
  | value first =>
    refine (declarationValue hs₂ hfound _ ht₂ hproperty).weaken
      fun r s₃ _ ⟨hdeclared, hsought⟩ => ?_
    cases r with
    | true => exact (hdeclared rfl).2 rfl
    | false => exact absurd (hsought rfl).1 Bool.noConfusion
  | pseudo raw =>
    refine (rewindTo hs₂ ht₂).bind fun _ s₃ _ hs₃ hrewound => ?_
    refine ite (fun _ => failAt_bind hs₃ ?_) fun h => absurd rfl h
    -- the two colons are ahead again
    obtain ⟨hsecond, hstream₂⟩ := hfound
    rw [hstream₁, Stream.get_bare] at hsecond hstream₂
    have heof : t.kind ≠ .eof := by
      rw [hident]
      exact TokenKind.noConfusion
    have hsound := hs₂.isSound.stream
    rw [hstream₂] at hsound hrewound
    have hwindow : Stream.IsSound ⟨(r.lex ⟨true, true, false⟩).2,
        [c, (r.lex ⟨true, true, false⟩).1].reverse ++ t :: behind.take 2, []⟩ := hsound
    rw [show s₃.stream = _ from hrewound.trans (hwindow.rewindTo_eq heof)]
    have hspaced : r.lex spaced = r.lex ⟨true, true, false⟩ := lex_spaced_of_colon hsecond
    have hat : r.IsAt := by
      have hisAt := hs.isSound.stream.isAt
      rwa [hstream] at hisAt
    have hstop : r.location = c.stop := by
      have hc : s.stream.At c := by
        rw [hstream]
        exact ⟨rfl, rfl⟩
      have hlocation := hc.location_eq hs.flush
      rwa [hstream] at hlocation
    have hfront : Front c ⟨(r.lex spaced).2, c :: t :: behind.take 2, [(r.lex spaced).1]⟩ :=
      .mark (Or.inr ⟨hcolon, by rw [hspaced]; exact hsecond⟩)
        (Nat.succ_le_succ (List.length_take_le 2 behind)) hat hstop
    rw [hspaced] at hfront
    exact hfront.ready_back
  | other raw seen => exact hfound.elim

end Orderly

end Stylesheet
