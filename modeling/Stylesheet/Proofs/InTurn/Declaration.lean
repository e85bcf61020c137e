import Stylesheet.Proofs.Complaints
import Stylesheet.Proofs.Compositional.Rule
import Stylesheet.Proofs.InTurn.Basic

/-!
# Complaints about declarations in turn

A declaration that does not fit is complained of at its name or in its value,
and both lie before the token after the value. What else is wrong with a
declaration is found at that token or later.

When the colon is missing after a custom name, or is doubled in brackets, the
complaint is about a token that was read long before; but reading goes back to
that very token.
-/

namespace Stylesheet

open Parse (State)
open Parse.State (Keeps)
open Stylesheet.Stream (Anyhow Front Grasps Has IsElementName)
open Stylesheet.Parser

/-! ## What is read -/

namespace Points

variable {d : Nat}

theorem propertyName (t : Token) : Points d Grasps (Parser.propertyName t) fun _ => Grasps := by
  unfold Parser.propertyName
  refine ite (fun _ => (mustMatch _).bind fun _ => pure fun _ _ _ => Has.grasps) fun _ => ?_
  exact options_bind fun _ => ite (fun _ => pure fun _ _ _ => id) fun _ => pure fun _ _ _ => id

theorem afterName (colon : Option Token) :
    Points d Grasps (Parser.afterName colon) fun _ => Grasps := by
  unfold Parser.afterName
  extract_lets rest
  have hrest : ∀ r, Points d Grasps (rest r) fun _ => Grasps := fun _ =>
    ite (fun _ => (next true true).bind fun _ => pure fun _ _ _ => Has.grasps) fun _ =>
      pure fun _ _ _ => id
  cases colon with
  | some c => exact pure_bind (hrest (c, c))
  | none =>
    refine (next false true).bind fun raw => ite (fun _ => ?_) fun _ =>
      pure_bind ((hrest (raw, raw)).of fun _ _ _ => Has.grasps)
    exact grab.bind fun seen => pure_bind ((hrest (raw, seen)).of fun _ _ _ => Has.grasps)

/-- **The token that ends a declaration** is in hand, and in brackets it is the
closing one. -/
theorem declarationEnd (site : DeclarationSite) (t : Token) :
    Points d (Has t) (Parser.declarationEnd site t) fun last n st =>
      Has last n st ∧ (site.inParens = true → last.kind = .rParen) := by
  refine Points.sure ?_ fun s last hs hlast =>
    ((Reads.declarationEnd (n := 0) hs (Parse.State.stands_true (Nat.zero_le _) fun _ _ =>
      Nat.zero_le _) site t).ok last hlast).2
  unfold Parser.declarationEnd
  extract_lets kinds
  refine ite (fun _ => ?_) fun _ => ite (fun _ => pure fun _ _ _ => id) fun _ =>
    (mustReuse _).of fun _ _ _ => Has.grasps
  exact (mustMatchKeyword _).discard_grasps.bind fun _ =>
    mustMatchSmart _

end Points

/-- **A value that was read in front of the token in hand.** -/
structure Value.Precedes (n : Nat) (st : Stream) (v : Value) : Prop where
  /-- It stands in the source. -/
  isLaidOut : v.IsLaidOut st.source
  /-- It does not start before an offset. -/
  le : n ≤ v.location.offset
  /-- It stops before the token in hand. -/
  stop_le : v.stop.offset ≤ st.current.location.offset

/-- **What is read as a value** stands in front of the token that ends it. -/
theorem Value.Precedes.of_expr {s s' : State} {ends : List TokenKind} {raw : Bool} {v : Value}
    {n : Nat} (hs : s.IsSound) (hn : n ≤ s.offset)
    (h : Parser.expr ends raw s = (.ok (some v), s')) : v.Precedes n s'.stream := by
  have hroomy : Roomy s := by
    refine ⟨hs.stream, ?_⟩
    have hbudget : Text.byteLength s.stream.source + 64 ≤ s.budget := hs.budget
    omega
  obtain ⟨-, hspans, s₁, hwrote, hstream, -⟩ := writes_exprTo _ _ _ _ _ _ hroomy h
  have hgot := hwrote.isSound.get true false
  have hsource : s'.stream.source = s.stream.source := by
    rw [hstream, hgot.source_eq, hwrote.source_eq]
  refine ⟨⟨hspans v rfl, hwrote.ordered, hsource ▸ hwrote.stands⟩, ?_, ?_⟩
  · obtain ⟨first, hfirst, hlocation⟩ := (hspans v rfl).first
    rw [hlocation]
    exact Nat.le_trans hn (hwrote.within first (.here (List.mem_of_mem_head? hfirst))).lo_le
  · obtain ⟨last, hlast, hstop⟩ := (hspans v rfl).last
    rw [hstop, current_of_get hwrote.isSound hstream]
    exact Nat.le_trans (hwrote.within last (.here (List.mem_of_getLast? hlast))).le_hi hgot.place_le

/-- A name that has no star before it is looked at, but nothing is read. -/
theorem Parser.propertyName_of_ident {t : Token} (hkind : t.kind = .ident) (s : State) :
    ∃ property, Parser.propertyName t s = (.ok property, s) ∧ property.location = t.location := by
  have hstar : ¬(t.kind == .star) = true := by
    rw [hkind]
    exact Bool.false_ne_true
  unfold Parser.propertyName
  rw [if_neg hstar, bind_ok (show options s = (.ok s.options, s) from rfl)]
  split_ifs
  · exact ⟨_, rfl, rfl⟩
  · exact ⟨_, rfl, rfl⟩

/-! ## What is held back -/

namespace InTurn

variable {α : Type} {n : Nat} {s : State} {t : Token} {p : Parser α} {Q : α → Nat → State → Prop}

/-- What ran did run. -/
theorem ran (h : InTurn n p s Q) : InTurn n p s fun a m s' => Q a m s' ∧ p s = (.ok a, s') :=
  ⟨h.keeps, h.error, fun a ha =>
    let ⟨m, hm, hs', hQ⟩ := h.ok a ha
    ⟨m, hm, hs', hQ, Prod.ext ha rfl⟩⟩

/-- **A value**, in front of the token in hand. -/
theorem expr (hs : s.IsSound) (hn : s.Complained n) (ends : List TokenKind) (raw : Bool) :
    InTurn n (Parser.expr ends raw) s fun r m s' => m = n ∧ s'.stream.Grasps n ∧
      ∀ v, r = some v → v.Precedes n s'.stream := by
  refine (read hs hn trivial (fun _ => Points.expr ends raw)
    (Mute.compositional.expr ends raw)).ran.weaken
    fun r m s' _ _ _ ⟨⟨hm, hgrasps⟩, hran⟩ => ⟨hm, hgrasps, ?_⟩
  rintro v rfl
  exact .of_expr hs hn.le hran

/-- **A value whose events are held back**, none of which complains. -/
theorem exprHeldBack (hs : s.IsSound) (hn : s.Complained n) (ends : List TokenKind) :
    InTurn n (Parser.exprHeldBack ends) s fun r m s' => m = n ∧ s'.stream.Grasps n ∧
      (∀ v, r.1 = some v → v.Precedes n s'.stream) ∧
      ∀ e ∈ r.2, e.IsInner ∧ e.diagnostic? = none := by
  set s₀ : State := { s with deferred := some [] }
  have hs₀ : s₀.IsSound := ⟨hs.stream, hs.budget, hs.store, by rintro _ ⟨⟩ e he; cases he⟩
  have hpoints := Points.expr (d := Text.byteLength s.stream.source + 1) ends false s₀ n hs₀
    (by show Text.byteLength s.stream.source < _; omega) hn.le trivial
  have hmute := Mute.compositional.expr ends false
  have hevents := hmute.events s₀
  have hheld : diagnosticsOf ((Parser.expr ends false s₀).2.deferred.getD []) = [] :=
    hmute.deferred s₀
  have hanswer := exprHeldBack_apply ends s
  have hreads := Reads.exprHeldBack (n := 0) hs (Nat.zero_le _) ends
  have hkeeps := hreads.keeps
  have hinner := hreads.ok
  obtain ⟨-, herror, hok⟩ := hpoints
  rcases hrun : Parser.expr ends false s₀ with ⟨e | v, s₁⟩ <;>
    rw [hrun] at herror hok hevents hheld <;>
    rw [show Parser.expr ends false { s with deferred := some [] } = _ from hrun] at hanswer <;>
    rw [hanswer] at hkeeps hinner
  · refine ⟨?_, ?_, ?_⟩ <;> rw [hanswer]
    · exact hkeeps
    · rintro _ ⟨⟩
      obtain ⟨loc, hloc, hle, hle'⟩ := herror e rfl
      exact ⟨loc, hloc, hle, (hn.of_keeps hkeeps hevents (Nat.le_trans hle hle')).raise hle hle'⟩
    · exact fun _ ha => by cases ha
  · refine ⟨?_, ?_, ?_⟩ <;> rw [hanswer]
    · exact hkeeps
    · exact fun _ he => by cases he
    · rintro _ ⟨⟩
      obtain ⟨hle, hgrasps⟩ := hok v rfl
      refine ⟨n, Nat.le_refl n, hn.of_keeps hkeeps hevents hle, rfl, hgrasps, ?_, fun e he =>
        ⟨(hinner _ rfl).2 e he, List.filterMap_eq_nil_iff.mp hheld e (List.mem_reverse.mp he)⟩⟩
      rintro w rfl
      exact (Value.Precedes.of_expr hs₀ hn.le hrun : w.Precedes n s₁.stream)

/-- Reporting events that were held back. -/
theorem dispatchAll (hs : s.IsSound) (hn : s.Complained n) {events : List Event}
    (hevents : ∀ e ∈ events, e.IsInner ∧ e.diagnostic? = none) :
    InTurn n (events.forM Parser.dispatch) s fun _ m s' => m = n ∧ s'.stream = s.stream := by
  induction events generalizing s with
  | nil => exact pure hs hn ⟨rfl, rfl⟩
  | cons e events ih =>
    obtain ⟨hinner, hmute⟩ := hevents e List.mem_cons_self
    have hkeeps := (Reads.dispatch (n := 0) hs hinner).keeps
    have hn₁ : (Parser.dispatch e s).2.Complained n :=
      hn.of_keeps hkeeps (List.filterMap_cons_none hmute) hn.le
    exact of_ran (p := Parser.dispatch e) rfl hkeeps
      (ih hkeeps.isSound hn₁ fun e he => hevents e (List.mem_cons_of_mem _ he))

/-! ## The rest of a declaration -/

/-- **What is found when a declaration is checked** points to its name or into its
value. -/
theorem complaint_location {property : PropertyName} {value : Value} {scope : Option String}
    {v : Validator} {e : Diagnostic} {source : List Char} (hvalue : value.IsLaidOut source)
    (he : (v.check property value scope).1 = .error e) :
    ∃ loc, e.location = some loc ∧ (loc = property.location ∨
      value.location.offset ≤ loc.offset ∧ loc.offset < value.stop.offset) := by
  have hcomplaint : Declaration.Complaint ⟨property, value, false, false, scope, none⟩ e :=
    Validator.check_complaint hvalue.opensCalls he
  exact (hcomplaint.location_eq hvalue).2

/-- Checking a value leaves all but the memory of the checks. -/
theorem checked_bind {β : Type} {Q' : β → Nat → State → Prop} {property : PropertyName}
    {value : Value} {scope : Option String} {f : Option Diagnostic → Parser β} (hs : s.IsSound)
    (hn : s.Complained n)
    (h : ∀ invalid s₁, Keeps s s₁ → s₁.Complained n → s₁.stream = s.stream →
      (∀ e, invalid = some e → ∃ v : Validator, (v.check property value scope).1 = .error e) →
      InTurn n (f invalid) s₁ Q') :
    InTurn n (Parser.checked property value scope >>= f) s Q' := by
  have hkeeps : ∀ v, Keeps s { s with validator := v } := fun _ =>
    hs.keeps_of_eq rfl rfl rfl rfl rfl rfl
  have hn₁ : ∀ v, ({ s with validator := v } : State).Complained n := fun v =>
    hn.of_keeps (hkeeps v) rfl hn.le
  rcases hcheck : s.validator.check property value scope with ⟨e | u, v⟩
  · have hrun : Parser.checked property value scope s =
        (.ok (some e), { s with validator := v }) := by
      unfold Parser.checked
      show (Except.ok _, _) = _
      rw [hcheck]
    refine of_ran hrun (hkeeps v) (h _ _ (hkeeps v) (hn₁ v) rfl ?_)
    rintro _ ⟨⟩
    exact ⟨s.validator, congrArg Prod.fst hcheck⟩
  · have hrun : Parser.checked property value scope s =
        (.ok none, { s with validator := v }) := by
      unfold Parser.checked
      show (Except.ok _, _) = _
      rw [hcheck]
    exact of_ran hrun (hkeeps v) (h _ _ (hkeeps v) (hn₁ v) rfl fun _ h => by cases h)

/-- **The end of a declaration and its event**, once it has been checked. A
complaint about it points no further than the token after the value. -/
theorem declarationEvent {after : Token} (hs : s.IsSound) (hn : s.Complained n)
    (hafter : s.stream.Has after n) (site : DeclarationSite) {declaration : Declaration}
    (hinvalid : ∀ e, declaration.invalid = some e → ∃ loc, e.location = some loc ∧
      n ≤ loc.offset ∧ loc.offset ≤ after.location.offset) :
    InTurn n (do
      let last ← Parser.declarationEnd site after
      Parser.fire (.property declaration) t.location
      if last.kind == .rBrace then Parser.unget) s fun _ m s' =>
        site.inParens = true → s'.stream.Grasps m := by
  -- the offset of the complaint, if there is one
  obtain ⟨m, hnm, hm, hlocation⟩ : ∃ m, n ≤ m ∧ m ≤ after.location.offset ∧
      ∀ e, declaration.invalid = some e → ∃ loc, e.location = some loc ∧ loc.offset = m := by
    cases hcase : declaration.invalid with
    | none => exact ⟨n, Nat.le_refl n, hafter.2, fun _ h => by cases h⟩
    | some e =>
      obtain ⟨loc, hloc, hle, hle'⟩ := hinvalid e hcase
      exact ⟨loc.offset, hle, hle', by rintro _ ⟨⟩; exact ⟨loc, hloc, rfl⟩⟩
  have hm₀ : s.Complained m :=
    hn.raise hnm (Nat.le_trans hm (hafter.passed hs.stream).2)
  refine ((read hs hm₀ ⟨hafter.1, hm⟩ (fun _ => Points.declarationEnd site after)
    (Mute.compositional.declarationEnd site after)).bind
    fun last k s₁ h₁ _ hk ⟨hkm, hlast, hparens⟩ => ?_).lower hnm
  obtain rfl := hkm
  have hfire : InTurn k (Parser.fire (.property declaration) t.location) s₁
      fun _ j s' => j = k ∧ s'.stream = s₁.stream := by
    cases hcase : declaration.invalid with
    | none => exact fire h₁.isSound hk ⟨EventKind.noConfusion, EventKind.noConfusion⟩ hcase
    | some e =>
      obtain ⟨loc, hloc, rfl⟩ := hlocation e hcase
      exact fire_complaint h₁.isSound ⟨EventKind.noConfusion, EventKind.noConfusion⟩ hk hcase hloc
        (Nat.le_refl _) (Nat.le_refl _) hk.le (Or.inl (Nat.le_refl _))
  refine hfire.bind fun _ j s₂ h₂ _ hj ⟨hjk, hstream⟩ => ?_
  obtain rfl := hjk
  have hlast₂ : s₂.stream.Has last j := hstream ▸ hlast
  refine ite (fun hbrace => ?_) fun _ => pure h₂.isSound hj fun _ => hlast₂.grasps
  refine (read h₂.isSound hj hlast₂.grasps (fun _ => Points.unget)
    Mute.compositional.unget).weaken fun _ _ _ _ _ _ _ h => ?_
  rw [hparens h] at hbrace
  cases hbrace

theorem declarationTail (hs : s.IsSound) (hn : s.Complained t.location.offset)
    (hgrasps : s.stream.Grasps t.location.offset) (site : DeclarationSite)
    {property : PropertyName} (hproperty : property.location = t.location) {read : Option Value}
    (hread : ∀ v, read = some v → v.Precedes t.location.offset s.stream) :
    InTurn t.location.offset (Parser.declarationTail site t property read) s fun _ m s' =>
      site.inParens = true → s'.stream.Grasps m := by
  have hcurrent := hgrasps.has_current
  have hplace := hcurrent.passed hs.stream
  unfold Parser.declarationTail
  refine current_bind ?_
  extract_lets important afterRead rest
  have hafterRead : ∀ value : Value, (t.isCustomIdent = false →
      value.Precedes t.location.offset s.stream) →
      InTurn t.location.offset (afterRead value) s fun _ m s' =>
        site.inParens = true → s'.stream.Grasps m := by
    intro value hvalue
    refine options_bind hn fun _ => ?_
    extract_lets afterCheck
    have hafterCheck : ∀ (invalid : Option Diagnostic) {s₁ : State}, Keeps s s₁ →
        s₁.Complained t.location.offset → s₁.stream = s.stream → (∀ e, invalid = some e →
          t.isCustomIdent = false ∧ ∃ v : Validator,
            (v.check property value site.scope).1 = .error e) →
        InTurn t.location.offset (afterCheck invalid) s₁ fun _ m s' =>
          site.inParens = true → s'.stream.Grasps m := by
      intro invalid s₁ h₁ hn₁ hstream hinvalid
      refine options_bind hn₁ fun hlax => ite (fun hstrict => ?_) fun _ => ?_
      · exact absurd (hlax.symm.trans hstrict) Bool.false_ne_true
      refine declarationEvent h₁.isSound hn₁ (by rw [hstream]; exact hcurrent) site fun e he => ?_
      obtain ⟨hcustom, v, hcheck⟩ := hinvalid e he
      have hprecedes := hvalue hcustom
      obtain ⟨loc, hloc, hwhere⟩ := complaint_location hprecedes.isLaidOut hcheck
      refine ⟨loc, hloc, ?_⟩
      rcases hwhere with rfl | ⟨hle, hlt⟩
      · rw [hproperty]
        exact ⟨Nat.le_refl _, hcurrent.2⟩
      · exact ⟨Nat.le_trans hprecedes.le hle,
          Nat.le_of_lt (Nat.lt_of_lt_of_le hlt hprecedes.stop_le)⟩
    refine ite (fun _ => ?_) fun hplain => ?_
    · exact pure_bind (hafterCheck none (Keeps.refl hs) hn rfl fun _ h => by cases h)
    · refine checked_bind hs hn fun invalid s₁ h₁ hn₁ hstream h => ?_
      have hcustom : t.isCustomIdent = false :=
        Bool.eq_false_iff.mpr fun hcustom => hplain (by rw [hcustom]; rfl)
      exact hafterCheck invalid h₁ hn₁ hstream fun e he => ⟨hcustom, h e he⟩
  refine ite (fun _ => ?_) fun _ => ?_
  · exact adjust_bind hs ⟨rfl, rfl, rfl, rfl, rfl, rfl⟩ hn fun h₁ hn₁ =>
      (throw (Q := fun _ _ _ => False) h₁.isSound rfl hcurrent.2
        (hn₁.raise hcurrent.2 hplace.2)).bind fun _ _ _ _ _ _ h => h.elim
  · cases read with
    | some v => exact pure_bind (hafterRead v fun _ => hread v rfl)
    | none =>
      refine ite (fun hcustom => pure_bind (hafterRead _ fun hfalse => ?_)) fun _ => ?_
      · exact absurd (hfalse.symm.trans hcustom) Bool.false_ne_true
      · exact (throw (Q := fun _ _ _ => False) hs rfl hcurrent.2
          (hn.raise hcurrent.2 hplace.2)).bind fun _ _ _ _ _ _ h => h.elim

theorem declarationValue (hs : s.IsSound) (hn : s.Complained t.location.offset)
    (hgrasps : s.stream.Grasps t.location.offset) (ht : t.IsCut s.stream.source)
    (site : DeclarationSite) {property : PropertyName}
    (hproperty : property.location = t.location) (first : TokenKind) :
    InTurn t.location.offset (Parser.declarationValue site t property first) s fun r m s' =>
      (r = false → m = t.location.offset) ∧ (site.inParens = true → s'.stream.Grasps m) := by
  unfold Parser.declarationValue
  extract_lets custom rest
  -- the rest of a declaration, whichever way its value was read
  have htail : ∀ (read : Option Value) {s₁ : State}, s₁.IsSound →
      s₁.Complained t.location.offset → s₁.stream.Grasps t.location.offset →
      (∀ v, read = some v → v.Precedes t.location.offset s₁.stream) →
      InTurn t.location.offset (do Parser.declarationTail site t property read; return true) s₁
        fun r m s' =>
          (r = false → m = t.location.offset) ∧ (site.inParens = true → s'.stream.Grasps m) :=
    fun read {_} hs₁ hn₁ hgrasps₁ hread =>
      (declarationTail hs₁ hn₁ hgrasps₁ site hproperty hread).bind fun _ _ _ h₂ _ hm hparens =>
        pure h₂.isSound hm ⟨fun h => (by cases h), hparens⟩
  have hrest : ∀ {s₁ : State}, Keeps s s₁ → s₁.Complained t.location.offset →
      InTurn t.location.offset (rest ()) s₁ fun r m s' =>
        (r = false → m = t.location.offset) ∧ (site.inParens = true → s'.stream.Grasps m) := by
    intro s₁ h₁ hn₁
    refine ite (fun hspeculative => ?_) fun _ => ?_
    · have hparens : site.inParens = false := by
        revert hspeculative
        cases site.inParens <;> simp
      refine (exprHeldBack h₁.isSound hn₁ _).bind fun r m s₂ h₂ _ hn₂ hread => ?_
      obtain ⟨rfl, hgrasps₂, hread, hheld⟩ := hread
      refine current_bind (ite (fun _ => ?_) fun _ => ?_)
      · have hplace : IsPlace s₂.stream.source t.stop := by
          rw [h₂.source_eq, h₁.source_eq]
          exact ht.stop_isPlace
        obtain ⟨hsound, hsource, hat⟩ := Stream.isSound_seek hplace
        have h₃ := h₂.isSound.withStream hsound hsource
        have hn₃ : ({ s₂ with stream := s₂.stream.seek t.stop } : State).Complained
            t.location.offset := by
          refine hn₂.of_keeps h₃ rfl ?_
          show _ ≤ (s₂.stream.seek t.stop).place.offset
          rw [hat]
          exact ht.location_le_stop
        refine of_ran rfl h₃ (pure h₃.isSound hn₃ ⟨fun _ => rfl, fun h => ?_⟩)
        exact absurd (hparens.symm.trans h) Bool.false_ne_true
      · refine (dispatchAll h₂.isSound hn₂ hheld).bind fun _ m s₃ h₃ _ hn₃ hstream => ?_
        obtain ⟨rfl, hstream⟩ := hstream
        exact htail r.1 h₃.isSound hn₃ (hstream ▸ hgrasps₂) (hstream ▸ hread)
    · refine (expr h₁.isSound hn₁ _ _).bind fun value m s₂ h₂ _ hn₂ hvalue => ?_
      obtain ⟨rfl, hgrasps₂, hread⟩ := hvalue
      exact htail value h₂.isSound hn₂ hgrasps₂ hread
  refine ite (fun _ => hrest (Keeps.refl hs) hn) fun _ => ?_
  refine (read hs hn hgrasps (fun _ => Points.unget) Mute.compositional.unget).bind
    fun _ m s₁ h₁ _ hn₁ h => ?_
  obtain ⟨rfl, -⟩ := h
  exact hrest h₁ hn₁

end InTurn

/-! ## Ways back -/

namespace Stream

/-- **A token that was handed out right after another one.** Both are still in the
window. -/
def Passes (t raw : Token) (st : Stream) : Prop :=
  ∃ (r : Reader) (us behind ahead : List Token),
    st = ⟨r, us.reverse ++ raw :: t :: behind, ahead⟩

/-- Going back to the first leads to where the second starts. -/
theorem Passes.place_rewindTo {t raw : Token} {st : Stream} (h : Passes t raw st)
    (hst : st.IsSound) (ht : t.kind ≠ .eof) : (st.rewindTo t).place = raw.location := by
  obtain ⟨r, us, behind, ahead, rfl⟩ := h
  have hwindow : us.reverse ++ raw :: t :: behind = (raw :: us).reverse ++ t :: behind := by simp
  rw [hwindow] at hst ⊢
  rw [hst.rewindTo_eq ht]
  rfl

end Stream

open Stylesheet.Stream (Passes)

/-- **The token a declaration may fail at** after its name comes right after its
first token. -/
def FailsAfter (site : DeclarationSite) (t : Token) (found : AfterName)
    (st : Stream) : Prop :=
  match found with
  | .value _ => True
  | .pseudo raw => site.inParens = true → Passes t raw st
  | .other raw _ => (site.inParens || t.isCustomIdent) = true → Passes t raw st

namespace InTurn

variable {n : Nat} {s : State} {t : Token}

/-- **A failure at a token that was read long before**, after going back to the
token before it. -/
theorem failAt_rewound {β : Type} {f : Unit → Parser β} {Q : β → Nat → State → Prop} {raw : Token}
    (hs : s.IsSound) (hn : s.Complained t.location.offset) (ht : t.IsCut s.stream.source)
    (heof : t.kind ≠ .eof) (hraw : Passes t raw s.stream) {expected : String} :
    InTurn t.location.offset ((Parser.failAt expected raw : Parser Unit) >>= f)
      { s with stream := s.stream.rewindTo t } Q := by
  obtain ⟨hsound, hsource, hstop, -⟩ := hs.stream.rewindTo ht
  have h₁ := hs.withStream hsound hsource
  have hplace : (s.stream.rewindTo t).place = raw.location :=
    hraw.place_rewindTo hs.stream heof
  have hle : t.location.offset ≤ raw.location.offset := by
    rw [← hplace]
    exact Nat.le_trans ht.location_le_stop hstop
  have hn₁ : ({ s with stream := s.stream.rewindTo t } : State).Complained t.location.offset :=
    hn.of_keeps h₁ rfl (Nat.le_trans ht.location_le_stop hstop)
  refine (throw (Q := fun _ _ _ => False) h₁.isSound rfl hle (hn₁.raise hle ?_)).bind
    fun _ _ _ _ _ _ h => h.elim
  exact Nat.le_of_eq (congrArg Location.offset hplace.symm)

/-- **A declaration.** If it turns out to be none, nothing was complained of. -/
theorem declaration (hs : s.IsSound) (hn : s.Complained t.location.offset)
    (hgrasps : s.stream.Grasps t.location.offset) (ht : t.IsCut s.stream.source)
    (heof : t.kind ≠ .eof) (site : DeclarationSite)
    (hproperty : ∀ property s₁, Parser.propertyName t s = (.ok property, s₁) →
      property.location = t.location)
    (hafter : ∀ property s₁, Parser.propertyName t s = (.ok property, s₁) → ∀ found s₂,
      Parser.afterName site.colon s₁ = (.ok found, s₂) → FailsAfter site t found s₂.stream) :
    InTurn t.location.offset (Parser.declaration site t) s fun r m s' =>
      (r = false → m = t.location.offset) ∧ (site.inParens = true → s'.stream.Grasps m) := by
  unfold Parser.declaration
  refine (read hs hn hgrasps (fun _ => Points.propertyName t)
    (Mute.compositional.propertyName t)).ran.bind
    fun property m s₁ h₁ _ hn₁ hran => ?_
  obtain ⟨⟨rfl, hgrasps₁⟩, hran⟩ := hran
  refine (read h₁.isSound hn₁ hgrasps₁ (fun _ => Points.afterName site.colon)
    (Mute.compositional.afterName _)).ran.bind
    fun found m s₂ h₂ _ hn₂ hran₂ => ?_
  obtain ⟨⟨rfl, hgrasps₂⟩, hran₂⟩ := hran₂
  have hfails := hafter property s₁ hran found s₂ hran₂
  have ht₂ : t.IsCut s₂.stream.source := by
    rw [h₂.source_eq, h₁.source_eq]
    exact ht
  obtain ⟨hsound, hsource, hstop, -⟩ := h₂.isSound.stream.rewindTo ht₂
  have h₃ := h₂.isSound.withStream hsound hsource
  have hfalse : site.inParens = false → InTurn t.location.offset (return false)
      { s₂ with stream := s₂.stream.rewindTo t } fun r m s' =>
        (r = false → m = t.location.offset) ∧ (site.inParens = true → s'.stream.Grasps m) :=
    fun hparens => pure h₃.isSound
      (hn₂.of_keeps h₃ rfl (Nat.le_trans ht₂.location_le_stop hstop))
      ⟨fun _ => rfl, fun h => absurd (hparens.symm.trans h) Bool.false_ne_true⟩
  cases found with
  | value first =>
    exact declarationValue h₂.isSound hn₂ hgrasps₂ ht₂ site (hproperty property s₁ hran) first
  | pseudo raw =>
    refine of_ran rfl h₃ (ite (fun hparens => ?_) fun hparens => hfalse (by simpa using hparens))
    exact failAt_rewound h₂.isSound hn₂ ht₂ heof (hfails hparens)
  | other raw seen =>
    refine of_ran rfl h₃ (ite (fun hopen => hfalse ?_) fun _ => ite (fun hraw => ?_) fun hraw =>
      hfalse ?_)
    · revert hopen
      cases site.inParens <;> simp
    · exact failAt_rewound h₂.isSound hn₂ ht₂ heof (hfails hraw)
    · revert hraw
      cases site.inParens <;> simp

end InTurn

namespace Orderly

variable {s : State} {t : Token}

/-- **What follows a name**, right after it, unless it is a colon. -/
theorem afterName_passes (hs : s.InOrder) (hname : IsElementName t) (h : Front t s.stream) :
    Orderly (Parser.afterName none) s fun found s' => ∀ raw seen, found = .other raw seen →
      Passes t raw s'.stream := by
  unfold Parser.afterName
  extract_lets rest
  have hrest : ∀ (raw seen : Token) {s₁ : State}, s₁.InOrder → Passes t raw s₁.stream →
      Orderly (rest (raw, seen)) s₁ fun found s' => ∀ raw seen, found = .other raw seen →
        Passes t raw s'.stream := by
    intro raw seen s₁ hs₁ hraw
    refine ite (fun _ => ?_) fun _ => pure hs₁ (by rintro _ _ ⟨⟩; exact hraw)
    refine (get hs₁ true true).bind fun first s₂ _ hs₂ _ => pure hs₂ fun raw seen hfound => ?_
    split_ifs at hfound
  rcases front_cases hs h hname with ⟨r, behind, hstream, -⟩ | ⟨r, behind, b, x, hstream, hbar⟩
  · refine (get hs false true).bind fun raw s₁ _ hs₁ hget => ?_
    rw [hstream, Stream.get_bare] at hget
    obtain ⟨rfl, hstream₁⟩ := Prod.mk.inj hget
    refine ite (fun _ => ?_) fun _ => pure_bind (hrest _ _ hs₁ ?_)
    · refine (get hs₁ false false).bind fun seen s₂ _ hs₂ hget₂ => ?_
      rw [← hstream₁, Stream.get_bare] at hget₂
      obtain ⟨rfl, hstream₂⟩ := Prod.mk.inj hget₂
      refine pure_bind (hrest _ _ hs₂ ?_)
      have hwindow : ∀ seen raw : Token,
          (seen :: (raw :: t :: behind).take Stream.capacity).take Stream.capacity =
            [seen].reverse ++ raw :: t :: behind.take 2 := fun _ _ => by
        simp [Stream.capacity, List.take_take]
      rw [← hstream₂]
      exact ⟨_, [_], behind.take 2, [], congrArg (Stream.mk _ · []) (hwindow _ _)⟩
    · rw [← hstream₁]
      exact ⟨_, [], behind.take 3, [], rfl⟩
  · refine (get hs false true).bind fun raw s₁ _ hs₁ hget => ?_
    rw [hstream, get_bar hbar] at hget
    obtain ⟨rfl, hstream₁⟩ := Prod.mk.inj hget
    have hraw : Passes t b s₁.stream := by
      rw [← hstream₁]
      exact ⟨r, [], behind, [x], rfl⟩
    refine ite (fun hblank => ?_) fun _ => pure_bind (hrest b b hs₁ hraw)
    exact absurd (hbar.symm.trans (eq_of_beq hblank)) TokenKind.noConfusion

end Orderly

namespace InTurn

variable {s : State} {t : Token}

/-- **A declaration as an item of a block.** -/
theorem declaration_item (hs : s.InOrder) (h : Front t s.stream) (hname : IsElementName t)
    (hcustom : t.isCustomIdent = true → t.kind = .ident) (ht : t.IsCut s.stream.source)
    (hn : s.Complained t.location.offset) (scope : Option String) :
    InTurn t.location.offset (Parser.declaration { scope := scope } t) s fun r m _ =>
      r = false → m = t.location.offset := by
  have heof : t.kind ≠ .eof := by
    rcases hname with hkind | hkind <;> rw [hkind] <;> exact TokenKind.noConfusion
  have hnamed := Orderly.propertyName hs h hname
  refine (declaration hs.isSound hn ⟨t, h.head, Nat.le_refl _⟩ ht heof _
    (fun property s₁ hran => ?_) ?_).weaken fun _ _ _ _ _ _ h => h.1
  · have hproperty := hnamed.ok property (by rw [hran])
    exact hproperty.1
  intro property s₁ hran found s₂ hran₂
  cases found with
  | value _ => trivial
  | pseudo _ => exact fun hparens => absurd hparens Bool.false_ne_true
  | other raw seen =>
    intro hraw
    -- a custom name is itself the name
    obtain ⟨_, hran', -⟩ := propertyName_of_ident (hcustom hraw) s
    obtain ⟨-, rfl⟩ := Prod.mk.inj (hran.symm.trans hran')
    have hfound := (Orderly.afterName_passes hs hname h).ok (.other raw seen) (by rw [hran₂])
    rw [hran₂] at hfound
    exact hfound raw seen rfl

/-- **A declaration in brackets**, whose name and colon have been read. The closing
bracket is in hand. -/
theorem declaration_inParens {r : Reader} {behind : List Token} {c : Token} (hs : s.IsSound)
    (hstream : s.stream = ⟨r, c :: t :: behind, []⟩) (hcolon : c.kind = .colon)
    (hident : t.kind = .ident) (hn : s.Complained t.location.offset) :
    InTurn t.location.offset (Parser.declaration { colon := some c, inParens := true } t) s
      fun _ m s' => s'.stream.Grasps m := by
  have hbehind : s.stream.behind = c :: t :: behind := by rw [hstream]
  have ht : t.IsCut s.stream.source := hs.stream.isCut t (by simp [Stream.window, hbehind])
  have heof : t.kind ≠ .eof := by
    rw [hident]
    exact TokenKind.noConfusion
  have hgrasps : s.stream.Grasps t.location.offset := by
    refine ⟨c, by rw [Stream.current?, hbehind]; rfl, ?_⟩
    have hordered := hs.stream.ordered
    rw [Stream.window, hbehind, List.reverse_cons, List.reverse_cons, List.append_assoc,
      List.append_assoc, List.pairwise_append] at hordered
    have hle := (List.pairwise_cons.mp hordered.2.1).1 c (by simp)
    exact Nat.le_trans ht.location_le_stop hle
  obtain ⟨property, hname, hproperty⟩ := propertyName_of_ident hident s
  refine (declaration hs hn hgrasps ht heof _ (fun property' s₁ hran => ?_) ?_).weaken
    fun _ _ _ _ _ _ h => h.2 rfl
  · obtain ⟨hsame, -⟩ := Prod.mk.inj (hran.symm.trans hname)
    rw [Except.ok.inj hsame]
    exact hproperty
  intro property' s₁ hran found s₂ hran₂
  obtain ⟨-, rfl⟩ := Prod.mk.inj (hname.symm.trans hran)
  -- the colon comes right after the name
  have hpasses : Passes t c (s.stream.get true true).2 := by
    rw [hstream, Stream.get_bare]
    exact ⟨_, [_], behind.take 2, [], rfl⟩
  have hnext : Parser.next true true s = (.ok (s.stream.get true true).1,
      { s with stream := (s.stream.get true true).2 }) := rfl
  have hfound : Parser.afterName (some c) s =
      (.ok (if (s.stream.get true true).1.kind == .colon then .pseudo c
        else .value (s.stream.get true true).1.kind),
        { s with stream := (s.stream.get true true).2 }) := by
    have hseen : (c.kind == .colon) = true := by rw [hcolon]; rfl
    unfold Parser.afterName
    refine (bind_ok (show (Pure.pure (c, c) : Parser _) s = (.ok (c, c), s) from rfl)).trans ?_
    dsimp only
    rw [if_pos hseen]
    exact bind_ok hnext
  obtain ⟨hanswer, rfl⟩ := Prod.mk.inj (hfound.symm.trans hran₂)
  obtain rfl := Except.ok.inj hanswer
  split_ifs
  · exact fun _ => hpasses
  · trivial

end InTurn

end Stylesheet
