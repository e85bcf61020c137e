import Stylesheet.Proofs.Core.Lexemes
import Stylesheet.Proofs.Reads.Declaration

/-!
# Declarations of the core language

Whether blanks follow the colon decides how the value is read. After a
blank it is read at once. Without one a word may turn out to begin a nested
rule, so that the value is read with its events held back. In the core
language there are no such events, and what ends the value is never a brace
that opens a block, so that both ways come to the same.
-/

namespace Stylesheet

open Parse (State)
open Stylesheet.Parser

namespace Core

variable {s : State} {a z cs : List Char} {l : List Token}
  {i : ExprParser} {w : List Char} {kind : TokenKind}

/-! ## Parts of values -/

/-- **A part is the first token** of what it starts. -/
theorem Part.significant (p : Part) (h : Ends z) (hcolon : z.head? ≠ some ':') :
    ((Lexeme.significant (p.chars ++ z)).kind = .ident ∧
        (Lexeme.significant (p.chars ++ z)).payload = .ident (String.ofList p.chars) 0 false ∨
      (Lexeme.significant (p.chars ++ z)).kind = .number) ∧
      (Lexeme.significant (p.chars ++ z)).size = p.chars.length := by
  cases p with
  | word w =>
    have hcut := w.significant h fun _ hhead => absurd hhead hcolon
    exact ⟨.inl ⟨congrArg Lexeme.kind hcut, congrArg Lexeme.payload hcut⟩,
      congrArg Lexeme.size hcut⟩
  | numeral n => exact ⟨.inr (n.significant h).1, (n.significant h).2⟩

theorem Part.solid (p : Part) : Solid (p.chars ++ z) := by
  cases p with
  | word w => exact w.solid
  | numeral n => exact n.solid

/-- A part where it stands. -/
def Part.token (p : Part) (a z : List Char) : Token :=
  (Lexeme.significant (p.chars ++ z)).after a p.chars

/-- **The next token is a part of a value**, after blanks. -/
theorem next_part (g : Gap) (p : Part) (h : Ends z) (hcolon : z.head? ≠ some ':') :
    next true false (s.on a (g.chars ++ (p.chars ++ z)) l []) =
      (.ok (p.token (a ++ g.chars) z), s.on (a ++ g.chars ++ p.chars) z
        (p.token (a ++ g.chars) z :: l.take 4) []) :=
  next_on g p.solid rfl (p.significant h hcolon).2

theorem Part.kind_token (p : Part) (h : Ends z) (hcolon : z.head? ≠ some ':') :
    (p.token a z).kind = .ident ∨ (p.token a z).kind = .number :=
  (p.significant h hcolon).1.imp And.left id

/-- **A word or a number is a part** as it stands. -/
theorem plainPart_on (p : Part) (h : Ends z) (hcolon : z.head? ≠ some ':') :
    ∃ part, plainPart i (p.token a z) false s = (.ok part, s) ∧
      part.location = Location.start.advance a ∧
      part.stop = Location.start.advance (a ++ p.chars) := by
  have hword : ∀ t : Token, (wordPart t).location = t.location ∧
      (wordPart t).stop = t.stop := by
    intro t
    unfold wordPart
    dsimp only
    split_ifs <;> exact ⟨rfl, rfl⟩
  obtain ⟨hcases, -⟩ := p.significant h hcolon
  have hcustom : (p.token a z).kind = .ident →
      (p.token a z).isCustomIdent = false := by
    intro hident
    obtain ⟨-, hpayload⟩ | hnumber := hcases
    · unfold Token.isCustomIdent
      rw [show (p.token a z).payload = _ from hpayload]
    · cases hident.symm.trans hnumber
  unfold plainPart
  rcases p.kind_token (a := a) h hcolon with hident | hnumber
  · refine ⟨wordPart (p.token a z), ?_, (hword _).1, (hword _).2⟩
    rw [if_neg (by simp [hident]), if_neg Bool.false_ne_true, if_neg (by simp [hident]),
      if_pos (by simp [hident, hcustom hident])]
    rfl
  · refine ⟨.ofToken (p.token a z), ?_, rfl, rfl⟩
    rw [if_neg (by simp [hnumber]), if_neg Bool.false_ne_true, if_neg (by simp [hnumber]),
      if_neg (by simp [hnumber])]
    rfl

/-! ## Values -/

/-- **What ends a declaration**: a semicolon, a closing brace, or the end of
the text. -/
inductive Closes : List Char → List Char → TokenKind → Prop where
  /-- A semicolon. -/
  | semicolon (z : List Char) : Closes [';'] z .semicolon
  /-- A closing brace. -/
  | brace (z : List Char) : Closes ['\x7d'] z .rBrace
  /-- The end of the text. -/
  | stop : Closes [] [] .eof

/-- The end of a declaration where it stands. -/
def endAt (w : List Char) (kind : TokenKind) (a : List Char) : Token :=
  (⟨kind, .none, w.length⟩ : Lexeme).after a w

/-- **The next token ends a declaration**, after blanks. -/
theorem next_close (g : Gap) (h : Closes w z kind) :
    next true false (s.on a (g.chars ++ (w ++ z)) l []) =
      (.ok (endAt w kind (a ++ g.chars)), s.on (a ++ g.chars ++ w) z
        (endAt w kind (a ++ g.chars) :: l.take 4) []) := by
  cases h with
  | semicolon => exact next_mark g (by decide)
  | brace => exact next_mark g (by decide)
  | stop => exact next_on g (fun _ h => by cases h) rfl rfl

/-- What comes after a part of a value. -/
theorem after_part (g : Gap) (h : Closes w z kind) :
    Ends (g.chars ++ (w ++ z)) ∧ (g.chars ++ (w ++ z)).head? ≠ some ':' := by
  have hclose : Ends (w ++ z) ∧ (w ++ z).head? ≠ some ':' := by
    cases h with
    | semicolon => exact ⟨.cons rfl, by simp⟩
    | brace => exact ⟨.cons rfl, by simp⟩
    | stop => exact ⟨.nil, by simp⟩
  refine ⟨g.ends hclose.1, ?_⟩
  cases hchars : g.chars with
  | nil => exact hclose.2
  | cons b blanks =>
    intro hhead
    obtain rfl : b = ':' := Option.some.inj hhead
    obtain hb | hb := g.blank ':' (hchars ▸ List.mem_cons_self) <;> cases hb

/-- The end of a value. -/
theorem exprStep_end {g : Gap} {parts : List ValuePart} (h : Closes w z kind) :
    exprStep i valueEnd false parts
        (s.on a (g.chars ++ (w ++ z)) l []) =
      (.ok (.done parts), s.on (a ++ g.chars ++ w) z
        (endAt w kind (a ++ g.chars) :: l.take 4) []) := by
  unfold exprStep
  refine (bind_ok (next_close g h)).trans ?_
  cases h <;> rfl

/-- **One more part of a value**, after blanks. -/
theorem exprStep_part (g : Gap) (p : Part) (h : Ends z) (hcolon : z.head? ≠ some ':')
    (parts : List ValuePart) :
    ∃ part, exprStep i valueEnd false parts
        (s.on a (g.chars ++ (p.chars ++ z)) l []) =
          (.ok (.yield (part :: parts)), s.on (a ++ g.chars ++ p.chars) z
            (p.token (a ++ g.chars) z :: l.take 4) []) ∧
      part.location = Location.start.advance (a ++ g.chars) ∧
      part.stop = Location.start.advance (a ++ g.chars ++ p.chars) := by
  obtain ⟨part, hpart, hlocation, hstop⟩ := plainPart_on (s := s.on (a ++ g.chars ++ p.chars) z
    (p.token (a ++ g.chars) z :: l.take 4) []) (i := i)
    (a := a ++ g.chars) p h hcolon
  refine ⟨part, ?_, hlocation, hstop⟩
  have hkind : ((p.token (a ++ g.chars) z).isEof ||
      valueEnd.contains (p.token (a ++ g.chars) z).kind) = false ∧
      closingKind? (p.token (a ++ g.chars) z).kind = none := by
    unfold Token.isEof
    rcases p.kind_token (a := a ++ g.chars) h hcolon with hkind | hkind <;> rw [hkind] <;>
      exact ⟨rfl, rfl⟩
  unfold exprStep
  refine (bind_ok (next_part g p h hcolon)).trans ?_
  rw [if_neg (Bool.eq_false_iff.mp hkind.1), hkind.2]
  exact bind_ok hpart

/-- The blank between two parts. -/
def space : Gap := ⟨[' '], fun _ hc => .inl (List.mem_singleton.mp hc)⟩

/-- How many parts a value has. -/
def Parts.count : Parts → Nat
  | .last _ => 1
  | .more _ z => z.count + 1

/-- **The parts of a value** with the places they span. -/
structure Spans (start stop : Location) (parts : List ValuePart) : Prop where
  /-- There is a first part, which starts at the first place. -/
  head : parts.head?.map (·.location) = some start
  /-- There is a last part, which stops at the second place. -/
  last : parts.getLast?.map (·.stop) = some stop

/-- **The parts of a value**, one after the other, up to and including the
mark after it. -/
theorem exprSteps_on (g : Gap) (ps : Parts) (g' : Gap) (h : Closes w z kind) {n : Nat}
    (hn : ps.count < n) (sofar : List ValuePart) :
    ∃ parts l', rounds (exprStep i valueEnd false) n sofar
        (s.on a (g.chars ++ (ps.chars ++ (g'.chars ++ (w ++ z)))) l []) =
          (.ok (parts.reverse ++ sofar), s.on (a ++ g.chars ++ ps.chars ++ g'.chars ++ w) z
            (endAt w kind (a ++ g.chars ++ ps.chars ++ g'.chars) :: l') []) ∧
      Spans (Location.start.advance (a ++ g.chars))
        (Location.start.advance (a ++ g.chars ++ ps.chars)) parts := by
  induction ps generalizing n g a l sofar with
  | last p =>
    obtain ⟨n, rfl⟩ : ∃ k, n = k + 2 := ⟨n - 2, by simp [Parts.count] at hn; omega⟩
    obtain ⟨hends, hcolon⟩ := after_part (z := z) g' h
    obtain ⟨part, hpart, hlocation, hstop⟩ := exprStep_part (s := s) (i := i)
      (a := a) (l := l) g p hends hcolon sofar
    refine ⟨[part], _, (rounds_yield hpart).trans (rounds_done (exprStep_end h)), ?_⟩
    exact ⟨congrArg some hlocation, congrArg some hstop⟩
  | more p ps ih =>
    obtain ⟨n, rfl⟩ : ∃ k, n = k + 1 := ⟨n - 1, by simp [Parts.count] at hn; omega⟩
    have hends : Ends (' ' :: (ps.chars ++ (g'.chars ++ (w ++ z)))) := .cons rfl
    obtain ⟨part, hpart, hlocation, hstop⟩ := exprStep_part (s := s) (i := i)
      (a := a) (l := l) g p hends (by simp) sofar
    obtain ⟨parts, l', hrounds, hspans⟩ := ih space (n := n) (a := a ++ g.chars ++ p.chars)
      (l := p.token (a ++ g.chars) (' ' :: (ps.chars ++ (g'.chars ++ (w ++ z)))) ::
        l.take 4) (by simp [Parts.count] at hn; omega) (part :: sofar)
    have hchars : g.chars ++ ((Parts.more p ps).chars ++ (g'.chars ++ (w ++ z))) =
        g.chars ++ (p.chars ++ (' ' :: (ps.chars ++ (g'.chars ++ (w ++ z))))) := by
      simp [Parts.chars]
    have hbefore : a ++ g.chars ++ (Parts.more p ps).chars =
        a ++ g.chars ++ p.chars ++ space.chars ++ ps.chars := by
      simp [Parts.chars, space]
    refine ⟨part :: parts, l', ?_, ?_⟩
    · rw [hchars, hbefore]
      refine (rounds_yield hpart).trans ?_
      refine (show _ = _ from hrounds).trans ?_
      simp
    · rw [hbefore]
      refine ⟨congrArg some hlocation, ?_⟩
      obtain ⟨q, qs, rfl⟩ : ∃ q qs, parts = q :: qs := by
        cases parts with
        | nil => cases hspans.head
        | cons q qs => exact ⟨q, qs, rfl⟩
      rw [List.getLast?_cons_cons]
      exact hspans.last

/-- **A value of the core language**, up to and including the mark after
it. -/
theorem expr_on (g : Gap) (ps : Parts) (g' : Gap) (h : Closes w z kind)
    (hbudget : ps.count + 1 < s.budget) :
    ∃ v l', expr valueEnd false
        (s.on a (g.chars ++ (ps.chars ++ (g'.chars ++ (w ++ z)))) l []) =
          (.ok (some v), s.on (a ++ g.chars ++ ps.chars ++ g'.chars ++ w) z
            (endAt w kind (a ++ g.chars ++ ps.chars ++ g'.chars) :: l') []) ∧
      v.text = String.ofList ps.chars := by
  obtain ⟨b, hb⟩ : ∃ b, s.budget = b + 1 := ⟨s.budget - 1, by omega⟩
  obtain ⟨parts, l', hrounds, hspans⟩ := exprSteps_on (s := s) (i := exprTo b)
    (a := a) (z := z) (l := l) g ps g' h (n := s.budget) (by omega) []
  have hne : parts.isEmpty = false := by
    cases parts with
    | nil => cases hspans.head
    | cons q qs => rfl
  rw [List.append_nil] at hrounds
  have hloop : repeating [] (exprStep (exprTo b) valueEnd false)
      (s.on a (g.chars ++ (ps.chars ++ (g'.chars ++ (w ++ z)))) l []) =
        (.ok parts.reverse, s.on (a ++ g.chars ++ ps.chars ++ g'.chars ++ w) z
          (endAt w kind (a ++ g.chars ++ ps.chars ++ g'.chars) :: l') []) := hrounds
  refine ⟨.ofParts parts (a ++ g.chars ++ ps.chars ++ g'.chars ++ w ++ z), l', ?_, ?_⟩
  · show exprTo s.budget _ _ _ = _
    rw [hb]
    refine (bind_ok hloop).trans ?_
    rw [List.isEmpty_reverse, hne, if_neg Bool.false_ne_true, List.reverse_reverse]
    rfl
  · have hstart : (parts.head?.map (·.location)).getD .start =
        Location.start.advance (a ++ g.chars) := by rw [hspans.head]; rfl
    have hstop : (parts.getLast?.map (·.stop)).getD ((parts.head?.map (·.location)).getD .start) =
        Location.start.advance (a ++ g.chars ++ ps.chars) := by rw [hspans.last]; rfl
    show String.ofList (Text.slice _ _ _) = _
    rw [hstop, hstart, Location.offset_advance_start, Location.offset_advance_start,
      Text.byteLength_append (a ++ g.chars), List.append_assoc _ _ z, List.append_assoc _ g'.chars,
      List.append_assoc (a ++ g.chars), Text.slice_append]

/-! ## Names -/

/-- **The name of a property** that is a word. -/
theorem propertyName_on {t : Token} {w : Word} (hkind : t.kind = .ident)
    (htext : t.text = String.ofList w.chars) :
    propertyName t s = (.ok (.ofText t.text t.location), s) := by
  have hlow : Text.startsWith t.text "_" = false := by
    have hne : '_' ≠ w.first := by
      intro hfirst
      have := w.first_isLetter
      rw [← hfirst] at this
      exact absurd this (by decide)
    rw [htext]
    simp [Text.startsWith, Word.chars, List.isPrefixOf, hne]
  unfold propertyName
  rw [if_neg (by simp [hkind])]
  refine (bind_ok (show options s = (.ok s.options, s) from rfl)).trans ?_
  rw [hlow, Bool.and_false, if_neg Bool.false_ne_true]
  rfl

/-- The token after a colon is no other one. -/
theorem afterColon_on {raw t : Token} {s₁ : State}
    (hnext : next true true s = (.ok t, s₁)) (ht : t.kind ≠ .colon) :
    (do
      let first ← next true true
      return if first.kind == .colon then .pseudo raw else .value first.kind :
        Parser AfterName) s = (.ok (.value t.kind), s₁) := by
  refine (bind_ok hnext).trans ?_
  rw [if_neg (by simpa using ht)]
  rfl

/-- **What follows the name of a property** is a colon, and the token after
it. -/
theorem afterName_on (g : Gap) :
    ∃ l', ∀ t s₁, next true true
        (s.on (a ++ g.chars ++ [':']) z l' []) = (.ok t, s₁) → t.kind ≠ .colon →
      afterName none (s.on a (g.chars ++ ':' :: z) l []) =
        (.ok (.value t.kind), s₁) := by
  have hmark : (':', TokenKind.colon) ∈ marks := by decide
  by_cases hg : g.chars = []
  · refine ⟨markAt ':' .colon a :: l.take 4, fun t s₁ hnext ht => ?_⟩
    have hraw : next false true (s.on a ([':'] ++ z) l []) = _ :=
      next_solid (solid_mark hmark) (significant_mark hmark) rfl
    rw [hg, List.append_nil] at hnext
    rw [hg]
    refine (show afterName none _ = _ from bind_ok hraw).trans ?_
    exact afterColon_on hnext ht
  · refine ⟨markAt ':' .colon (a ++ g.chars) ::
      (g.lexeme.after a g.chars :: l.take 4).take 4, fun t s₁ hnext ht => ?_⟩
    have hraw : next false true (s.on a (g.chars ++ ':' :: z) l []) = _ :=
      next_gap g hg (solid_mark hmark)
    have hgrab : grab (s.on (a ++ g.chars) (':' :: z)
        (g.lexeme.after a g.chars :: l.take 4) []) = (.ok (markAt ':' .colon
          (a ++ g.chars)), s.on (a ++ g.chars ++ [':']) z (markAt ':' .colon
            (a ++ g.chars) :: (g.lexeme.after a g.chars :: l.take 4).take 4) []) := by
      have h : next false false (s.on (a ++ g.chars) (noGap.chars ++ ':' :: z)
        (g.lexeme.after a g.chars :: l.take 4) []) = _ := next_mark noGap hmark
      rw [show noGap.chars = [] from rfl, List.append_nil] at h
      exact h
    refine (show afterName none _ = _ from bind_ok hraw).trans ?_
    refine (show _ = _ from bind_ok hgrab).trans ?_
    exact afterColon_on hnext ht

/-! ## Values that are read twice -/

/-- **A value whose events are held back**, when there are none. -/
theorem exprHeldBack_on {s₁ s₂ : State} {v : Option Value} (hdeferred : s₂.deferred = none)
    (h : expr valueEnd false { s₁ with deferred := some [] } =
      (.ok v, { s₂ with deferred := some [] })) :
    exprHeldBack valueEnd s₁ = (.ok (v, []), s₂) := by
  rw [exprHeldBack_apply, h]
  obtain ⟨_, _, _, _, _, deferred, _, _, _, _, _⟩ := s₂
  subst hdeferred
  rfl

/-! ## Declarations -/

/-- **A check changes nothing but what checks remember.** -/
theorem checked_inv (name : PropertyName) (value : Value) (scope : Option String) (s : State) :
    ∃ r validator, checked name value scope s =
      (.ok r, { s with validator := validator }) := by
  unfold checked
  rcases hcheck : s.validator.check name value scope with ⟨e | _, validator⟩
  · refine ⟨some e, validator, ?_⟩
    show (Except.ok _, _) = _
    simp only [hcheck]
  · refine ⟨none, validator, ?_⟩
    show (Except.ok _, _) = _
    simp only [hcheck]

/-- **The rest of a declaration**, reported as it is. -/
theorem declarationTail_on (property : PropertyName) (b : List Char) {t : Token} {v : Value}
    (h : Closes w z kind) (hcustom : t.isCustomIdent = false)
    (hlax : s.options.strict = false) (hdeferred : s.deferred = none) (hstore : s.store = none) :
    ∃ (validator : Validator) (e : Event),
      e.gist = .property property.display v.text false ∧ e.declaredAt? = some t.location ∧
      declarationTail {} t property (some v)
          (s.on a z (endAt w kind b :: l) []) =
        (.ok (), ({ s with validator := validator, events := e :: s.events } : State).on a z
          (if kind = .rBrace then l else endAt w kind b :: l)
          (if kind = .rBrace then [endAt w kind b] else [])) := by
  let reported : Option Diagnostic → Event := fun r =>
    ⟨.property ⟨property, v, false, false, none, r⟩, t.location⟩
  have hfire : ∀ validator r kind, fire (reported r).kind t.location (({ s with
      validator := validator } : State).on a z (endAt w kind b :: l) []) = (.ok (), ({ s with
        validator := validator, events := reported r :: s.events } : State).on a z
          (endAt w kind b :: l) []) := fun validator r kind =>
    fire_apply (s := ({ s with validator := validator } : State).on a z
      (endAt w kind b :: l) []) hdeferred hstore _ _
  obtain ⟨finish, hfinish, hrun⟩ : ∃ finish : Option Diagnostic → Parser Unit,
      (∀ r validator, finish r (({ s with validator := validator } : State).on a z
        (endAt w kind b :: l) []) = (.ok (), ({ s with
          validator := validator, events := reported r :: s.events } : State).on a z
            (if kind = .rBrace then l else endAt w kind b :: l)
            (if kind = .rBrace then [endAt w kind b] else []))) ∧
      declarationTail {} t property (some v) (s.on a z (endAt w kind b :: l) []) =
        (if (t.isCustomIdent || s.options.noValidation) = true then pure none >>= finish
          else checked property v none >>= finish : Parser Unit)
          (s.on a z (endAt w kind b :: l) []) := by
    cases h <;> refine ⟨_, fun r validator => ?_, rfl⟩
    all_goals
      show (if s.options.strict = true then _ else _ : Parser Unit) _ = _
      rw [hlax, if_neg Bool.false_ne_true]
      exact (show _ = _ from bind_ok (hfire validator r _)).trans rfl
  rw [hrun, hcustom, Bool.false_or]
  split
  · exact ⟨s.validator, reported none, rfl, rfl, hfinish none s.validator⟩
  · obtain ⟨r, validator, hchecked⟩ := checked_inv property v none
      (s.on a z (endAt w kind b :: l) [])
    exact ⟨validator, reported r, rfl, rfl,
      (bind_ok hchecked).trans (hfinish r validator)⟩

/-- The first part of a value. -/
def Parts.first : Parts → Part
  | .last p => p
  | .more p _ => p

/-- The text of a value after its first part. -/
def Parts.tail : Parts → List Char
  | .last _ => []
  | .more _ z => ' ' :: z.chars

theorem Parts.first_append_tail (ps : Parts) : ps.chars = ps.first.chars ++ ps.tail := by
  cases ps with
  | last p => exact (List.append_nil _).symm
  | more p z => rfl

/-- What comes after the first part of a value. -/
theorem Parts.after_first (ps : Parts) (g : Gap) (h : Closes w z kind) :
    Ends (ps.tail ++ (g.chars ++ (w ++ z))) ∧
      (ps.tail ++ (g.chars ++ (w ++ z))).head? ≠ some ':' := by
  cases ps with
  | last p => exact after_part g h
  | more p ps => exact ⟨.cons rfl, by simp [Parts.tail]⟩

theorem Parts.solid (ps : Parts) : Solid (ps.chars ++ cs) := by
  rw [ps.first_append_tail, List.append_assoc]
  exact ps.first.solid

/-- **The token after a colon and the value it belongs to.** However the
value is read, the rest of the declaration finds the mark after it. -/
theorem declarationValue_on (property : PropertyName) (g : Gap) (ps : Parts) (g' : Gap)
    (h : Closes w z kind) {t : Token} (hcustom : t.isCustomIdent = false)
    (hbudget : ps.count + 1 < s.budget) (hdeferred : s.deferred = none) :
    ∃ (first : Token) (s₁ : State) (v : Value) (l' : List Token),
      next true true
          (s.on a (g.chars ++ (ps.chars ++ (g'.chars ++ (w ++ z)))) l []) =
        (.ok first, s₁) ∧
      first.kind ≠ .colon ∧ v.text = String.ofList ps.chars ∧
      declarationValue {} t property first.kind s₁ =
        (do
          declarationTail {} t property (some v)
          return true) (s.on (a ++ g.chars ++ ps.chars ++ g'.chars ++ w) z
            (endAt w kind (a ++ g.chars ++ ps.chars ++ g'.chars) :: l') []) := by
  by_cases hg : g.chars = []
  · -- the first token of the value is read, and taken back
    obtain ⟨hends, hcolon⟩ := ps.after_first (z := z) g' h
    have hchars : ps.chars ++ (g'.chars ++ (w ++ z)) =
        ps.first.chars ++ (ps.tail ++ (g'.chars ++ (w ++ z))) := by
      rw [ps.first_append_tail, List.append_assoc]
    have hkind := ps.first.kind_token (a := a) hends hcolon
    have hnext : next true true (s.on a (ps.first.chars ++ (ps.tail ++
        (g'.chars ++ (w ++ z)))) l []) = _ :=
      next_solid ps.first.solid rfl (ps.first.significant hends hcolon).2
    have hback : ∀ s : State, next true false (s.on (a ++ ps.first.chars)
        (ps.tail ++ (g'.chars ++ (w ++ z))) (l.take 4)
        [ps.first.token a (ps.tail ++ (g'.chars ++ (w ++ z)))]) =
          next true false (s.on a (noGap.chars ++ (ps.chars ++ (g'.chars ++ (w ++ z))))
            l []) := by
      intro s
      have hcut := next_part (s := s) (a := a) (l := l) noGap ps.first hends hcolon
      rw [show noGap.chars = [] from rfl, List.append_nil, ← hchars] at hcut
      refine Eq.trans (next_back ?_) hcut.symm
      unfold Mode.hides
      rcases hkind with hkind | hkind <;> rw [hkind] <;> rfl
    have hvalue : ∀ s : State, ps.count + 1 < s.budget → ∃ v l',
        expr valueEnd false (s.on (a ++ ps.first.chars)
          (ps.tail ++ (g'.chars ++ (w ++ z))) (l.take 4)
          [ps.first.token a (ps.tail ++ (g'.chars ++ (w ++ z)))]) =
            (.ok (some v), s.on (a ++ ps.chars ++ g'.chars ++ w) z
              (endAt w kind (a ++ ps.chars ++ g'.chars) :: l') []) ∧
        v.text = String.ofList ps.chars := by
      intro s hbudget
      obtain ⟨v, l', hexpr, hv⟩ := expr_on (s := s) (z := z) (a := a)
        (l := l) noGap ps g' h hbudget
      rw [show noGap.chars = [] from rfl, List.append_nil] at hexpr
      refine ⟨v, l', (expr_of_next (hback s) rfl ?_).trans hexpr, hv⟩
      show 1 < s.budget
      omega
    rw [hg, List.append_nil, List.nil_append, hchars]
    rcases hkind with hident | hnumber
    · obtain ⟨v, l', hexpr, hv⟩ := hvalue { s with deferred := some [] } hbudget
      refine ⟨_, _, v, l', hnext, ?_, hv, ?_⟩
      · exact fun hcol => by cases hident.symm.trans hcol
      · have hheld : exprHeldBack valueEnd (s.on (a ++ ps.first.chars)
            (ps.tail ++ (g'.chars ++ (w ++ z))) (l.take 4)
            [ps.first.token a (ps.tail ++ (g'.chars ++ (w ++ z)))]) =
              (.ok (some v, []), s.on (a ++ ps.chars ++ g'.chars ++ w) z
                (endAt w kind (a ++ ps.chars ++ g'.chars) :: l') []) :=
          exprHeldBack_on hdeferred hexpr
        have hbrace : ((endAt w kind (a ++ ps.chars ++ g'.chars)).kind == .lBrace) = false := by
          cases h <;> rfl
        unfold declarationValue
        rw [show (Lexeme.after _ _ _ : Token).kind = _ from hident, hcustom]
        refine (show _ = _ from bind_ok unget_on).trans ?_
        refine (show _ = _ from bind_ok hheld).trans ?_
        refine (show _ = _ from bind_ok current_on).trans ?_
        rw [hbrace]
        rfl
    · obtain ⟨v, l', hexpr, hv⟩ := hvalue s hbudget
      refine ⟨_, _, v, l', hnext, ?_, hv, ?_⟩
      · exact fun hcol => by cases hnumber.symm.trans hcol
      · unfold declarationValue
        rw [show (Lexeme.after _ _ _ : Token).kind = _ from hnumber, hcustom]
        refine (show _ = _ from bind_ok unget_on).trans ?_
        exact bind_ok hexpr
  · have hnext : next true true (s.on a (g.chars ++ (ps.chars ++ (g'.chars ++ (w ++ z)))) l
        []) = _ := next_gap g hg ps.solid
    obtain ⟨v, l', hexpr, hv⟩ := expr_on (s := s) (z := z) (a := a ++ g.chars)
      (l := g.lexeme.after a g.chars :: l.take 4) noGap ps g' h hbudget
    rw [show noGap.chars = [] from rfl, List.append_nil] at hexpr
    refine ⟨_, _, v, l', hnext, nofun, hv, ?_⟩
    unfold declarationValue
    rw [hcustom]
    exact bind_ok hexpr

/-- **A declaration** after its name. A semicolon is read with it, a brace is
taken back. -/
theorem declaration_on (d : Declared) (h : Closes w z kind) {t : Token}
    (hkind : t.kind = .ident) (htext : t.text = String.ofList d.name.chars)
    (hcustom : t.isCustomIdent = false) (hbudget : d.value.count + 1 < s.budget)
    (hlax : s.options.strict = false) (hdeferred : s.deferred = none) (hstore : s.store = none) :
    ∃ (validator : Validator) (e : Event) (l' : List Token), e.gist = d.gist ∧
      e.declaredAt? = some t.location ∧ declaration {} t (s.on a (d.tail ++ (w ++ z)) l []) =
        (.ok true, ({ s with validator := validator, events := e :: s.events } : State).on
          (a ++ d.tail ++ w) z
          (if kind = .rBrace then l' else endAt w kind (a ++ d.tail) :: l')
          (if kind = .rBrace then [endAt w kind (a ++ d.tail)] else [])) := by
  obtain ⟨l₁, hcolon⟩ := afterName_on (s := s) (a := a) (l := l)
    (z := d.afterColon.chars ++ (d.value.chars ++ (d.after.chars ++ (w ++ z)))) d.beforeColon
  obtain ⟨first, s₁, v, l₂, hnext, hfirst, hv, hvalue⟩ := declarationValue_on (s := s)
    (a := a ++ d.beforeColon.chars ++ [':']) (z := z) (l := l₁) (.ofText t.text t.location)
    d.afterColon d.value d.after h hcustom hbudget hdeferred
  obtain ⟨validator, e, hgists, hplace, htail⟩ := declarationTail_on (s := s) (z := z)
    (a := a ++ d.beforeColon.chars ++ [':'] ++ d.afterColon.chars ++ d.value.chars ++
      d.after.chars ++ w) (l := l₂) (t := t) (v := v) (.ofText t.text t.location)
    (a ++ d.beforeColon.chars ++ [':'] ++ d.afterColon.chars ++ d.value.chars ++ d.after.chars) h
    hcustom hlax hdeferred hstore
  have hchars : d.tail ++ (w ++ z) = d.beforeColon.chars ++ ':' :: (d.afterColon.chars ++
      (d.value.chars ++ (d.after.chars ++ (w ++ z)))) := by
    simp [Declared.tail]
  have hbefore : a ++ d.tail = a ++ d.beforeColon.chars ++ [':'] ++
      d.afterColon.chars ++ d.value.chars ++ d.after.chars := by
    simp [Declared.tail]
  refine ⟨validator, e, l₂, ?_, hplace, ?_⟩
  · rw [hgists, hv, show PropertyName.display (.ofText t.text t.location) = t.text from rfl, htext]
    rfl
  · rw [hbefore, hchars]
    refine (show _ = _ from bind_ok (propertyName_on hkind htext)).trans ?_
    refine (show _ = _ from bind_ok (hcolon first s₁ hnext hfirst)).trans ?_
    refine hvalue.trans ?_
    exact bind_ok htail

end Core

end Stylesheet
