import Stylesheet.Proofs.CaseFolding.Values
import Stylesheet.Proofs.Matching.Matchers

/-!
# Matching values with their capitals made small

No matcher tells a part from one that is the same in small letters
(`Matching.respects_small`): words are compared in small letters, functions
are known by names that are small already, and no basic type looks at the
case of a letter.
-/

namespace Stylesheet

open Text (asciiLower)

/-! ## Tokens of parts -/

namespace Token

variable (t : Token) (type : PartType)

theorem smallIn_cases : t.smallIn type = t.small ∨ t.smallIn type = t := by
  unfold smallIn
  split_ifs
  · exact .inl rfl
  · exact .inr rfl

theorem smallIn_kind : (t.smallIn type).kind = t.kind := by
  rcases t.smallIn_cases type with h | h <;> rw [h]
  rfl

theorem smallIn_text : asciiLower (t.smallIn type).text = asciiLower t.text := by
  rcases t.smallIn_cases type with h | h <;> rw [h]
  exact t.small_text

theorem smallIn_vendor : (t.smallIn type).vendor = t.vendor := by
  rcases t.smallIn_cases type with h | h <;> rw [h]
  exact t.small_vendor

theorem smallIn_vendorPos : (t.smallIn type).vendorPos = t.vendorPos := by
  rcases t.smallIn_cases type with h | h <;> rw [h]
  exact t.small_vendorPos

theorem smallIn_isFilterFunction : (t.smallIn type).isFilterFunction = t.isFilterFunction := by
  rcases t.smallIn_cases type with h | h <;> rw [h]
  exact t.small_isFilterFunction

theorem smallIn_number : (t.smallIn type).number = t.number := by
  rcases t.smallIn_cases type with h | h <;> rw [h]
  exact t.small_number

theorem smallIn_isInt : (t.smallIn type).isInt = t.isInt := by
  rcases t.smallIn_cases type with h | h <;> rw [h]
  exact t.small_isInt

theorem smallIn_isZero : (t.smallIn type).isZero = t.isZero := by
  rcases t.smallIn_cases type with h | h <;> rw [h]
  exact t.small_isZero

/-- What is called keeps its name. -/
theorem smallIn_name (h : type = .function ∨ type = .uri) : (t.smallIn type).name = t.name := by
  unfold smallIn begins
  split_ifs with hbegins
  · refine t.small_name ?_
    rcases h with rfl | rfl <;> simpa using hbegins
  · rfl

/-- Any other name is the same in small letters. -/
theorem small_name_cases : t.small.name = t.name ∨ t.small.name = asciiLower t.name := by
  obtain ⟨kind, payload, text, location, stop⟩ := t
  unfold small name
  dsimp only
  fun_cases Payload.small kind payload
  case case6 =>
    split
    all_goals first | exact .inl rfl | skip
    split_ifs
    · exact .inr rfl
    · exact .inl rfl
  all_goals first | exact .inr rfl | exact .inl rfl

end Token

/-! ## Parts -/

namespace ValuePart

mutual
/-- **Brackets stay where they are.** -/
theorem nesting_small : ∀ p : ValuePart, p.small.nesting = p.nesting
  | ⟨_, _, _, expr, _, _, _, _, _⟩ => by
    rw [small, nesting, nesting, nestingExpr_small expr]

theorem nestingExpr_small : ∀ v : Option (ValueOf ValuePart),
    nestingExpr (smallExpr v) = nestingExpr v
  | none => rfl
  | some v => by rw [smallExpr, nestingExpr, nestingExpr, nestingValue_small v]

theorem nestingValue_small : ∀ v : ValueOf ValuePart, nestingValue (smallValue v) = nestingValue v
  | ⟨parts, _, _, _, _⟩ => by rw [smallValue, nestingValue, nestingValue, nestingAll_small parts]

theorem nestingAll_small : ∀ ps : List ValuePart, nestingAll (smallAll ps) = nestingAll ps
  | [] => rfl
  | p :: ps => by rw [smallAll, nestingAll, nestingAll, nesting_small p, nestingAll_small ps]
end

variable (p : ValuePart)

theorem small_type : p.small.type = p.type := by cases p; rfl

theorem small_token : p.small.token = p.token.smallIn p.type := by cases p; rfl

theorem small_isVar : p.small.isVar = p.isVar := by cases p; rfl

theorem small_isCalc : p.small.isCalc = p.isCalc := by cases p; rfl

theorem small_isAttr : p.small.isAttr = p.isAttr := by cases p; rfl

theorem small_isNone : p.small.isNone = p.isNone := by cases p; rfl

theorem small_kind : p.small.kind = p.kind := by
  rw [kind, small_token, Token.smallIn_kind]
  rfl

theorem small_isZero : p.small.isZero = p.isZero := by
  rw [isZero, small_token, Token.smallIn_isZero]
  rfl

theorem small_number : p.small.number = p.number := by
  rw [number, small_token, Token.smallIn_number]
  rfl

theorem small_inner : p.small.inner = p.inner.map small := by
  obtain ⟨token, text, type, expr, stop, isCalc, isVar, isAttr, isNone⟩ := p
  cases expr with
  | none => rfl
  | some v =>
    cases v
    exact smallAll_eq _

end ValuePart

namespace Grammar

namespace BasicType

variable (p : ValuePart)

theorem isCustomIdent_small : isCustomIdent p.small = isCustomIdent p := by
  unfold isCustomIdent
  rw [p.small_kind, p.small_token, ← Text.has_asciiLower, Token.smallIn_text, Text.has_asciiLower]

theorem isCustomIdentExcept_small (excluded : List String) :
    isCustomIdentExcept excluded p.small = isCustomIdentExcept excluded p := by
  have hsame : ∀ word, Text.eqIgnoreCase word p.small.token.text =
      Text.eqIgnoreCase word p.token.text := by
    intro word
    rw [p.small_token, ← Text.eqIgnoreCase_asciiLower, Token.smallIn_text,
      Text.eqIgnoreCase_asciiLower]
  unfold isCustomIdentExcept
  simp only [isCustomIdent_small, hsame]

theorem isAscii4_asciiLower (s : String) : isAscii4 (asciiLower s) = isAscii4 s := by
  have hvisible : Text.IgnoresCase fun c : Char => decide (' ' ≤ c) && decide (c ≤ '~') :=
    Text.ignoresCase_of_capitals (by decide)
  unfold isAscii4
  rw [Text.toList_asciiLower, List.length_map, Text.all_toLower hvisible]

theorem isAscii4_small : isAscii4 p.small.token.name = isAscii4 p.token.name := by
  rw [p.small_token]
  rcases p.token.smallIn_cases p.type with h | h <;> rw [h]
  rcases p.token.small_name_cases with h | h <;> rw [h]
  exact isAscii4_asciiLower _

theorem integer_small : integer p.small = integer p := by
  unfold integer
  rw [p.small_kind, p.small_number, p.small_token, Token.smallIn_isInt]

theorem numberOf_small (kinds : List TokenKind) : numberOf kinds p.small = numberOf kinds p := by
  unfold numberOf
  rw [p.small_kind, p.small_number]

theorem isChannel_small (model : ColorModel) : isChannel model p.small = isChannel model p := by
  unfold isChannel
  rw [p.small_kind, p.small_token, Token.smallIn_text]

/-- **No basic type looks at the case of a letter.** -/
theorem holds_small (type : BasicType) : type.holds p.small = type.holds p := by
  have hfilter : p.small.token.isFilterFunction = p.token.isFilterFunction := by
    rw [p.small_token, Token.smallIn_isFilterFunction]
  cases type <;>
    simp only [holds, isCustomIdent_small, isCustomIdentExcept_small, isAscii4_small, integer_small,
      numberOf_small, isChannel_small, hfilter, ValuePart.small_kind, ValuePart.small_type,
      ValuePart.small_isCalc, ValuePart.small_isZero, ValuePart.small_isAttr, ValuePart.small_isNone]

end BasicType

end Grammar

namespace Grammar.Matching

/-- Words are compared in small letters. -/
theorem wordMatches_small (words : List String) (p : ValuePart) :
    wordMatches words p.small = wordMatches words p := by
  have hlower : p.small.token.lower = p.token.lower := by
    unfold Token.lower
    rw [p.small_token, ← Text.lower_asciiLower, Token.smallIn_text, Text.lower_asciiLower]
  unfold wordMatches
  rw [p.small_type, hlower, p.small_token, Token.smallIn_vendorPos]

theorem isCall_small (p : ValuePart) : isCall p.small = isCall p := by
  unfold isCall
  rw [p.small_type]

/-- What is called keeps its name. -/
theorem name_small {p : ValuePart} (h : isCall p = true) :
    p.small.token.name = p.token.name ∧ fullName p.small = fullName p := by
  have hname : p.small.token.name = p.token.name := by
    unfold isCall at h
    rw [p.small_token, Token.smallIn_name _ _ (by simpa using h)]
  refine ⟨hname, ?_⟩
  unfold fullName
  rw [hname, p.small_token, Token.smallIn_vendor]

/-! ## Steps -/

/-- **Parts that are the same in small letters.** -/
def SmallAlike (p p' : ValuePart) : Prop := p'.small = p.small

theorem forall₂_smallAlike {ps ps' : List ValuePart} :
    List.Forall₂ SmallAlike ps ps' ↔ ps'.map ValuePart.small = ps.map ValuePart.small := by
  rw [eq_comm, ← List.forall₂_eq_eq_eq, List.forall₂_map_left_iff, List.forall₂_map_right_iff]
  exact ⟨fun h => h.imp fun _ _ => Eq.symm, fun h => h.imp fun _ _ => Eq.symm⟩

/-- **Cursors in parts that are the same in small letters**, at the same
place. -/
structure CursorsTwin (it it' : Cursor) : Prop where
  /-- The parts are the same in small letters. -/
  parts : List.Forall₂ SmallAlike it.parts it'.parts
  /-- The place is the same. -/
  pos_eq : it.pos = it'.pos
  /-- What may stand for a part is the same. -/
  tryAttr_eq : it.tryAttr = it'.tryAttr

theorem cursorsTwin_likeness : Cursor.Likeness SmallAlike CursorsTwin where
  parts h := h.parts
  pos_eq h := h.pos_eq
  tryAttr_eq h := h.tryAttr_eq
  withPos h _ := ⟨h.parts, rfl, h.tryAttr_eq⟩
  isVar_eq {p p'} h := by rw [← p.small_isVar, ← h, p'.small_isVar]
  isAttr_eq {p p'} h := by rw [← p.small_isAttr, ← h, p'.small_isAttr]

/-- **Surroundings in which the inside of a part** fits in small letters if
it fits. -/
def EntersAlike (s : Surroundings) : Prop :=
  ∀ m ps ps', List.Forall₂ SmallAlike ps ps' → (s.enter m ps).fits = (s.enter m ps').fits

section Tests

variable {s : Surroundings} (hs : EntersAlike s)

/-- A test of the part alone. -/
theorem testRespects_of_small {f : ValuePart → Bool} (hf : ∀ p, f p.small = f p) :
    TestRespects SmallAlike CursorsTwin fun part it => (f part, it) :=
  fun p p' _ _ hp hit => ⟨(hf p).symm.trans ((congrArg f hp).symm.trans (hf p')), hit⟩

include hs

theorem argumentsFit_respects (body : Matcher) :
    TestRespects SmallAlike CursorsTwin (argumentsFit s body) := by
  intro p p' it it' hp hit
  have hnotes : ∀ bad bad' consulted consulted',
      CursorsTwin { it with bad := bad, consulted := consulted }
        { it' with bad := bad', consulted := consulted' } :=
    fun _ _ _ _ => ⟨hit.parts, hit.pos_eq, hit.tryAttr_eq⟩
  have hexpr := (ValuePart.small_inj hp).2.2.2.1
  unfold argumentsFit
  generalize p.expr = args, p'.expr = args' at hexpr
  rcases args with _ | args <;> rcases args' with _ | args'
  · exact ⟨rfl, hnotes _ _ _ _⟩
  · cases hexpr
  · cases hexpr
  · obtain ⟨hparts, -, -, -, hvar⟩ := ValuePart.smallValue_inj (Option.some.inj hexpr)
    have hfits := hs body _ _ (forall₂_smallAlike.mpr hparts)
    have hempty : args'.isEmpty = args.isEmpty := by
      unfold ValueOf.isEmpty
      rw [← List.isEmpty_map (f := ValuePart.small), hparts, List.isEmpty_map]
    dsimp only
    rw [hvar, hfits, hempty]
    split_ifs
    · exact ⟨rfl, hit⟩
    · exact ⟨rfl, hnotes _ _ _ _⟩
    · exact ⟨rfl, hnotes _ _ _ _⟩
    · exact ⟨rfl, hnotes _ _ _ _⟩

theorem functionMatches_respects (name : String) (body : Option Matcher) :
    TestRespects SmallAlike CursorsTwin (functionMatches s name body) := by
  intro p p' it it' hp hit
  have hcall : isCall p' = isCall p := by rw [← isCall_small, hp, isCall_small]
  unfold functionMatches
  rw [hcall]
  by_cases h : isCall p = true
  · obtain ⟨hname, hfull⟩ := name_small h
    obtain ⟨hname', hfull'⟩ := name_small (hcall.trans h)
    rw [← hname, ← hfull, ← hp, hname', hfull']
    split_ifs
    · cases body with
      | none => exact ⟨rfl, hit⟩
      | some body => exact argumentsFit_respects hs body p p' it it' hp hit
    · exact ⟨rfl, hit⟩
  · rw [Bool.eq_false_iff.mpr h]
    exact ⟨rfl, hit⟩

theorem groupMatches_respects (group : FunctionGroup) :
    TestRespects SmallAlike CursorsTwin (groupMatches s group) := by
  intro p p' it it' hp hit
  have hcall : isCall p' = isCall p := by rw [← isCall_small, hp, isCall_small]
  unfold groupMatches
  rw [hcall]
  by_cases h : isCall p = true
  · obtain ⟨hname, hfull⟩ := name_small h
    obtain ⟨hname', hfull'⟩ := name_small (hcall.trans h)
    rw [if_pos h, if_pos h, ← hname, ← hfull, ← hp, hname', hfull']
    cases (group.argumentGrammar? p'.token.name).or (group.argumentGrammar? (fullName p')) with
    | none => exact ⟨rfl, hit⟩
    | some grammar =>
      have hconsulted : CursorsTwin { it with consulted := grammar :: it.consulted }
          { it' with consulted := grammar :: it'.consulted } :=
        ⟨hit.parts, hit.pos_eq, hit.tryAttr_eq⟩
      dsimp only
      cases s.resolve grammar with
      | none => exact ⟨rfl, hconsulted⟩
      | some body => exact argumentsFit_respects hs body p p' _ _ hp hconsulted
  · rw [if_neg h, if_neg h]
    exact ⟨rfl, hit⟩

theorem bracketMatches_respects (inner : Matcher) :
    TestRespects SmallAlike CursorsTwin (bracketMatches s inner) := by
  intro p p' it it' hp hit
  have hinner : List.Forall₂ SmallAlike p.inner p'.inner := by
    rw [forall₂_smallAlike, ← ValuePart.small_inner, hp, ValuePart.small_inner]
  unfold bracketMatches
  rw [ValuePart.kind_eq hp]
  split_ifs
  · exact ⟨hs inner _ _ hinner, ⟨hit.parts, hit.pos_eq, hit.tryAttr_eq⟩⟩
  · exact ⟨rfl, hit⟩

/-- **No test tells a part from one that is the same in small letters**, if
none does further in. -/
theorem surroundings_respect : SurroundingsAgree SmallAlike CursorsTwin s s where
  words ws := testRespects_of_small (wordMatches_small ws)
  basic type := testRespects_of_small fun p => BasicType.holds_small p type
  function := functionMatches_respects hs
  group := groupMatches_respects hs
  bracketed := bracketMatches_respects hs

end Tests

/-- **The match of a whole level** in small letters. -/
theorem inside_small (resolve : String → Option Matcher) (depth : Nat) (m : Matcher)
    {ps ps' : List ValuePart} (h : List.Forall₂ SmallAlike ps ps') :
    (inside resolve depth m ps).fits = (inside resolve depth m ps').fits := by
  have hlevel : ∀ s : Surroundings, EntersAlike s → ∀ m ps ps', List.Forall₂ SmallAlike ps ps' →
      ((stepOf s m (.start ps)).1.isSome && (stepOf s m (.start ps)).2.atEnd) =
        ((stepOf s m (.start ps')).1.isSome && (stepOf s m (.start ps')).2.atEnd) := by
    intro s hs m ps ps' h
    obtain ⟨hresult, hit⟩ := stepOf_respects cursorsTwin_likeness (surroundings_respect hs) m
      (.start ps) (.start ps') ⟨h, rfl, rfl⟩
    unfold Cursor.atEnd
    rw [hresult, hit.parts.length_eq, hit.pos_eq]
  induction depth generalizing m ps ps' with
  | zero => exact hlevel _ (fun _ _ _ _ => rfl) m ps ps' h
  | succ depth ih => exact hlevel _ (fun m _ _ h => ih m h) m ps ps' h

/-- **A matcher takes as many parts in small letters.** -/
theorem run_small (catalog : Catalog) (m : Matcher) {it it' : Cursor} (h : CursorsTwin it it') :
    (m.run catalog it).1 = (m.run catalog it').1 ∧
      CursorsTwin (m.run catalog it).2 (m.run catalog it').2 := by
  have hdepth : ValuePart.nestingAll it'.parts = ValuePart.nestingAll it.parts := by
    rw [← ValuePart.nestingAll_small, ValuePart.smallAll_eq, forall₂_smallAlike.mp h.parts,
      ← ValuePart.smallAll_eq, ValuePart.nestingAll_small]
  have hsurroundings : surroundings catalog it'.parts = surroundings catalog it.parts := by
    unfold surroundings
    rw [hdepth]
  unfold Matcher.run
  rw [hsurroundings]
  exact stepOf_respects cursorsTwin_likeness
    (surroundings_respect fun m ps ps' h => inside_small _ _ m h) m it it' h

end Grammar.Matching

end Stylesheet
