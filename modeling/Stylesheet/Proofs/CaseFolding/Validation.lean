import Stylesheet.Proofs.CaseFolding.Matching
import Stylesheet.Proofs.Remembering

/-!
# Verdicts do not depend on letter case

Whether a value is fit for a property is the same in whatever case the
ASCII letters of either are written (`Validator.verdict_ignores_case`).
Left out are values that name a filter, because the name `progid` is looked
at as it is written.
-/

namespace Stylesheet

open Text (asciiLower)
open Grammar (Matcher)
open Grammar.Matching (CursorsTwin SmallAlike)

/-- **A text without the name that begins a filter**: none of its tokens was
read from `progid`, in any letter case. -/
def NamesNoFilter (text : String) : Prop :=
  ∀ t ∈ (Stream.ofString text).allTokens.1, t.payload.mayFilter = false

namespace Validator

theorem mentionsAttr_eq {text text' : String} (h : asciiLower text' = asciiLower text) :
    mentionsAttr text' = mentionsAttr text := by
  unfold mentionsAttr
  rw [← Text.toList_asciiLower, h, Text.toList_asciiLower]

/-- References to attributes are passed over alike. -/
theorem passAttrs_twin {it it' : Grammar.Cursor} (h : CursorsTwin it it') :
    CursorsTwin { it with pos := it.pos + ((it.parts.drop it.pos).takeWhile (·.isAttr)).length }
      { it' with pos := it'.pos + ((it'.parts.drop it'.pos).takeWhile (·.isAttr)).length } := by
  have hlength : ∀ ps : List ValuePart, (ps.takeWhile (·.isAttr)).length =
      ((ps.map ValuePart.small).takeWhile (·.isAttr)).length := by
    intro ps
    rw [List.takeWhile_map, List.length_map]
    have hsame : ((fun p : ValuePart => p.isAttr) ∘ ValuePart.small) = fun p => p.isAttr :=
      funext ValuePart.small_isAttr
    rw [hsame]
  refine ⟨h.parts, ?_, h.tryAttr_eq⟩
  dsimp only
  rw [hlength, hlength (it'.parts.drop _), List.map_drop, List.map_drop,
    Grammar.Matching.forall₂_smallAlike.mp h.parts, h.pos_eq]

/-- **A value is matched alike** in small letters. -/
theorem attempt_small (v : Validator) (m : Matcher) {value value' : Value} {text text' : String}
    (hvalue : ValuePart.smallValue value' = ValuePart.smallValue value)
    (htext : asciiLower text' = asciiLower text) :
    (v.attempt m value text).1 = (v.attempt m value' text').1 ∧
      CursorsTwin (v.attempt m value text).2 (v.attempt m value' text').2 := by
  have hstart : CursorsTwin (.start value.parts) (.start value'.parts) :=
    ⟨Grammar.Matching.forall₂_smallAlike.mpr (ValuePart.smallValue_inj hvalue).1, rfl, rfl⟩
  obtain ⟨hresult, hit⟩ := Grammar.Matching.run_small v.catalog m hstart
  unfold attempt
  rw [mentionsAttr_eq htext]
  generalize m.run v.catalog (.start value.parts) = first,
    m.run v.catalog (.start value'.parts) = first' at hresult hit
  obtain ⟨result, it⟩ := first
  obtain ⟨result', it'⟩ := first'
  dsimp only at hresult hit ⊢
  subst hresult
  have hend : it'.atEnd = it.atEnd := by
    unfold Grammar.Cursor.atEnd
    rw [hit.parts.length_eq, hit.pos_eq]
  rw [hend]
  split_ifs with hagain hfailed
  · -- another match, with references to attributes in the place of any part
    have hagain : CursorsTwin { it with pos := 0, tryAttr := true }
        { it' with pos := 0, tryAttr := true } := ⟨hit.parts, rfl, rfl⟩
    obtain ⟨hresult, hafter⟩ := Grammar.Matching.run_small v.catalog m hagain
    exact ⟨congrArg Option.isSome hresult, passAttrs_twin hafter⟩
  · exact ⟨rfl, passAttrs_twin hit⟩
  · exact ⟨rfl, hit⟩

/-- **Whether a match is a pass**: it matched, and nothing is left over. -/
def passes (matched : Bool) (it : Grammar.Cursor) : Bool :=
  matched && (it.current?.filter fun _ => matched || it.pos > 0).isNone

theorem isOk_matchGrammar (v : Validator) (key : KnownValue) (grammar : String) (value : Value) :
    (v.matchGrammar key grammar value).1.isOk =
      match v.catalog.compile grammar with
      | (.error _, _) => true
      | (.ok m, catalog) =>
        let (matched, it) := attempt { v with catalog := catalog } m value key.text
        passes matched it := by
  unfold matchGrammar
  rcases v.catalog.compile grammar with ⟨e | m, catalog⟩
  · rfl
  · dsimp only
    obtain ⟨matched, it⟩ := attempt { v with catalog := catalog } m value key.text
    unfold passes
    dsimp only
    cases it.current?.filter fun _ => matched || it.pos > 0 with
    | some extra => cases matched <;> rfl
    | none =>
      cases matched with
      | true => rfl
      | false =>
        cases it.bad with
        | some bad => rfl
        | none => rfl

/-- **A value that fits a grammar** fits it in small letters. -/
theorem matchGrammar_small (v : Validator) {key key' : KnownValue} (grammar : String)
    {value value' : Value} (hvalue : ValuePart.smallValue value' = ValuePart.smallValue value)
    (htext : asciiLower key'.text = asciiLower key.text) :
    (v.matchGrammar key' grammar value').1.isOk = (v.matchGrammar key grammar value).1.isOk := by
  rw [isOk_matchGrammar, isOk_matchGrammar]
  rcases v.catalog.compile grammar with ⟨e | m, catalog⟩
  · rfl
  · obtain ⟨hmatched, hit⟩ := attempt_small { v with catalog := catalog } m hvalue htext
    dsimp only
    unfold passes
    rw [← hmatched, ← hit.pos_eq]
    rcases Grammar.Matching.cursorsTwin_likeness.current hit with ⟨hnone, hnone'⟩ | ⟨p, p', hp, hp', -⟩
    · rw [hnone, hnone']
    · rw [hp, hp', Option.filter_some, Option.filter_some]
      split_ifs <;> rfl

/-- **A check of a value** by a validator that has seen nothing. -/
theorem checkValue_small {key key' : KnownValue} (grammar : String) {value value' : Value}
    (hvalue : ValuePart.smallValue value' = ValuePart.smallValue value)
    (htext : asciiLower key'.text = asciiLower key.text) :
    (fresh.checkValue key' grammar value').1.isOk = (fresh.checkValue key grammar value).1.isOk := by
  have hmatch := matchGrammar_small fresh grammar hvalue htext
  obtain ⟨hparts, -, -, -, hvar⟩ := ValuePart.smallValue_inj hvalue
  have hknown : ∀ key, fresh.known.contains key = false := fun _ => rfl
  unfold checkValue
  simp only [hvar, hknown, Bool.false_eq_true, if_false]
  by_cases hvariable : value.isVar = true
  · rw [if_pos hvariable, if_pos hvariable]
  · rw [if_neg hvariable, if_neg hvariable]
    generalize value.parts = parts, value'.parts = parts' at hparts
    rcases parts with _ | ⟨first, rest⟩ <;> rcases parts' with _ | ⟨first', rest'⟩
    · exact hmatch
    · cases hparts
    · cases hparts
    · obtain ⟨hfirst, hrest⟩ := List.cons.inj hparts
      have hglobal : (first'.type == .ident && Keywords.global.has first'.token.text) =
          (first.type == .ident && Keywords.global.has first.token.text) := by
        have hsmall : ∀ p : ValuePart,
            (p.small.type == .ident && Keywords.global.has p.small.token.text) =
              (p.type == .ident && Keywords.global.has p.token.text) := by
          intro p
          rw [p.small_type, p.small_token, ← Text.has_asciiLower, Token.smallIn_text,
            Text.has_asciiLower]
        rw [← hsmall, hfirst, hsmall]
      dsimp only
      rw [hglobal]
      split_ifs
      · rcases rest with _ | ⟨next, rest⟩ <;> rcases rest' with _ | ⟨next', rest'⟩
        · rfl
        · cases hrest
        · cases hrest
        · rfl
      · exact hmatch

theorem atVendorEnd_toLower (name : List Char) :
    Lexeme.atVendorEnd (name.map Char.toLower) = Lexeme.atVendorEnd name := by
  have hdash : ∀ rest : List Char, Lexeme.atVendorEnd ('-' :: rest.map Char.toLower) =
      Lexeme.atVendorEnd ('-' :: rest) := by
    intro rest
    simp only [Lexeme.atVendorEnd]
    rw [Text.indexOf?_toLower (by decide)]
    rcases Text.indexOf? ['-'] rest with _ | _ | n
    · rfl
    · rfl
    · dsimp only
      rw [← List.map_take, Text.byteLength_toLower]
  have hother : ∀ (c : Char) (rest : List Char), c ≠ '-' → Lexeme.atVendorEnd (c :: rest) = 0 := by
    intro c rest hc
    unfold Lexeme.atVendorEnd
    split
    · next heq => exact absurd (List.cons.inj heq).1 hc
    · rfl
  cases name with
  | nil => rfl
  | cons c rest =>
    rw [List.map_cons]
    by_cases hc : c = '-'
    · subst hc
      exact hdash rest
    · rw [hother _ _ hc, hother _ _ fun h => hc ((Text.toLower_eq_mark (by decide) c).mp h)]

/-- The property a name in small letters stands for outside of all at-rules,
with or without a vendor's mark, and its definition. -/
def resolved (written : String) (vendorPos : Nat) : String × Option Definition :=
  match lookup none written with
  | some definition => (written, some definition)
  | none =>
    if vendorPos > 0 then
      ((Text.fromByte? written vendorPos).getD "",
        lookup none ((Text.fromByte? written vendorPos).getD ""))
    else (written, none)

/-- **Whether a check passes**, outside of all at-rules. -/
theorem isOk_check (v : Validator) (name : PropertyName) (value : Value) :
    (v.check name value none).1.isOk =
      match resolved (Text.lower name.text) name.vendorPos with
      | (property, some (.grammar grammar)) =>
        (v.checkValue ⟨none, property, Text.trim value.text⟩ grammar value).1.isOk
      | (_, some .any) => true
      | (_, none) => decide (name.vendorPos > 0) := by
  have hcheck : v.check name value none =
      match resolved (Text.lower name.text) name.vendorPos with
      | (property, some (.grammar grammar)) =>
        v.checkValue ⟨none, property, Text.trim value.text⟩ grammar value
      | (_, some .any) => (.ok (), v)
      | (_, none) =>
        if name.vendorPos > 0 then (.ok (), v)
        else (.error (.unfitAt ("Unknown" ++ " property \"" ++ name.display ++ "\".") name.location),
          v) := by
    unfold check resolved
    rw [Option.bind_none]
    dsimp only
    cases lookup none (Text.lower name.text) with
    | some definition => cases definition <;> rfl
    | none =>
      dsimp only
      by_cases hvendor : name.vendorPos > 0
      · rw [if_pos hvendor, if_pos hvendor, if_pos hvendor]
        cases lookup none ((Text.fromByte? (Text.lower name.text) name.vendorPos).getD "") with
        | some definition => cases definition <;> rfl
        | none => rfl
      · rw [if_neg hvendor, if_neg hvendor, if_neg hvendor]
        rfl
  rw [hcheck]
  rcases resolved (Text.lower name.text) name.vendorPos with ⟨property, _ | _ | _⟩
  · dsimp only
    split_ifs with hvendor
    · exact (decide_eq_true hvendor).symm
    · exact (decide_eq_false hvendor).symm
  · rfl
  · rfl

/-- **A check of a declaration** by a validator that has seen nothing. -/
theorem check_small (property : String) {value value' : Value}
    (hvalue : ValuePart.smallValue value' = ValuePart.smallValue value) :
    (fresh.check (.ofText (asciiLower property) .start) value' none).1.isOk =
      (fresh.check (.ofText property .start) value none).1.isOk := by
  have htext : asciiLower (Text.trim value'.text) = asciiLower (Text.trim value.text) := by
    rw [← Text.trim_asciiLower, (ValuePart.smallValue_inj hvalue).2.1, Text.trim_asciiLower]
  have hvendor : (PropertyName.ofText (asciiLower property) .start).vendorPos =
      (PropertyName.ofText property .start).vendorPos := by
    unfold PropertyName.ofText
    rw [Text.toList_asciiLower, atVendorEnd_toLower]
  have hlower : Text.lower (PropertyName.ofText (asciiLower property) .start).text =
      Text.lower (PropertyName.ofText property .start).text := Text.lower_asciiLower property
  rw [isOk_check, isOk_check, hvendor, hlower]
  rcases resolved (Text.lower (PropertyName.ofText property .start).text)
    (PropertyName.ofText property .start).vendorPos with ⟨bare, _ | _ | _⟩
  · rfl
  · exact checkValue_small _ hvalue htext
  · rfl

/-- **A check of the small texts** of a property and a value comes to what
that of the texts comes to. -/
theorem checkText_asciiLower (property : String) {text : String} (h : NamesNoFilter text) :
    (fresh.checkText (asciiLower property) (asciiLower text)).1.isOk =
      (fresh.checkText property text).1.isOk := by
  have hparse := parseValue_asciiLower h
  unfold checkText
  generalize parseValue (asciiLower text) = found', parseValue text = found at hparse
  rcases found' with e' | value' <;> rcases found with e | value
  · rfl
  · cases hparse
  · cases hparse
  · exact check_small property (Option.some.inj hparse)

/-- **Checks ignore letter case.** Of two properties and two values that
differ in the case of ASCII letters only, and name no filter, one is fit if
the other is. -/
theorem verdict_ignores_case {property property' text text' : String}
    (hproperty : asciiLower property = asciiLower property')
    (htext : asciiLower text = asciiLower text') (h : NamesNoFilter text) (h' : NamesNoFilter text') :
    (fresh.checkText property text).1 = .ok () ↔ (fresh.checkText property' text').1 = .ok () := by
  have hok : ∀ r : Except Diagnostic Unit, r = .ok () ↔ r.isOk = true := by
    rintro (e | ⟨⟨⟩⟩)
    · constructor <;> rintro ⟨⟩
    · exact ⟨fun _ => rfl, fun _ => rfl⟩
  rw [hok, hok, ← checkText_asciiLower property h, ← checkText_asciiLower property' h', hproperty,
    htext]

/-- A length, a word and an escape in two letter cases. -/
theorem verdict_of_small_border :
    (asciiLower "BORDER" = asciiLower "border" ∧
      asciiLower "1PX SOLID \\52 ed" = asciiLower "1px solid \\52 ED" ∧
      NamesNoFilter "1PX SOLID \\52 ed" ∧ NamesNoFilter "1px solid \\52 ED") ∧
    ((fresh.checkText "BORDER" "1PX SOLID \\52 ed").1 = .ok () ↔
      (fresh.checkText "border" "1px solid \\52 ED").1 = .ok ()) := by
  have hproperty : asciiLower "BORDER" = asciiLower "border" :=
    Text.eqIgnoreCase_iff.mp (by decide)
  have htext : asciiLower "1PX SOLID \\52 ed" = asciiLower "1px solid \\52 ED" :=
    Text.eqIgnoreCase_iff.mp (by decide)
  have hcapitals : NamesNoFilter "1PX SOLID \\52 ed" := by
    unfold NamesNoFilter
    decide
  have hsmall : NamesNoFilter "1px solid \\52 ED" := by
    unfold NamesNoFilter
    decide
  exact ⟨⟨hproperty, htext, hcapitals, hsmall⟩,
    verdict_ignores_case hproperty htext hcapitals hsmall⟩

end Validator

end Stylesheet
