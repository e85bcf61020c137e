import Mathlib.Data.List.Induction
import Mathlib.Tactic.SplitIfs
import Stylesheet.Parse.Sheet

/-!
# What remembered values change

A validator lets a value through without a look at its grammar if a value
with the same text has passed for the same property. The text is taken
without the blanks at its ends, and not every blank there is one to the
tokenizer: a space that is part of a word makes another value with the
same text. So a verdict can depend on what was checked before
(`verdict_after_equal_text`). It does so in this way only: a verdict is
the one that would have been given without remembered values, or it is
that of an earlier value which passed, for the same property and with the
same text but for blanks at its ends (`verdict_of_history`).
-/

namespace Stylesheet.Validator

/-- **Check a value that is given as text** as the value of a property. -/
def checkText (v : Validator) (property text : String) : Except Diagnostic Unit × Validator :=
  match parseValue text with
  | .error e => (.error e, v)
  | .ok value => v.check (.ofText property .start) value none

/-- A validator after some properties and the texts of their values have
been checked in order. -/
def after (v : Validator) (calls : List (String × String)) : Validator :=
  calls.foldl (fun v call => (v.checkText call.1 call.2).2) v

/-- A validator that has forgotten which values have passed. -/
def forgetful (v : Validator) : Validator := { v with known := [] }

/-! ## One check -/

/-- **A check that remembers under a key**, if it has one. -/
structure Remembers (key? : Option KnownValue)
    (check : Validator → Except Diagnostic Unit × Validator) : Prop where
  /-- The verdict is that of a validator that has forgotten everything,
  unless the key is known. -/
  verdict : ∀ v, (check v).1 = (check v.forgetful).1 ∨
    (check v).1 = .ok () ∧ ∃ key ∈ v.known, key? = some key
  /-- Nothing is remembered but the key of what passes. -/
  memory : ∀ v, ∀ key ∈ (check v).2.known, key ∈ v.known ∨
    key? = some key ∧ (check v.forgetful).1 = .ok ()

variable {key : KnownValue} {grammar : String} {value : Value}

/-- A check that looks at nothing remembers nothing. -/
theorem Remembers.const (key? : Option KnownValue) (r : Except Diagnostic Unit) :
    Remembers key? fun v => (r, v) where
  verdict _ := .inl rfl
  memory _ _ h := .inl h

/-- A description does not depend on remembered values. -/
theorem describe_eq (catalog : Grammar.Catalog) (grammar : String) :
    ∃ text catalog', ∀ known, describe ⟨catalog, known⟩ grammar = (text, ⟨catalog', known⟩) := by
  unfold describe
  dsimp only
  split_ifs
  · rcases catalog.compile (expansion grammar) with ⟨e | m, catalog'⟩
    · exact ⟨_, _, fun _ => rfl⟩
    · exact ⟨_, _, fun _ => rfl⟩
  · exact ⟨_, _, fun _ => rfl⟩

/-- **A match** does not depend on remembered values. Its value may be
remembered if it passes. -/
theorem matchGrammar_eq (catalog : Grammar.Catalog) (key : KnownValue) (grammar : String)
    (value : Value) : ∃ r catalog',
      (∀ known, matchGrammar ⟨catalog, known⟩ key grammar value = (r, ⟨catalog', known⟩)) ∨
      r = .ok () ∧ ∀ known,
        matchGrammar ⟨catalog, known⟩ key grammar value = (r, remember ⟨catalog', known⟩ key) := by
  unfold matchGrammar
  dsimp only
  rcases catalog.compile grammar with ⟨e | m, catalog'⟩
  · exact ⟨.ok (), catalog', .inl fun _ => rfl⟩
  · have hattempt : ∀ known, attempt ⟨catalog', known⟩ m value key.text =
        attempt ⟨catalog', []⟩ m value key.text := fun _ => rfl
    dsimp only
    simp only [hattempt]
    obtain ⟨matched, it⟩ := attempt ⟨catalog', []⟩ m value key.text
    dsimp only
    cases it.current?.filter fun _ => matched || it.pos > 0 with
    | some extra => exact ⟨_, _, .inl fun _ => rfl⟩
    | none =>
      cases matched with
      | true => exact ⟨.ok (), _, .inr ⟨rfl, fun _ => rfl⟩⟩
      | false =>
        cases it.bad with
        | some bad => exact ⟨_, _, .inl fun _ => rfl⟩
        | none =>
          obtain ⟨text, later, hdescribe⟩ := describe_eq (catalog'.consult it) grammar
          simp only [hdescribe]
          exact ⟨_, _, .inl fun _ => rfl⟩

theorem mem_remember {v : Validator} {other : KnownValue} (h : other ∈ (v.remember key).known) :
    other ∈ v.known ∨ key = other := by
  unfold remember at h
  split_ifs at h
  · exact .inl h
  · exact (List.mem_cons.mp h).symm.imp id Eq.symm

theorem matchGrammar_verdict (v : Validator) (key : KnownValue) (grammar : String)
    (value : Value) :
    (v.matchGrammar key grammar value).1 = (v.forgetful.matchGrammar key grammar value).1 := by
  obtain ⟨r, catalog, h | ⟨-, h⟩⟩ := matchGrammar_eq v.catalog key grammar value
  · exact (congrArg Prod.fst (h v.known)).trans (congrArg Prod.fst (h [])).symm
  · exact (congrArg Prod.fst (h v.known)).trans (congrArg Prod.fst (h [])).symm

theorem matchGrammar_memory (v : Validator) (key : KnownValue) (grammar : String)
    (value : Value) : ∀ other ∈ (v.matchGrammar key grammar value).2.known,
      other ∈ v.known ∨ key = other ∧ (v.matchGrammar key grammar value).1 = .ok () := by
  intro other hother
  obtain ⟨r, catalog, h | ⟨hr, h⟩⟩ := matchGrammar_eq v.catalog key grammar value
  · rw [show v = ⟨v.catalog, v.known⟩ from rfl, h v.known] at hother
    exact .inl hother
  · rw [show v = ⟨v.catalog, v.known⟩ from rfl, h v.known] at hother ⊢
    exact (mem_remember hother).imp id fun hkey => ⟨hkey, hr⟩

/-- **A look at the remembered values, then a match.** -/
theorem lookThenMatch_remembers (key : KnownValue) (grammar : String) (value : Value) :
    Remembers (some key) fun v =>
      if v.known.contains key then (.ok (), v) else v.matchGrammar key grammar value := by
  have hforgetful : ∀ v : Validator, (if v.forgetful.known.contains key then (.ok (), v.forgetful)
      else v.forgetful.matchGrammar key grammar value) =
        v.forgetful.matchGrammar key grammar value := fun v => if_neg (by simp [forgetful])
  refine ⟨fun v => ?_, fun v other hother => ?_⟩
  · simp only [hforgetful]
    by_cases hknown : v.known.contains key = true
    · simp only [if_pos hknown]
      exact .inr ⟨trivial, key, List.contains_iff_mem.mp hknown, rfl⟩
    · simp only [if_neg hknown]
      exact .inl (matchGrammar_verdict v key grammar value)
  · simp only [hforgetful]
    by_cases hknown : v.known.contains key = true
    · simp only [if_pos hknown] at hother
      exact .inl hother
    · simp only [if_neg hknown] at hother
      rw [← matchGrammar_verdict]
      exact (matchGrammar_memory v key grammar value other hother).imp id
        fun h => ⟨congrArg some h.1, h.2⟩

theorem checkValue_remembers (key : KnownValue) (grammar : String) (value : Value) :
    Remembers (some key) fun v => v.checkValue key grammar value := by
  unfold checkValue
  dsimp only
  split_ifs
  · exact .const _ _
  · cases value.parts with
    | nil => exact lookThenMatch_remembers key grammar value
    | cons first rest =>
      dsimp only
      split_ifs
      · cases rest with
        | nil => exact .const _ _
        | cons next rest => exact .const _ _
      · exact lookThenMatch_remembers key grammar value

/-- **The key that a property and the text of its value are remembered
under**, and the grammar that the value has to match. -/
def Consults (property text : String) (key : KnownValue) (grammar : String) : Prop :=
  key.scope = none ∧ Property.definition? key.property = some (.grammar grammar) ∧
    ∃ value, parseValue text = .ok value ∧ key.text = Text.trim value.text ∧
      ∀ v : Validator, v.checkText property text = v.checkValue key grammar value

/-- What a property and its value are checked against, if anything. -/
theorem check_cases (name : PropertyName) (value : Value) :
    (∃ r, ∀ v : Validator, v.check name value none = (r, v)) ∨
      ∃ property grammar, Property.definition? property = some (.grammar grammar) ∧
        ∀ v : Validator, v.check name value none =
          v.checkValue ⟨none, property, Text.trim value.text⟩ grammar value := by
  cases hwritten : lookup none (Text.lower name.text) with
  | some definition =>
    cases definition with
    | grammar grammar =>
      refine .inr ⟨_, grammar, hwritten, fun v => ?_⟩
      simp only [check, Option.bind_none, hwritten]
      rfl
    | any =>
      refine .inl ⟨.ok (), fun v => ?_⟩
      simp only [check, Option.bind_none, hwritten]
  | none =>
    by_cases hvendor : name.vendorPos > 0
    · cases hbare : lookup none
        ((Text.fromByte? (Text.lower name.text) name.vendorPos).getD "") with
      | some definition =>
        cases definition with
        | grammar grammar =>
          refine .inr ⟨_, grammar, hbare, fun v => ?_⟩
          simp only [check, Option.bind_none, hwritten, if_pos hvendor, hbare]
          rfl
        | any =>
          refine .inl ⟨.ok (), fun v => ?_⟩
          simp only [check, Option.bind_none, hwritten, if_pos hvendor, hbare]
      | none =>
        refine .inl ⟨.ok (), fun v => ?_⟩
        simp only [check, Option.bind_none, hwritten, if_pos hvendor, hbare]
    · refine .inl ⟨.error (.unfitAt ("Unknown property \"" ++ name.display ++ "\".")
        name.location), fun v => ?_⟩
      simp only [check, Option.bind_none, hwritten, if_neg hvendor]
      rfl

/-- **The check of a text** remembers under the key it consults. -/
theorem checkText_remembers (property text : String) :
    ∃ key?, Remembers key? (fun v => v.checkText property text) ∧
      ∀ key, key? = some key → ∃ grammar, Consults property text key grammar := by
  cases hvalue : parseValue text with
  | error e =>
    refine ⟨none, ?_, fun _ h => by cases h⟩
    simp only [checkText, hvalue]
    exact .const _ _
  | ok value =>
    rcases check_cases (.ofText property .start) value with ⟨r, h⟩ | ⟨bare, grammar, hbare, h⟩
    · refine ⟨none, ?_, fun _ h => by cases h⟩
      simp only [checkText, hvalue, h]
      exact .const _ _
    · refine ⟨some ⟨none, bare, Text.trim value.text⟩, ?_, ?_⟩
      · simp only [checkText, hvalue, h]
        exact checkValue_remembers _ _ _
      · rintro key ⟨⟩
        refine ⟨grammar, rfl, hbare, value, hvalue, rfl, fun v => ?_⟩
        simp only [checkText, hvalue, h]

/-! ## A history of checks -/

variable {calls : List (String × String)}

/-- What is remembered has passed, at a time when it was not remembered
yet. -/
theorem known_of_history (h : key ∈ (fresh.after calls).known) :
    ∃ front property text grammar back, calls = front ++ (property, text) :: back ∧
      Consults property text key grammar ∧
      ((fresh.after front).forgetful.checkText property text).1 = .ok () := by
  induction calls using List.reverseRecOn with
  | nil => cases h
  | append_singleton calls call ih =>
    obtain ⟨property, text⟩ := call
    obtain ⟨key?, hremembers, hkey⟩ := checkText_remembers property text
    have hlast : key ∈ ((fresh.after calls).checkText property text).2.known := by
      rwa [after, List.foldl_append] at h
    rcases hremembers.memory _ key hlast with h | ⟨h, hpasses⟩
    · obtain ⟨front, property', text', grammar, back, rfl, hconsults, hpasses⟩ := ih h
      exact ⟨front, property', text', grammar, back ++ [(property, text)], by simp, hconsults,
        hpasses⟩
    · obtain ⟨grammar, hconsults⟩ := hkey key h
      exact ⟨calls, property, text, grammar, [], rfl, hconsults, hpasses⟩

/-- **How a verdict depends on what was checked before.** It is the
verdict without remembered values; or it is that of an earlier value for
the same property which passed, and whose text differs in blanks at its
ends only. -/
theorem verdict_of_history (calls : List (String × String)) (property text : String) :
    ((fresh.after calls).checkText property text).1 =
        ((fresh.after calls).forgetful.checkText property text).1 ∨
      ((fresh.after calls).checkText property text).1 = .ok () ∧
        ∃ key grammar front property' text' back, calls = front ++ (property', text') :: back ∧
          Consults property text key grammar ∧ Consults property' text' key grammar ∧
          ((fresh.after front).forgetful.checkText property' text').1 = .ok () := by
  obtain ⟨key?, hremembers, hconsults⟩ := checkText_remembers property text
  refine (hremembers.verdict (fresh.after calls)).imp id fun ⟨hok, key, hknown, hkey⟩ => ⟨hok, ?_⟩
  obtain ⟨grammar, hkey⟩ := hconsults key hkey
  obtain ⟨front, property', text', grammar', back, hcalls, hkey', hpasses⟩ :=
    known_of_history hknown
  obtain rfl : grammar = grammar' := by
    have hsame := hkey.2.1.symm.trans hkey'.2.1
    simpa using hsame
  exact ⟨key, grammar, front, property', text', back, hcalls, hkey, hkey', hpasses⟩

/-- **A value passes because of another one.** A number and a no-break
space are one word, which is not a whole number; but their text without
blanks at the ends is. -/
theorem verdict_after_equal_text :
    ((fresh.after [("z-index", "1")]).checkText "z-index" "1\u00a0").1.toOption = some () ∧
      (fresh.checkText "z-index" "1\u00a0").1.toOption = none :=
  ⟨by decide +kernel, by decide +kernel⟩

end Stylesheet.Validator
