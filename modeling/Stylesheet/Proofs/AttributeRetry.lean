import Mathlib.Data.List.TakeWhile
import Stylesheet.Proofs.Matching.Matchers
import Stylesheet.Proofs.Remembering

/-!
# Values with references to attributes

A value that mentions `attr(` is matched twice at most. First it is matched
strictly, where a reference to an attribute is a function like any other. If
that fails, it is matched again with references let through in the place of
any part. One would expect that a value passes if the second, relaxed match
takes all of it. It does not if the first match succeeded: a strict match that
has taken a part of the value is not tried again, and only the references
right after that part are let through. So `1s, attr(x)` does not pass for the
delays of animations, where `attr(x), 1s` does.

What decides is the part at which such a value gets stuck (`stuckAt?`).
-/

namespace Stylesheet

open Grammar (Catalog Cursor Matcher)

namespace Grammar

/-- The start of some parts, where references to attributes can stand for any
part. -/
def Cursor.relaxed (parts : List ValuePart) : Cursor := { Cursor.start parts with tryAttr := true }

/-- **A match from the first part to the last.** -/
def Matcher.takesAll (m : Matcher) (catalog : Catalog) (it : Cursor) : Bool :=
  (m.run catalog it).1.isSome && (m.run catalog it).2.atEnd

/-- **A match does not look at notes.** -/
theorem Matcher.run_alike (m : Matcher) (catalog : Catalog) {it it' : Cursor} (h : it.Alike it') :
    (m.run catalog it).1 = (m.run catalog it').1 ∧
      (m.run catalog it).2.Alike (m.run catalog it').2 := by
  unfold Matcher.run
  rw [← h.parts_eq]
  exact Matching.stepOf_respects Cursor.Alike.likeness (Matching.surroundings_quiet _) m it it' h

/-- **A match that is tried again**, from the start and relaxed, comes to what
a relaxed match from the start comes to. -/
theorem Matcher.run_again (m : Matcher) (catalog : Catalog) (parts : List ValuePart) :
    let again := m.run catalog { (m.run catalog (.start parts)).2 with pos := 0, tryAttr := true }
    again.1 = (m.run catalog (.relaxed parts)).1 ∧
      again.2.Alike (m.run catalog (.relaxed parts)).2 :=
  m.run_alike catalog ⟨(m.run_follows catalog (.start parts)).parts_eq, rfl, rfl⟩

end Grammar

/-- What follows the longest run at the start of a list. -/
theorem getElem?_length_takeWhile {α : Type} (p : α → Bool) (l : List α) :
    l[(l.takeWhile p).length]? = (l.dropWhile p).head? := by
  have hsplit : (l.takeWhile p ++ l.dropWhile p)[(l.takeWhile p).length]? =
      (l.dropWhile p)[0]? := by
    rw [List.getElem?_append_right (Nat.le_refl _), Nat.sub_self]
  rwa [List.takeWhile_append_dropWhile, ← List.head?_eq_getElem?] at hsplit

namespace Validator

variable {m : Matcher} {catalog : Catalog} {key : KnownValue} {grammar : String} {value : Value}

/-! ## What a declaration is checked as -/

/-- **What a declaration is checked as**, in an at-rule or outside of all: the
property, without a vendor's mark if it is not known with it, and its
definition. -/
def resolve (name : PropertyName) (scope : Option String) : String × Option Definition :=
  let table := scope.bind Property.scope?
  let written := Text.lower name.text
  match lookup table written with
  | some definition => (written, some definition)
  | none =>
    if name.vendorPos > 0 then
      let bare := (Text.fromByte? written name.vendorPos).getD ""
      (bare, lookup table bare)
    else (written, none)

/-- A property that has a grammar is checked against it. -/
theorem check_of_grammar {name : PropertyName} {scope : Option String} {property : String}
    (h : resolve name scope = (property, some (.grammar grammar))) (v : Validator) :
    v.check name value scope = v.checkValue
      ⟨(scope.bind Property.scope?).map (·.name), property, Text.trim value.text⟩ grammar value := by
  unfold resolve at h
  dsimp only at h
  cases hwritten : lookup (scope.bind Property.scope?) (Text.lower name.text) with
  | some definition =>
    rw [hwritten] at h
    cases h
    simp only [check, hwritten]
  | none =>
    rw [hwritten] at h
    dsimp only at h
    split_ifs at h with hvendor
    · obtain ⟨rfl, hbare⟩ := Prod.mk.inj h
      simp only [check, hwritten, if_pos hvendor, hbare]
    · cases h

/-- **Whether a value starts with a global word.** -/
def startsGlobally (value : Value) : Bool :=
  value.parts.head?.any fun p => p.type == .ident && Keywords.global.has p.token.text

/-- **Any other value without variables** is matched, unless it is known. -/
theorem checkValue_of_not_global (hvar : value.isVar = false)
    (hglobal : startsGlobally value = false) (v : Validator) (hknown : v.known = []) :
    v.checkValue key grammar value = v.matchGrammar key grammar value := by
  have hnot : ¬v.known.contains key = true := by
    rw [hknown]
    exact Bool.false_ne_true
  unfold startsGlobally at hglobal
  unfold checkValue
  rw [if_neg (by rw [hvar]; exact Bool.false_ne_true)]
  dsimp only
  cases hparts : value.parts with
  | nil => exact if_neg hnot
  | cons first rest =>
    rw [hparts] at hglobal
    rw [List.head?_cons, Option.any_some] at hglobal
    dsimp only
    rw [if_neg (Bool.eq_false_iff.mp hglobal), if_neg hnot]

/-! ## Where a value gets stuck -/

/-- **The part at which a value gets stuck** that is matched strictly at first:
if that succeeds, the first part after those taken that refers to no
attribute. -/
def stuckAt? (m : Matcher) (catalog : Catalog) (parts : List ValuePart) : Option ValuePart :=
  match m.run catalog (.start parts) with
  | (some _, it) => ((parts.drop it.pos).dropWhile (·.isAttr)).head?
  | (none, _) => none

/-- Where a cursor stands when references to attributes have been let through. -/
theorem current?_letThrough (it : Cursor) :
    Cursor.current? { it with
        pos := it.pos + ((it.parts.drop it.pos).takeWhile (·.isAttr)).length } =
      ((it.parts.drop it.pos).dropWhile (·.isAttr)).head? := by
  unfold Cursor.current?
  rw [← getElem?_length_takeWhile, List.getElem?_drop]

/-- **An attempt at a value that a relaxed match takes whole** succeeds, and
stands at the part at which the value gets stuck, if there is one. -/
theorem attempt_of_relaxed {text : String} (hattr : mentionsAttr text = true)
    (hrelaxed : m.takesAll catalog (.relaxed value.parts) = true) (known : List KnownValue) :
    (attempt ⟨catalog, known⟩ m value text).1 = true ∧
      (attempt ⟨catalog, known⟩ m value text).2.current? = stuckAt? m catalog value.parts := by
  obtain ⟨hagain, hafter⟩ := m.run_again catalog value.parts
  have hparts := (m.run_follows catalog (.start value.parts)).parts_eq
  obtain ⟨hsome, hend⟩ := Bool.and_eq_true_iff.mp hrelaxed
  unfold attempt stuckAt?
  dsimp only
  rcases hstrict : m.run catalog (.start value.parts) with ⟨_ | n, it⟩
  · -- the relaxed match leaves nothing that could be let through
    rw [hstrict] at hagain hafter
    dsimp only at hagain hafter
    rw [hattr, Option.isNone_none, Bool.true_or, Bool.true_and, if_pos rfl, if_pos rfl, hagain]
    refine ⟨hsome, (current?_letThrough _).trans ?_⟩
    unfold Cursor.atEnd at hend
    rw [← hafter.parts_eq, ← hafter.pos_eq] at hend
    rw [List.drop_eq_nil_of_le (of_decide_eq_true hend)]
    rfl
  · rw [hstrict] at hparts
    have hparts : it.parts = value.parts := hparts
    rw [← hparts]
    dsimp only
    rw [hattr, Option.isNone_some, Bool.false_or, Bool.and_true]
    cases hstop : it.atEnd with
    | false => exact ⟨rfl, current?_letThrough it⟩
    | true =>
      have hle : it.parts.length ≤ it.pos := of_decide_eq_true hstop
      refine ⟨rfl, ?_⟩
      rw [List.drop_eq_nil_of_le hle]
      exact List.getElem?_eq_none hle

/-- **When a value passes that a relaxed match takes whole.** Whatever the
property and its grammar: a value that mentions `attr(`, holds no variable and
starts with no global word, and that the relaxed match takes from the first
part to the last, passes unless it gets stuck at a part when it is matched
strictly. Then it is said that the value should have ended there. -/
theorem check_of_relaxed {name : PropertyName} {scope : Option String} {property : String}
    (hgrammar : resolve name scope = (property, some (.grammar grammar)))
    (hcompile : fresh.catalog.compile grammar = (.ok m, catalog))
    (hattr : mentionsAttr (Text.trim value.text) = true) (hvar : value.isVar = false)
    (hglobal : startsGlobally value = false)
    (hrelaxed : m.takesAll catalog (.relaxed value.parts) = true) :
    (fresh.check name value scope).1 =
      match stuckAt? m catalog value.parts with
      | none => .ok ()
      | some extra => .error (mismatch "end of value" extra.text extra.location) := by
  rw [check_of_grammar hgrammar, checkValue_of_not_global hvar hglobal _ rfl]
  obtain ⟨hmatched, hcurrent⟩ := attempt_of_relaxed hattr hrelaxed fresh.known
  unfold matchGrammar
  rw [hcompile]
  dsimp only
  rw [hmatched, hcurrent]
  cases stuckAt? m catalog value.parts <;> rfl

/-- A reference to an attribute comes first. -/
theorem check_of_relaxed_first :
    let value := (parseValue "attr(x), 1s").toOption.getD (.empty .start)
    ∃ m catalog, fresh.catalog.compile "<time>#" = (.ok m, catalog) ∧
      m.takesAll catalog (.relaxed value.parts) = true ∧
      (fresh.check (.ofText "animation-delay" .start) value none).1 = .ok () := by
  intro value
  have hmatch : ((fresh.catalog.compile "<time>#").1.toOption.any fun m =>
      m.takesAll (fresh.catalog.compile "<time>#").2 (.relaxed value.parts) &&
        (stuckAt? m (fresh.catalog.compile "<time>#").2 value.parts).isNone) = true := by
    decide +kernel
  rcases hcompile : fresh.catalog.compile "<time>#" with ⟨e | m, catalog⟩
  · rw [hcompile] at hmatch
    cases hmatch
  · rw [hcompile] at hmatch
    obtain ⟨hrelaxed, hfree⟩ := Bool.and_eq_true_iff.mp hmatch
    have hgrammar : resolve (.ofText "animation-delay" .start) none =
        ("animation-delay", some (.grammar "<time>#")) := by decide +kernel
    have hcheck := check_of_relaxed hgrammar hcompile (by decide +kernel) (by decide +kernel)
      (by decide +kernel) hrelaxed
    rw [Option.isNone_iff_eq_none.mp hfree] at hcheck
    exact ⟨m, catalog, rfl, hrelaxed, hcheck⟩

/-- **A reference to an attribute comes second.** The relaxed match takes all
three parts, but the strict one takes the first, and is not tried again. -/
theorem check_attribute_second :
    let name := PropertyName.ofText "animation-delay" .start
    let value := (parseValue "1s, attr(x)").toOption.getD (.empty .start)
    (∃ m catalog, resolve name none = ("animation-delay", some (.grammar "<time>#")) ∧
      fresh.catalog.compile "<time>#" = (.ok m, catalog) ∧
      mentionsAttr (Text.trim value.text) = true ∧ value.isVar = false ∧
      startsGlobally value = false ∧ m.takesAll catalog (.relaxed value.parts) = true) ∧
    (fresh.check name value none).1 =
      .error (.unfitAt "Expected end of value but found \",\"." ⟨1, 3, 2⟩) := by
  intro name value
  constructor
  · have hmatch : ((fresh.catalog.compile "<time>#").1.toOption.any fun m =>
        m.takesAll (fresh.catalog.compile "<time>#").2 (.relaxed value.parts)) = true := by
      decide +kernel
    rcases hcompile : fresh.catalog.compile "<time>#" with ⟨e | m, catalog⟩
    · rw [hcompile] at hmatch
      cases hmatch
    · rw [hcompile] at hmatch
      exact ⟨m, catalog, by decide +kernel, rfl, by decide +kernel, by decide +kernel,
        by decide +kernel, hmatch⟩
  · have hverdict : Except.casesOn (motive := fun _ => Option Diagnostic)
        (fresh.check name value none).1 some (fun _ => none) =
        some (.unfitAt "Expected end of value but found \",\"." ⟨1, 3, 2⟩) := by decide +kernel
    cases hresult : (fresh.check name value none).1 with
    | error e =>
      rw [hresult] at hverdict
      rw [Option.some.inj hverdict]
    | ok _ =>
      rw [hresult] at hverdict
      cases hverdict

end Validator

end Stylesheet
