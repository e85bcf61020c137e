import Stylesheet.Proofs.Matching.Leaves

/-!
# Terms with nothing to spare

The terms that grammars are read as are proper (`Term.ofString_proper`):
combinators have at least two members, no sequence is one that stands for a
block in square brackets, references are in angle brackets, functions have
words for names, and the bounds of multipliers are numbers that can be
written.
-/

namespace Stylesheet.Grammar

open Text

/-! ## Proper terms -/

/-- **Bounds that can be written.** -/
structure Bounded (least : Nat) (greatest : Option Nat) : Prop where
  /-- The lower bound is a number that can be written. -/
  least : least ≤ Multiplier.unbounded
  /-- The upper bound is one that is a bound. -/
  greatest : ∀ n, greatest = some n → n < Multiplier.unbounded

/-- **A multiplier that can be written.** -/
inductive Multiplier.Proper : Multiplier → Prop where
  /-- A mark alone. -/
  | mark (marker : Marker) : Multiplier.Proper (.ofMarker marker)
  /-- A range. -/
  | range {least : Nat} {greatest : Option Nat} : Bounded least greatest →
      Multiplier.Proper ⟨least, greatest, none, false⟩
  /-- A range of repetitions with commas in between. -/
  | hashRange {least : Nat} {greatest : Option Nat} : Bounded least greatest →
      Multiplier.Proper ⟨least, greatest, some .hash, true⟩

/-- **The name of a function**: a word in small letters. -/
structure IsFunctionName (name : String) : Prop where
  /-- It is not empty. -/
  ne_nil : name.toList ≠ []
  /-- It has characters of words. -/
  chars : ∀ c ∈ name.toList, Parser.isWordChar c = true
  /-- They are small. -/
  small : ∀ c ∈ name.toList, IsSmall c

/-- **A proper term.** -/
inductive Term.Proper : Term → Prop where
  /-- Words. -/
  | words {text : String} : IsKey text → Term.Proper (.words text)
  /-- A reference. -/
  | reference {name : String} : IsKey name → name.toList.head? = some '<' →
      Term.Proper (.reference name)
  /-- A function, with a proper body if any. -/
  | function {name : String} {body : Option Term} : IsFunctionName name →
      (∀ term, body = some term → Term.Proper term) → Term.Proper (.function name body)
  /-- At least two alternatives. -/
  | oneOf {members : List Term} : 2 ≤ members.length → (∀ term ∈ members, Term.Proper term) →
      Term.Proper (.oneOf members)
  /-- At least two members in any order. -/
  | someOf {members : List Term} : 2 ≤ members.length → (∀ term ∈ members, Term.Proper term) →
      Term.Proper (.someOf members)
  /-- All of at least two members in any order. -/
  | allOf {members : List Term} : 2 ≤ members.length → (∀ term ∈ members, Term.Proper term) →
      Term.Proper (.allOf members)
  /-- At least two terms in a row, which are no block. -/
  | sequence {members : List Term} : 2 ≤ members.length →
      (∀ term, members ≠ [.words "\"[\"", term, .words "\"]\""]) →
      (∀ term ∈ members, Term.Proper term) → Term.Proper (.sequence members)
  /-- A repeated term. -/
  | repeated {term : Term} {m : Multiplier} : Term.Proper term → m.Proper →
      Term.Proper (.repeated term m)
  /-- A block in square brackets. -/
  | bracketed {term : Term} : Term.Proper term → Term.Proper (.bracketed term)

theorem Multiplier.Proper.min_of_optional {m : Multiplier} (h : m.Proper)
    (hmarker : m.marker = some .optional) : m = .ofMarker .optional := by
  cases h with
  | mark marker =>
    cases marker with
    | optional => rfl
    | _ => cases hmarker
  | _ => cases hmarker

theorem Term.Proper.regular {term : Term} (h : term.Proper) : term.Regular IsKey := by
  induction h with
  | words htext => exact .words htext
  | reference hname => exact .reference hname
  | function _ _ ih => exact .function ih
  | oneOf _ _ ih => exact .oneOf ih
  | someOf _ _ ih => exact .someOf ih
  | allOf _ _ ih => exact .allOf ih
  | sequence _ _ _ ih => exact .sequence ih
  | repeated _ hm ih =>
    refine .repeated ih fun hmarker => ?_
    rw [hm.min_of_optional hmarker]
    rfl
  | bracketed _ ih => exact .bracketed ih

namespace Parser

variable {cs rest : List Char}

/-! ## Multipliers -/

theorem number_le {n : Nat} (h : number cs = some (n, rest)) : n ≤ Multiplier.unbounded := by
  obtain ⟨⟨digits, left⟩, -, h⟩ := Option.bind_eq_some_iff.mp h
  dsimp only at h
  split_ifs at h with hle
  cases h
  exact hle

theorem bound_lt {n k : Nat} (hn : n ≤ Multiplier.unbounded) (h : bound n = some k) :
    k < Multiplier.unbounded := by
  unfold bound at h
  split_ifs at h with hne
  cases h
  exact Nat.lt_of_le_of_ne hn hne

theorem range_bounded {least : Nat} {greatest : Option Nat}
    (h : range cs = some ((least, greatest), rest)) : Bounded least greatest := by
  obtain ⟨left, -, h⟩ := Option.bind_eq_some_iff.mp h
  obtain ⟨⟨n, left'⟩, hleast, h⟩ := Option.bind_eq_some_iff.mp h
  obtain ⟨after, -, h⟩ := Option.bind_eq_some_iff.mp h
  cases h
  have hn := number_le hleast
  refine ⟨hn, fun k hk => ?_⟩
  split at hk
  · exact bound_lt hn hk
  · split at hk
    · next hnumber => exact bound_lt (number_le hnumber) hk
    · cases hk

theorem multiplier_proper {m : Multiplier} (h : multiplier cs = some (m, rest)) : m.Proper := by
  unfold multiplier at h
  split at h
  · next hrange =>
    cases h
    exact .range (range_bounded hrange)
  · split at h
    · cases h
    · split at h
      · cases h
      · next marker _ =>
        split at h
        · next hrange =>
          cases h
          split_ifs at hrange
          exact .hashRange (range_bounded hrange)
        · cases h
          exact .mark marker

/-! ## Readers -/

/-- **A reader of proper terms.** -/
def YieldsProper (p : Parser Term) : Prop := ∀ cs term rest, p cs = some (term, rest) → term.Proper

section Lists

variable {separator : List Char → Option (List Char)} {item : Parser Term} {terms : List Term}
  (hitem : YieldsProper item)

include hitem

theorem more_proper {fuel : Nat} (h : more separator item fuel cs = (terms, rest)) :
    ∀ term ∈ terms, term.Proper := by
  induction fuel generalizing cs terms rest with
  | zero =>
    cases h
    nofun
  | succ fuel ih =>
    unfold more at h
    split at h
    · cases h
      nofun
    · split at h
      · cases h
        nofun
      · next term left hfirst =>
        cases h
        intro other hother
        rcases List.mem_cons.mp hother with rfl | hother
        · exact hitem _ _ _ hfirst
        · exact ih rfl other hother

theorem separated_proper (h : separated separator item cs = some (terms, rest)) :
    terms ≠ [] ∧ ∀ term ∈ terms, term.Proper := by
  obtain ⟨⟨term, left⟩, hfirst, h⟩ := Option.bind_eq_some_iff.mp h
  cases h
  refine ⟨List.cons_ne_nil _ _, fun other hother => ?_⟩
  rcases List.mem_cons.mp hother with rfl | hother
  · exact hitem _ _ _ hfirst
  · exact more_proper hitem rfl other hother

end Lists

/-- Proper terms under a combinator, or a single one. -/
theorem combine_proper {wrap : List Term → Term} {terms : List Term}
    (hwrap : 2 ≤ terms.length → (wrap terms).Proper) (hne : terms ≠ [])
    (hterms : ∀ term ∈ terms, term.Proper) : (Term.combine wrap terms).Proper := by
  match terms with
  | [] => exact absurd rfl hne
  | [term] => exact hterms term List.mem_cons_self
  | _ :: _ :: terms => exact hwrap (Nat.le_add_left 2 terms.length)

/-- A sequence is a block in square brackets, a single term, or proper. -/
theorem ofSequence_proper {terms : List Term} (hne : terms ≠ [])
    (hterms : ∀ term ∈ terms, term.Proper) : (ofSequence terms).Proper := by
  unfold ofSequence
  split
  · exact .bracketed (hterms _ (by simp))
  · next hblock =>
    exact combine_proper (fun htwo => .sequence htwo (fun term => hblock term) hterms) hne hterms

theorem wordRun_proper : YieldsProper wordRun := by
  intro cs term rest h
  obtain ⟨hregular, -⟩ := readable_isKey.wordRun cs term rest trivial h
  obtain ⟨ws, -, -, rfl⟩ := wordRun_eq h
  cases hregular with
  | words hkey => exact .words hkey

theorem reference_proper : YieldsProper reference := by
  intro cs term rest h
  have hregular := reference_isKey h
  obtain ⟨inside, hne, hchars, -, rfl⟩ := reference_eq h
  cases hregular with
  | reference hkey => exact .reference hkey (isReference_lower hne hchars).head

theorem literal_proper : YieldsProper literal := by
  intro cs term rest h
  have hregular := literal_isKey h
  obtain ⟨⟨text, left⟩, -, h⟩ := Option.bind_eq_some_iff.mp h
  cases h
  cases hregular with
  | words hkey => exact .words hkey

theorem isFunctionName_lower {w : List Char} (hne : w ≠ [])
    (hw : ∀ c ∈ w, isWordChar c = true) : IsFunctionName (lower (String.ofList w)) :=
  ⟨lower_ne_empty (by rwa [String.toList_ofList]), isWordChar_lower hw,
    fun _ => isSmall_of_mem_lower⟩

section Readers

variable {inside : Parser Term} (hinside : YieldsProper inside)

include hinside

theorem group_proper : YieldsProper (group inside) := by
  intro cs term rest h
  obtain ⟨left, -, h⟩ := Option.bind_eq_some_iff.mp h
  obtain ⟨⟨term', left'⟩, hterm, h⟩ := Option.bind_eq_some_iff.mp h
  obtain ⟨after, -, h⟩ := Option.bind_eq_some_iff.mp h
  cases h
  exact hinside _ _ _ hterm

theorem function_proper : YieldsProper (function inside) := by
  intro cs term rest h
  obtain ⟨⟨w, left⟩, hname, h⟩ := Option.bind_eq_some_iff.mp h
  obtain ⟨hne, hw, -⟩ := run_eq hname
  obtain ⟨left', -, h⟩ := Option.bind_eq_some_iff.mp h
  dsimp only at h
  split at h
  · cases h
    exact .function (isFunctionName_lower hne hw) nofun
  · obtain ⟨⟨body, after⟩, hbody, h⟩ := Option.bind_eq_some_iff.mp h
    obtain ⟨after', -, h⟩ := Option.bind_eq_some_iff.mp h
    cases h
    refine .function (isFunctionName_lower hne hw) ?_
    rintro term ⟨⟩
    exact hinside _ _ _ hbody

theorem item_proper : YieldsProper (item inside) := by
  intro cs term rest h
  obtain ⟨⟨inner, left⟩, hinner, h⟩ := Option.bind_eq_some_iff.mp h
  have hproper : inner.Proper := by
    rcases Option.or_eq_some_iff.mp hinner with hgroup | ⟨-, hinner⟩
    · exact group_proper hinside _ _ _ hgroup
    rcases Option.or_eq_some_iff.mp hinner with hfunction | ⟨-, hinner⟩
    · exact function_proper hinside _ _ _ hfunction
    rcases Option.or_eq_some_iff.mp hinner with href | ⟨-, hliteral⟩
    · exact reference_proper _ _ _ href
    · exact literal_proper _ _ _ hliteral
  dsimp only at h
  split at h
  · next hmultiplier =>
    cases h
    exact .repeated hproper (multiplier_proper hmultiplier)
  · cases h
    exact hproper

theorem sequence_proper : YieldsProper (sequence inside) := by
  intro cs term rest h
  obtain ⟨⟨terms, left⟩, hterms, h⟩ := Option.map_eq_some_iff.mp h
  cases h
  obtain ⟨hne, hall⟩ := separated_proper (item_proper hinside) hterms
  exact ofSequence_proper hne hall

theorem allOf_proper : YieldsProper (allOf inside) := by
  intro cs term rest h
  obtain ⟨⟨terms, left⟩, hterms, h⟩ := Option.map_eq_some_iff.mp h
  cases h
  obtain ⟨hne, hall⟩ := separated_proper (sequence_proper hinside) hterms
  exact combine_proper (fun htwo => .allOf htwo hall) hne hall

theorem someOf_proper : YieldsProper (someOf inside) := by
  intro cs term rest h
  obtain ⟨⟨terms, left⟩, hterms, h⟩ := Option.map_eq_some_iff.mp h
  cases h
  obtain ⟨hne, hall⟩ := separated_proper (allOf_proper hinside) hterms
  exact combine_proper (fun htwo => .someOf htwo hall) hne hall

theorem oneOf_proper : YieldsProper (oneOf inside) := by
  intro cs term rest h
  obtain ⟨⟨terms, left⟩, hterms, h⟩ := Option.map_eq_some_iff.mp h
  cases h
  have hchoice : YieldsProper fun cs => (wordRun cs).or (someOf inside cs) := by
    intro cs term rest h
    rcases Option.or_eq_some_iff.mp h with hrun | ⟨-, hsome⟩
    · exact wordRun_proper _ _ _ hrun
    · exact someOf_proper hinside _ _ _ hsome
  obtain ⟨hne, hall⟩ := separated_proper hchoice hterms
  exact combine_proper (fun htwo => .oneOf htwo hall) hne hall

end Readers

theorem nested_proper (depth : Nat) : YieldsProper (nested depth) := by
  induction depth with
  | zero => nofun
  | succ depth ih => exact oneOf_proper ih

end Parser

/-- **The term of a grammar is proper.** -/
theorem Term.ofString_proper {text : String} {term : Term} (h : Term.ofString text = .ok term) :
    term.Proper := by
  unfold Term.ofString at h
  dsimp only at h
  split at h
  · next hread =>
    split at h
    · cases h
      exact Parser.nested_proper _ _ _ _ hread
    · cases h
  · cases h

end Stylesheet.Grammar
