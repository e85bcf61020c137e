import Mathlib.Data.List.Perm.Basic
import Stylesheet.Proofs.Matching.Assignment
import Stylesheet.Proofs.Matching.Catalog

/-!
# Parts in any order

A group in any order whose members take one part each covers some parts if
these can be seated: a member for every part, no member twice, and every
required member for some part (`covers_iff`). That does not depend on the
order of the parts.

For `||` all members count, so the assignment that the search comes to has as
many as any (`searched_best`), and it has a seat for every part if there is
such a seating. For `&&` members marked with `?` do not count, and the search
may stop too early: a required member has taken the part that an optional one
was waiting for, and nobody takes the next part (`covers_left_over`). Where a
part that suits an optional member suits no other one this cannot happen: then
the assignments that count for the most differ in the required members only.
-/

namespace Stylesheet.Grammar

open Matching

/-- **Whether a matcher takes all of some parts**, from the first to the last,
where references to attributes are let through or not. -/
def Matcher.covers (m : Matcher) (catalog : Catalog) (attr : Bool) (parts : List ValuePart) :
    Bool :=
  let (result, it) := m.run catalog ⟨parts, 0, attr, none, []⟩
  result.isSome && it.atEnd

/-! ## Members that take one part -/

/-- **A step that takes one part**, if the part suits it. -/
structure Step.TakesOne (step : Step) (it : Cursor) (suits : ValuePart → Prop) : Prop where
  /-- It takes a part that suits it. -/
  sound : ∀ {pos n after}, step { it with pos := pos } = (some (n + 1), after) →
    ∃ p, it.parts[pos]? = some p ∧ suits p ∧ after.pos = pos + 1
  /-- It takes every part that does. -/
  complete : ∀ {pos p}, it.parts[pos]? = some p → suits p →
    ∃ n after, step { it with pos := pos } = (some (n + 1), after)
  /-- Otherwise it takes nothing. -/
  idle : ∀ {pos after}, step { it with pos := pos } = (some 0, after) → after.pos = pos

namespace AnyOrder

/-- **Members with a seat each**, from a place in the parts on. -/
def Seated (suits : Nat → ValuePart → Prop) (size : Nat) (parts : List ValuePart) (pos : Nat)
    (order : List Nat) : Prop :=
  ∀ k i, order[k]? = some i → i < size ∧ ∃ p, parts[pos + k]? = some p ∧ suits i p

variable {members : List Member} {suits : Nat → ValuePart → Prop} {parts : List ValuePart}
  {it after : Cursor} {pos stop size : Nat} {order more : List Nat}

theorem Seated.cons {i : Nat} {p : ValuePart} (hi : i < size) (hp : parts[pos]? = some p)
    (hsuits : suits i p) (h : Seated suits size parts (pos + 1) order) :
    Seated suits size parts pos (i :: order) := by
  intro k j hk
  cases k with
  | zero =>
    cases hk
    exact ⟨hi, p, hp, hsuits⟩
  | succ k =>
    obtain ⟨hj, q, hq, hsuits⟩ := h k j hk
    exact ⟨hj, q, by rwa [show pos + (k + 1) = pos + 1 + k by omega], hsuits⟩

theorem Seated.tail {i : Nat} (h : Seated suits size parts pos (i :: order)) :
    Seated suits size parts (pos + 1) order := by
  intro k j hk
  obtain ⟨hj, p, hp, hsuits⟩ := h (k + 1) j hk
  exact ⟨hj, p, by rwa [show pos + 1 + k = pos + (k + 1) by omega], hsuits⟩

theorem Seated.take (h : Seated suits size parts pos order) (n : Nat) :
    Seated suits size parts pos (order.take n) := by
  intro k i hk
  rw [List.getElem?_take] at hk
  split_ifs at hk
  exact h k i hk

/-- **One more seat.** -/
theorem Seated.concat {i : Nat} {p : ValuePart} (h : Seated suits size parts pos order)
    (hi : i < size) (hp : parts[pos + order.length]? = some p) (hsuits : suits i p) :
    Seated suits size parts pos (order ++ [i]) := by
  intro k j hk
  rw [List.getElem?_append] at hk
  split_ifs at hk with hlt
  · exact h k j hk
  · obtain ⟨hzero, rfl⟩ : k - order.length = 0 ∧ i = j := by
      rw [List.getElem?_singleton] at hk
      split_ifs at hk with hzero
      exact ⟨hzero, Option.some.inj hk⟩
    rw [show k = order.length by omega]
    exact ⟨hi, p, hp, hsuits⟩

/-- A seat is a part. -/
theorem Seated.length_le (h : Seated suits size parts 0 order) : order.length ≤ parts.length := by
  by_contra hlt
  obtain ⟨-, p, hp, -⟩ := h parts.length _ (List.getElem?_eq_getElem (by omega))
  rw [List.getElem?_eq_none (by omega)] at hp
  cases hp

/-- **Seats for all parts.** -/
theorem seated_iff_forall₂ : (Seated suits size parts 0 order ∧ order.length = parts.length) ↔
    List.Forall₂ (fun i p => i < size ∧ suits i p) order parts := by
  rw [List.forall₂_iff_get]
  constructor
  · rintro ⟨h, hlength⟩
    refine ⟨hlength, fun k hk hk' => ?_⟩
    obtain ⟨hi, p, hp, hsuits⟩ := h k _ (List.getElem?_eq_getElem hk)
    rw [Nat.zero_add, List.getElem?_eq_getElem hk'] at hp
    cases hp
    exact ⟨hi, hsuits⟩
  · rintro ⟨hlength, h⟩
    refine ⟨fun k i hk => ?_, hlength⟩
    obtain ⟨hlt, rfl⟩ := List.getElem?_eq_some_iff.mp hk
    obtain ⟨hi, hsuits⟩ := h k hlt (hlength ▸ hlt)
    refine ⟨hi, parts[k], ?_, hsuits⟩
    rw [Nat.zero_add]
    exact List.getElem?_eq_getElem (hlength ▸ hlt)

/-- **Members that take one part each** match one after another if they have
seats. -/
theorem fits_iff_seated (hone : ∀ (i : Nat) (member : Member), members[i]? = some member →
    member.step.TakesOne it (suits i)) : Fits members it pos order stop ↔
    stop = pos + order.length ∧ Seated suits members.length it.parts pos order := by
  induction order generalizing pos with
  | nil =>
    constructor
    · rintro ⟨⟩
      exact ⟨rfl, nofun⟩
    · rintro ⟨rfl, -⟩
      exact .nil
  | cons i order ih =>
    constructor
    · intro h
      cases h with
      | cons hmember hstep hfits =>
        obtain ⟨p, hp, hsuits, hpos⟩ := (hone _ _ hmember).sound hstep
        rw [hpos] at hfits
        obtain ⟨rfl, hseated⟩ := ih.mp hfits
        refine ⟨by rw [List.length_cons]; omega, ?_⟩
        exact hseated.cons (List.getElem?_eq_some_iff.mp hmember).1 hp hsuits
    · rintro ⟨rfl, h⟩
      obtain ⟨hi, p, hp, hsuits⟩ := h 0 i rfl
      have hmember := List.getElem?_eq_getElem hi
      obtain ⟨n, after, hstep⟩ := (hone _ _ hmember).complete hp hsuits
      obtain ⟨q, hq, -, hpos⟩ := (hone _ _ hmember).sound hstep
      refine .cons hmember hstep (ih.mpr ⟨?_, ?_⟩)
      · rw [hpos, List.length_cons]
        omega
      · rw [show after.pos = pos + 1 from hpos]
        exact h.tail

/-! ## Seats for all parts -/

section Group

variable {s : Surroundings} {ms : List Matcher} {required : Option (List Bool)} {search : Search}

/-- **Members whose parts suit no other member**, unless both are required. -/
def Apart (suits : Nat → ValuePart → Prop) (required : Option (List Bool))
    (parts : List ValuePart) : Prop :=
  ∀ i j, ∀ p ∈ parts, Matcher.isRequired required i = false → suits i p → suits j p → i = j

/-- Two members that suit a part are both required or neither is. -/
theorem Apart.isRequired_eq {i j : Nat} {p : ValuePart} (h : Apart suits required parts)
    (hp : p ∈ parts) (hi : suits i p) (hj : suits j p) :
    Matcher.isRequired required i = Matcher.isRequired required j := by
  cases hri : Matcher.isRequired required i with
  | false => rw [← h i j p hp hri hi hj, hri]
  | true =>
    cases hrj : Matcher.isRequired required j with
    | true => rfl
    | false => rw [h j i p hp hrj hj hi, hri] at hrj; exact hrj

/-- Two seatings of the same parts have required members in the same
places. -/
theorem Apart.countP_eq (h : Apart suits required parts) (horder : Seated suits size parts 0 order)
    (hmore : Seated suits size parts 0 more) (hlength : order.length = more.length) :
    order.countP (Matcher.isRequired required) = more.countP (Matcher.isRequired required) := by
  have hmap : order.map (Matcher.isRequired required) = more.map (Matcher.isRequired required) := by
    refine List.ext_getElem (by rw [List.length_map, List.length_map, hlength]) fun k hk hk' => ?_
    rw [List.getElem_map, List.getElem_map]
    obtain ⟨-, p, hp, hsuits⟩ := horder k _ (List.getElem?_eq_getElem (by simpa using hk))
    obtain ⟨-, q, hq, hsuits'⟩ := hmore k _ (List.getElem?_eq_getElem (by simpa using hk'))
    cases hp.symm.trans hq
    exact h.isRequired_eq (List.mem_of_getElem? hp) hsuits hsuits'
  have hcount := congrArg (List.countP id) hmap
  rwa [List.countP_map, List.countP_map] at hcount

variable (hone : ∀ (i : Nat) (member : Member),
  (membersOf s required 0 ms)[i]? = some member → member.step.TakesOne it (suits i))

include hone in
/-- **A best assignment has a seat for every part** if there are seats for
all of them. -/
theorem Best.length_eq_of_seated (hpos : it.pos = 0) (hapart : Apart suits required it.parts)
    (h : Best (membersOf s required 0 ms) it search after order stop) (hnodup : more.Nodup)
    (hmore : Seated suits ms.length it.parts 0 more) (hall : more.length = it.parts.length) :
    order.length = it.parts.length := by
  have hsize := length_membersOf s required ms 0
  have hfits : ∀ {order stop}, Fits (membersOf s required 0 ms) it it.pos order stop ↔
      stop = order.length ∧ Seated suits ms.length it.parts 0 order := by
    intro order stop
    rw [fits_iff_seated hone, hpos, hsize, Nat.zero_add]
  obtain ⟨-, hseated⟩ := hfits.mp h.assignment.fits
  refine Nat.le_antisymm hseated.length_le (Nat.le_of_not_lt fun hlt => ?_)
  -- the first part without a seat has one in the other seating
  have hmorelt : order.length < more.length := hall ▸ hlt
  have hget := List.getElem?_eq_getElem hmorelt
  obtain ⟨hi, p, hp, hsuits⟩ := hmore order.length _ hget
  by_cases hmem : more[order.length] ∈ order
  · obtain ⟨k, hk⟩ := List.mem_iff_getElem?.mp hmem
    have hklt := (List.getElem?_eq_some_iff.mp hk).1
    -- it is a required member that sits elsewhere, and then the other seating has one more
    have hrequired : Matcher.isRequired required more[order.length] = true := by
      by_contra hmarked
      obtain ⟨-, q, hq, hsuits'⟩ := hseated k _ hk
      obtain ⟨-, q', hq', hother⟩ := hmore k _ (List.getElem?_eq_getElem (by omega))
      cases hq.symm.trans hq'
      have hsame := hapart _ _ q (List.mem_of_getElem? hq) (by simpa using hmarked) hsuits' hother
      have hplace := (List.Nodup.getElem_inj_iff hnodup).mp hsame
      omega
    have hcount := hapart.countP_eq (hseated) (hmore.take order.length)
      (by rw [List.length_take]; omega)
    have hassignment : Assignment (membersOf s required 0 ms) it (more.take (order.length + 1))
        (more.take (order.length + 1)).length :=
      ⟨hnodup.sublist (List.take_sublist _ _), hfits.mpr ⟨rfl, hmore.take _⟩⟩
    have hle := h.countP_le hassignment
    rw [List.take_succ_eq_append_getElem hmorelt, List.countP_append, hcount,
      List.countP_singleton, if_pos hrequired] at hle
    omega
  · refine h.last _ (order.length + 1) ⟨?_, hfits.mpr ⟨?_, hseated.concat hi hp hsuits⟩⟩
    · refine List.nodup_append.mpr ⟨h.assignment.nodup, List.nodup_singleton _, ?_⟩
      rintro i hi j hj rfl
      exact hmem (List.mem_singleton.mp hj ▸ hi)
    · rw [List.length_append, List.length_singleton]

include hone in
/-- **A group in any order covers some parts** if there are seats for all of
them, and a required member is missing nowhere. -/
theorem covers_iff (hpos : it.pos = 0) (hne : it.parts ≠ [])
    (hmarks : ∀ marks, required = some marks → ms.length ≤ marks.length)
    (hapart : Apart suits required it.parts) :
    ((stepOf s (.anyOrder ms required) it).1.isSome = true ∧
      (stepOf s (.anyOrder ms required) it).2.atEnd = true) ↔
      ∃ order, order.Nodup ∧ List.Forall₂ (fun i p => i < ms.length ∧ suits i p) order it.parts ∧
        (required.isSome = true → ∀ i, i < ms.length → Matcher.isRequired required i = true →
          i ∈ order) := by
  obtain ⟨order, stop, hbest⟩ := searched_best (membersOf_steady s required ms) it
  have hsize := length_membersOf s required ms 0
  have hfits := hbest.assignment.fits
  rw [fits_iff_seated hone, hpos, hsize, Nat.zero_add] at hfits
  obtain ⟨rfl, hseated⟩ := hfits
  have hlength : 0 < it.parts.length := List.length_pos_iff.mpr hne
  have hstep : ((stepOf s (.anyOrder ms required) it).1.isSome = true ∧
      (stepOf s (.anyOrder ms required) it).2.atEnd = true) ↔
      isEnough required (searched (membersOf s required 0 ms) it).1 = true ∧
        order.length = it.parts.length := by
    have hcurrent : it.current? = some it.parts[0] := by
      rw [Cursor.current?, hpos]
      exact List.getElem?_eq_getElem hlength
    have hend : (searched (membersOf s required 0 ms) it).2.atEnd = true ↔
        order.length = it.parts.length := by
      rw [Cursor.atEnd, hbest.alike.pos_eq, hbest.alike.parts_eq, decide_eq_true_eq]
      exact ⟨fun h => Nat.le_antisymm hseated.length_le h, fun h => Nat.le_of_eq h.symm⟩
    rw [stepOf, needsPart, hcurrent]
    unfold Step.restoring
    rw [step_eq]
    cases isEnough required (searched (membersOf s required 0 ms) it).1 with
    | false => simp
    | true => simpa using hend
  rw [hstep, hbest.isEnough_iff hmarks]
  constructor
  · rintro ⟨⟨-, hall⟩, hcovers⟩
    exact ⟨order, hbest.assignment.nodup, seated_iff_forall₂.mp ⟨hseated, hcovers⟩, hall⟩
  · rintro ⟨more, hnodup, hforall, hall⟩
    obtain ⟨hmore, hcovers⟩ := seated_iff_forall₂.mpr hforall
    have horder := hbest.length_eq_of_seated hone hpos hapart hnodup hmore hcovers
    refine ⟨⟨fun _ hnil => ?_, fun hmarked => ?_⟩, horder⟩
    · rw [hnil] at horder
      exact absurd horder (Nat.ne_of_lt hlength)
    · have hcount := hapart.countP_eq hseated hmore (horder.trans hcovers.symm)
      exact required_of_countP_le hbest.assignment.nodup hbest.assignment.lt_length (hall hmarked)
        (Nat.le_of_eq hcount.symm)

end Group

end AnyOrder

/-! ## Keywords and basic types -/

/-- **A keyword or a basic type.** -/
def Term.IsPlainLeaf (term : Term) : Prop :=
  (∃ text, term.leaf? = some (.words text)) ∨ ∃ type, term.leaf? = some (.basic type)

/-- **A keyword or a basic type, marked with `?` or not.** -/
inductive Term.IsPlainMember : Term → Prop where
  /-- Without a mark. -/
  | leaf {term : Term} : term.IsPlainLeaf → IsPlainMember term
  /-- With a mark. -/
  | marked {term : Term} : term.IsPlainLeaf → IsPlainMember (.repeated term (.ofMarker .optional))

section Members

variable {s : Surroundings} {attr : Bool} {term : Term} {terms : List Term} {m : Matcher}
  {ms : List Matcher} {it : Cursor} {p : ValuePart} {f : ValuePart → Bool} {next : Step}

/-- **What belongs to words.** -/
theorem Accepts.words_inv {text : String} {ps : List ValuePart}
    (h : term.leaf? = some (.words text)) (haccepts : Accepts attr term ps) :
    ∃ p, ps = [p] ∧ (IsWild attr p ∨ wordMatches (wordsOf text) p = true) := by
  cases haccepts with
  | wild _ hwild => exact ⟨_, rfl, .inl hwild⟩
  | words hleaf hmatches =>
    cases h.symm.trans hleaf
    exact ⟨_, rfl, .inr hmatches⟩
  | basic hleaf | group hleaf | grammar hleaf => cases h.symm.trans hleaf
  | _ => cases h

/-- **What belongs to a basic type.** -/
theorem Accepts.basic_inv {type : BasicType} {ps : List ValuePart}
    (h : term.leaf? = some (.basic type)) (haccepts : Accepts attr term ps) :
    ∃ p, ps = [p] ∧ (IsWild attr p ∨ type.holds p = true) := by
  cases haccepts with
  | wild _ hwild => exact ⟨_, rfl, .inl hwild⟩
  | basic hleaf hholds =>
    cases h.symm.trans hleaf
    exact ⟨_, rfl, .inr hholds⟩
  | words hleaf | group hleaf | grammar hleaf => cases h.symm.trans hleaf
  | _ => cases h

/-- What belongs to a marked term is left out or belongs to the term. -/
theorem Accepts.marked_inv {ps : List ValuePart}
    (h : Accepts attr (.repeated term (.ofMarker .optional)) ps) :
    ps = [] ∨ Accepts attr term ps := by
  cases h with
  | wild hsingle =>
    obtain ⟨leaf, hleaf, -⟩ := hsingle
    cases hleaf
  | repeated htimes _ hmax =>
    have hle := hmax 1 rfl
    cases htimes with
    | zero => exact .inl rfl
    | one h => exact .inr h
    | more => omega
  | words hleaf | basic hleaf | group hleaf | grammar hleaf => cases hleaf

/-- **The matcher of a keyword or a basic type** tests a part. -/
theorem Made.plainLeaf (hm : Made term m) (h : term.IsPlainLeaf) :
    m.isOptional = false ∧ ∃ f : ValuePart → Bool,
      (∀ s, stepOf s m = single fun part it => (f part, it)) ∧
      ∀ attr p, p.isVar = false →
        (Accepts attr term [p] ↔ f p = true ∨ attr = true ∧ p.isAttr = true) := by
  obtain ⟨text, hleaf⟩ | ⟨type, hleaf⟩ := h
  · cases hm with
    | words hleaf' =>
      cases hleaf.symm.trans hleaf'
      refine ⟨rfl, wordMatches (wordsOf text), fun _ => rfl, fun attr p hvar => ⟨fun h => ?_, ?_⟩⟩
      · obtain ⟨_, ⟨⟩, hwild | hmatches⟩ := h.words_inv hleaf
        · exact .inr (hwild.resolve_left (by simp [hvar]))
        · exact .inl hmatches
      · rintro (hmatches | hattr)
        · exact .words hleaf hmatches
        · exact .wild (Term.isSingle_of_leaf hleaf trivial) (.inr hattr)
    | basic hleaf' | group hleaf' | grammar _ hleaf' => cases hleaf.symm.trans hleaf'
    | _ => cases hleaf
  · cases hm with
    | basic hleaf' =>
      cases hleaf.symm.trans hleaf'
      refine ⟨rfl, type.holds, fun _ => rfl, fun attr p hvar => ⟨fun h => ?_, ?_⟩⟩
      · obtain ⟨_, ⟨⟩, hwild | hholds⟩ := h.basic_inv hleaf
        · exact .inr (hwild.resolve_left (by simp [hvar]))
        · exact .inl hholds
      · rintro (hholds | hattr)
        · exact .basic hleaf hholds
        · exact .wild (Term.isSingle_of_leaf hleaf trivial) (.inr hattr)
    | words hleaf' | group hleaf' | grammar _ hleaf' => cases hleaf.symm.trans hleaf'
    | _ => cases hleaf

/-- **A test of a part**, away from variables. -/
theorem single_apply (hvar : ∀ p ∈ it.parts, p.isVar = false) (pos : Nat) :
    single (fun part it => (f part, it)) { it with pos := pos } =
      match it.parts[pos]? with
      | none => (none, { it with pos := pos })
      | some p => if f p || (it.tryAttr && p.isAttr) then (some 1, { it with pos := pos + 1 })
          else (none, { it with pos := pos }) := by
  unfold single Cursor.current?
  dsimp only
  cases hp : it.parts[pos]? with
  | none => rfl
  | some p =>
    dsimp only
    rw [hvar p (List.mem_of_getElem? hp)]
    rfl

theorem single_takesOne (hvar : ∀ p ∈ it.parts, p.isVar = false) :
    Step.TakesOne (single fun part it => (f part, it)) it
      fun p => f p = true ∨ it.tryAttr = true ∧ p.isAttr = true := by
  refine ⟨fun {pos n after} hstep => ?_, fun {pos p} hp hsuits => ?_, fun {pos after} hstep => ?_⟩
  · rw [single_apply hvar] at hstep
    cases hp : it.parts[pos]? with
    | none =>
      rw [hp] at hstep
      cases hstep
    | some p =>
      rw [hp] at hstep
      dsimp only at hstep
      split_ifs at hstep with hfits
      · cases hstep
        exact ⟨p, rfl, by simpa using hfits, rfl⟩
      · cases hstep
  · rw [single_apply hvar, hp]
    dsimp only
    rw [if_pos (by simpa using hsuits)]
    exact ⟨0, _, rfl⟩
  · rw [single_apply hvar] at hstep
    cases hp : it.parts[pos]? with
    | none =>
      rw [hp] at hstep
      cases hstep
    | some p =>
      rw [hp] at hstep
      dsimp only at hstep
      split_ifs at hstep
      · cases hstep
      · cases hstep

/-- **A test of a part that may be left out.** -/
theorem optional_apply (hvar : ∀ p ∈ it.parts, p.isVar = false) (pos : Nat) :
    repetition (.ofMarker .optional) (single fun part it => (f part, it)) next
        { it with pos := pos } =
      match single (fun part it => (f part, it)) { it with pos := pos } with
      | (none, after) => (some 0, after)
      | matched => matched := by
  rw [single_apply hvar]
  unfold repetition Cursor.current? Step.restoring Multiplier.ofMarker
  dsimp only
  cases hp : it.parts[pos]? with
  | none => rfl
  | some p =>
    dsimp only
    rw [Step.repeating, if_neg (by decide), single_apply hvar, hp]
    dsimp only
    split_ifs with hfits
    · dsimp only
      rw [if_neg (Nat.succ_ne_self pos)]
      cases it.parts.length <;> rfl
    · rfl

theorem optional_takesOne (hvar : ∀ p ∈ it.parts, p.isVar = false) :
    Step.TakesOne (repetition (.ofMarker .optional) (single fun part it => (f part, it)) next) it
      fun p => f p = true ∨ it.tryAttr = true ∧ p.isAttr = true := by
  have hone := single_takesOne (f := f) hvar
  refine ⟨fun {pos n after} hstep => ?_, fun {pos p} hp hsuits => ?_, fun {pos after} hstep => ?_⟩
  · rw [optional_apply hvar] at hstep
    rcases hsingle : single (fun part it => (f part, it)) { it with pos := pos } with ⟨_ | n, later⟩ <;>
      rw [hsingle] at hstep <;> cases hstep
    exact hone.sound hsingle
  · obtain ⟨n, after, hstep⟩ := hone.complete hp hsuits
    refine ⟨n, after, ?_⟩
    rw [optional_apply hvar, hstep]
  · rw [optional_apply hvar] at hstep
    rcases hsingle : single (fun part it => (f part, it)) { it with pos := pos } with ⟨_ | n, later⟩ <;>
      rw [hsingle] at hstep <;> cases hstep
    · exact single_restores (quiet_of_test f) _ _ hsingle
    · exact hone.idle hsingle

/-- A part belongs to a marked term if it belongs to the term. -/
theorem accepts_marked_iff : Accepts attr (.repeated term (.ofMarker .optional)) [p] ↔
    Accepts attr term [p] :=
  ⟨fun h => h.marked_inv.resolve_left (List.cons_ne_nil _ _),
    fun h => .repeated (.one h) (Nat.zero_le _) (by rintro _ ⟨⟩; exact Nat.le_refl _)⟩

theorem Step.TakesOne.congr {step : Step} {suits suits' : ValuePart → Prop}
    (h : step.TakesOne it suits) (hsuits : ∀ p ∈ it.parts, suits p ↔ suits' p) :
    step.TakesOne it suits' := by
  refine ⟨fun hstep => ?_, fun hp hsuit => ?_, h.idle⟩
  · obtain ⟨p, hp, hsuit, hpos⟩ := h.sound hstep
    exact ⟨p, hp, (hsuits p (List.mem_of_getElem? hp)).mp hsuit, hpos⟩
  · exact h.complete hp ((hsuits _ (List.mem_of_getElem? hp)).mpr hsuit)

/-- A leaf carries no mark. -/
theorem Term.isMarked_of_leaf {leaf : Leaf} (h : term.leaf? = some leaf) :
    term.isMarked = false := by
  cases term with
  | repeated _ _ => cases h
  | _ => rfl

/-- **The matcher of a plain member** takes one part, and may be left out if
the term is marked. -/
theorem Made.plainMember (hm : Made term m) (h : term.IsPlainMember) :
    m.isOptional = term.isMarked ∧ ∀ (s : Surroundings) (it : Cursor),
      (∀ p ∈ it.parts, p.isVar = false) →
      (stepOf s m).TakesOne it fun p => Accepts it.tryAttr term [p] := by
  cases h with
  | leaf hleaf =>
    obtain ⟨hoptional, f, hstep, haccepts⟩ := hm.plainLeaf hleaf
    refine ⟨hoptional.trans ?_, fun s it hvar => ?_⟩
    · obtain ⟨_, hleaf⟩ | ⟨_, hleaf⟩ := hleaf
      · exact (Term.isMarked_of_leaf hleaf).symm
      · exact (Term.isMarked_of_leaf hleaf).symm
    · rw [hstep]
      exact (single_takesOne hvar).congr fun p hp => (haccepts _ p (hvar p hp)).symm
  | @marked term hleaf =>
    cases hm with
    | repeated hmade =>
      obtain ⟨-, f, hstep, haccepts⟩ := hmade.plainLeaf hleaf
      refine ⟨rfl, fun s it hvar => ?_⟩
      rw [stepOf, hstep]
      exact (optional_takesOne hvar).congr fun p hp =>
        ((haccepts _ p (hvar p hp)).symm).trans accepts_marked_iff.symm
    | commaRepeated _ _ hcomma => cases hcomma
    | words hleaf | basic hleaf | group hleaf | grammar _ hleaf => cases hleaf

/-- **A plain member alone** covers one part at most. -/
theorem Made.length_le_of_covers (hm : Made term m) (h : term.IsPlainMember) {catalog : Catalog}
    {parts : List ValuePart} (hvar : ∀ p ∈ parts, p.isVar = false)
    (hcovers : m.covers catalog attr parts = true) : parts.length ≤ 1 := by
  obtain ⟨-, hone⟩ := hm.plainMember h
  have hone := hone (surroundings catalog parts) ⟨parts, 0, attr, none, []⟩ hvar
  have hparts := (m.run_follows catalog ⟨parts, 0, attr, none, []⟩).parts_eq
  unfold Matcher.covers at hcovers
  rcases hrun : m.run catalog ⟨parts, 0, attr, none, []⟩ with ⟨_ | _ | n, after⟩ <;>
    rw [hrun] at hcovers hparts
  · cases hcovers
  · have hend : after.parts.length ≤ after.pos := by simpa [Cursor.atEnd] using hcovers
    have hpos : after.pos = 0 := hone.idle hrun
    rw [hpos, hparts] at hend
    exact Nat.le_trans hend (Nat.zero_le 1)
  · have hend : after.parts.length ≤ after.pos := by simpa [Cursor.atEnd] using hcovers
    obtain ⟨-, -, -, hpos⟩ : ∃ p, parts[0]? = some p ∧ Accepts attr term [p] ∧ after.pos = 0 + 1 :=
      hone.sound hrun
    rw [hpos, hparts] at hend
    exact hend

end Members

/-! ## Groups -/

section Groups

variable {terms : List Term} {ms : List Matcher} {catalog : Catalog} {attr : Bool}
  {parts parts' : List ValuePart}

/-- **Parts that suit a marked member suit no other one**. -/
def MarkedApart (attr : Bool) (terms : List Term) (parts : List ValuePart) : Prop :=
  ∀ (i j : Nat) (term term' : Term), terms[i]? = some term → terms[j]? = some term' →
    term.isMarked = true →
    ∀ p ∈ parts, Accepts attr term [p] → Accepts attr term' [p] → i = j

/-- **A seat for every part**, and for every required member a part. -/
def HasSeats (attr : Bool) (terms : List Term) (required : Option (List Bool))
    (parts : List ValuePart) : Prop :=
  parts ≠ [] ∧ ∃ order, order.Nodup ∧
    List.Forall₂ (fun i p => i < terms.length ∧ languageAt terms i attr [p]) order parts ∧
    (required.isSome = true → ∀ i, i < terms.length → Matcher.isRequired required i = true →
      i ∈ order)

/-- **Seats do not depend on the order of the parts.** -/
theorem HasSeats.perm {required : Option (List Bool)} (hperm : parts.Perm parts')
    (h : HasSeats attr terms required parts) : HasSeats attr terms required parts' := by
  obtain ⟨hne, order, hnodup, hforall, hall⟩ := h
  refine ⟨fun hnil => hne (by rwa [hnil, List.perm_nil] at hperm), ?_⟩
  obtain ⟨order', hforall', hperm'⟩ := List.perm_comp_forall₂ hperm.symm hforall.flip
  exact ⟨order', hperm'.nodup_iff.mpr hnodup, hforall'.flip,
    fun hmarked i hi hrequired => hperm'.mem_iff.mpr (hall hmarked i hi hrequired)⟩

/-- **A group of plain members** covers the parts that have seats. -/
theorem covers_iff_hasSeats {required : Option (List Bool)} (hms : MadeAll terms ms)
    (hplain : ∀ term ∈ terms, term.IsPlainMember)
    (hmarks : ∀ marks, required = some marks → marks = ms.map fun m => !m.isOptional)
    (hapart : required.isSome = true → MarkedApart attr terms parts)
    (hvar : ∀ p ∈ parts, p.isVar = false) :
    (Matcher.anyOrder ms required).covers catalog attr parts = true ↔
      HasSeats attr terms required parts := by
  by_cases hne : parts = []
  · subst hne
    constructor
    · intro h
      cases h
    · exact fun h => absurd rfl h.1
  have hmember : ∀ {i : Nat} {term : Term}, terms[i]? = some term →
      ∃ m, ms[i]? = some m ∧ Made term m := by
    intro i term hterm
    have hi := (List.getElem?_eq_some_iff.mp hterm).1
    have hm := List.getElem?_eq_getElem (hms.length_eq ▸ hi : i < ms.length)
    exact ⟨_, hm, hms.made i term _ hterm hm⟩
  have hone : ∀ (i : Nat) (member : Member),
      (membersOf (surroundings catalog parts) required 0 ms)[i]? = some member →
      member.step.TakesOne ⟨parts, 0, attr, none, []⟩ fun p => languageAt terms i attr [p] := by
    intro i member hget
    rw [getElem?_membersOf] at hget
    obtain ⟨m, hm, rfl⟩ := Option.map_eq_some_iff.mp hget
    have hi := (List.getElem?_eq_some_iff.mp hm).1
    have hterm := List.getElem?_eq_getElem (hms.length_eq ▸ hi : i < terms.length)
    have hmade := hms.made i _ m hterm hm
    refine ((hmade.plainMember (hplain _ (List.mem_of_getElem? hterm))).2 _ _ hvar).congr
      fun p _ => ⟨fun h => ⟨_, hterm, h⟩, ?_⟩
    rintro ⟨term, hterm', h⟩
    cases hterm.symm.trans hterm'
    exact h
  have happly : AnyOrder.Apart (fun i p => languageAt terms i attr [p]) required parts := by
    rintro i j p hp hmark ⟨term, hterm, hsuits⟩ ⟨term', hterm', hsuits'⟩
    cases required with
    | none => cases hmark
    | some marks =>
      obtain ⟨m, hm, hmade⟩ := hmember hterm
      have hmarked : term.isMarked = true := by
        rw [← (hmade.plainMember (hplain term (List.mem_of_getElem? hterm))).1]
        rw [hmarks marks rfl, Matcher.isRequired, List.getElem?_map, hm] at hmark
        simpa using hmark
      exact hapart rfl i j term term' hterm hterm' hmarked p hp hsuits hsuits'
  have hcovers : (Matcher.anyOrder ms required).covers catalog attr parts = true ↔
      ((stepOf (surroundings catalog parts) (.anyOrder ms required)
        ⟨parts, 0, attr, none, []⟩).1.isSome = true ∧
      (stepOf (surroundings catalog parts) (.anyOrder ms required)
        ⟨parts, 0, attr, none, []⟩).2.atEnd = true) := by
    rw [← Bool.and_eq_true]
    rfl
  rw [hcovers, AnyOrder.covers_iff hone rfl hne ?_ happly, HasSeats, hms.length_eq]
  · simp [hne]
  · rintro marks hmarks'
    rw [hmarks marks hmarks', List.length_map]

theorem MarkedApart.perm (hperm : parts.Perm parts') (h : MarkedApart attr terms parts) :
    MarkedApart attr terms parts' :=
  fun i j term term' hterm hterm' hmarked p hp =>
    h i j term term' hterm hterm' hmarked p (hperm.mem_iff.mpr hp)

/-- **What covers some parts covers them in any order**: a group of plain
members, and a plain member that needs no group. -/
theorem covers_combine_perm (required : List Matcher → Option (List Bool)) {m : Matcher}
    (hms : MadeAll terms ms) (hm : m = combine (fun ms => .anyOrder ms (required ms)) ms)
    (hplain : ∀ term ∈ terms, term.IsPlainMember)
    (hmarks : ∀ marks, required ms = some marks → marks = ms.map fun m => !m.isOptional)
    (hapart : (required ms).isSome = true → MarkedApart attr terms parts)
    (hperm : parts.Perm parts') (hvar : ∀ p ∈ parts, p.isVar = false)
    (hcovers : m.covers catalog attr parts = true) : m.covers catalog attr parts' = true := by
  have hvar' : ∀ p ∈ parts', p.isVar = false := fun p hp => hvar p (hperm.mem_iff.mpr hp)
  rcases combine_cases (fun ms => .anyOrder ms (required ms)) ms with hgroup | ⟨m', rfl, hsingle⟩
  · rw [hm, hgroup] at hcovers ⊢
    have hseats := (covers_iff_hasSeats hms hplain hmarks hapart hvar).mp hcovers
    exact (covers_iff_hasSeats hms hplain hmarks (fun h => (hapart h).perm hperm) hvar').mpr
      (hseats.perm hperm)
  · obtain ⟨term, rfl⟩ := List.length_eq_one_iff.mp hms.length_eq
    rw [hm, hsingle] at hcovers ⊢
    have hle := (hms.made 0 term m' rfl rfl).length_le_of_covers (hplain term List.mem_cons_self)
      hvar hcovers
    match parts, hle with
    | [], _ =>
      rw [List.nil_perm] at hperm
      rwa [hperm]
    | [p], _ =>
      rw [List.singleton_perm] at hperm
      rwa [← hperm]

/-- **Any order is any order**, for words and basic types, each of them marked
with `?` or not. Whether `||` covers some parts does not depend on their
order; neither does it for `&&`, if no part suits a marked member and another
one as well. -/
theorem covers_perm {grammar : String} {m : Matcher} {before : Catalog}
    (hbefore : Catalog.empty.Becomes before) (hm : (before.compile grammar).1 = .ok m)
    (hplain : ∀ term ∈ terms, term.IsPlainMember)
    (hgrammar : Term.ofString grammar = .ok (.someOf terms) ∨
      Term.ofString grammar = .ok (.allOf terms) ∧ MarkedApart attr terms parts)
    (hperm : parts.Perm parts') (hvar : ∀ p ∈ parts, p.isVar = false) :
    m.covers catalog attr parts = m.covers catalog attr parts' := by
  obtain ⟨⟨term, hterm, hmade⟩, -⟩ :=
    (Catalog.IsPlain.becomes Catalog.isRight_empty hbefore).compile_any hm
  have hvar' : ∀ p ∈ parts', p.isVar = false := fun p hp => hvar p (hperm.mem_iff.mpr hp)
  rw [Bool.eq_iff_iff]
  rcases hgrammar with hgroup | ⟨hgroup, hapart⟩
  · cases hterm.symm.trans hgroup
    cases hmade with
    | someOf hlength hmade =>
      have hms : MadeAll terms _ := ⟨hlength, hmade⟩
      exact ⟨covers_combine_perm (fun _ => none) hms rfl hplain nofun nofun hperm hvar,
        covers_combine_perm (fun _ => none) hms rfl hplain nofun nofun hperm.symm hvar'⟩
    | words hleaf | basic hleaf | group hleaf | grammar _ hleaf => cases hleaf
  · cases hterm.symm.trans hgroup
    cases hmade with
    | @allOf _ ms hlength hmade =>
      have hms : MadeAll terms ms := ⟨hlength, hmade⟩
      let required : List Matcher → Option (List Bool) := fun ms => some (ms.map fun m => !m.isOptional)
      have hmarks : ∀ marks, required ms = some marks → marks = ms.map fun m => !m.isOptional := by
        rintro _ ⟨⟩
        rfl
      exact ⟨covers_combine_perm required hms rfl hplain hmarks (fun _ => hapart) hperm hvar,
        covers_combine_perm required hms rfl hplain hmarks (fun _ => hapart.perm hperm) hperm.symm
          hvar'⟩
    | words hleaf | basic hleaf | group hleaf | grammar _ hleaf => cases hleaf

/-- What belongs to a word, marked or not, is the word. -/
theorem wordMatches_of_accepts {text : String} {p : ValuePart}
    (hkey : (Term.words text).leaf? = some (.words text)) (hvar : p.isVar = false)
    (h : Accepts false (.words text) [p] ∨
      Accepts false (.repeated (.words text) (.ofMarker .optional)) [p]) :
    wordMatches (wordsOf text) p = true := by
  have h := h.elim id accepts_marked_iff.mp
  obtain ⟨_, ⟨⟩, hwild | hmatches⟩ := h.words_inv hkey
  · obtain hwild | ⟨⟨⟩, -⟩ := hwild
    cases hvar.symm.trans hwild
  · exact hmatches

set_option maxRecDepth 10000 in
/-- Two words of which one may be left out, in both orders. -/
theorem covers_perm_words : ∃ m, (Catalog.empty.compile "a && b?").1 = .ok m ∧
    m.covers .empty false [wordPart "a", wordPart "b"] =
      m.covers .empty false [wordPart "b", wordPart "a"] := by
  have hkeys : (Term.words "a").leaf? = some (.words "a") ∧
      (Term.words "b").leaf? = some (.words "b") := by
    constructor <;> with_unfolding_all rfl
  obtain ⟨m, hm⟩ : ∃ m, (Catalog.empty.compile "a && b?").1 = .ok m := by
    have hmade : (Catalog.empty.compile "a && b?").1.isOk = true := by decide +kernel
    cases hresult : (Catalog.empty.compile "a && b?").1 with
    | ok m => exact ⟨m, rfl⟩
    | error e =>
      rw [hresult] at hmade
      cases hmade
  have hterm : Term.ofString "a && b?" =
      .ok (.allOf [.words "a", .repeated (.words "b") (.ofMarker .optional)]) := by
    with_unfolding_all rfl
  refine ⟨_, hm, covers_perm .refl hm ?_ (.inr ⟨hterm, ?_⟩) (.swap _ _ _) (by decide)⟩
  · rintro term hmem
    rcases List.mem_cons.mp hmem with rfl | hmem
    · exact .leaf (.inl ⟨_, hkeys.1⟩)
    · obtain rfl := List.mem_singleton.mp hmem
      exact .marked (.inl ⟨_, hkeys.2⟩)
  · -- only the second member is marked, and no word is both of these
    have hnot : ∀ p ∈ [wordPart "a", wordPart "b"], p.isVar = false ∧
        ¬(wordMatches (wordsOf "a") p = true ∧ wordMatches (wordsOf "b") p = true) := by
      decide +kernel
    rintro (_ | _ | i) (_ | _ | j) term term' hterm hterm' hmarked p hp hsuits hsuits' <;>
      cases hterm <;> cases hterm'
    · rfl
    · cases hmarked
    · obtain ⟨hvar, hboth⟩ := hnot p hp
      exact absurd ⟨wordMatches_of_accepts hkeys.1 hvar (.inl hsuits'),
        wordMatches_of_accepts hkeys.2 hvar (.inr hsuits)⟩ hboth
    · rfl

set_option maxRecDepth 10000 in
/-- **A required member may take the part of an optional one**: the next part
suits the required member only, and is left over. In the other order both parts
are taken. -/
theorem covers_left_over :
    Term.ofString "[ a | b ] && a?" =
      .ok (.allOf [.words "a | b", .repeated (.words "a") (.ofMarker .optional)]) ∧
    (Catalog.empty.compile "[ a | b ] && a?").1.toOption.map (fun m =>
        (m.covers .empty false [wordPart "a", wordPart "b"],
          m.covers .empty false [wordPart "b", wordPart "a"])) = some (false, true) :=
  ⟨by with_unfolding_all rfl, by decide +kernel⟩

end Groups

end Stylesheet.Grammar
