import Stylesheet.Proofs.Excerpt.Alone
import Stylesheet.Proofs.Tells.Declaration
import Stylesheet.Proofs.WrittenOut

/-!
# Complaints about declarations

What is wrong with a declaration is found by checking it, and there are four
things to find (`Declaration.Complaint`): its name is not known, a part is left
over after those that fit, the arguments of a function do not fit, or nothing is
known but that the value does not. The third is remembered by the search on its
way, and the alternative that it was found in may have been given up since; still
the function is one of the parts, since a search does not change these.

So every complaint points into the declaration it is about: to the name, or to a
place in the value (`complaints_point_into_declarations`). For this the places of
the parts have to be in order, and those of the arguments inside their function.
-/

namespace Stylesheet

/-! ## What there is to complain of -/

/-- **What can be wrong with a declaration**, and where it is said to be. -/
inductive Declaration.Complaint (d : Declaration) : Diagnostic → Prop where
  /-- Its name is not one to declare here. -/
  | name (what : String) :
      Complaint d (.unfitAt (what ++ " property \"" ++ d.property.display ++ "\".")
        d.property.location)
  /-- A part is left over. -/
  | extra {part : ValuePart} (hpart : part ∈ d.value.parts) :
      Complaint d (Validator.mismatch "end of value" part.text part.location)
  /-- The arguments of a function do not fit, as the search for the value
  remembers. They start with the first of them. -/
  | arguments {v : Validator} {m : Grammar.Matcher} {bad : Grammar.BadFunction}
      {part first : ValuePart}
      (hbad : (v.attempt m d.value (Text.trim d.value.text)).2.bad = some bad)
      (hpart : part ∈ d.value.parts) (htype : part.type = .function)
      (hexpr : part.expr = some bad.args) (hfirst : bad.args.parts.head? = some first)
      (hstart : bad.args.location = first.location) :
      Complaint d (Validator.mismatch bad.matcher.display bad.args.text bad.args.location)
  /-- The value as a whole does not fit, and the search remembers no function. -/
  | whole {v : Validator} {m : Grammar.Matcher} (expected : String)
      (hnone : (v.attempt m d.value (Text.trim d.value.text)).2.bad = none) :
      Complaint d (Validator.mismatch expected d.value.text d.value.location)

/-- **Functions that arguments are seen in**: they start with the first one. -/
def Value.OpensCalls (value : Value) : Prop :=
  ∀ part ∈ value.parts, Grammar.Matching.isCall part = true → ∀ args, part.expr = some args →
    part.type = .function ∧ args.parts ≠ [] ∧
      ∀ first, args.parts.head? = some first → args.location = first.location

namespace Validator

variable {v : Validator} {key : KnownValue} {grammar : String} {e : Diagnostic} {d : Declaration}

/-- **A value that is matched** and does not fit. -/
theorem matchGrammar_complaint (hcalls : Value.OpensCalls d.value)
    (hkey : key.text = Text.trim d.value.text)
    (he : (v.matchGrammar key grammar d.value).1 = .error e) : d.Complaint e := by
  unfold matchGrammar at he
  split at he
  · cases he
  · next m catalog _ =>
    rw [hkey] at he
    obtain ⟨hsame, hbad⟩ :=
      attempt_follows { v with catalog := catalog } m d.value (Text.trim d.value.text)
    dsimp only at he
    split at he
    · next part hpart =>
      obtain rfl := Except.error.inj he
      have hcurrent := (Option.filter_eq_some_iff.mp hpart).1
      exact .extra (hsame ▸ List.mem_of_getElem? hcurrent)
    · split_ifs at he
      split at he
      · next bad hb =>
        obtain rfl := Except.error.inj he
        obtain ⟨part, hmem, hcall, hexpr⟩ := hbad bad hb
        obtain ⟨htype, hne, hstart⟩ := hcalls part hmem hcall _ hexpr
        have hfirst := List.head?_eq_some_head hne
        exact .arguments hb hmem htype hexpr hfirst (hstart _ hfirst)
      · next hnone =>
        obtain rfl := Except.error.inj he
        exact .whole _ hnone

theorem checkValue_complaint (hcalls : Value.OpensCalls d.value)
    (hkey : key.text = Text.trim d.value.text)
    (he : (v.checkValue key grammar d.value).1 = .error e) : d.Complaint e := by
  have hknown : (if v.known.contains key then (.ok (), v)
      else v.matchGrammar key grammar d.value).1 = .error e → d.Complaint e := by
    intro he
    split at he
    · cases he
    · exact matchGrammar_complaint hcalls hkey he
  unfold checkValue at he
  split at he
  · cases he
  · cases hparts : d.value.parts with
    | nil =>
      simp only [hparts] at he
      exact hknown he
    | cons first rest =>
      simp only [hparts] at he
      split at he
      · cases rest with
        | nil => cases he
        | cons part _ =>
          obtain rfl := Except.error.inj he
          exact .extra (by simp [hparts])
      · exact hknown he

/-- **What checking a declaration finds** is one of the four. -/
theorem check_complaint (hcalls : Value.OpensCalls d.value)
    (he : (v.check d.property d.value d.scope).1 = .error e) : d.Complaint e := by
  unfold check at he
  extract_lets table written found at he
  split at he
  next property definition _ =>
  rcases definition with _ | ⟨grammar⟩ | _
  · by_cases hvendor : d.property.vendorPos > 0
    · rw [if_pos hvendor] at he
      cases he
    · rw [if_neg hvendor] at he
      obtain rfl := Except.error.inj he
      exact .name _
  · refine checkValue_complaint hcalls ?_ he
    simp only
  · cases he

end Validator

/-! ## Where the parts of a value stand -/

namespace Value

/-- **A value that stands in a source**: it spans its parts, which are in order
and stand there. -/
structure IsLaidOut (source : List Char) (v : Value) : Prop where
  /-- It spans its parts. -/
  spans : ValuePart.Spans v
  /-- They are in order. -/
  ordered : v.parts.Pairwise fun p q => p.stop.offset ≤ q.location.offset
  /-- They stand in the source. -/
  stands : ∀ p : ValuePart, p.In v.parts → p.Stands source

variable {source : List Char} {v : Value} {o : Options} {part : ValuePart}

/-- **A value that was read** stands in the source. -/
theorem IsRead.isLaidOut (h : v.IsRead o source) : v.IsLaidOut source := by
  obtain ⟨s, ends, hsite, -, hread⟩ := h
  have hroomy : Parser.Roomy s := by
    refine ⟨hsite.isSound.stream, ?_⟩
    have hbudget : Text.byteLength s.stream.source + 64 ≤ s.budget := hsite.isSound.budget
    omega
  have hrun : Parser.exprTo s.budget ends false s = (.ok (some v), (Parser.expr ends false s).2) :=
    Prod.ext hread rfl
  obtain ⟨-, hspans, s₁, hwrote, -⟩ := Parser.writes_exprTo _ _ _ _ _ _ hroomy hrun
  exact ⟨hspans v rfl, hwrote.ordered, hsite.source_eq ▸ hwrote.stands⟩

/-- A part lies between the start and the end of the value. -/
theorem IsLaidOut.within (h : v.IsLaidOut source) (hpart : part ∈ v.parts) :
    v.location.offset ≤ part.location.offset ∧ part.stop.offset ≤ v.stop.offset := by
  have hlt : ∀ p ∈ v.parts, p.location.offset < p.stop.offset := fun p hp =>
    (h.stands p (.here hp)).location_lt_stop
  have hordered := h.ordered
  constructor
  · obtain ⟨first, hfirst, hlocation⟩ := h.spans.first
    obtain ⟨rest, hparts⟩ := List.head?_eq_some_iff.mp hfirst
    rw [hlocation]
    rw [hparts] at hpart hordered hlt
    rcases List.mem_cons.mp hpart with rfl | hpart
    · exact Nat.le_refl _
    · exact Nat.le_trans (Nat.le_of_lt (hlt first List.mem_cons_self))
        ((List.pairwise_cons.mp hordered).1 part hpart)
  · obtain ⟨last, hlast, hstop⟩ := h.spans.last
    obtain ⟨before, hparts⟩ := List.getLast?_eq_some_iff.mp hlast
    rw [hstop]
    rw [hparts] at hpart hordered hlt
    rcases List.mem_append.mp hpart with hpart | hpart
    · have hle := (List.pairwise_append.mp hordered).2.2 part hpart last List.mem_cons_self
      exact Nat.le_trans hle (Nat.le_of_lt (hlt last (by simp)))
    · obtain rfl := List.mem_singleton.mp hpart
      exact Nat.le_refl _

/-- What stands inside a function starts between the start and the end of the
value. -/
theorem IsLaidOut.inside (h : v.IsLaidOut source) (hpart : part ∈ v.parts) {args : Value}
    (hexpr : part.expr = some args) {first : ValuePart} (hfirst : args.parts.head? = some first) :
    v.location.offset ≤ first.location.offset ∧ first.location.offset < v.stop.offset := by
  have hinner : first.In part.inner := by
    refine .here ?_
    unfold ValuePart.inner
    rw [hexpr]
    exact List.mem_of_mem_head? hfirst
  obtain ⟨hle, hle'⟩ := h.within hpart
  obtain ⟨hlt, hlt'⟩ := (h.stands part (.here hpart)).inside first hinner
  have hself := (h.stands first (.inside hpart hinner)).location_lt_stop
  omega

/-- Its functions have arguments that start with the first one. -/
theorem IsLaidOut.opensCalls (h : v.IsLaidOut source) : v.OpensCalls := by
  intro part hpart hcall args hexpr
  obtain ⟨htype, hspans⟩ := (h.stands part (.here hpart)).opens args hexpr
  obtain ⟨first, hfirst, hlocation⟩ := hspans.first
  refine ⟨?_, ?_, fun p hp => ?_⟩
  · refine htype.resolve_right fun hblock => ?_
    unfold Grammar.Matching.isCall at hcall
    rw [hblock] at hcall
    cases hcall
  · rintro hnil
    rw [hnil] at hfirst
    cases hfirst
  · rw [hlocation, Option.some.inj (hfirst.symm.trans hp)]

end Value

/-! ## Where complaints point -/

/-- **A complaint points into its declaration**: to the name or into the value. -/
theorem Declaration.Complaint.location_eq {d : Declaration} {e : Diagnostic} {source : List Char}
    (h : d.Complaint e) (hvalue : d.value.IsLaidOut source) :
    e.kind = .unfit ∧ ∃ loc, e.location = some loc ∧ (loc = d.property.location ∨
      d.value.location.offset ≤ loc.offset ∧ loc.offset < d.value.stop.offset) := by
  cases h with
  | name => exact ⟨rfl, _, rfl, Or.inl rfl⟩
  | @extra part hpart =>
    have hlt := (hvalue.stands part (.here hpart)).location_lt_stop
    obtain ⟨hle, hle'⟩ := hvalue.within hpart
    exact ⟨rfl, _, rfl, Or.inr ⟨hle, Nat.lt_of_lt_of_le hlt hle'⟩⟩
  | arguments _ hpart _ hexpr hfirst hstart =>
    refine ⟨rfl, _, rfl, Or.inr ?_⟩
    rw [hstart]
    exact hvalue.inside hpart hexpr hfirst
  | whole =>
    refine ⟨rfl, _, rfl, Or.inr ⟨Nat.le_refl _, ?_⟩⟩
    obtain ⟨first, hfirst, hlocation⟩ := hvalue.spans.first
    have hmem := List.mem_of_mem_head? hfirst
    have hlt := (hvalue.stands first (.here hmem)).location_lt_stop
    have hle := (hvalue.within hmem).2
    rw [hlocation]
    omega

/-- **Every complaint about a declaration points into it.** Whatever stylesheet it
is declared in and whatever the options are, what is wrong with a declaration is
one of four things. It is said of the declaration being unfit, and at the name of
the property or at a place from the start of the value up to before its end. If
the search remembers a function whose arguments do not fit, and the value is not
known to go on too long, the place is where the arguments of that function start,
which is a part of the value. -/
theorem complaints_point_into_declarations (text : String) (options : Options) :
    ∀ d ∈ declarationsOf (parseSheet text options).events, ∀ e, d.invalid = some e →
      d.Complaint e ∧ e.kind = .unfit ∧ ∃ loc, e.location = some loc ∧
        (loc = d.property.location ∨
          d.value.location.offset ≤ loc.offset ∧ loc.offset < d.value.stop.offset) := by
  intro d hd e he
  obtain ⟨event, hevent, hkind⟩ := mem_declarationsOf hd
  have horderly := (sheet_isOrderly text options .fresh).2 event (List.mem_reverse.mp hevent)
  unfold Event.IsOrderly at horderly
  rw [hkind] at horderly
  obtain ⟨hread, v, hcheck⟩ := horderly.2 e he
  have hlaid := hread.isLaidOut
  have hcomplaint := Validator.check_complaint hlaid.opensCalls hcheck
  exact ⟨hcomplaint, hcomplaint.location_eq hlaid⟩

/-- The argument of a function does not fit: the complaint points to it, after the
bracket. -/
theorem complaints_point_into_declarations_argument :
    ∃ d ∈ declarationsOf (parseSheet "a\x7bfilter:blur(x)\x7d" {}).events, ∃ e,
      d.invalid = some e ∧ e.location = some ⟨1, 15, 14⟩ ∧ d.Complaint e ∧
        d.value.location.offset ≤ 14 ∧ 14 < d.value.stop.offset := by
  have hfound : ∃ d ∈ declarationsOf (parseSheet "a\x7bfilter:blur(x)\x7d" {}).events,
      d.invalid.map (·.location) = some (some ⟨1, 15, 14⟩) ∧
        d.property.location ≠ ⟨1, 15, 14⟩ := by
    decide +kernel
  obtain ⟨d, hd, hlocation, hname⟩ := hfound
  obtain ⟨e, he, hat⟩ := Option.map_eq_some_iff.mp hlocation
  obtain ⟨hcomplaint, -, loc, hloc, hplace⟩ :=
    complaints_point_into_declarations "a\x7bfilter:blur(x)\x7d" {} d hd e he
  obtain rfl := Option.some.inj (hat.symm.trans hloc)
  exact ⟨d, hd, e, he, hat, hcomplaint, hplace.resolve_left (Ne.symm hname)⟩

end Stylesheet
