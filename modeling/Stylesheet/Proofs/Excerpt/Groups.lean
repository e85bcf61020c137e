import Stylesheet.Proofs.Excerpt.Selectors

/-!
# Reading lists of selectors from an excerpt

A list in the argument of a pseudo-class ends with the closing bracket. Where the
bracket is at hand after the list, no selector of it has strayed; so an excerpt
that holds the bracket holds the list, and the same list is read there. Lists
stand in selectors, and selectors in lists, and what is said of both is proved by
induction on how deep they are nested (`Parser.groupTo_echoing`).
-/

namespace Stylesheet

open Parse (State)
open Parse.State (Onward Meets Faces Hands Carries Conveys onward_afterGet)
open Reader (toStart)
open Lexeme (Fenced)

namespace Parse.State

variable {s s' : State} {told : List Char → List Char → State → State → Prop}

theorem Hands.onward (h : Hands s s') : Onward s s' := by
  obtain ⟨m, placeholders, blanks, honward, rfl⟩ := h
  exact honward.trans (onward_afterGet honward.poised.bare placeholders blanks).1

/-- **What goes on from a token that is asked for** ends with the last token at
hand. -/
theorem Conveys.of_next (hs : s.Steady) (placeholders blanks : Bool)
    (h : Conveys (s.afterGet placeholders blanks) s' told) :
    Hands s s' ∧ Carries Meets Faces s s' fun lead x u u' => ∃ v,
      (v = u.afterGet placeholders blanks ∧ (u.stream.get placeholders blanks).1 =
        shift (toStart lead) (s.stream.get placeholders blanks).1 ∧
          (s.stream.get placeholders blanks).1.LiesIn lead x) ∧ told lead x v u' := by
  refine ⟨?_, (Carries.next hs placeholders blanks).trans h.toCarries⟩
  rcases h.handed with rfl | hhands
  · exact ⟨s, placeholders, blanks, .refl hs.toPoised, rfl⟩
  · exact (onward_afterGet hs.bare placeholders blanks).1.hands hhands

end Parse.State

instance : Shift Parser.GroupSoFar where
  shift δ c := ⟨c.selectors.map (shift δ), shift δ c.first, c.comma⟩

instance {α : Type} [Shift α] : Shift (ForInStep α) where
  shift δ
    | .done a => .done (shift δ a)
    | .yield a => .yield (shift δ a)

namespace Parser

variable {group : GroupParser} {s s' : State} {n : Nat} {relative lax : Bool}

variable {r : ForInStep GroupSoFar} {v : Option (List Selector)}

/-! ## One selector after another -/

/-- What a list comes to with the token after one more selector. -/
def groupNext (selectors : List Selector) (t : Token) : Parser (ForInStep GroupSoFar) :=
  if t.kind == .comma then return .yield ⟨selectors, none, true⟩
  else return .done ⟨selectors, none, false⟩

/-- What follows one more selector of a list, if there is one. -/
def groupAfter (lax : Bool) (sofar : GroupSoFar) (found : Option Selector) :
    Parser (ForInStep GroupSoFar) := do
  if found.isNone && !lax then return .done { sofar with first := none }
  else
    let t ← current
    if t.kind == .uvar then groupNext (found.toList ++ sofar.selectors) (← next false false)
    else groupNext (found.toList ++ sofar.selectors) t

theorem groupStep_eq (group : GroupParser) (relative lax : Bool) (sofar : GroupSoFar) :
    groupStep group relative lax sofar =
      selectorWith group sofar.first relative >>= groupAfter lax sofar := by
  unfold groupStep
  refine congrArg (_ >>= ·) (funext fun found => ?_)
  unfold groupAfter
  split_ifs
  · rfl
  · refine congrArg (current >>= ·) (funext fun t => ?_)
    split_ifs <;> rfl

/-- **After a selector that strayed** the list is over. -/
theorem groupAfter_of_strays {sofar : GroupSoFar} {found : Option Selector} (hs : Strays s)
    (h : groupAfter lax sofar found s = (.ok r, s')) : Strays s' ∧ ∃ sofar', r = .done sofar' := by
  have huvar : ¬(s.stream.current.kind == .uvar) = true := by
    unfold Strays at hs
    revert hs
    cases s.stream.current.kind <;> decide
  have hcomma : ¬(s.stream.current.kind == .comma) = true := by
    unfold Strays at hs
    revert hs
    cases s.stream.current.kind <;> decide
  unfold groupAfter at h
  split_ifs at h
  · cases h
    exact ⟨hs, _, rfl⟩
  · rw [bind_ok (show current s = (.ok s.stream.current, s) from rfl), if_neg huvar] at h
    unfold groupNext at h
    rw [if_neg hcomma] at h
    cases h
    exact ⟨hs, _, rfl⟩

/-- What follows a selector. -/
theorem groupAfter_conveys {sofar : GroupSoFar} {found : Option Selector} (hs : s.Steady)
    (h : groupAfter lax sofar found s = (.ok r, s')) :
    (Conveys s s' fun lead _ u u' => groupAfter lax (shift (toStart lead) sofar)
      (shift (toStart lead) found) u = (.ok (shift (toStart lead) r), u')) ∧
        ∀ sofar', r = .yield sofar' → s'.stream.current.kind = .comma ∧ sofar'.first = none := by
  have hnext : ∀ {t : Token} {s₁ : State}, s₁.Steady → s₁.stream.current = t →
      groupNext (found.toList ++ sofar.selectors) t s₁ = (.ok r, s') →
      (Conveys s₁ s' fun lead _ u u' => groupNext ((shift (toStart lead) found).toList ++
        (shift (toStart lead) sofar).selectors) (shift (toStart lead) t) u =
          (.ok (shift (toStart lead) r), u')) ∧
        ∀ sofar', r = .yield sofar' → s'.stream.current.kind = .comma ∧ sofar'.first = none := by
    intro t s₁ hs₁ ht h
    have hselectors : ∀ lead, (shift (toStart lead) found).toList ++
        (shift (toStart lead) sofar).selectors =
          (found.toList ++ sofar.selectors).map (shift (toStart lead)) := by
      intro lead
      rw [List.map_append]
      cases found <;> rfl
    unfold groupNext at h ⊢
    simp only [hselectors, show ∀ lead, (shift (toStart lead) t).kind = t.kind from fun _ => rfl]
    split_ifs at h ⊢ with hcomma
    · cases h
      refine ⟨.refl hs₁ fun _ _ _ => rfl, ?_⟩
      rintro _ ⟨⟩
      exact ⟨ht ▸ eq_of_beq hcomma, rfl⟩
    · cases h
      exact ⟨.refl hs₁ fun _ _ _ => rfl, fun _ h => by cases h⟩
  have hnone : ∀ lead, (shift (toStart lead) found).isNone = found.isNone := by
    intro lead
    cases found <;> rfl
  unfold groupAfter at h ⊢
  simp only [hnone]
  split_ifs at h ⊢
  · cases h
    exact ⟨.refl hs fun _ _ _ => rfl, fun _ h => by cases h⟩
  · rw [bind_ok (show current s = (.ok s.stream.current, s) from rfl)] at h
    split_ifs at h with hplaceholder
    · rw [bind_ok (next_apply false false s)] at h
      obtain ⟨honward, hcurrent⟩ := onward_afterGet hs.bare false false
      obtain ⟨hcarries, hyield⟩ := hnext (honward.steady hs) hcurrent h
      refine ⟨((Conveys.next hs false false).trans hcarries).facing.weaken
        fun lead x u u' ⟨hu, v, ⟨hv, htoken⟩, hrun⟩ => ?_, hyield⟩
      rw [bind_ok (show current u = (.ok u.stream.current, u) from rfl), hu,
        if_pos (show ((shift (toStart lead) s.stream.current).kind == .uvar) = true
          from hplaceholder), bind_ok (next_apply false false u), htoken, ← hv]
      exact hrun
    · obtain ⟨hcarries, hyield⟩ := hnext hs rfl h
      refine ⟨hcarries.facing.weaken fun lead x u u' ⟨hu, hrun⟩ => ?_, hyield⟩
      rw [bind_ok (show current u = (.ok u.stream.current, u) from rfl), hu,
        if_neg (show ¬((shift (toStart lead) s.stream.current).kind == .uvar) = true
          from hplaceholder)]
      exact hrun

/-- **One more selector of a list**, unless it strays. -/
theorem groupStep_carries (hgroup : Echoing group) {selectors : List Selector} {comma : Bool}
    (hs : s.Steady) (h : groupStep group relative lax ⟨selectors, none, comma⟩ s = (.ok r, s')) :
    (Strays s' ∧ ∃ sofar', r = .done sofar') ∨
    (Hands s s' ∧ Carries Meets Faces s s' fun lead _ u u' =>
      groupStep group relative lax (shift (toStart lead) ⟨selectors, none, comma⟩) u =
        (.ok (shift (toStart lead) r), u')) ∧
      ∀ sofar', r = .yield sofar' → s'.stream.current.kind = .comma ∧ sofar'.first = none := by
  have hsteady := (onward_afterGet hs.bare false false).1.steady hs
  rw [groupStep_eq] at h
  obtain ⟨found, s₁, hselector, hafter⟩ := bind_eq_ok.mp h
  rw [selectorWith_eq, bind_ok (next_apply false false s)] at hselector
  rcases selectorFrom_carries hgroup hsteady (hand_afterGet s false false) hselector with
    hstrays | hcarries
  · exact Or.inl (groupAfter_of_strays hstrays hafter)
  · obtain ⟨hmore, hyield⟩ := groupAfter_conveys (hcarries.onward.steady hsteady) hafter
    refine Or.inr ⟨(Conveys.of_next hs false false (hcarries.trans hmore)).imp id fun hruns =>
      hruns.weaken fun lead x u u' ⟨_, ⟨hv, htoken, _⟩, v, hselector', hafter'⟩ => ?_, hyield⟩
    rw [groupStep_eq]
    refine bind_eq_ok.mpr ⟨_, v, ?_, hafter'⟩
    show selectorWith group none relative u = _
    rw [selectorWith_eq, bind_ok (next_apply false false u), htoken, ← hv]
    exact hselector'

/-- **The selectors of a list**, with the closing bracket at hand after them. The
induction is on the rounds. -/
theorem groupRounds_carries (hgroup : Echoing group) {selectors : List Selector} {comma : Bool}
    {sofar' : GroupSoFar} (hs : s.Steady) (hn : s.stream.current.kind = .rParen → n ≠ 0)
    (h : rounds (groupStep group relative lax) n ⟨selectors, none, comma⟩ s = (.ok sofar', s'))
    (hclose : s'.stream.current.kind = .rParen) :
    Hands s s' ∧ Carries Meets Faces s s' fun lead _ u u' => rounds (groupStep group relative lax) n
      (shift (toStart lead) ⟨selectors, none, comma⟩) u = (.ok (shift (toStart lead) sofar'), u') := by
  induction n generalizing s selectors comma with
  | zero =>
    cases h
    exact absurd rfl (hn hclose)
  | succ n ih =>
    have hstray : ¬Strays s' := by
      unfold Strays
      rw [hclose]
      decide
    rcases rounds_eq_ok.mp h with hdone | ⟨⟨selectors₁, first, comma₁⟩, s₁, hstep, hrest⟩
    · obtain ⟨hstrays, -⟩ | ⟨⟨hhands, hcarries⟩, -⟩ := groupStep_carries hgroup hs hdone
      · exact absurd hstrays hstray
      · exact ⟨hhands, hcarries.weaken fun lead x u u' hdone' => rounds_done hdone'⟩
    · obtain ⟨-, _, ⟨⟩⟩ | ⟨⟨-, hcarries⟩, hyield⟩ := groupStep_carries hgroup hs hstep
      obtain ⟨hcomma, rfl⟩ := hyield _ rfl
      obtain ⟨hhands, hmore⟩ := ih (hcarries.onward.steady hs)
        (fun hkind => by rw [hcomma] at hkind; cases hkind) hrest
      exact ⟨hcarries.onward.hands hhands, (hcarries.meets.trans hmore).weaken
        fun lead x u u' ⟨v, hstep', hrest'⟩ => (rounds_yield hstep').trans hrest'⟩

/-- What a list is, given its selectors. -/
def listOf (sofar : GroupSoFar) : Option (List Selector) :=
  if sofar.selectors.isEmpty then none else some sofar.selectors.reverse

theorem listOf_shift (δ : Delta) (sofar : GroupSoFar) :
    listOf (shift δ sofar) = shift δ (listOf sofar) := by
  obtain ⟨selectors, first, comma⟩ := sofar
  cases selectors with
  | nil => rfl
  | cons selector selectors =>
    exact congrArg some (List.map_reverse (f := shift δ) (l := selector :: selectors)).symm

theorem groupTo_eq_ok {depth : Nat} {first : Option Token} :
    groupTo (depth + 1) first relative lax s = (.ok v, s') ↔
      ∃ sofar, rounds (groupStep (groupTo depth) relative lax) s.budget ⟨[], first, false⟩ s =
        (.ok sofar, s') ∧ sofar.comma = false ∧ v = listOf sofar := by
  rw [groupTo, bind_eq_ok, repeating_apply]
  constructor
  · rintro ⟨sofar, s₁, hrounds, h⟩
    cases hcomma : sofar.comma with
    | true =>
      rw [hcomma] at h
      cases h
    | false =>
      rw [hcomma] at h
      cases h
      exact ⟨sofar, hrounds, hcomma, rfl⟩
  · rintro ⟨sofar, hrounds, hcomma, rfl⟩
    refine ⟨sofar, s', hrounds, ?_⟩
    rw [hcomma]
    rfl

/-- No list is nested to no depth. -/
theorem groupTo_zero_ne_ok {first : Option Token} :
    groupTo 0 first relative lax s ≠ (.ok v, s') := by
  unfold groupTo
  intro h
  cases h

/-- **A list with the closing bracket at hand after it**, where those in its
arguments are read from an excerpt as from the text. -/
theorem groupTo_carries {depth : Nat} (hgroup : Echoing (groupTo depth)) (hs : s.Steady)
    (h : groupTo (depth + 1) none relative lax s = (.ok v, s'))
    (hclose : s'.stream.current.kind = .rParen) :
    Hands s s' ∧ Carries Meets Faces s s' fun lead _ u u' => u.budget = s.budget →
      groupTo (depth + 1) none relative lax u = (.ok (shift (toStart lead) v), u') := by
  obtain ⟨sofar, hrounds, hcomma, rfl⟩ := groupTo_eq_ok.mp h
  have hroomy := hs.roomy
  refine (groupRounds_carries hgroup hs (fun _ => by omega) hrounds hclose).imp_right
    fun hcarries => hcarries.weaken fun lead x u u' hrounds' hbudget => ?_
  rw [← hbudget] at hrounds'
  rw [← listOf_shift]
  exact groupTo_eq_ok.mpr ⟨shift (toStart lead) sofar, hrounds', hcomma, rfl⟩

/-- **Lists of selectors nested to a depth** are read from an excerpt as from
the text. -/
theorem groupTo_echoing (depth : Nat) : Echoing (groupTo depth) := by
  induction depth with
  | zero =>
    exact ⟨fun _ h => absurd h groupTo_zero_ne_ok, fun _ h => absurd h groupTo_zero_ne_ok,
      fun _ _ h => absurd h groupTo_zero_ne_ok⟩
  | succ depth ih =>
    refine ⟨fun hs h hclose => (groupTo_carries ih hs h hclose).1.onward,
      fun hs h hclose => (groupTo_carries ih hs h hclose).1.shuts hclose,
      fun {relative lax s s' u v lead x after} ha hu h hclose hin => ?_⟩
    obtain ⟨-, hcarries⟩ := groupTo_carries ih hu.steady h hclose
    obtain ⟨u', hu', hrun'⟩ := hcarries.echo ha hu hin
    exact ⟨u', hrun' (hu.beside (hcarries.onward.inside hin)).budget_eq, hu'.level hin,
      hu'.source_eq hin⟩

end Parser

end Stylesheet
