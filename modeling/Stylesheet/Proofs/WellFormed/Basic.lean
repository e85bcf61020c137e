import Stylesheet.Proofs.Reads.Selector

/-!
# Well-formed selectors

A selector is well formed where its pieces are: compounds and combinators
take turns, a compound comes last, and a combinator comes first only where
a selector may be relative. Each compound has a name or a modifier, and the
text of each piece stands in the source at its place, one after the other
within the text of the selector. What stands in the argument of a
pseudo-class is well formed in turn, however deep it stands, and a
pseudo-class whose argument is a list of selectors has at least one.

Here is what that says, and the little that reading has to do with it: a
text is laid out piece by piece (`LaidOut`), and a parser that succeeds
brings something about (`Ensures`). What a failure leaves does not matter,
because no reader of selectors goes on after one.
-/

namespace Stylesheet

open Parse (State)
open Parse.State (Keeps Stands)

/-! ## Texts in a source -/

/-- **A text that stands in a source** between two places. -/
structure Spans (source : List Char) (text : String) (start stop : Location) : Prop where
  /-- It starts at a place of the source. -/
  start_isPlace : IsPlace source start
  /-- It stops at one. -/
  stop_isPlace : IsPlace source stop
  /-- It stops where it leads to. -/
  stop_eq : stop = start.advance text.toList
  /-- It is what the source says there. -/
  text_eq : text.toList = Text.slice source start.offset stop.offset

namespace Spans

variable {source : List Char} {text : String} {start stop : Location}

theorem start_le_stop (h : Spans source text start stop) : start.offset ≤ stop.offset := by
  rw [h.stop_eq, Location.offset_advance]
  exact Nat.le_add_right _ _

/-- **What is cut out between two places** stands there. -/
theorem of_slice (hstart : IsPlace source start) (hstop : IsPlace source stop)
    (hle : start.offset ≤ stop.offset) :
    Spans source (String.ofList (Text.slice source start.offset stop.offset)) start stop := by
  obtain ⟨before, rest, rfl, rfl⟩ := hstart
  obtain ⟨before', rest', hsource, rfl⟩ := hstop
  rw [Location.offset_advance_start, Location.offset_advance_start] at hle ⊢
  obtain ⟨mid, rfl⟩ := Text.prefix_of_byteLength_le (List.prefix_append before rest)
    (hsource ▸ List.prefix_append before' rest') hle
  rw [List.append_assoc] at hsource
  obtain rfl := List.append_cancel_left hsource
  have hslice : Text.slice (before ++ (mid ++ rest')) (Text.byteLength before)
      (Text.byteLength (before ++ mid)) = mid := by
    rw [Text.byteLength_append]
    exact Text.slice_append before mid rest'
  refine ⟨⟨before, _, rfl, rfl⟩, ⟨before ++ mid, rest', by simp, rfl⟩, ?_, ?_⟩
  · rw [hslice, String.toList_ofList, Location.advance_append]
  · rw [String.toList_ofList, Location.offset_advance_start, Location.offset_advance_start]

end Spans

/-- **A token stands in the source** that it is cut from. -/
theorem Token.IsCut.spans {source : List Char} {t : Token} (h : t.IsCut source) :
    Spans source t.text t.location t.stop := by
  refine ⟨h.location_isPlace, h.stop_isPlace, ?_, h.text_eq_slice⟩
  obtain ⟨before, rest, rfl, rfl⟩ := h
  exact congrArg (Location.advance _) String.toList_ofList.symm

/-! ## Pieces -/

namespace SelectorItem

variable {Inner : Type}

/-- The text of a piece of a selector. -/
def text : SelectorItem Inner → String
  | .compound c => c.text
  | .combinator c => c.text

/-- The place after a piece of a selector. -/
def stop (item : SelectorItem Inner) : Location := item.location.advance item.text.toList

/-- **Compounds with combinators between them.** -/
inductive Alternate : List (SelectorItem Inner) → Prop where
  /-- One compound. -/
  | last (c : Compound Inner) : Alternate [.compound c]
  /-- A compound and a combinator before more. -/
  | more (c : Compound Inner) (comb : Combinator) {items : List (SelectorItem Inner)} :
      Alternate items → Alternate (.compound c :: .combinator comb :: items)

/-- **The pieces of a selector**, which may start with a combinator if it
may be relative. -/
inductive Compose : Bool → List (SelectorItem Inner) → Prop where
  /-- A compound comes first. -/
  | plain {relative : Bool} {items : List (SelectorItem Inner)} :
      Alternate items → Compose relative items
  /-- A combinator comes first. -/
  | relative (comb : Combinator) {items : List (SelectorItem Inner)} :
      Alternate items → Compose true (.combinator comb :: items)

variable {relative : Bool} {items : List (SelectorItem Inner)}

/-- One more compound. -/
theorem Alternate.append (h : Alternate items) (comb : Combinator) (c : Compound Inner) :
    Alternate (items ++ [.combinator comb, .compound c]) := by
  induction h with
  | last d => exact .more d comb (.last c)
  | more d comb' _ ih => exact .more d comb' ih

theorem Compose.append (h : Compose relative items) (comb : Combinator) (c : Compound Inner) :
    Compose relative (items ++ [.combinator comb, .compound c]) := by
  cases h with
  | plain h => exact .plain (h.append comb c)
  | relative first h => exact .relative first (h.append comb c)

/-- **Pieces that are laid out in a source** between two places: the text of
each stands there, and each ends before the next one starts. -/
structure LaidOut (source : List Char) (start stop : Location)
    (items : List (SelectorItem Inner)) : Prop where
  /-- The texts stand in the source. -/
  spans : ∀ item ∈ items, Spans source item.text item.location item.stop
  /-- The pieces are in order. -/
  ordered : items.Pairwise fun a b => a.stop.offset ≤ b.location.offset
  /-- None starts too early. -/
  start_le : ∀ item ∈ items, start.offset ≤ item.location.offset
  /-- None stops too late. -/
  le_stop : ∀ item ∈ items, item.stop.offset ≤ stop.offset

variable {source : List Char} {start stop stop' : Location}

theorem LaidOut.nil : LaidOut source start stop ([] : List (SelectorItem Inner)) where
  spans _ h := absurd h List.not_mem_nil
  ordered := List.Pairwise.nil
  start_le _ h := absurd h List.not_mem_nil
  le_stop _ h := absurd h List.not_mem_nil

/-- **One more piece.** -/
theorem LaidOut.append (h : LaidOut source start stop items) (hle : start.offset ≤ stop.offset)
    (item : SelectorItem Inner) (hspans : Spans source item.text item.location stop')
    (hstart : stop.offset ≤ item.location.offset) :
    LaidOut source start stop' (items ++ [item]) := by
  have hstop : item.stop = stop' := hspans.stop_eq.symm
  have hlast : ∀ {P : SelectorItem Inner → Prop}, (∀ x ∈ items, P x) → P item →
      ∀ x ∈ items ++ [item], P x := fun hall hitem x hx =>
    (List.mem_append.mp hx).elim (hall x) fun hx => List.mem_singleton.mp hx ▸ hitem
  refine ⟨hlast h.spans (hstop ▸ hspans), ?_, hlast h.start_le (Nat.le_trans hle hstart),
    hlast (fun x hx => ?_) (Nat.le_of_eq (congrArg Location.offset hstop))⟩
  · rw [List.pairwise_append]
    refine ⟨h.ordered, List.pairwise_singleton _ _, fun x hx y hy => ?_⟩
    rw [List.mem_singleton.mp hy]
    exact Nat.le_trans (h.le_stop x hx) hstart
  · exact Nat.le_trans (h.le_stop x hx) (Nat.le_trans hstart hspans.start_le_stop)

end SelectorItem

/-! ## Selectors -/

/-- **A compound that says something**: it has a name or a modifier. -/
def Compound.IsInhabited {Inner : Type} (c : Compound Inner) : Prop :=
  c.elementName.isSome = true ∨ c.modifiers ≠ []

mutual

/-- **A selector that is well formed** in a source, where selectors may be
relative or not. -/
inductive Selector.IsWellFormed (source : List Char) : Bool → Selector → Prop where
  /-- Its pieces are composed and laid out between its ends, its text stands
  there, and its compounds and their arguments are what they should be. -/
  | intro {relative : Bool} {s : Selector} (compose : SelectorItem.Compose relative s.items)
      (laidOut : SelectorItem.LaidOut source s.location s.stop s.items)
      (spans : Spans source s.text s.location s.stop)
      (inhabited : ∀ c ∈ s.compounds, c.IsInhabited)
      (args : ∀ c ∈ s.compounds, ∀ m ∈ c.modifiers, ∀ name colons args,
        m.kind = .pseudo name colons (some args) →
          PseudoArgs.IsFit source s.location.offset s.stop.offset name args) :
      Selector.IsWellFormed source relative s

/-- **The argument of a pseudo-class that fits its name**, and stands between
two offsets. -/
inductive PseudoArgs.IsFit (source : List Char) :
    Nat → Nat → String → PseudoArgs Selector → Prop where
  /-- A list of selectors, which are relative only in `:has()`. -/
  | selectors {start stop : Nat} {name : String} {list : List Selector} :
      Parser.selectorFunctions.contains name = true → list ≠ [] →
      (∀ s ∈ list, start ≤ s.location.offset ∧ s.stop.offset ≤ stop) →
      (∀ s ∈ list, Selector.IsWellFormed source (name == "has") s) →
      PseudoArgs.IsFit source start stop name (.selectors list)
  /-- A count, perhaps among some selectors. -/
  | nth {start stop : Nat} {name : String} {count : Nth} {among : List Selector} :
      Parser.countFunctions.contains name = true →
      (∀ s ∈ among, start ≤ s.location.offset ∧ s.stop.offset ≤ stop) →
      (∀ s ∈ among, Selector.IsWellFormed source false s) →
      PseudoArgs.IsFit source start stop name (.nth count among)
  /-- Anything else in any other pseudo-class. -/
  | value {start stop : Nat} {name : String} {value : Option Value} :
      Parser.selectorFunctions.contains name = false →
      PseudoArgs.IsFit source start stop name (.value value)

end

/-- **A selector that lies between two offsets** of a source, and is well
formed. -/
structure Selector.Lies (source : List Char) (relative : Bool) (start stop : Nat) (s : Selector) :
    Prop where
  /-- It is well formed. -/
  isWellFormed : s.IsWellFormed source relative
  /-- It does not start too early. -/
  start_le : start ≤ s.location.offset
  /-- It does not stop too late. -/
  le_stop : s.stop.offset ≤ stop

theorem Selector.Lies.mono {source : List Char} {relative : Bool} {start stop start' stop' : Nat}
    {s : Selector} (h : s.Lies source relative start stop) (hstart : start' ≤ start)
    (hstop : stop ≤ stop') : s.Lies source relative start' stop' :=
  ⟨h.isWellFormed, Nat.le_trans hstart h.start_le, Nat.le_trans h.le_stop hstop⟩

/-- **A modifier whose argument fits**, and stands between two offsets. -/
def Modifier.IsFit (source : List Char) (start stop : Nat) (m : Modifier Selector) : Prop :=
  ∀ name colons args, m.kind = .pseudo name colons (some args) → args.IsFit source start stop name

theorem PseudoArgs.IsFit.mono {source : List Char} {start stop start' stop' : Nat} {name : String}
    {args : PseudoArgs Selector} (h : args.IsFit source start stop name) (hstart : start' ≤ start)
    (hstop : stop ≤ stop') : args.IsFit source start' stop' name := by
  have hwithin : ∀ {list : List Selector},
      (∀ s ∈ list, start ≤ s.location.offset ∧ s.stop.offset ≤ stop) →
        ∀ s ∈ list, start' ≤ s.location.offset ∧ s.stop.offset ≤ stop' := fun h s hs =>
    ⟨Nat.le_trans hstart (h s hs).1, Nat.le_trans (h s hs).2 hstop⟩
  cases h with
  | selectors hname hne hbounds hall => exact .selectors hname hne (hwithin hbounds) hall
  | nth hname hbounds hall => exact .nth hname (hwithin hbounds) hall
  | value hname => exact .value hname

theorem Modifier.IsFit.mono {source : List Char} {start stop start' stop' : Nat}
    {m : Modifier Selector} (h : m.IsFit source start stop) (hstart : start' ≤ start)
    (hstop : stop ≤ stop') : m.IsFit source start' stop' := fun name colons args hkind =>
  (h name colons args hkind).mono hstart hstop

/-! ## What parsers that succeed bring about -/

/-- **A parser that brings something about** from a state, if it
succeeds. -/
structure Ensures {α : Type} (p : Parser α) (s : State) (Q : α → State → Prop) : Prop where
  /-- What a success leaves. -/
  ok : ∀ a s', p s = (.ok a, s') → Keeps s s' ∧ Q a s'

/-- What a parser that reads on brings about. -/
theorem Reads.ensures {α : Type} {n : Nat} {p p' : Parser α} {s : State} {Q : α → State → Prop}
    (h : Reads n p p' s Q) : Ensures p s Q := by
  refine ⟨fun a s' hrun => ?_⟩
  have hkeeps := h.keeps
  have hok := h.ok
  rw [hrun] at hkeeps hok
  exact ⟨hkeeps, hok a rfl⟩

/-- Reading on, and bringing something about. -/
theorem Reads.and_ensures {α : Type} {n : Nat} {p p' : Parser α} {s : State}
    {Q R : α → State → Prop} (h : Reads n p p' s Q) (h' : Ensures p s R) :
    Reads n p p' s fun a s' => Q a s' ∧ R a s' :=
  ⟨h.alike, h.keeps, h.error, fun a ha => ⟨h.ok a ha, (h'.ok a _ (Prod.ext ha rfl)).2⟩⟩

namespace Ensures

variable {α β σ : Type} {s : State} {p q : Parser α} {f : α → Parser β}
  {Q R : α → State → Prop} {Q' : β → State → Prop}

theorem weaken (h : Ensures p s Q) (himp : ∀ a s', Keeps s s' → Q a s' → R a s') :
    Ensures p s R :=
  ⟨fun a s' hrun => ⟨(h.ok a s' hrun).1, himp a s' (h.ok a s' hrun).1 (h.ok a s' hrun).2⟩⟩

theorem and (h : Ensures p s Q) (h' : Ensures p s R) : Ensures p s fun a s' => Q a s' ∧ R a s' :=
  ⟨fun a s' hrun => ⟨(h.ok a s' hrun).1, (h.ok a s' hrun).2, (h'.ok a s' hrun).2⟩⟩

theorem pure {a : α} (hs : s.IsSound) (hQ : Q a s) : Ensures (Pure.pure a) s Q :=
  (Reads.pure (n := 0) hs hQ).ensures

theorem throw (e : Diagnostic) : Ensures (MonadExcept.throw e : Parser α) s Q :=
  ⟨fun _ _ hrun => by cases hrun⟩

theorem failAt (expected : String) (t : Token) :
    Ensures (Parser.failAt expected t : Parser α) s Q := throw _

theorem failHere (expected : String) : Ensures (Parser.failHere expected : Parser α) s Q :=
  ⟨(failAt (Q := Q) expected s.stream.current).ok⟩

theorem failAt_bind (expected : String) (t : Token) :
    Ensures ((Parser.failAt expected t : Parser α) >>= f) s Q' :=
  ⟨fun _ _ hrun => by cases hrun⟩

theorem bind (h : Ensures p s Q) (hf : ∀ a s₁, Keeps s s₁ → Q a s₁ → Ensures (f a) s₁ Q') :
    Ensures (p >>= f) s Q' := by
  refine ⟨fun b s' hrun => ?_⟩
  rcases hp : p s with ⟨e | a, s₁⟩
  · rw [Parser.bind_error hp] at hrun
    cases hrun
  · rw [Parser.bind_ok hp] at hrun
    obtain ⟨hkeeps, hQ⟩ := h.ok a s₁ hp
    obtain ⟨hkeeps', hQ'⟩ := (hf a s₁ hkeeps hQ).ok b s' hrun
    exact ⟨hkeeps.trans hkeeps', hQ'⟩

theorem pure_bind {a : α} (h : Ensures (f a) s Q') : Ensures (Pure.pure a >>= f) s Q' := ⟨h.ok⟩

theorem ite {c : Prop} [Decidable c] (hpos : c → Ensures p s Q) (hneg : ¬c → Ensures q s Q) :
    Ensures (if c then p else q) s Q := by
  by_cases hc : c
  · rw [if_pos hc]
    exact hpos hc
  · rw [if_neg hc]
    exact hneg hc

theorem discard {Q : Unit → State → Prop} (h : Ensures p s fun _ => Q ()) :
    Ensures (Functor.discard p) s Q := by
  show Ensures (p >>= fun _ => Pure.pure ()) s Q
  exact h.bind fun _ _ hkeeps hQ => pure hkeeps.isSound hQ

theorem current_bind {f : Token → Parser β} (h : Ensures (f s.stream.current) s Q') :
    Ensures (Parser.current >>= f) s Q' := ⟨h.ok⟩

theorem slice_bind {start stop : Nat} {f : String → Parser β}
    (h : Ensures (f (s.stream.slice start stop)) s Q') :
    Ensures (Parser.slice start stop >>= f) s Q' := ⟨h.ok⟩

theorem budget_bind {f : Nat → Parser β} (h : Ensures (f s.budget) s Q') :
    Ensures (Parser.budget >>= f) s Q' := ⟨h.ok⟩

theorem unget (hs : s.IsSound) : Ensures Parser.unget s fun _ _ => True :=
  (Reads.unget (n := 0) hs (Nat.zero_le _) (Nat.zero_le _) fun _ _ => Nat.zero_le _).ensures.weaken
    fun _ _ _ _ => trivial

/-! ## Repetition -/

theorem rounds {step : σ → Parser (ForInStep σ)} {Q : σ → State → Prop} (I : σ → State → Prop)
    (μ : σ → State → Nat) {s₀ : State}
    (hstep : ∀ a s, Keeps s₀ s → I a s → Ensures (step a) s (Reads.Turn I μ (μ a s) Q))
    {k : Nat} {a : σ} (hkeeps : Keeps s₀ s) (hI : I a s) (hk : μ a s < k) :
    Ensures (Parser.rounds step k a) s Q := by
  induction k generalizing a s with
  | zero => exact absurd hk (Nat.not_lt_zero _)
  | succ k ih =>
    refine (hstep a s hkeeps hI).bind fun r s₁ h₁ hturn => ?_
    cases r with
    | done b => exact pure h₁.isSound hturn
    | yield b =>
      obtain ⟨hI', hμ⟩ := hturn
      exact ih (hkeeps.trans h₁) hI' (by omega)

theorem repeating {step : σ → Parser (ForInStep σ)} {Q : σ → State → Prop} (I : σ → State → Prop)
    (μ : σ → State → Nat) {a : σ} (hs : s.IsSound) (hI : I a s) (hμ : μ a s < s.left + 64)
    (hstep : ∀ a s₁, Keeps s s₁ → I a s₁ →
      Ensures (step a) s₁ (Reads.Turn I μ (μ a s₁) Q)) :
    Ensures (Parser.repeating a step) s Q :=
  budget_bind (rounds I μ hstep (Keeps.refl hs) hI
    (Nat.lt_of_lt_of_le (Nat.lt_of_lt_of_le hμ s.left_add_le_bound) hs.budget))

/-- What every round of a loop leaves. -/
def Round (I : σ → State → Prop) : ForInStep σ → State → Prop
  | .done a, s => I a s
  | .yield a, s => I a s

/-- **A step over and over whose first round brings about** what the others
keep. -/
theorem repeating_first {step : σ → Parser (ForInStep σ)} (I : σ → State → Prop) {a : σ}
    (hs : s.IsSound) (hfirst : Ensures (step a) s (Round I))
    (hstep : ∀ a s₁, Keeps s s₁ → I a s₁ → Ensures (step a) s₁ (Round I)) :
    Ensures (Parser.repeating a step) s I := by
  have hrest : ∀ k a s₁, Keeps s s₁ → I a s₁ → Ensures (Parser.rounds step k a) s₁ I := by
    intro k
    induction k with
    | zero => exact fun a s₁ h₁ hI => pure h₁.isSound hI
    | succ k ih =>
      refine fun a s₁ h₁ hI => (hstep a s₁ h₁ hI).bind fun r s₂ h₂ hr => ?_
      cases r with
      | done b => exact pure h₂.isSound hr
      | yield b => exact ih b s₂ (h₁.trans h₂) hr
  refine budget_bind ?_
  obtain ⟨k, hk⟩ : ∃ k, s.budget = k + 1 := by
    have hbudget : s.bound ≤ s.budget := hs.budget
    unfold Parse.State.bound at hbudget
    exact ⟨s.budget - 1, by omega⟩
  rw [hk]
  refine hfirst.bind fun r s₁ h₁ hr => ?_
  cases r with
  | done b => exact pure h₁.isSound hr
  | yield b => exact hrest k b s₁ h₁ hr

end Ensures

end Stylesheet
