import Stylesheet.Proofs.Reuse
import Stylesheet.Proofs.WellFormed.Basic
import Stylesheet.Selector.Specificity

/-!
# Well-formed selectors move with their text

A text that stands in two sources carries its selectors from the one to the
other. Every place inside moves to the place of the same part of the text
(`Spans.carry`), and so a selector that is well formed there stays so, with all
that is nested in it (`Selector.Lies.carry`). What it weighs does not depend on
where it stands (`Selector.specificity_move`).
-/

namespace Stylesheet

/-! ## Moved pieces -/

namespace Selector

variable (δ : Delta)

theorem moveItems_eq_map (items : List (SelectorItem Selector)) :
    moveItems δ items = items.map (moveItem δ) := by
  induction items with
  | nil => rfl
  | cons item items ih => exact congrArg (moveItem δ item :: ·) ih

theorem moveModifiers_eq_map (modifiers : List (Modifier Selector)) :
    moveModifiers δ modifiers = modifiers.map (moveModifier δ) := by
  induction modifiers with
  | nil => rfl
  | cons m modifiers ih => exact congrArg (moveModifier δ m :: ·) ih

theorem moveAll_eq_map (selectors : List Selector) :
    moveAll δ selectors = selectors.map (shift δ) := by
  induction selectors with
  | nil => rfl
  | cons s selectors ih => exact congrArg (move δ s :: ·) ih

/-- **A moved selector**: its pieces and its ends move. -/
theorem shift_eq (s : Selector) :
    shift δ s = ⟨s.items.map (moveItem δ), s.text, shift δ s.location, shift δ s.stop⟩ := by
  obtain ⟨items, text, location, stop⟩ := s
  show Selector.mk (moveItems δ items) text (shift δ location) (shift δ stop) = _
  rw [moveItems_eq_map]

/-- The compounds of a moved selector. -/
theorem compounds_shift (s : Selector) :
    (shift δ s).compounds = s.compounds.map (moveCompound δ) := by
  rw [shift_eq]
  unfold compounds
  dsimp only
  rw [List.filterMap_map, List.map_filterMap]
  refine congrFun (congrArg _ (funext fun item => ?_)) _
  cases item <;> rfl

theorem modifiers_moveCompound (c : Compound Selector) :
    (moveCompound δ c).modifiers = c.modifiers.map (moveModifier δ) := by
  obtain ⟨ns, elementName, modifiers, text, location⟩ := c
  exact moveModifiers_eq_map δ modifiers

theorem elementName_moveCompound (c : Compound Selector) :
    (moveCompound δ c).elementName = c.elementName := by
  obtain ⟨ns, elementName, modifiers, text, location⟩ := c
  rfl

/-- An argument of a moved modifier is a moved argument. -/
theorem args_of_moveModifier {m : Modifier Selector} {name : String} {colons : Nat}
    {args : PseudoArgs Selector} (h : (moveModifier δ m).kind = .pseudo name colons (some args)) :
    ∃ args', m.kind = .pseudo name colons (some args') ∧ args = moveArgs δ args' := by
  obtain ⟨kind, text, location⟩ := m
  replace h : moveKind δ kind = .pseudo name colons (some args) := h
  unfold moveKind at h
  cases kind with
  | pseudo name' colons' args' =>
    cases args' with
    | none => cases h
    | some args' =>
      cases h
      exact ⟨args', rfl, rfl⟩
  | _ => cases h

end Selector

namespace SelectorItem

variable (δ : Delta)

theorem text_moveItem (item : SelectorItem Selector) :
    (Selector.moveItem δ item).text = item.text := by
  rcases item with ⟨ns, elementName, modifiers, text, location⟩ | ⟨kind, text, location⟩ <;> rfl

theorem location_moveItem (item : SelectorItem Selector) :
    (Selector.moveItem δ item).location = shift δ item.location := by
  rcases item with ⟨ns, elementName, modifiers, text, location⟩ | ⟨kind, text, location⟩ <;> rfl

variable {items : List (SelectorItem Selector)} {relative : Bool}

theorem Alternate.move (h : Alternate items) : Alternate (items.map (Selector.moveItem δ)) := by
  induction h with
  | last c => exact .last _
  | more c comb _ ih => exact .more _ _ ih

theorem Compose.move (h : Compose relative items) :
    Compose relative (items.map (Selector.moveItem δ)) := by
  cases h with
  | plain h => exact .plain (h.move δ)
  | relative comb h => exact .relative _ (h.move δ)

end SelectorItem

/-! ## Distances of nothing -/

/-- A distance of nothing leads nowhere else. -/
theorem shift_of_isZero {δ : Delta} (h : δ.isZero = true) (loc : Location) : shift δ loc = loc := by
  simp only [Delta.isZero, Bool.and_eq_true, beq_iff_eq] at h
  obtain ⟨⟨hlines, hcolumns⟩, hoffset⟩ := h
  have hcount : ∀ n, moveCount n 0 = n := fun n => by simp [moveCount]
  show (⟨moveCount loc.line δ.lines, if loc.line = δ.anchorLine then moveCount loc.column δ.columns
    else loc.column, moveCount loc.offset δ.offset⟩ : Location) = loc
  rw [hlines, hcolumns, hoffset, hcount, hcount, hcount, ite_self]

namespace ValuePart

variable {δ : Delta}

mutual

theorem move_of_isZero (h : δ.isZero = true) : ∀ p : ValuePart, p.move δ = p
  | ⟨token, text, type, expr, stop, isCalc, isVar, isAttr, isNone⟩ => by
    have htoken : shift δ token = token := by
      obtain ⟨kind, payload, text, location, stop⟩ := token
      show (⟨kind, payload, text, shift δ location, shift δ stop⟩ : Token) = _
      rw [shift_of_isZero h, shift_of_isZero h]
    unfold move
    rw [htoken, shift_of_isZero h, moveExpr_of_isZero h expr]

theorem moveExpr_of_isZero (h : δ.isZero = true) :
    ∀ v : Option (ValueOf ValuePart), moveExpr δ v = v
  | none => rfl
  | some v => congrArg some (moveValue_of_isZero h v)

theorem moveValue_of_isZero (h : δ.isZero = true) : ∀ v : ValueOf ValuePart, moveValue δ v = v
  | ⟨parts, text, location, stop, isVar⟩ => by
    unfold moveValue
    rw [moveAll_of_isZero h parts, shift_of_isZero h, shift_of_isZero h]

theorem moveAll_of_isZero (h : δ.isZero = true) : ∀ parts : List ValuePart, moveAll δ parts = parts
  | [] => rfl
  | p :: parts => by
    unfold moveAll
    rw [move_of_isZero h p, moveAll_of_isZero h parts]

end

end ValuePart

namespace Selector

variable {δ : Delta}

mutual

/-- **A selector that is moved by nothing** is the same. -/
theorem move_of_isZero (h : δ.isZero = true) : ∀ s : Selector, move δ s = s
  | ⟨items, text, location, stop⟩ => by
    unfold move
    rw [moveItems_of_isZero h items, shift_of_isZero h, shift_of_isZero h]

theorem moveItems_of_isZero (h : δ.isZero = true) :
    ∀ items : List (SelectorItem Selector), moveItems δ items = items
  | [] => rfl
  | item :: items => by
    unfold moveItems
    rw [moveItem_of_isZero h item, moveItems_of_isZero h items]

theorem moveItem_of_isZero (h : δ.isZero = true) :
    ∀ item : SelectorItem Selector, moveItem δ item = item
  | .compound c => congrArg SelectorItem.compound (moveCompound_of_isZero h c)
  | .combinator ⟨kind, text, location⟩ => by
    unfold moveItem
    rw [shift_of_isZero h]

theorem moveCompound_of_isZero (h : δ.isZero = true) :
    ∀ c : Compound Selector, moveCompound δ c = c
  | ⟨ns, elementName, modifiers, text, location⟩ => by
    unfold moveCompound
    rw [moveModifiers_of_isZero h modifiers, shift_of_isZero h]

theorem moveModifiers_of_isZero (h : δ.isZero = true) :
    ∀ modifiers : List (Modifier Selector), moveModifiers δ modifiers = modifiers
  | [] => rfl
  | m :: modifiers => by
    unfold moveModifiers
    rw [moveModifier_of_isZero h m, moveModifiers_of_isZero h modifiers]

theorem moveModifier_of_isZero (h : δ.isZero = true) :
    ∀ m : Modifier Selector, moveModifier δ m = m
  | ⟨kind, text, location⟩ => by
    unfold moveModifier
    rw [moveKind_of_isZero h kind, shift_of_isZero h]

theorem moveKind_of_isZero (h : δ.isZero = true) :
    ∀ kind : ModifierKind Selector, moveKind δ kind = kind
  | .amp | .id | .className | .attribute _ => rfl
  | .pseudo name colons args =>
    congrArg (ModifierKind.pseudo name colons) (moveArgs?_of_isZero h args)

theorem moveArgs?_of_isZero (h : δ.isZero = true) :
    ∀ args : Option (PseudoArgs Selector), moveArgs? δ args = args
  | none => rfl
  | some args => congrArg some (moveArgs_of_isZero h args)

theorem moveArgs_of_isZero (h : δ.isZero = true) :
    ∀ args : PseudoArgs Selector, moveArgs δ args = args
  | .selectors list => congrArg PseudoArgs.selectors (moveAll_of_isZero h list)
  | .nth count among => congrArg (PseudoArgs.nth count) (moveAll_of_isZero h among)
  | .value none => rfl
  | .value (some v) =>
    congrArg (fun v => PseudoArgs.value (some v)) (ValuePart.moveValue_of_isZero h v)

theorem moveAll_of_isZero (h : δ.isZero = true) :
    ∀ selectors : List Selector, moveAll δ selectors = selectors
  | [] => rfl
  | s :: selectors => by
    unfold moveAll
    rw [move_of_isZero h s, moveAll_of_isZero h selectors]

end

end Selector

/-! ## Texts in two sources -/

namespace Spans

variable {source source' : List Char} {text t : String} {start stop target stop' p q : Location}

/-- **A text between a beginning and a rest** stands there. -/
theorem of_append (before rest : List Char) (text : String) :
    Spans (before ++ (text.toList ++ rest)) text (Location.start.advance before)
      ((Location.start.advance before).advance text.toList) where
  start_isPlace := ⟨before, _, rfl, rfl⟩
  stop_isPlace := ⟨before ++ text.toList, rest, by simp, (Location.advance_append _ _ _).symm⟩
  stop_eq := rfl
  text_eq := by
    rw [Location.offset_advance (Location.start.advance before), Location.offset_advance_start]
    exact (Text.slice_append before text.toList rest).symm

/-- **A text that stands in a source** divides it. -/
theorem exists_append (h : Spans source text start stop) : ∃ before rest,
    source = before ++ (text.toList ++ rest) ∧ start = Location.start.advance before := by
  obtain ⟨before, rest, rfl, rfl⟩ := h.start_isPlace
  obtain ⟨before', rest', hsource, hstop⟩ := h.stop_isPlace
  have hle := h.start_le_stop
  have htext := h.text_eq
  rw [hstop, Location.offset_advance_start, Location.offset_advance_start] at hle htext
  obtain ⟨mid, rfl⟩ := Text.prefix_of_byteLength_le (List.prefix_append before rest)
    (hsource ▸ List.prefix_append before' rest') hle
  rw [List.append_assoc] at hsource
  rw [hsource, Text.byteLength_append, Text.slice_append] at htext
  exact ⟨before, rest', by rw [hsource, htext], rfl⟩

/-- A text that stands between the ends of another one is a part of it. -/
theorem exists_part (h : Spans source text start stop) (hx : Spans source t p q)
    (hp : start.offset ≤ p.offset) (hq : q.offset ≤ stop.offset) : ∃ pre post,
    text.toList = pre ++ (t.toList ++ post) ∧ p = start.advance pre := by
  obtain ⟨before, rest, rfl, rfl⟩ := h.exists_append
  obtain ⟨before', rest', hsource, rfl⟩ := hx.exists_append
  rw [h.stop_eq, hx.stop_eq, Location.offset_advance (Location.start.advance before),
    Location.offset_advance (Location.start.advance before'), Location.offset_advance_start,
    Location.offset_advance_start] at hq
  rw [Location.offset_advance_start, Location.offset_advance_start] at hp
  obtain ⟨pre, rfl⟩ := Text.prefix_of_byteLength_le (List.prefix_append before _)
    (hsource ▸ List.prefix_append before' _) hp
  rw [List.append_assoc, List.append_cancel_left_eq] at hsource
  rw [Text.byteLength_append, Nat.add_assoc, Nat.add_le_add_iff_left, ← Text.byteLength_append]
    at hq
  obtain ⟨post, hpost⟩ := Text.prefix_of_byteLength_le
    (hsource ▸ ⟨rest', List.append_assoc _ _ _⟩ : pre ++ t.toList <+: text.toList ++ rest)
    (List.prefix_append text.toList rest) hq
  exact ⟨pre, post, by rw [← hpost, List.append_assoc], Location.advance_append _ _ _⟩

/-- **A part of a text moves with it.** -/
theorem carry (h : Spans source text start stop) (h' : Spans source' text target stop')
    (hx : Spans source t p q) (hp : start.offset ≤ p.offset) (hq : q.offset ≤ stop.offset) :
    Spans source' t (shift (Delta.between start target) p) (shift (Delta.between start target) q) := by
  obtain ⟨pre, post, htext, rfl⟩ := h.exists_part hx hp hq
  obtain ⟨before, rest, rfl, rfl⟩ := h'.exists_append
  have hspans := of_append (before ++ pre) (post ++ rest) t
  rw [Location.advance_append] at hspans
  rw [hx.stop_eq, ← Location.advance_append, shift_between_advance, shift_between_advance, htext,
    Location.advance_append]
  simpa only [List.append_assoc] using hspans

/-- **How far a place of a text moves.** -/
theorem offset_shift (h : Spans source text start stop) (hx : Spans source t p q)
    (hp : start.offset ≤ p.offset) (hq : q.offset ≤ stop.offset) (target : Location) :
    (shift (Delta.between start target) p).offset = p.offset - start.offset + target.offset ∧
      (shift (Delta.between start target) q).offset = q.offset - start.offset + target.offset := by
  obtain ⟨pre, post, -, rfl⟩ := h.exists_part hx hp hq
  rw [hx.stop_eq, ← Location.advance_append, shift_between_advance, shift_between_advance]
  simp only [Location.offset_advance]
  omega

end Spans

/-! ## Selectors in two sources -/

section Carry

variable {source source' : List Char} {text : String} {start stop target stop' : Location}
  (h : Spans source text start stop) (h' : Spans source' text target stop')

include h h'

/-- **Pieces that are laid out** within a text move with it. -/
theorem SelectorItem.LaidOut.carry {s e : Location} {items : List (SelectorItem Selector)}
    (hlaid : LaidOut source s e items) {t : String} (hspans : Spans source t s e)
    (hs : start.offset ≤ s.offset) (he : e.offset ≤ stop.offset) :
    LaidOut source' (shift (Delta.between start target) s) (shift (Delta.between start target) e)
      (items.map (Selector.moveItem (Delta.between start target))) := by
  set δ := Delta.between start target with hδ
  have hpiece : ∀ item ∈ items,
      Spans source' item.text (shift δ item.location) (shift δ item.stop) ∧
        (Selector.moveItem δ item).stop = shift δ item.stop ∧
        (shift δ item.location).offset = item.location.offset - start.offset + target.offset ∧
        (shift δ item.stop).offset = item.stop.offset - start.offset + target.offset := by
    intro item hitem
    have hstart := Nat.le_trans hs (hlaid.start_le item hitem)
    have hstop := Nat.le_trans (hlaid.le_stop item hitem) he
    have hcarry := h.carry h' (hlaid.spans item hitem) hstart hstop
    refine ⟨hcarry, ?_, h.offset_shift (hlaid.spans item hitem) hstart hstop target⟩
    rw [SelectorItem.stop, location_moveItem, text_moveItem]
    exact hcarry.stop_eq.symm
  obtain ⟨hends, hende⟩ := h.offset_shift hspans hs he target
  rw [← hδ] at hends hende
  refine ⟨?_, ?_, ?_, ?_⟩
  · simp only [List.mem_map, forall_exists_index, and_imp, forall_apply_eq_imp_iff₂]
    intro item hitem
    rw [text_moveItem, location_moveItem, (hpiece item hitem).2.1]
    exact (hpiece item hitem).1
  · rw [List.pairwise_map]
    refine hlaid.ordered.imp_of_mem fun {a b} ha hb hab => ?_
    rw [(hpiece a ha).2.1, location_moveItem, (hpiece a ha).2.2.2, (hpiece b hb).2.2.1]
    omega
  · simp only [List.mem_map, forall_exists_index, and_imp, forall_apply_eq_imp_iff₂]
    intro item hitem
    have hle := hlaid.start_le item hitem
    rw [location_moveItem, (hpiece item hitem).2.2.1, hends]
    omega
  · simp only [List.mem_map, forall_exists_index, and_imp, forall_apply_eq_imp_iff₂]
    intro item hitem
    have hle := hlaid.le_stop item hitem
    rw [(hpiece item hitem).2.1, (hpiece item hitem).2.2.2, hende]
    omega

variable (target) in
omit h' in
/-- Bounds of a selector in a text move with it. -/
theorem Selector.IsWellFormed.shift_bounds {relative : Bool} {s : Selector} {lo hi : Nat}
    (hs : s.IsWellFormed source relative) (hbounds : lo ≤ s.location.offset ∧ s.stop.offset ≤ hi)
    (hlo : start.offset ≤ lo) (hhi : hi ≤ stop.offset) :
    lo - start.offset + target.offset ≤ (shift (Delta.between start target) s).location.offset ∧
      (shift (Delta.between start target) s).stop.offset ≤ hi - start.offset + target.offset := by
  cases hs with
  | intro _ _ hspans _ _ =>
    obtain ⟨hstart, hstop⟩ := h.offset_shift hspans (Nat.le_trans hlo hbounds.1)
      (Nat.le_trans hbounds.2 hhi) target
    rw [shift_eq]
    dsimp only
    rw [hstart, hstop]
    omega

/-- **A well-formed selector moves with the text** that it stands in. The
induction is over the selector and the arguments of its pseudo-classes, all of
which stand in the text, too. -/
theorem Selector.IsWellFormed.carry {relative : Bool} {s : Selector}
    (hs : s.IsWellFormed source relative) :
    start.offset ≤ s.location.offset → s.stop.offset ≤ stop.offset →
      (shift (Delta.between start target) s).IsWellFormed source' relative := by
  set δ := Delta.between start target with hδ
  refine @Selector.IsWellFormed.rec source
    (fun relative s _ => start.offset ≤ s.location.offset → s.stop.offset ≤ stop.offset →
      (shift δ s).IsWellFormed source' relative)
    (fun lo hi name args _ => start.offset ≤ lo → hi ≤ stop.offset →
      (moveArgs δ args).IsFit source' (lo - start.offset + target.offset)
        (hi - start.offset + target.offset) name) ?intro ?selectors ?nth ?value relative s hs
  case intro =>
    intro relative s hcompose hlaid hspans hinhabited _ hargs hstart hstop
    obtain ⟨hstart', hstop'⟩ := h.offset_shift hspans hstart hstop target
    have hcompounds := compounds_shift δ s
    rw [shift_eq] at hcompounds ⊢
    refine .intro (hcompose.move δ) (hlaid.carry h h' hspans hstart hstop)
      (h.carry h' hspans hstart hstop) ?_ ?_
    · rw [hcompounds]
      intro _ hmem
      obtain ⟨c, hc, rfl⟩ := List.mem_map.mp hmem
      refine (hinhabited c hc).imp (fun hname => ?_) fun hne => ?_
      · rwa [elementName_moveCompound]
      · rw [modifiers_moveCompound]
        simpa using hne
    · rw [hcompounds]
      intro _ hmem _ hmem' name colons _ hkind'
      obtain ⟨c, hc, rfl⟩ := List.mem_map.mp hmem
      rw [modifiers_moveCompound] at hmem'
      obtain ⟨m, hm, rfl⟩ := List.mem_map.mp hmem'
      obtain ⟨args, hkind, rfl⟩ := args_of_moveModifier δ hkind'
      have hfit := hargs c hc m hm name colons args hkind hstart hstop
      rwa [← hstart', ← hstop'] at hfit
  -- a list of selectors within bounds moves as its members do
  case selectors =>
    intro lo hi name list hname hne hbounds hformed hmoved hlo hhi
    refine .selectors hname (by rw [moveAll_eq_map]; simpa using hne) ?_ ?_ <;>
      rw [moveAll_eq_map] <;> intro _ hmem <;> obtain ⟨x, hx, rfl⟩ := List.mem_map.mp hmem
    · exact (hformed x hx).shift_bounds target h (hbounds x hx) hlo hhi
    · exact hmoved x hx (Nat.le_trans hlo (hbounds x hx).1) (Nat.le_trans (hbounds x hx).2 hhi)
  case nth =>
    intro lo hi name count among hname hbounds hformed hmoved hlo hhi
    refine .nth hname ?_ ?_ <;>
      rw [moveAll_eq_map] <;> intro _ hmem <;> obtain ⟨x, hx, rfl⟩ := List.mem_map.mp hmem
    · exact (hformed x hx).shift_bounds target h (hbounds x hx) hlo hhi
    · exact hmoved x hx (Nat.le_trans hlo (hbounds x hx).1) (Nat.le_trans (hbounds x hx).2 hhi)
  case value => exact fun hname _ _ => .value hname

/-- **A selector within bounds moves with the text.** -/
theorem Selector.Lies.carry {relative : Bool} {s : Selector} {lo hi : Nat}
    (hs : s.Lies source relative lo hi) (hlo : start.offset ≤ lo) (hhi : hi ≤ stop.offset) :
    (shift (Delta.between start target) s).Lies source' relative (lo - start.offset + target.offset)
      (hi - start.offset + target.offset) := by
  obtain ⟨hstart, hstop⟩ :=
    hs.isWellFormed.shift_bounds target h ⟨hs.start_le, hs.le_stop⟩ hlo hhi
  exact ⟨hs.isWellFormed.carry h h' (Nat.le_trans hlo hs.start_le)
    (Nat.le_trans hs.le_stop hhi), hstart, hstop⟩

end Carry

/-! ## The weight of a selector that is moved -/

namespace Selector

mutual
/-- **A selector that is moved weighs the same.** -/
theorem specificity_move (δ : Delta) : ∀ s : Selector, (move δ s).specificity = s.specificity
  | ⟨items, _, _, _⟩ => by
    unfold move specificity
    exact itemsWeight_move δ items

theorem itemsWeight_move (δ : Delta) :
    ∀ items : List (SelectorItem Selector), itemsWeight (moveItems δ items) = itemsWeight items
  | [] => by
    unfold moveItems
    rfl
  | item :: items => by
    unfold moveItems itemsWeight
    rw [itemWeight_move δ item, itemsWeight_move δ items]

theorem itemWeight_move (δ : Delta) :
    ∀ item : SelectorItem Selector, itemWeight (moveItem δ item) = itemWeight item
  | .compound c => by
    unfold moveItem itemWeight
    exact compoundWeight_move δ c
  | .combinator ⟨_, _, _⟩ => by
    unfold moveItem itemWeight
    rfl

theorem compoundWeight_move (δ : Delta) :
    ∀ c : Compound Selector, compoundWeight (moveCompound δ c) = compoundWeight c
  | ⟨_, _, modifiers, _, _⟩ => by
    unfold moveCompound compoundWeight
    rw [modifiersWeight_move δ modifiers]

theorem modifiersWeight_move (δ : Delta) : ∀ modifiers : List (Modifier Selector),
    modifiersWeight (moveModifiers δ modifiers) = modifiersWeight modifiers
  | [] => by
    unfold moveModifiers
    rfl
  | m :: modifiers => by
    unfold moveModifiers modifiersWeight
    rw [modifierWeight_move δ m, modifiersWeight_move δ modifiers]

theorem modifierWeight_move (δ : Delta) :
    ∀ m : Modifier Selector, modifierWeight (moveModifier δ m) = modifierWeight m
  | ⟨kind, _, _⟩ => by
    unfold moveModifier modifierWeight
    exact kindWeight_move δ kind

theorem kindWeight_move (δ : Delta) :
    ∀ kind : ModifierKind Selector, kindWeight (moveKind δ kind) = kindWeight kind
  | .amp => by
    unfold moveKind
    rfl
  | .id => by
    unfold moveKind
    rfl
  | .className => by
    unfold moveKind
    rfl
  | .attribute _ => by
    unfold moveKind
    rfl
  | .pseudo name colons args => by
    unfold moveKind kindWeight
    rw [argsWeight?_move δ name colons args]

theorem argsWeight?_move (δ : Delta) (name : String) (colons : Nat) :
    ∀ args : Option (PseudoArgs Selector),
      argsWeight? name colons (moveArgs? δ args) = argsWeight? name colons args
  | none => by
    unfold moveArgs?
    rfl
  | some args => by
    unfold moveArgs? argsWeight?
    exact argsWeight_move δ colons args

theorem argsWeight_move (δ : Delta) (colons : Nat) :
    ∀ args : PseudoArgs Selector, argsWeight colons (moveArgs δ args) = argsWeight colons args
  | .selectors list => by
    unfold moveArgs argsWeight
    exact heaviest_move δ list
  | .nth _ among => by
    unfold moveArgs argsWeight
    rw [heaviest_move δ among]
  | .value _ => by
    unfold moveArgs argsWeight
    rfl

theorem heaviest_move (δ : Delta) :
    ∀ list : List Selector, heaviest (moveAll δ list) = heaviest list
  | [] => by
    unfold moveAll
    rfl
  | s :: list => by
    unfold moveAll heaviest
    rw [specificity_move δ s, heaviest_move δ list]
end

end Selector

end Stylesheet
