import Mathlib.Data.List.Induction
import Stylesheet.Event
import Stylesheet.Proofs.TokenCut

/-!
# The places that results carry

Tokens, values, selectors, queries, declarations, diagnostics and events
all carry locations, many of them nested in one another. `places` lists
every location inside such a thing, and `IsPlaced` says that all of them
are places of a source.

A place is defined by reading: it is where one stands after some
beginning of the source. `isPlace_iff` says what that comes to for the
three numbers of a location: the offset is a boundary between two
characters, the line is one more than the number of newlines before it,
and the column is one more than the number of characters since the last
of them.
-/

namespace Stylesheet

/-! ## What the numbers of a place are -/

/-- The characters since the last newline of a text. -/
def lastLine (cs : List Char) : List Char := (cs.reverse.takeWhile (· ≠ '\n')).reverse

/-- **A location whose three numbers agree with a source**: the offset is
the length in bytes of a beginning of the source, and line and column
count the newlines of that beginning and the characters after the last
one. -/
def Location.AgreesWith (source : List Char) (loc : Location) : Prop :=
  ∃ before rest, source = before ++ rest ∧ loc.offset = Text.byteLength before ∧
    loc.line = 1 + before.count '\n' ∧ loc.column = 1 + (lastLine before).length

theorem lastLine_concat (cs : List Char) (c : Char) :
    lastLine (cs ++ [c]) = if c = '\n' then [] else lastLine cs ++ [c] := by
  unfold lastLine
  rw [List.reverse_append]
  by_cases h : c = '\n' <;> simp [h]

/-- **What reading a text from the start counts.** -/
theorem Location.advance_start_eq (cs : List Char) :
    Location.start.advance cs =
      ⟨1 + cs.count '\n', 1 + (lastLine cs).length, Text.byteLength cs⟩ := by
  induction cs using List.reverseRecOn with
  | nil => rfl
  | append_singleton cs c ih =>
    rw [advance_append, ih, lastLine_concat, Text.byteLength_append, List.count_append]
    show step _ c = _
    unfold step
    by_cases h : c = '\n' <;> simp [h, Text.byteLength] <;> omega

/-- **A place is a location whose numbers agree.** -/
theorem isPlace_iff {source : List Char} {loc : Location} :
    IsPlace source loc ↔ loc.AgreesWith source := by
  constructor
  · rintro ⟨before, rest, hsource, rfl⟩
    refine ⟨before, rest, hsource, ?_⟩
    rw [Location.advance_start_eq]
    exact ⟨rfl, rfl, rfl⟩
  · rintro ⟨before, rest, hsource, hoffset, hline, hcolumn⟩
    refine ⟨before, rest, hsource, ?_⟩
    rw [Location.advance_start_eq, ← hoffset, ← hline, ← hcolumn]

/-! ## Every location inside -/

/-- **Things that carry locations.** -/
class HasPlaces (α : Type) where
  /-- Every location inside. -/
  places : α → List Location

export HasPlaces (places)

instance : HasPlaces Location where
  places loc := [loc]

instance {α : Type} [HasPlaces α] : HasPlaces (Option α) where
  places o := o.toList.flatMap places

instance {α : Type} [HasPlaces α] : HasPlaces (List α) where
  places xs := xs.flatMap places

instance : HasPlaces Diagnostic where
  places d := places d.location

instance : HasPlaces Token where
  places t := [t.location, t.stop]

mutual
/-- The locations inside a part of a value. -/
def ValuePart.placesIn : ValuePart → List Location
  | ⟨token, _, _, expr, stop, _, _, _, _⟩ => stop :: (places token ++ placesInExpr expr)

/-- The locations inside the inside of a part. -/
def ValuePart.placesInExpr : Option (ValueOf ValuePart) → List Location
  | none => []
  | some v => placesInValue v

/-- The locations inside a value. -/
def ValuePart.placesInValue : ValueOf ValuePart → List Location
  | ⟨parts, _, location, stop, _⟩ => location :: stop :: placesInAll parts

/-- The locations inside parts. -/
def ValuePart.placesInAll : List ValuePart → List Location
  | [] => []
  | p :: ps => ValuePart.placesIn p ++ placesInAll ps
end

instance : HasPlaces ValuePart where
  places := ValuePart.placesIn

instance : HasPlaces (ValueOf ValuePart) where
  places := ValuePart.placesInValue

namespace Selector

mutual
/-- The locations inside a selector. -/
def placesIn : Selector → List Location
  | ⟨items, _, location, stop⟩ => location :: stop :: placesInItems items

/-- The locations inside pieces. -/
def placesInItems : List (SelectorItem Selector) → List Location
  | [] => []
  | item :: items => placesInItem item ++ placesInItems items

/-- The locations inside a piece. -/
def placesInItem : SelectorItem Selector → List Location
  | .compound c => placesInCompound c
  | .combinator ⟨_, _, location⟩ => [location]

/-- The locations inside a compound. -/
def placesInCompound : Compound Selector → List Location
  | ⟨_, _, modifiers, _, location⟩ => location :: placesInModifiers modifiers

/-- The locations inside modifiers. -/
def placesInModifiers : List (Modifier Selector) → List Location
  | [] => []
  | m :: ms => placesInModifier m ++ placesInModifiers ms

/-- The locations inside a modifier. -/
def placesInModifier : Modifier Selector → List Location
  | ⟨kind, _, location⟩ => location :: placesInKind kind

/-- The locations inside what a modifier asks for. -/
def placesInKind : ModifierKind Selector → List Location
  | .amp | .id | .className | .attribute _ => []
  | .pseudo _ _ args => placesInArgs? args

/-- The locations inside an argument that may be missing. -/
def placesInArgs? : Option (PseudoArgs Selector) → List Location
  | none => []
  | some args => placesInArgs args

/-- The locations inside an argument. -/
def placesInArgs : PseudoArgs Selector → List Location
  | .selectors list => placesInAll list
  | .nth _ among => placesInAll among
  | .value v => places v

/-- The locations inside selectors. -/
def placesInAll : List Selector → List Location
  | [] => []
  | s :: ss => placesIn s ++ placesInAll ss
end

end Selector

instance : HasPlaces Selector where
  places := Selector.placesIn

instance : HasPlaces (Modifier Selector) where
  places := Selector.placesInModifier

instance : HasPlaces (PseudoArgs Selector) where
  places := Selector.placesInArgs

instance : HasPlaces (Compound Selector) where
  places := Selector.placesInCompound

instance : HasPlaces (SelectorItem Selector) where
  places := Selector.placesInItem

instance : HasPlaces MediaFeature where
  places f := f.location :: f.stop :: (places f.name ++ places f.expr)

instance : HasPlaces MediaQuery where
  places q := q.location :: places q.features

instance : HasPlaces Declaration where
  places d := d.property.location :: (places d.value ++ places d.invalid)

instance : HasPlaces BlockKind where
  places
    | .rule selectors => places selectors
    | .media queries => places queries
    | .scope start stop => places start ++ places stop
    | .supports | .container _ | .layer _ | .document _ | .fontFace | .fontPaletteValues _
    | .page _ _ | .pageMargin _ | .property _ | .counterStyle _ | .viewport | .keyframes _ _
    | .keyframeRule _ => []

instance : HasPlaces EventKind where
  places
    | .import_ _ _ queries => places queries
    | .start kind => places kind
    | .stop kind _ => places kind
    | .supportsSelector selector => places selector
    | .property d => places d
    | .error e _ => places e
    | .startStylesheet | .endStylesheet | .charset _ | .namespace_ _ _ | .layer _
    | .warning _ => []

instance : HasPlaces Event where
  places e := e.location :: places e.kind

/-! ## Things of a source -/

/-- **All locations inside are places of a source.** -/
def IsPlaced {α : Type} [HasPlaces α] (source : List Char) (a : α) : Prop :=
  ∀ loc ∈ places a, IsPlace source loc

section

variable {α : Type} [HasPlaces α] {source : List Char}

@[simp]
theorem isPlaced_location {loc : Location} : IsPlaced source loc ↔ IsPlace source loc := by
  simp [IsPlaced, places]

@[simp]
theorem isPlaced_none : IsPlaced source (none : Option α) := fun _ h => by cases h

@[simp]
theorem isPlaced_some {a : α} : IsPlaced source (some a) ↔ IsPlaced source a := by
  simp [IsPlaced, places]

@[simp]
theorem isPlaced_nil : IsPlaced source ([] : List α) := fun _ h => by cases h

@[simp]
theorem isPlaced_cons {a : α} {as : List α} :
    IsPlaced source (a :: as) ↔ IsPlaced source a ∧ IsPlaced source as := by
  simp only [IsPlaced, places, List.flatMap_cons, List.forall_mem_append]

@[simp]
theorem isPlaced_append {as bs : List α} :
    IsPlaced source (as ++ bs) ↔ IsPlaced source as ∧ IsPlaced source bs := by
  simp only [IsPlaced, places, List.flatMap_append, List.forall_mem_append]

theorem isPlaced_list {as : List α} : IsPlaced source as ↔ ∀ a ∈ as, IsPlaced source a := by
  induction as with
  | nil => simp
  | cons a as ih => rw [isPlaced_cons, ih, List.forall_mem_cons]

@[simp]
theorem isPlaced_reverse {as : List α} :
    IsPlaced source as.reverse ↔ IsPlaced source as := by
  simp [isPlaced_list]

theorem isPlaced_toList {o : Option α} : IsPlaced source o.toList ↔ IsPlaced source o := by
  cases o <;> simp

@[simp]
theorem isPlaced_diagnostic {d : Diagnostic} :
    IsPlaced source d ↔ ∀ loc, d.location = some loc → IsPlace source loc := by
  rcases d with ⟨_, _, _ | loc⟩ <;> simp [IsPlaced, places]

@[simp]
theorem isPlaced_token {t : Token} :
    IsPlaced source t ↔ IsPlace source t.location ∧ IsPlace source t.stop := by
  simp [IsPlaced, places]

/-- A token cut from a source is placed there. -/
theorem Token.IsCut.isPlaced {t : Token} (h : t.IsCut source) : IsPlaced source t :=
  isPlaced_token.mpr ⟨h.location_isPlace, h.stop_isPlace⟩

theorem ValuePart.placesInAll_eq (ps : List ValuePart) :
    ValuePart.placesInAll ps = places ps := by
  induction ps with
  | nil => simp [placesInAll, places]
  | cons p ps ih => rw [placesInAll, ih]; rfl

theorem ValuePart.placesInExpr_eq (expr : Option Value) :
    ValuePart.placesInExpr expr = places expr := by
  cases expr with
  | none => simp [placesInExpr, places]
  | some v => simp [placesInExpr, places]

@[simp]
theorem isPlaced_part {p : ValuePart} :
    IsPlaced source p ↔
      IsPlace source p.stop ∧ IsPlaced source p.token ∧ IsPlaced source p.expr := by
  obtain ⟨token, text, type, expr, stop, _, _, _, _⟩ := p
  show (∀ loc ∈ ValuePart.placesIn _, _) ↔ _
  rw [ValuePart.placesIn, ValuePart.placesInExpr_eq, List.forall_mem_cons,
    List.forall_mem_append]
  rfl

@[simp]
theorem isPlaced_value {v : Value} :
    IsPlaced source v ↔
      IsPlace source v.location ∧ IsPlace source v.stop ∧ IsPlaced source v.parts := by
  obtain ⟨parts, text, location, stop, _⟩ := v
  show (∀ loc ∈ ValuePart.placesInValue _, _) ↔ _
  rw [ValuePart.placesInValue, ValuePart.placesInAll_eq, List.forall_mem_cons,
    List.forall_mem_cons]
  rfl

theorem Selector.placesInItems_eq (items : List (SelectorItem Selector)) :
    Selector.placesInItems items = places items := by
  induction items with
  | nil => simp [placesInItems, places]
  | cons item items ih => rw [placesInItems, ih]; rfl

theorem Selector.placesInModifiers_eq (ms : List (Modifier Selector)) :
    Selector.placesInModifiers ms = places ms := by
  induction ms with
  | nil => simp [placesInModifiers, places]
  | cons m ms ih => rw [placesInModifiers, ih]; rfl

theorem Selector.placesInAll_eq (ss : List Selector) : Selector.placesInAll ss = places ss := by
  induction ss with
  | nil => simp [placesInAll, places]
  | cons s ss ih => rw [placesInAll, ih]; rfl

@[simp]
theorem isPlaced_selector {s : Selector} :
    IsPlaced source s ↔
      IsPlace source s.location ∧ IsPlace source s.stop ∧ IsPlaced source s.items := by
  obtain ⟨items, text, location, stop⟩ := s
  show (∀ loc ∈ Selector.placesIn _, _) ↔ _
  rw [Selector.placesIn, Selector.placesInItems_eq, List.forall_mem_cons, List.forall_mem_cons]
  rfl

@[simp]
theorem isPlaced_compoundItem {c : Compound Selector} :
    IsPlaced source (SelectorItem.compound c) ↔ IsPlaced source c := by
  unfold IsPlaced
  simp [places, Selector.placesInItem]

@[simp]
theorem isPlaced_combinatorItem {c : Combinator} :
    IsPlaced source (.combinator c : SelectorItem Selector) ↔ IsPlace source c.location := by
  obtain ⟨kind, text, location⟩ := c
  unfold IsPlaced
  simp [places, Selector.placesInItem]

@[simp]
theorem isPlaced_compound {c : Compound Selector} :
    IsPlaced source c ↔ IsPlace source c.location ∧ IsPlaced source c.modifiers := by
  obtain ⟨ns, name, modifiers, text, location⟩ := c
  show (∀ loc ∈ Selector.placesInCompound _, _) ↔ _
  rw [Selector.placesInCompound, Selector.placesInModifiers_eq, List.forall_mem_cons]
  rfl

@[simp]
theorem isPlaced_args_selectors {list : List Selector} :
    IsPlaced source (PseudoArgs.selectors list) ↔ IsPlaced source list := by
  show (∀ loc ∈ Selector.placesInArgs _, _) ↔ _
  rw [Selector.placesInArgs, Selector.placesInAll_eq]
  rfl

@[simp]
theorem isPlaced_args_nth {count : Nth} {among : List Selector} :
    IsPlaced source (PseudoArgs.nth count among) ↔ IsPlaced source among := by
  show (∀ loc ∈ Selector.placesInArgs _, _) ↔ _
  rw [Selector.placesInArgs, Selector.placesInAll_eq]
  rfl

@[simp]
theorem isPlaced_args_value {v : Option Value} :
    IsPlaced source (.value v : PseudoArgs Selector) ↔ IsPlaced source v := by
  show (∀ loc ∈ Selector.placesInArgs _, _) ↔ _
  rw [Selector.placesInArgs]
  rfl

/-- A modifier without an argument has one location. -/
theorem isPlaced_modifier {text : String} {location : Location} {kind : ModifierKind Selector}
    (hkind : Selector.placesInKind kind = []) :
    IsPlaced source (⟨kind, text, location⟩ : Modifier Selector) ↔ IsPlace source location := by
  show (∀ loc ∈ Selector.placesInModifier _, _) ↔ _
  rw [Selector.placesInModifier, hkind, List.forall_mem_singleton]

/-- A pseudo-class has its own location and those of its argument. -/
theorem isPlaced_pseudo {text name : String} {location : Location} {colons : Nat}
    {args : Option (PseudoArgs Selector)} :
    IsPlaced source (⟨.pseudo name colons args, text, location⟩ : Modifier Selector) ↔
      IsPlace source location ∧ IsPlaced source args := by
  show (∀ loc ∈ Selector.placesInModifier _, _) ↔ _
  rw [Selector.placesInModifier, List.forall_mem_cons]
  cases args with
  | none => simp [Selector.placesInKind, Selector.placesInArgs?]
  | some args => rw [Selector.placesInKind, Selector.placesInArgs?, isPlaced_some]; rfl

@[simp]
theorem isPlaced_feature {f : MediaFeature} :
    IsPlaced source f ↔ IsPlace source f.location ∧ IsPlace source f.stop ∧
      IsPlaced source f.name ∧ IsPlaced source f.expr := by
  show (∀ loc ∈ f.location :: f.stop :: (places f.name ++ places f.expr), _) ↔ _
  rw [List.forall_mem_cons, List.forall_mem_cons, List.forall_mem_append]
  rfl

@[simp]
theorem isPlaced_query {q : MediaQuery} :
    IsPlaced source q ↔ IsPlace source q.location ∧ IsPlaced source q.features := by
  show (∀ loc ∈ q.location :: places q.features, _) ↔ _
  rw [List.forall_mem_cons]
  rfl

@[simp]
theorem isPlaced_declaration {d : Declaration} :
    IsPlaced source d ↔ IsPlace source d.property.location ∧ IsPlaced source d.value ∧
      IsPlaced source d.invalid := by
  show (∀ loc ∈ d.property.location :: (places d.value ++ places d.invalid), _) ↔ _
  rw [List.forall_mem_cons, List.forall_mem_append]
  rfl

@[simp]
theorem isPlaced_event {e : Event} :
    IsPlaced source e ↔ IsPlace source e.location ∧ IsPlaced source e.kind := by
  show (∀ loc ∈ e.location :: places e.kind, _) ↔ _
  rw [List.forall_mem_cons]
  rfl

end

end Stylesheet
