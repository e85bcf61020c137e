import Mathlib
import Stylesheet.Parse.Sheet
import Stylesheet.Selector.Specificity

/-!
# The weight of a selector

Selectors are compared by **weights** of three counts, of which the first
that differs decides: ids, then classes, then elements. What a selector
weighs is laid down rule by rule (`Selector.Weighs`): the weights of its
compounds add up, those of a name and its modifiers do, and a list of
selectors in an argument counts as much as the heaviest of them.

The weight that is calculated is the one of the rules
(`Selector.weighs_iff`), as long as a name that ends with an asterisk is
nothing but the universal selector. A name can end with an asterisk that is
escaped, and then it is no universal selector but is taken for one
(`Selector.weightless_name`).
-/

namespace Stylesheet

/-- **A weight**: ids, classes and elements, the first that differs decides. -/
abbrev Weight := ℕ ×ₗ ℕ ×ₗ ℕ

/-- The weight of some ids, classes and elements. -/
def Weight.of (ids classes elements : ℕ) : Weight := toLex (ids, toLex (classes, elements))

/-! ## The rules -/

/-- The selectors in an argument. -/
def PseudoArgs.list {Inner : Type} : PseudoArgs Inner → List Inner
  | .selectors list => list
  | .nth _ among => among
  | .value _ => []

/-- The weight of a name: every name but the universal selector is one
element. -/
def Compound.nameWeight (c : Compound Selector) : Weight :=
  match c.elementName with
  | some name => if name = "*" then 0 else .of 0 0 1
  | none => 0

/-- **A selector that stands in an argument of another.** -/
inductive Selector.IsArgument (t s : Selector) : Prop where
  /-- In the argument of a modifier of one of the compounds. -/
  | intro {c : Compound Selector} {m : Modifier Selector} {name : String} {colons : Nat}
      {args : PseudoArgs Selector} : c ∈ s.compounds → m ∈ c.modifiers →
      m.kind = .pseudo name colons (some args) → t ∈ args.list → Selector.IsArgument t s

/-- **The names of a selector**, those in its arguments included. -/
inductive Selector.Names (name : String) : Selector → Prop where
  /-- The name of one of the compounds. -/
  | own {s : Selector} {c : Compound Selector} :
      c ∈ s.compounds → c.elementName = some name → Selector.Names name s
  /-- A name of a selector in an argument. -/
  | inside {s t : Selector} : t.IsArgument s → Selector.Names name t → Selector.Names name s

mutual

/-- **The weight of a selector** is that of its compounds together. -/
inductive Selector.Weighs : Selector → Weight → Prop where
  /-- Its compounds weigh something each. -/
  | compounds {s : Selector} {ws : List Weight} :
      List.Forall₂ Compound.Weighs s.compounds ws → Selector.Weighs s ws.sum

/-- **The weight of a compound** is that of its name and its modifiers
together. -/
inductive Compound.Weighs : Compound Selector → Weight → Prop where
  /-- Its modifiers weigh something each. -/
  | modifiers {c : Compound Selector} {ws : List Weight} :
      List.Forall₂ Modifier.Weighs c.modifiers ws → Compound.Weighs c (c.nameWeight + ws.sum)

/-- **The weight of a modifier.** -/
inductive Modifier.Weighs : Modifier Selector → Weight → Prop where
  /-- The nesting mark weighs nothing. -/
  | amp {m : Modifier Selector} : m.kind = .amp → Modifier.Weighs m 0
  /-- An id. -/
  | id {m : Modifier Selector} : m.kind = .id → Modifier.Weighs m (.of 1 0 0)
  /-- A class. -/
  | className {m : Modifier Selector} : m.kind = .className → Modifier.Weighs m (.of 0 1 0)
  /-- An attribute test is a class. -/
  | test {m : Modifier Selector} {test : AttributeTest} :
      m.kind = .attribute test → Modifier.Weighs m (.of 0 1 0)
  /-- `:where()` weighs nothing, whatever it holds. -/
  | zero {m : Modifier Selector} {colons : Nat} {args : Option (PseudoArgs Selector)} :
      m.kind = .pseudo "where" colons args → Modifier.Weighs m 0
  /-- A list of selectors weighs as much as the heaviest. -/
  | selectors {m : Modifier Selector} {name : String} {colons : Nat} {list : List Selector}
      {w : Weight} : m.kind = .pseudo name colons (some (.selectors list)) → name ≠ "where" →
      Heaviest list w → Modifier.Weighs m w
  /-- A count weighs one class more than the heaviest it counts among. -/
  | nth {m : Modifier Selector} {name : String} {colons : Nat} {count : Nth}
      {among : List Selector} {w : Weight} :
      m.kind = .pseudo name colons (some (.nth count among)) → name ≠ "where" →
      Heaviest among w → Modifier.Weighs m (.of 0 1 0 + w)
  /-- Any other pseudo-element is an element. -/
  | element {m : Modifier Selector} {name : String} {colons : Nat}
      {args : Option (PseudoArgs Selector)} : m.kind = .pseudo name colons args →
      name ≠ "where" → (∀ a ∈ args, ∃ v, a = .value v) → m.isPseudoElement = true →
      Modifier.Weighs m (.of 0 0 1)
  /-- Any other pseudo-class is a class. -/
  | class_ {m : Modifier Selector} {name : String} {colons : Nat}
      {args : Option (PseudoArgs Selector)} : m.kind = .pseudo name colons args →
      name ≠ "where" → (∀ a ∈ args, ∃ v, a = .value v) → m.isPseudoElement = false →
      Modifier.Weighs m (.of 0 1 0)

/-- **The weight of the heaviest selector** of a list. -/
inductive Heaviest : List Selector → Weight → Prop where
  /-- There is none. -/
  | nil : Heaviest [] 0
  /-- One of the weights is not below any other. -/
  | among {list : List Selector} {ws : List Weight} {w : Weight} :
      List.Forall₂ Selector.Weighs list ws → w ∈ ws → (∀ v ∈ ws, v ≤ w) → Heaviest list w

end

/-! ## The calculation -/

namespace Specificity

/-- The weight that is calculated. -/
def weight (s : Specificity) : Weight := .of s.ids s.classes s.elements

/-- **A calculated weight that is the only one by some rule.** -/
structure Is (s : Specificity) (rule : Weight → Prop) : Prop where
  /-- It has none of what no selector has. -/
  inline_eq : s.inline = 0
  /-- The rule gives it and no other. -/
  rule_iff : ∀ w, rule w ↔ w = s.weight

variable {s t : Specificity} {α : Type} {list : List α}

@[simp]
theorem weight_add : (s + t).weight = s.weight + t.weight := rfl

theorem inline_add : (s + t).inline = s.inline + t.inline := rfl

theorem zero_le_weight (w : Weight) : 0 ≤ w :=
  Prod.Lex.toLex_mono (a := (0, 0)) ⟨Nat.zero_le _, Prod.Lex.toLex_mono (a := (0, 0))
    ⟨Nat.zero_le _, Nat.zero_le _⟩⟩

/-- Weights are compared as their counts are. -/
theorem le_iff (hs : s.inline = 0) (ht : t.inline = 0) : s.le t = true ↔ s.weight ≤ t.weight := by
  unfold le weight Weight.of
  rw [hs, ht, Prod.Lex.toLex_le_toLex]
  simp only [Prod.Lex.toLex_le_toLex]
  simp

theorem weight_max (hs : s.inline = 0) (ht : t.inline = 0) :
    (s.max t).weight = Max.max s.weight t.weight := by
  unfold max
  by_cases h : s.le t = true
  · rw [if_pos h, max_eq_right ((le_iff hs ht).mp h)]
  · have hle : t.weight ≤ s.weight := le_of_not_ge fun hle => h ((le_iff hs ht).mpr hle)
    rw [if_neg h, max_eq_left hle]

theorem inline_max (hs : s.inline = 0) (ht : t.inline = 0) : (s.max t).inline = 0 := by
  unfold max
  split <;> assumption

/-- **The weights of a list**, one by one. -/
theorem forall₂_iff {rule : α → Weight → Prop} {f : α → Specificity}
    (h : ∀ a ∈ list, (f a).Is (rule a)) (ws : List Weight) :
    List.Forall₂ rule list ws ↔ ws = list.map fun a => (f a).weight := by
  induction list generalizing ws with
  | nil => exact List.forall₂_nil_left_iff
  | cons a list ih =>
    obtain ⟨hfirst, hlist⟩ := List.forall_mem_cons.mp h
    rw [List.forall₂_cons_left_iff, List.map_cons]
    constructor
    · rintro ⟨w, ws, hw, hws, rfl⟩
      rw [(hfirst.rule_iff w).mp hw, (ih hlist ws).mp hws]
    · rintro rfl
      exact ⟨_, _, (hfirst.rule_iff _).mpr rfl, (ih hlist _).mpr rfl, rfl⟩

end Specificity

namespace Selector

open Specificity (Is)

/-- The weight of the pieces is that of the compounds among them. -/
theorem weight_items (items : List (SelectorItem Selector)) (text : String)
    (location stop : Location) :
    (itemsWeight items).weight =
      ((Selector.mk items text location stop).compounds.map
        fun c => (compoundWeight c).weight).sum := by
  induction items with
  | nil => rfl
  | cons item items ih =>
    unfold itemsWeight
    rw [Specificity.weight_add, ih]
    cases item with
    | compound c => rfl
    | combinator comb => exact zero_add _

theorem weight_modifiers (modifiers : List (Modifier Selector)) :
    (modifiersWeight modifiers).weight =
      (modifiers.map fun m => (modifierWeight m).weight).sum := by
  induction modifiers with
  | nil => rfl
  | cons m modifiers ih =>
    unfold modifiersWeight
    rw [Specificity.weight_add, ih, List.map_cons, List.sum_cons]

theorem inline_items (items : List (SelectorItem Selector))
    (h : ∀ c, .compound c ∈ items → (compoundWeight c).inline = 0) :
    (itemsWeight items).inline = 0 := by
  induction items with
  | nil => rfl
  | cons item items ih =>
    unfold itemsWeight
    rw [Specificity.inline_add, ih fun c hc => h c (List.mem_cons_of_mem _ hc)]
    cases item with
    | compound c => exact h c List.mem_cons_self
    | combinator comb => rfl

theorem inline_modifiers (modifiers : List (Modifier Selector))
    (h : ∀ m ∈ modifiers, (modifierWeight m).inline = 0) :
    (modifiersWeight modifiers).inline = 0 := by
  induction modifiers with
  | nil => rfl
  | cons m modifiers ih =>
    obtain ⟨hfirst, hmodifiers⟩ := List.forall_mem_cons.mp h
    unfold modifiersWeight
    rw [Specificity.inline_add, ih hmodifiers, hfirst]

/-- **What is calculated for a list** is none of nothing, or else one of the
weights and not below any other. -/
theorem weight_heaviest {list : List Selector} (h : ∀ s ∈ list, s.specificity.inline = 0) :
    (heaviest list).inline = 0 ∧ (list = [] → (heaviest list).weight = 0) ∧
      (list ≠ [] → ∃ s ∈ list, (heaviest list).weight = s.specificity.weight) ∧
      ∀ s ∈ list, s.specificity.weight ≤ (heaviest list).weight := by
  induction list with
  | nil => exact ⟨rfl, fun _ => rfl, fun hne => absurd rfl hne, nofun⟩
  | cons s list ih =>
    obtain ⟨hfirst, hlist⟩ := List.forall_mem_cons.mp h
    obtain ⟨hinline, hnone, hsome, hle⟩ := ih hlist
    unfold heaviest
    rw [Specificity.weight_max hfirst hinline]
    refine ⟨Specificity.inline_max hfirst hinline, fun hnil => absurd hnil (List.cons_ne_nil _ _),
      fun _ => ?_, List.forall_mem_cons.mpr ⟨le_max_left _ _,
        fun t ht => (hle t ht).trans (le_max_right _ _)⟩⟩
    obtain hs | hrest := max_choice s.specificity.weight (heaviest list).weight
    · exact ⟨s, List.mem_cons_self, hs⟩
    · by_cases hnil : list = []
      · refine ⟨s, List.mem_cons_self, ?_⟩
        rw [hnone hnil]
        exact max_eq_left (Specificity.zero_le_weight _)
      · obtain ⟨t, ht, heq⟩ := hsome hnil
        exact ⟨t, List.mem_cons_of_mem _ ht, hrest.trans heq⟩

/-- **The heaviest of a list** is what the rule says. -/
theorem heaviest_is {list : List Selector} (h : ∀ s ∈ list, s.specificity.Is s.Weighs) :
    (heaviest list).Is (Heaviest list) := by
  obtain ⟨hinline, hnone, hsome, hle⟩ := weight_heaviest fun s hs => (h s hs).inline_eq
  refine ⟨hinline, fun w => ⟨fun hw => ?_, ?_⟩⟩
  · cases hw with
    | nil => exact (hnone rfl).symm
    | @among _ ws _ hws hmem hmax =>
      obtain rfl := (Specificity.forall₂_iff h ws).mp hws
      obtain ⟨s, hs, rfl⟩ := List.mem_map.mp hmem
      obtain ⟨t, ht, heq⟩ := hsome (List.ne_nil_of_mem hs)
      exact le_antisymm (hle s hs) (heq ▸ hmax _ (List.mem_map_of_mem ht))
  · rintro rfl
    by_cases hnil : list = []
    · subst hnil
      exact .nil
    · obtain ⟨t, ht, heq⟩ := hsome hnil
      refine .among ((Specificity.forall₂_iff h _).mpr rfl) (heq ▸ List.mem_map_of_mem ht) ?_
      rintro _ hv
      obtain ⟨s, hs, rfl⟩ := List.mem_map.mp hv
      exact hle s hs

/-- What a pseudo-class weighs that is not without weight. -/
theorem kindWeight_pseudo {name : String} (hname : name ≠ weightless) (colons : Nat)
    (args : Option (PseudoArgs Selector)) :
    kindWeight (.pseudo name colons args) = argsWeight? name colons args := by
  unfold kindWeight
  rw [if_neg (by simpa using hname)]

/-- What a pseudo-class or a pseudo-element weighs whose argument holds no
selectors. -/
theorem argsWeight?_of_value {m : Modifier Selector} {name : String} {colons : Nat}
    {args : Option (PseudoArgs Selector)} (hkind : m.kind = .pseudo name colons args)
    (hargs : ∀ a ∈ args, ∃ v, a = .value v) :
    argsWeight? name colons args = if m.isPseudoElement then .element else .class_ := by
  unfold Modifier.isPseudoElement
  rw [hkind]
  cases args with
  | none => simp [argsWeight?]
  | some a =>
    obtain ⟨v, rfl⟩ := hargs a rfl
    simp [argsWeight?, argsWeight]

/-- **A modifier weighs what the rules say**, if the selectors in its
argument do. -/
theorem modifierWeight_is {m : Modifier Selector}
    (h : ∀ name colons args, m.kind = .pseudo name colons (some args) →
      ∀ s ∈ args.list, s.specificity.Is s.Weighs) : (modifierWeight m).Is m.Weighs := by
  have hlist : ∀ {name colons args}, m.kind = .pseudo name colons (some args) →
      (heaviest args.list).Is (Heaviest args.list) := fun hkind => heaviest_is (h _ _ _ hkind)
  have hweight : modifierWeight m = kindWeight m.kind := by
    obtain ⟨kind, text, location⟩ := m
    rfl
  rw [hweight]
  have hunique : ∀ {w}, m.Weighs w → w = (kindWeight m.kind).weight := fun hw => by
    cases hw with
    | amp hkind | id hkind | className hkind | test hkind | zero hkind =>
      rw [hkind]
      rfl
    | selectors hkind hname hw =>
      rw [hkind, kindWeight_pseudo hname]
      exact ((hlist hkind).rule_iff _).mp hw
    | nth hkind hname hw =>
      rw [hkind, kindWeight_pseudo hname, ((hlist hkind).rule_iff _).mp hw]
      rfl
    | element hkind hname hargs helement =>
      rw [hkind, kindWeight_pseudo hname, argsWeight?_of_value hkind hargs, if_pos helement]
      rfl
    | class_ hkind hname hargs helement =>
      rw [hkind, kindWeight_pseudo hname, argsWeight?_of_value hkind hargs, if_neg (by simp [helement])]
      rfl
  have hexists : (kindWeight m.kind).inline = 0 ∧ m.Weighs (kindWeight m.kind).weight := by
    rcases hkind : m.kind with _ | _ | _ | test | ⟨name, colons, args⟩
    · exact ⟨rfl, .amp hkind⟩
    · exact ⟨rfl, .id hkind⟩
    · exact ⟨rfl, .className hkind⟩
    · exact ⟨rfl, .test hkind⟩
    ·
      by_cases hname : name = weightless
      · subst hname
        exact ⟨rfl, .zero hkind⟩
      rw [kindWeight_pseudo hname]
      have hvalue : (∀ a ∈ args, ∃ v, a = PseudoArgs.value v) →
          (argsWeight? name colons args).inline = 0 ∧
            m.Weighs (argsWeight? name colons args).weight := fun hargs => by
        rw [argsWeight?_of_value hkind hargs]
        cases helement : m.isPseudoElement with
        | true => exact ⟨rfl, .element hkind hname hargs helement⟩
        | false => exact ⟨rfl, .class_ hkind hname hargs helement⟩
      rcases args with _ | (list | ⟨count, among⟩ | v)
      · exact hvalue nofun
      · obtain ⟨hinline, hrule⟩ := hlist hkind
        exact ⟨hinline, .selectors hkind hname ((hrule _).mpr rfl)⟩
      · obtain ⟨hinline, hrule⟩ := hlist hkind
        refine ⟨?_, .nth hkind hname ((hrule _).mpr rfl)⟩
        show 0 + (heaviest among).inline = 0
        rw [Nat.zero_add]
        exact hinline
      · exact hvalue fun a ha => ⟨v, (Option.some.inj ha).symm⟩
  exact ⟨hexists.1, fun w => ⟨hunique, by rintro rfl; exact hexists.2⟩⟩

/-- **A compound weighs what the rules say**, if its modifiers do and its
name is the universal selector when it ends with an asterisk. -/
theorem compoundWeight_is {c : Compound Selector}
    (hname : ∀ name, c.elementName = some name → Text.endsWith name "*" = true → name = "*")
    (h : ∀ m ∈ c.modifiers, (modifierWeight m).Is m.Weighs) : (compoundWeight c).Is c.Weighs := by
  obtain ⟨ns, elementName, modifiers, text, location⟩ := c
  have helement : (elementWeight elementName).inline = 0 ∧ (elementWeight elementName).weight =
      Compound.nameWeight ⟨ns, elementName, modifiers, text, location⟩ := by
    unfold elementWeight Compound.nameWeight
    cases elementName with
    | none => exact ⟨rfl, rfl⟩
    | some name =>
      have hiff : Text.endsWith name "*" = true ↔ name = "*" :=
        ⟨hname name rfl, by rintro rfl; rfl⟩
      dsimp only
      simp only [hiff]
      split <;> exact ⟨rfl, rfl⟩
  refine ⟨?_, fun w => ?_⟩
  · show (elementWeight elementName + modifiersWeight modifiers).inline = 0
    rw [Specificity.inline_add, helement.1,
      inline_modifiers modifiers fun m hm => (h m hm).inline_eq]
  · have hweight : (compoundWeight ⟨ns, elementName, modifiers, text, location⟩).weight =
        Compound.nameWeight ⟨ns, elementName, modifiers, text, location⟩ +
          (modifiers.map fun m => (modifierWeight m).weight).sum := by
      show (elementWeight elementName + modifiersWeight modifiers).weight = _
      rw [Specificity.weight_add, helement.2, weight_modifiers]
    rw [hweight]
    constructor
    · rintro ⟨hws⟩
      rw [(Specificity.forall₂_iff h _).mp hws]
    · rintro rfl
      exact .modifiers ((Specificity.forall₂_iff h _).mpr rfl)

/-- A selector in an argument is smaller than the selector around it. -/
theorem IsArgument.sizeOf_lt {s t : Selector} (h : t.IsArgument s) : sizeOf t < sizeOf s := by
  cases h with
  | @intro c m name colons args hc hm hkind ht =>
    obtain ⟨items, text, location, stop⟩ := s
    obtain ⟨ns, elementName, modifiers, ctext, clocation⟩ := c
    obtain ⟨kind, mtext, mlocation⟩ := m
    obtain rfl := hkind
    have hitem : SelectorItem.compound ⟨ns, elementName, modifiers, ctext, clocation⟩ ∈ items := by
      obtain ⟨item, hitem, heq⟩ := List.mem_filterMap.mp hc
      cases item with
      | compound c => exact Option.some.inj heq ▸ hitem
      | combinator comb => cases heq
    have hitem := List.sizeOf_lt_of_mem hitem
    have hm := List.sizeOf_lt_of_mem hm
    have ht : sizeOf t < sizeOf args := by
      cases args with
      | selectors list =>
        have hlist : sizeOf t < sizeOf list := List.sizeOf_lt_of_mem ht
        simp only [PseudoArgs.selectors.sizeOf_spec]
        omega
      | nth count among =>
        have hlist : sizeOf t < sizeOf among := List.sizeOf_lt_of_mem ht
        simp only [PseudoArgs.nth.sizeOf_spec]
        omega
      | value v => cases ht
    simp only [Selector.mk.sizeOf_spec, SelectorItem.compound.sizeOf_spec,
      Compound.mk.sizeOf_spec, Modifier.mk.sizeOf_spec, ModifierKind.pseudo.sizeOf_spec,
      Option.some.sizeOf_spec] at hitem hm ⊢
    omega

/-- **A selector weighs what the rules say** if every name in it that ends
with an asterisk is the universal selector. -/
theorem specificity_is : ∀ s : Selector,
    (∀ name, s.Names name → Text.endsWith name "*" = true → name = "*") →
      s.specificity.Is s.Weighs := by
  intro s hnames
  have hcompound : ∀ c ∈ s.compounds, (compoundWeight c).Is c.Weighs := fun c hc =>
    compoundWeight_is (fun name hname => hnames name (.own hc hname)) fun m hm =>
      modifierWeight_is fun name colons args hkind t ht => by
        have harg : t.IsArgument s := .intro hc hm hkind ht
        have := harg.sizeOf_lt
        exact specificity_is t fun name hname => hnames name (.inside harg hname)
  obtain ⟨items, text, location, stop⟩ := s
  refine ⟨inline_items items fun c hc => (hcompound c ?_).inline_eq, fun w => ?_⟩
  · exact List.mem_filterMap.mpr ⟨_, hc, rfl⟩
  · show _ ↔ w = (itemsWeight items).weight
    rw [weight_items items text location stop]
    constructor
    · rintro ⟨hws⟩
      rw [(Specificity.forall₂_iff hcompound _).mp hws]
    · rintro rfl
      exact .compounds ((Specificity.forall₂_iff hcompound _).mpr rfl)
termination_by s => sizeOf s

/-- **The weight that is calculated is the one of the rules**, for every
selector in which a name that ends with an asterisk, also in an argument, is
the universal selector. -/
theorem weighs_iff {s : Selector}
    (h : ∀ name, s.Names name → Text.endsWith name "*" = true → name = "*")
    (ids classes elements : ℕ) :
    s.Weighs (.of ids classes elements) ↔ s.specificity = ⟨0, ids, classes, elements⟩ := by
  obtain ⟨hinline, hrule⟩ := specificity_is s h
  rw [hrule]
  generalize s.specificity = t at *
  constructor
  · intro hw
    obtain ⟨inline, ids', classes', elements'⟩ := t
    obtain rfl := hinline
    cases hw
    rfl
  · rintro rfl
    rfl

/-- A name and the id of a selector in an argument. -/
theorem weighs_iff_is :
    ∃ s, parseSelector "a:is(#b)" = .ok s ∧
      (∀ name, s.Names name → Text.endsWith name "*" = true → name = "*") ∧
      (s.Weighs (.of 1 0 1) ↔ s.specificity = ⟨0, 1, 0, 1⟩) := by
  have hparse : parseSelector "a:is(#b)" = .ok ⟨[.compound ⟨none, some "a",
      [⟨.pseudo "is" 1 (some (.selectors [⟨[.compound ⟨none, none, [⟨.id, "#b", ⟨1, 6, 5⟩⟩],
        "#b", ⟨1, 6, 5⟩⟩], "#b", ⟨1, 6, 5⟩, ⟨1, 8, 7⟩⟩])), ":is(#b)", ⟨1, 2, 1⟩⟩],
      "a:is(#b)", .start⟩], "a:is(#b)", .start, ⟨1, 9, 8⟩⟩ := by cbv
  refine ⟨_, hparse, ?_⟩
  refine (fun hnames => ⟨hnames, weighs_iff hnames 1 0 1⟩) fun name h hstar => ?_
  cases h with
  | own hc hname =>
    obtain rfl := List.mem_singleton.mp hc
    obtain rfl := Option.some.inj hname
    cases hstar
  | inside ht h =>
    obtain ⟨hc, hm, hkind, hu⟩ := ht
    obtain rfl := List.mem_singleton.mp hc
    obtain rfl := List.mem_singleton.mp hm
    cases hkind
    obtain rfl := List.mem_singleton.mp hu
    cases h with
    | own hc hname =>
      obtain rfl := List.mem_singleton.mp hc
      cases hname
    | inside ht h =>
      obtain ⟨hc, hm, hkind, hu⟩ := ht
      obtain rfl := List.mem_singleton.mp hc
      obtain rfl := List.mem_singleton.mp hm
      cases hkind

/-- **A name that ends with an escaped asterisk** is one element by the
rules, and is calculated to be none. -/
theorem weightless_name :
    ∃ s, parseSelector "a\\*" = .ok s ∧ s.Weighs (.of 0 0 1) ∧ s.specificity = ⟨0, 0, 0, 0⟩ := by
  have hparse : parseSelector "a\\*" = .ok ⟨[.compound ⟨none, some "a\\*", [], "a\\*", .start⟩],
      "a\\*", .start, ⟨1, 4, 3⟩⟩ := rfl
  have hname := Compound.Weighs.modifiers (c := ⟨none, some "a\\*", [], "a\\*", .start⟩) .nil
  have hwhole := Selector.Weighs.compounds (s := ⟨[.compound _], "a\\*", .start, ⟨1, 4, 3⟩⟩)
    (.cons hname .nil)
  exact ⟨_, hparse, hwhole, rfl⟩

end Selector

end Stylesheet
