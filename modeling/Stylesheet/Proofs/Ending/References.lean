import Mathlib.Data.List.Induction
import Stylesheet.Proofs.Matching.Sets

/-!
# References in grammars

A reference leads to a grammar of the tables, and that one has references of
its own (`RefersTo`). Whatever a grammar of the tables refers to stands in it
between angle brackets (`RefersTo.exists_angle`), as a reader takes nothing
else for a reference. This makes it a matter of looking at characters, and the
tables are spelled out as such (`SpellsTable`).

The references are written down in an order (`referenceOrder`) in which the
grammar behind each refers to earlier ones only. This is checked once
(`Spelling.exists_isOrdered`). So references end after no more steps than
there are references (`FollowsTo.grounded`), and they never lead back
(`refersTo_wellFounded`).

A property is hidden by a named type of the same name, and a descriptor by a
property; a hidden grammar is no grammar behind a reference, and may refer to
what hides it.
-/

namespace Stylesheet.Grammar

open Text

/-! ## Following references -/

/-- **A reference that is followed** to a grammar; one to a basic type is
not. -/
structure FollowsTo (key grammar : String) : Prop where
  /-- It begins with an angle bracket. -/
  angle : key.toList.head? = some '<'
  /-- It stands for no basic type. -/
  not_basic : BasicType.ofName? key = none
  /-- It stands for the grammar. -/
  reference : referenceGrammar? key = some grammar

/-- **A grammar that refers to another.** -/
def RefersTo (text grammar : String) : Prop :=
  ∃ term, Term.ofString text = .ok term ∧ ∃ key ∈ term.leaves, FollowsTo (lower key) grammar

/-- **A grammar whose references end** within a number of steps. -/
def Grounded : Nat → String → Prop
  | 0, _ => False
  | n + 1, text => ∀ grammar, RefersTo text grammar → Grounded n grammar

theorem Grounded.succ {n : Nat} {text : String} (h : Grounded n text) : Grounded (n + 1) text := by
  induction n generalizing text with
  | zero => exact absurd h id
  | succ n ih => exact fun grammar hgrammar => ih (h grammar hgrammar)

theorem Grounded.acc {n : Nat} {text : String} (h : Grounded n text) :
    Acc (fun grammar text => RefersTo text grammar) text := by
  induction n generalizing text with
  | zero => exact absurd h id
  | succ n ih => exact ⟨text, fun grammar hgrammar => ih (h grammar hgrammar)⟩

/-! ## Names as numbers

Names are compared by numbers: their characters are the digits, after a
leading one. -/

/-- The number of a name. -/
def nameNumber (cs : List Char) : Nat := cs.foldl (fun n c => n * 0x110000 + c.toNat) 1

/-- Whether two names are the same. -/
def sameName (cs ds : List Char) : Bool := Nat.beq (nameNumber cs) (nameNumber ds)

theorem nameNumber_append (cs : List Char) (c : Char) :
    nameNumber (cs ++ [c]) = nameNumber cs * 0x110000 + c.toNat := by
  rw [nameNumber, List.foldl_append]
  rfl

theorem nameNumber_pos (cs : List Char) : 0 < nameNumber cs := by
  induction cs using List.reverseRecOn with
  | nil => decide
  | append_singleton cs c ih =>
    rw [nameNumber_append]
    omega

theorem Char.toNat_lt_max (c : Char) : c.toNat < 0x110000 := by
  rcases c.valid with h | h
  · exact Nat.lt_trans h (by decide)
  · exact h.2

/-- **A name can be told from its number.** -/
theorem nameNumber_inj {cs ds : List Char} (h : nameNumber cs = nameNumber ds) : cs = ds := by
  induction cs using List.reverseRecOn generalizing ds with
  | nil =>
    rcases List.eq_nil_or_concat ds with rfl | ⟨ds, d, rfl⟩
    · rfl
    · rw [List.concat_eq_append, nameNumber_append] at h
      have hpos := nameNumber_pos ds
      have hone : nameNumber [] = 1 := rfl
      omega
  | append_singleton cs c ih =>
    rcases List.eq_nil_or_concat ds with rfl | ⟨ds, d, rfl⟩
    · rw [nameNumber_append] at h
      have hpos := nameNumber_pos cs
      have hone : nameNumber [] = 1 := rfl
      omega
    · rw [List.concat_eq_append, nameNumber_append, nameNumber_append] at h
      have hc := Char.toNat_lt_max c
      have hd := Char.toNat_lt_max d
      have hlast : c.toNat = d.toNat := by omega
      rw [ih (by omega : nameNumber cs = nameNumber ds), Char.toNat_inj.mp hlast,
        List.concat_eq_append]

theorem sameName_iff {cs ds : List Char} : sameName cs ds = true ↔ cs = ds := by
  rw [sameName, Nat.beq_eq]
  exact ⟨nameNumber_inj, congrArg _⟩

/-! ## What stands between angle brackets -/

/-- A text up to the first closing angle bracket. -/
def toClosing : List Char → List Char
  | [] => []
  | c :: cs => if Nat.beq c.toNat '>'.toNat then [c] else c :: toClosing cs

/-- **Whatever stands between angle brackets** in a text, with the brackets. -/
def angles : List Char → List (List Char)
  | [] => []
  | c :: cs =>
    if Nat.beq c.toNat '<'.toNat then (c :: toClosing cs) :: angles cs else angles cs

theorem toClosing_append {inside : List Char} (h : '>' ∉ inside) (rest : List Char) :
    toClosing (inside ++ '>' :: rest) = inside ++ ['>'] := by
  induction inside with
  | nil => rfl
  | cons c inside ih =>
    have hc : ¬Nat.beq c.toNat '>'.toNat = true := fun hc =>
      h (Char.toNat_inj.mp (Nat.beq_eq.mp hc) ▸ List.mem_cons_self)
    rw [List.cons_append, toClosing, if_neg hc, ih fun hmem => h (List.mem_cons_of_mem _ hmem)]
    rfl

/-- **A reference in a text** stands between its angle brackets. -/
theorem mem_angles {inside rest cs : List Char} (h : '>' ∉ inside)
    (hsuffix : '<' :: inside ++ '>' :: rest <:+ cs) : '<' :: inside ++ ['>'] ∈ angles cs := by
  induction cs with
  | nil => cases List.suffix_nil.mp hsuffix
  | cons c cs ih =>
    rw [angles]
    rcases List.suffix_cons_iff.mp hsuffix with heq | hsuffix
    · rw [List.cons_append] at heq
      obtain ⟨rfl, rfl⟩ := List.cons.inj heq
      rw [if_pos (Nat.beq_refl _), toClosing_append h]
      exact List.mem_cons_self
    · split_ifs
      · exact List.mem_cons_of_mem _ (ih hsuffix)
      · exact ih hsuffix

/-- A text whose angle brackets are those of references, in ASCII. -/
structure IsAngled (cs : List Char) : Prop where
  /-- It is in ASCII. -/
  ascii : ∀ c ∈ cs, c.toNat < 0x80
  /-- Angle brackets are those of references. -/
  closed : ∀ rest, rest <:+ cs → rest.head? = some '<' → Parser.reference rest ≠ none

theorem IsTableText.isAngled {text : String} (h : IsTableText text) : IsAngled text.toList := by
  rcases h with rfl | h
  · exact ⟨by simp [bracketGrammar], closed_of_anglesClosed (by decide)⟩
  · exact ⟨fun c hc => (h.plain.plain c hc).2.1.trans (by decide), h.plain.closed⟩

theorem toList_lower_ascii {cs : List Char} (h : ∀ c ∈ cs, c.toNat < 0x80) :
    (lower (String.ofList cs)).toList = cs.map Char.toLower := by
  have hascii : (String.ofList cs).toList.all (·.toNat < 0x80) = true := by
    rw [String.toList_ofList, List.all_eq_true]
    exact fun c hc => decide_eq_true (h c hc)
  rw [lower, if_pos hascii, asciiLower, String.toList_map, String.toList_ofList]

theorem lower_lower (s : String) : lower (lower s) = lower s :=
  lower_eq_self fun _ => isSmall_of_mem_lower

theorem isMark_angle : IsMark '<' := by decide

/-- **What is known of the texts in terms**: those that begin like references
stand between the angle brackets of a text. -/
def Mentions (cs : List Char) (_ : List Char) (keys : List String) (_ : List Char) : Prop :=
  ∀ key ∈ keys, (lower key).toList.head? = some '<' →
    ∃ angle ∈ angles cs, (lower key).toList = angle.map Char.toLower

theorem tracking_mentions (cs : List Char) : Parser.Tracking (Mentions cs) where
  nil _ _ _ := nofun
  append _ _ _ _ _ h h' key hkey := (List.mem_append.mp hkey).elim (h key) (h' key)
  sublist _ _ _ _ hsub h key hkey := h key (hsub.subset hkey)

theorem mentions_single {cs left rest : List Char} {key : String}
    (h : (lower key).toList.head? = some '<' →
      ∃ angle ∈ angles cs, (lower key).toList = angle.map Char.toLower) :
    Mentions cs left [key] rest := by
  intro key' hkey
  rwa [List.mem_singleton.mp hkey]

section Mentions

variable {cs left rest : List Char} {term : Term}

theorem wordRun_mentions (h : Parser.wordRun left = some (term, rest)) :
    Parser.Reads (fun _ => True) (Mentions cs) left term rest := by
  obtain ⟨ws, hne, hws, rfl⟩ := Parser.wordRun_eq h
  refine ⟨.words trivial, mentions_single fun hhead => ?_⟩
  rw [head?_lower_mark isMark_angle] at hhead
  exact absurd hhead (Parser.isAlternation_words hne hws).head_ne

theorem reference_mentions (hcs : IsAngled cs) (hleft : left <:+ cs)
    (h : Parser.reference left = some (term, rest)) :
    Parser.Reads (fun _ => True) (Mentions cs) left term rest := by
  obtain ⟨inside, -, hinside, hcs', hterm⟩ := Parser.reference_eq h
  have hclosing : '>' ∉ inside := fun hmem => absurd (hinside _ hmem) (by decide)
  have hmem : '<' :: inside ++ ['>'] ∈ angles cs := mem_angles hclosing (hcs' ▸ hleft)
  have hascii : ∀ c ∈ '<' :: inside ++ ['>'], c.toNat < 0x80 := by
    intro c hc
    refine hcs.ascii c (hleft.subset ?_)
    rw [hcs']
    simp only [List.mem_append, List.mem_cons] at hc ⊢
    tauto
  have hlower := toList_lower_ascii hascii
  rw [hterm]
  refine ⟨.reference trivial, mentions_single fun _ => ⟨_, hmem, ?_⟩⟩
  rw [lower_lower, hlower]

theorem literal_mentions (hcs : IsAngled cs) (hleft : left <:+ cs)
    (hnone : Parser.reference left = none) (h : Parser.literal left = some (term, rest)) :
    Parser.Reads (fun _ => True) (Mentions cs) left term rest := by
  obtain ⟨⟨text, left'⟩, htext, h⟩ := Option.bind_eq_some_iff.mp h
  cases h
  refine ⟨.words trivial, mentions_single fun hhead => ?_⟩
  rw [lower_lower, head?_lower_mark isMark_angle, String.toList_ofList] at hhead
  rcases Option.or_eq_some_iff.mp htext with hquoted | ⟨-, htext⟩
  · obtain ⟨inside, -, rfl⟩ := Parser.quotedBy_eq hquoted
    cases hhead
  rcases Option.or_eq_some_iff.mp htext with hquoted | ⟨-, hrun⟩
  · obtain ⟨inside, -, rfl⟩ := Parser.quotedBy_eq hquoted
    cases hhead
  · obtain ⟨hne, -, rfl⟩ := Parser.run_eq hrun
    refine absurd hnone (hcs.closed _ hleft ?_)
    obtain ⟨c, text, rfl⟩ := List.exists_cons_of_ne_nil hne
    exact hhead

/-- **The references in the terms of a grammar** stand between its angle
brackets. -/
theorem readable_mentions (hcs : IsAngled cs) :
    Parser.Readable (· <:+ cs) (fun _ => True) (Mentions cs) where
  toTracking := tracking_mentions cs
  rest _ _ hrest h := hrest.trans h
  wordRun _ _ _ _ h := wordRun_mentions h
  reference _ _ _ hleft h := reference_mentions hcs hleft h
  literal _ _ _ hleft hnone h := literal_mentions hcs hleft hnone h

end Mentions

/-- **A reference of a grammar** stands between its angle brackets. -/
theorem RefersTo.exists_angle {text grammar : String} (htext : IsAngled text.toList)
    (h : RefersTo text grammar) : ∃ angle ∈ angles text.toList,
      ∃ key, key.toList = angle.map Char.toLower ∧ FollowsTo key grammar := by
  obtain ⟨term, hterm, key, hkey, hfollows⟩ := h
  obtain ⟨_, -, hmentions⟩ :=
    Term.ofString_reads (readable_mentions htext) (List.suffix_refl _) hterm
  obtain ⟨angle, hangle, heq⟩ := hmentions key hkey hfollows.angle
  exact ⟨angle, hangle, _, heq, hfollows⟩

/-! ## The tables spelled out

Texts are checked as lists of characters, and tables as lists of such. -/

/-- **A text spelled out** as its characters. -/
def Spells (s : String) (cs : List Char) : Prop := s.toList = cs

theorem Spells.ofList (cs : List Char) : Spells (String.ofList cs) cs := String.toList_ofList

theorem Spells.append {s t : String} {cs ds : List Char} (h : Spells s cs) (h' : Spells t ds) :
    Spells (s ++ t) (cs ++ ds) := by
  rw [Spells, String.toList_append, h, h']

/-- Several texts spelled out. -/
def SpellsAll (names : List String) (spelled : List (List Char)) : Prop :=
  names.map String.toList = spelled

theorem SpellsAll.nil : SpellsAll [] [] := rfl

theorem SpellsAll.cons {name : String} {n : List Char} {names : List String}
    {spelled : List (List Char)} (h : Spells name n) (h' : SpellsAll names spelled) :
    SpellsAll (name :: names) (n :: spelled) := by
  rw [SpellsAll, List.map_cons, h, h']

/-- A table spelled out: names, and the grammars of those that have one. -/
abbrev SpelledTable := List (List Char × Option (List Char))

/-- **A table and its spelling.** -/
inductive SpellsTable : List (String × Definition) → SpelledTable → Prop where
  /-- No entries. -/
  | nil : SpellsTable [] []
  /-- A definition without a grammar. -/
  | any {name : String} {n : List Char} {table : List (String × Definition)}
      {spelled : SpelledTable} : Spells name n → SpellsTable table spelled →
      SpellsTable ((name, .any) :: table) ((n, none) :: spelled)
  /-- A grammar. -/
  | grammar {name text : String} {n t : List Char} {table : List (String × Definition)}
      {spelled : SpelledTable} : Spells name n → Spells text t → SpellsTable table spelled →
      SpellsTable ((name, .grammar text) :: table) ((n, some t) :: spelled)
  /-- Two tables in a row. -/
  | append {table table' : List (String × Definition)} {spelled spelled' : SpelledTable} :
      SpellsTable table spelled → SpellsTable table' spelled' →
      SpellsTable (table ++ table') (spelled ++ spelled')

/-- Whether the first entry of a name has a grammar. -/
def hasGrammar (spelled : SpelledTable) (name : List Char) : Bool :=
  (spelled.find? fun entry => sameName name entry.1).any (·.2.isSome)

section Tables

variable {table : List (String × Definition)} {spelled : SpelledTable} {name text : String}

theorem SpellsTable.mem (h : SpellsTable table spelled) (hmem : (name, .grammar text) ∈ table) :
    (name.toList, some text.toList) ∈ spelled := by
  induction h with
  | nil => cases hmem
  | any _ _ ih => exact List.mem_cons_of_mem _ (ih (by simpa using hmem))
  | grammar hn ht _ ih =>
    rcases List.mem_cons.mp hmem with heq | hmem
    · cases heq
      rw [hn, ht]
      exact List.mem_cons_self
    · exact List.mem_cons_of_mem _ (ih hmem)
  | append _ _ ih ih' =>
    rcases List.mem_append.mp hmem with hmem | hmem
    · exact List.mem_append_left _ (ih hmem)
    · exact List.mem_append_right _ (ih' hmem)

theorem SpellsTable.find (h : SpellsTable table spelled) (name : String) :
    spelled.find? (fun entry => sameName name.toList entry.1) =
      (table.lookup name).map fun d => (name.toList, d.grammar?.map String.toList) := by
  have hcons : ∀ {name' : String} {n : List Char}, Spells name' n →
      (sameName name.toList n = true ↔ name = name') := by
    intro name' n hn
    rw [sameName_iff, ← hn, String.toList_inj]
  have hother : ∀ {name' : String} {n : List Char}, Spells name' n →
      ¬sameName name.toList n = true → (name == name') = false := fun hn hsame =>
    beq_false_of_ne (mt (hcons hn).mpr hsame)
  induction h with
  | nil => rfl
  | @any _ n _ _ hn _ ih =>
    rw [List.find?_cons, List.lookup_cons]
    by_cases hsame : sameName name.toList n = true
    · obtain rfl := (hcons hn).mp hsame
      rw [hsame, beq_self_eq_true, ← hn]
      rfl
    · rw [Bool.eq_false_iff.mpr hsame, hother hn hsame, ih]
  | @grammar _ _ n _ _ _ hn ht _ ih =>
    rw [List.find?_cons, List.lookup_cons]
    by_cases hsame : sameName name.toList n = true
    · obtain rfl := (hcons hn).mp hsame
      rw [hsame, beq_self_eq_true, ← hn, ← ht]
      rfl
    · rw [Bool.eq_false_iff.mpr hsame, hother hn hsame, ih]
  | append _ _ ih ih' =>
    rw [List.find?_append, ih, ih', List.lookup_append, Option.map_or]

/-- What has a grammar in the spelling has one in the table. -/
theorem SpellsTable.exists_of_hasGrammar (h : SpellsTable table spelled)
    (hname : hasGrammar spelled name.toList = true) :
    ∃ text, (table.lookup name).bind (·.grammar?) = some text := by
  unfold hasGrammar at hname
  rw [h.find] at hname
  cases hlookup : table.lookup name with
  | none =>
    rw [hlookup] at hname
    cases hname
  | some d =>
    rw [hlookup] at hname
    cases d with
    | grammar text => exact ⟨text, rfl⟩
    | any => cases hname

end Tables

/-! ## An order of the references -/

/-- **The references of the tables**, each after those that the grammar
behind it refers to. -/
def referenceOrder : List String := [
  "<absolute-size>", "<animateable-feature>", "<animation-direction>", "<animation-fill-mode>",
  "<attachment>", "<axis>", "<baseline-position>", "<basic-shape>", "<bg-position>", "<bg-size>",
  "<blend-mode>", "<border-image-outset>", "<border-image-repeat>", "<border-image-slice>",
  "<border-image-width>", "<border-radius>", "<border-style>", "<border-width>", "<box-fsv>",
  "<box>", "<break-inside>", "<color-interpolation>", "<color>", "<column-gap>",
  "<compositing-operator>", "<contain-intrinsic>", "<container-name>", "<container-type>",
  "<content-distribution>", "<content-position>", "<counter>", "<dasharray>", "<display-box>",
  "<display-inside>", "<display-internal>", "<display-legacy>", "<display-outside>",
  "<family-name>", "<fill-rule>", "<flex-direction>", "<flex-wrap>", "<font-stretch-named>",
  "<font-style>", "<font-variant-alternates>", "<font-variant-caps>", "<font-variant-east-asian>",
  "<font-variant-ligatures>", "<font-variant-numeric>", "<font-weight>", "<generic-family>",
  "<gradient>", "<grid-line>", "<inflexible-breadth>", "<line-height>", "<line-names>",
  "<list-style-position>", "<list-style-type>", "<mask-border-outset>", "<mask-border-repeat>",
  "<mask-border-slice>", "<mask-border-width>", "<mask-type>", "<masking-mode>", "<math-style>",
  "<offset-rotate>", "<overflow-position>", "<overscroll>", "<page-break-after>", "<position>",
  "<ratio>", "<relative-size>", "<repeat-style>", "<scroll-timeline-attachment>",
  "<scroll-timeline-name>", "<self-position>", "<text-align>", "<text-decoration-line>",
  "<text-decoration-style>", "<text-emphasis-style>", "<timing-function>", "<top>",
  "<track-breadth>", "<txbhv>", "<url>", "<vis-hid>", "<width-base>", "<x>", "<align-content>",
  "<align-self>", "<animation-timeline>", "<border-radius-round>", "<border-shorthand>",
  "<break-after>", "<coord-box>", "<display-listitem>", "<filter-function-list>", "<fixed-size>",
  "<font-family>", "<font-short-tweak-no-pct>", "<font-size>", "<font-stretch>", "<image-no-set>",
  "<justify-content>", "<justify-self>", "<mask-border-mode>", "<offset-anchor>",
  "<offset-position>", "<overflow>", "<paint>", "<ray>", "<rx>", "<scroll-timeline-axis>",
  "<shadow>", "<shape-box>", "<track-size>", "<width-max>", "<width>", "<auto-repeat>",
  "<explicit-track-list>", "<fixed-repeat>", "<font-short-core>", "<geometry-box>",
  "<grid-auto-columns>", "<grid-auto-rows>", "<image-set>", "<inset-arg>", "<offset-path>",
  "<rect-arg>", "<track-repeat>", "<xywh-arg>", "<auto-track-list>", "<image>", "<inset>",
  "<rect>", "<track-list>", "<xywh>", "<bg-image>", "<content-list>", "<grid-template-rows>",
  "<list-style-image>", "<mask-border-source>", "<prefix>", "<bg-layer>", "<final-bg-layer>",
  "<grid-template-columns>", "<pad>", "<grid-template>"]

/-- All tables, the names of the basic types and the order of the references
spelled out. -/
structure Spelling where
  /-- The named types. -/
  types : SpelledTable
  /-- The properties, by their names without brackets. -/
  properties : SpelledTable
  /-- The descriptors of at-rules, by their names without brackets. -/
  descriptors : SpelledTable
  /-- The basic types. -/
  basics : List (List Char)
  /-- The references in order. -/
  order : List (List Char)

namespace Spelling

/-- **A spelling of the tables.** -/
structure IsSpelled (s : Spelling) : Prop where
  /-- The named types. -/
  types : SpellsTable (Property.Table.types.map fun entry => (entry.1, .grammar entry.2)) s.types
  /-- The properties. -/
  properties : SpellsTable Property.table s.properties
  /-- The descriptors. -/
  descriptors : SpellsTable (Property.Table.scopes.flatMap (·.descriptors)) s.descriptors
  /-- The basic types. -/
  basics : SpellsAll (BasicType.all.map BasicType.name) s.basics
  /-- The references in order. -/
  order : SpellsAll referenceOrder s.order

/-- A name in angle brackets. -/
def bracketed (name : List Char) : List Char := '<' :: name ++ ['>']

/-- Whether a name is one of a group of functions. -/
def isGroup (name : List Char) : Bool := sameName (name.take 4) ['<', 'f', 'n', ':']

/-- Whether a name comes before another in an order. -/
def comesBefore (name first : List Char) : List (List Char) → Bool
  | [] => false
  | n :: order => !sameName n name && (sameName n first || comesBefore name first order)

/-- **Whether a grammar refers to earlier references only**, besides basic
types and groups of functions. -/
def refersBack (s : Spelling) (name text : List Char) : Bool :=
  (angles text).all fun angle =>
    let reference := angle.map Char.toLower
    isGroup reference || s.basics.any (sameName reference) || comesBefore name reference s.order

/-- Whether an entry is in order: no name is one of a group of functions, and
a grammar that can be referred to refers to earlier references only. -/
def inOrder (s : Spelling) (name : List Char) (text : Option (List Char)) (hidden : Bool) : Bool :=
  !isGroup name && (text.all (s.refersBack name) || hidden)

/-- **Whether all tables are in order.** -/
def isOrdered (s : Spelling) : Bool :=
  s.types.all (fun entry => s.inOrder entry.1 entry.2 false) &&
    s.properties.all (fun entry =>
      s.inOrder (bracketed entry.1) entry.2 (hasGrammar s.types (bracketed entry.1))) &&
    s.descriptors.all fun entry =>
      s.inOrder (bracketed entry.1) entry.2
        (hasGrammar s.types (bracketed entry.1) || hasGrammar s.properties entry.1)

theorem exists_of_isOrdered {types properties descriptors : SpelledTable}
    {basics order : List (List Char)}
    (htypes : SpellsTable (Property.Table.types.map fun entry => (entry.1, .grammar entry.2)) types)
    (hproperties : SpellsTable Property.table properties)
    (hdescriptors : SpellsTable (Property.Table.scopes.flatMap (·.descriptors)) descriptors)
    (hbasics : SpellsAll (BasicType.all.map BasicType.name) basics)
    (horder : SpellsAll referenceOrder order)
    (hordered : isOrdered ⟨types, properties, descriptors, basics, order⟩ = true) :
    ∃ s : Spelling, s.IsSpelled ∧ s.isOrdered = true :=
  ⟨_, ⟨htypes, hproperties, hdescriptors, hbasics, horder⟩, hordered⟩

set_option maxRecDepth 10000 in
/-- **The tables are in order.** -/
theorem exists_isOrdered : ∃ s : Spelling, s.IsSpelled ∧ s.isOrdered = true := by
  apply exists_of_isOrdered
  · unfold Property.Table.types
    simp only [List.map_cons, List.map_nil]
    repeat' first
      | with_reducible exact SpellsTable.nil
      | with_reducible apply SpellsTable.grammar
      | with_reducible exact Spells.ofList _
      | with_reducible apply Spells.append
  · unfold Property.table Property.Table.box Property.Table.layout Property.Table.text
      Property.Table.font Property.Table.paint Property.Table.border Property.Table.motion
      Property.Table.interaction Property.Table.graphic Property.Table.vendor
    repeat' first
      | with_reducible exact SpellsTable.nil
      | with_reducible apply SpellsTable.grammar
      | with_reducible apply SpellsTable.any
      | with_reducible apply SpellsTable.append
      | with_reducible exact Spells.ofList _
      | with_reducible apply Spells.append
  · simp only [Property.Table.scopes, List.flatMap_cons, List.flatMap_nil]
    unfold Property.Table.counterStyleDescriptors Property.Table.fontFaceDescriptors
      Property.Table.fontPaletteValuesDescriptors Property.Table.pageDescriptors
      Property.Table.registeredDescriptors Property.Table.viewportDescriptors
    repeat' first
      | with_reducible exact SpellsTable.nil
      | with_reducible apply SpellsTable.grammar
      | with_reducible apply SpellsTable.any
      | with_reducible apply SpellsTable.append
      | with_reducible exact Spells.ofList _
      | with_reducible apply Spells.append
  · simp only [BasicType.all, List.map_cons, List.map_nil, BasicType.name, ColorModel.letters]
    repeat' first
      | with_reducible exact SpellsAll.nil
      | with_reducible apply SpellsAll.cons
      | with_reducible exact Spells.ofList _
      | with_reducible apply Spells.append
  · unfold referenceOrder
    repeat' first
      | with_reducible exact SpellsAll.nil
      | with_reducible apply SpellsAll.cons
      | with_reducible exact Spells.ofList _
  · -- table by table, since all of them at once fill the memory
    simp only [isOrdered, List.all_append, Bool.and_eq_true, and_assoc]
    and_intros <;> decide +kernel

/-! ## The order keeps references from leading back -/

section Ordered

variable {s : Spelling} {key grammar : String}

theorem idxOf_of_comesBefore {name first : List Char} {order : List (List Char)}
    (h : comesBefore name first order = true) : order.idxOf first < order.idxOf name := by
  induction order with
  | nil => cases h
  | cons n order ih =>
    rw [comesBefore, Bool.and_eq_true, Bool.or_eq_true, Bool.not_eq_true', ← Bool.not_eq_true,
      sameName_iff, sameName_iff] at h
    rw [List.idxOf_cons_ne _ h.1]
    rcases h.2 with rfl | hlater
    · rw [List.idxOf_cons_self]
      exact Nat.succ_pos _
    · by_cases hn : n = first
      · rw [hn, List.idxOf_cons_self]
        exact Nat.succ_pos _
      · rw [List.idxOf_cons_ne _ hn]
        exact Nat.succ_lt_succ (ih hlater)

theorem toList_eq_bracketed {name inner : String}
    (h : (Text.stripStart "<" name).bind (Text.stripEnd ">") = some inner) :
    name.toList = bracketed inner.toList := by
  obtain ⟨rest, hstart, hend⟩ := Option.bind_eq_some_iff.mp h
  obtain ⟨cs, hcs, rfl⟩ := Option.map_eq_some_iff.mp hstart
  obtain ⟨ds, hds, rfl⟩ := Option.map_eq_some_iff.mp hend
  have hds := List.isSuffixOf?_eq_some_iff_append_eq.mp hds
  rw [String.toList_ofList (l := cs)] at hds
  rw [← List.isPrefixOf?_eq_some_iff_append_eq.mp hcs, ← hds, String.toList_ofList (l := ds)]
  rfl

/-- An entry that is not hidden is in order. -/
theorem of_inOrder {name text : List Char} {hidden : Bool}
    (h : s.inOrder name (some text) hidden = true) (hhidden : ¬hidden = true) :
    isGroup name = false ∧ s.refersBack name text = true := by
  rw [inOrder, Bool.and_eq_true, Bool.or_eq_true, Bool.not_eq_true'] at h
  exact ⟨h.1, h.2.resolve_right hhidden⟩

theorem lookup_types (name : String) :
    (Property.Table.types.map fun entry => (entry.1, Definition.grammar entry.2)).lookup name =
      (Property.typeGrammar? name).map Definition.grammar := by
  unfold Property.typeGrammar?
  generalize Property.Table.types = table
  induction table with
  | nil => rfl
  | cons entry table ih =>
    rw [List.map_cons, List.lookup_cons, List.lookup_cons, ih]
    split <;> rfl

theorem mem_of_lookup {α : Type} {table : List (String × α)} {name : String} {a : α}
    (h : table.lookup name = some a) : (name, a) ∈ table := by
  obtain ⟨before, after, rfl, -⟩ := List.lookup_eq_some_iff.mp h
  exact List.mem_append_right _ List.mem_cons_self

theorem eq_grammar_of_grammar? {d : Definition} {text : String} (h : d.grammar? = some text) :
    d = .grammar text := by
  cases d with
  | grammar text' =>
    cases h
    rfl
  | any => cases h

/-- **Whatever a reference is followed to** is in order. -/
theorem IsSpelled.refersBack (hs : s.IsSpelled) (h : s.isOrdered = true)
    (hfollows : FollowsTo key grammar) :
    isGroup key.toList = false ∧ s.refersBack key.toList grammar.toList = true := by
  rw [isOrdered, Bool.and_eq_true, Bool.and_eq_true, List.all_eq_true, List.all_eq_true,
    List.all_eq_true] at h
  obtain ⟨⟨htypes, hproperties⟩, hdescriptors⟩ := h
  rcases Option.or_eq_some_iff.mp hfollows.reference with htype | ⟨hnone, hrest⟩
  · -- a named type
    have hlookup := (lookup_types key).trans (congrArg (Option.map Definition.grammar) htype)
    exact of_inOrder (htypes _ (hs.types.mem (mem_of_lookup hlookup))) Bool.false_ne_true
  obtain ⟨inner, hinner, hrest⟩ := Option.bind_eq_some_iff.mp hrest
  have hkey : key.toList = bracketed inner.toList := toList_eq_bracketed hinner
  have hhidden : ¬hasGrammar s.types key.toList = true := by
    intro hhas
    obtain ⟨text, htext⟩ := hs.types.exists_of_hasGrammar hhas
    rw [lookup_types, hnone] at htext
    cases htext
  rw [hkey] at hhidden ⊢
  rcases Option.or_eq_some_iff.mp hrest with hproperty | ⟨hnone', hscope⟩
  · obtain ⟨d, hd, hgrammar⟩ := Option.bind_eq_some_iff.mp hproperty
    obtain rfl := eq_grammar_of_grammar? hgrammar
    exact of_inOrder (hproperties _ (hs.properties.mem (mem_of_lookup hd))) hhidden
  · obtain ⟨scope, hscope, hdescriptor⟩ := List.exists_of_findSome?_eq_some hscope
    obtain ⟨d, hd, hgrammar⟩ := Option.bind_eq_some_iff.mp hdescriptor
    obtain rfl := eq_grammar_of_grammar? hgrammar
    have hmem := List.mem_flatMap.mpr ⟨scope, hscope, mem_of_lookup hd⟩
    refine of_inOrder (hdescriptors _ (hs.descriptors.mem hmem)) ?_
    rw [Bool.or_eq_true]
    rintro (hhas | hhas)
    · exact hhidden hhas
    · obtain ⟨text, htext⟩ := hs.properties.exists_of_hasGrammar hhas
      cases htext.symm.trans hnone'

/-- A basic type is not followed. -/
theorem IsSpelled.not_basic (hs : s.IsSpelled) (hfollows : FollowsTo key grammar) :
    ¬s.basics.any (sameName key.toList) = true := by
  intro hany
  obtain ⟨name, hname, hsame⟩ := List.any_eq_true.mp hany
  obtain rfl := sameName_iff.mp hsame
  rw [← hs.basics, List.map_map] at hname
  obtain ⟨type, htype, heq⟩ := List.mem_map.mp hname
  obtain rfl : type.name = key := String.toList_inj.mp heq
  have hfound := hfollows.not_basic
  unfold BasicType.ofName? at hfound
  exact absurd (List.find?_eq_none.mp hfound type htype) (by simp)

/-- **A reference behind a reference** comes before it in the order. -/
theorem IsSpelled.idxOf_lt (hs : s.IsSpelled) (h : s.isOrdered = true)
    (hfollows : FollowsTo key grammar) {next : String} (hrefers : RefersTo grammar next) :
    ∃ key', FollowsTo key' next ∧ s.order.idxOf key'.toList < s.order.idxOf key.toList := by
  have hmem := referenceGrammar_mem hfollows.reference
  unfold referenceGrammars at hmem
  have htable : IsTableText grammar := isTableText_of_mem _ (List.mem_append_left _ hmem)
  obtain ⟨angle, hangle, key', hkey', hfollows'⟩ := hrefers.exists_angle htable.isAngled
  refine ⟨key', hfollows', ?_⟩
  have hback := List.all_eq_true.mp (hs.refersBack h hfollows).2 angle hangle
  dsimp only at hback
  rw [← hkey', (hs.refersBack h hfollows').1, Bool.eq_false_iff.mpr (hs.not_basic hfollows'),
    Bool.false_or, Bool.false_or] at hback
  exact idxOf_of_comesBefore hback

theorem IsSpelled.grounded (hs : s.IsSpelled) (h : s.isOrdered = true) {n : Nat}
    (hfollows : FollowsTo key grammar) (hn : s.order.idxOf key.toList < n) :
    Grounded n grammar := by
  induction n generalizing key grammar with
  | zero => exact absurd hn (Nat.not_lt_zero _)
  | succ n ih =>
    intro next hrefers
    obtain ⟨key', hfollows', hlt⟩ := hs.idxOf_lt h hfollows hrefers
    exact ih hfollows' (Nat.lt_of_lt_of_le hlt (Nat.lt_succ_iff.mp hn))

end Ordered

end Spelling

/-- There are more grammars in the tables than references among them. -/
theorem length_referenceOrder : referenceOrder.length < referenceDepth := by
  decide +kernel

section Depth

variable {depth : Nat} (hdepth : referenceOrder.length < depth)

include hdepth

/-- **References end**, within a number of steps. -/
theorem FollowsTo.grounded {key grammar : String} (h : FollowsTo key grammar) :
    Grounded depth grammar := by
  obtain ⟨s, hs, hordered⟩ := Spelling.exists_isOrdered
  refine hs.grounded hordered h (Nat.lt_of_le_of_lt List.idxOf_le_length ?_)
  rwa [← hs.order, List.length_map]

theorem grounded (text : String) : Grounded (depth + 1) text := by
  rintro grammar ⟨term, -, key, -, hfollows⟩
  exact hfollows.grounded hdepth

end Depth

/-- **References never lead back**: no grammar refers to others without end. -/
theorem refersTo_wellFounded : WellFounded fun grammar text => RefersTo text grammar := by
  obtain ⟨depth, hdepth⟩ : ∃ depth, referenceOrder.length < depth := ⟨_, Nat.lt_succ_self _⟩
  exact ⟨fun text => (grounded hdepth text).acc⟩

end Stylesheet.Grammar
