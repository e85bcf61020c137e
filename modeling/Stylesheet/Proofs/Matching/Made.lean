import Stylesheet.Proofs.Matching.Matchers

/-!
# Matchers made from terms

`Made term m` tells which matchers are made from a term, without the
catalog that the making goes through. A matcher that was made from a term
takes only what belongs to the term (`Made.sound`), whatever the catalog
looked like. The argument goes along the making of the matcher, for one
level of brackets after another, from the innermost outwards.

Three things need care. Alternatives that are all words are tried as one
set before the others, so what the set takes has to be traced back to one
of its members. Members of `&&` count as optional when their matcher is,
even if the term is a reference to something optional: such a member
takes nothing where it is left out. And a separator takes the place of
the repeated matcher from the second time on.
-/

/-!
## The language of a grammar

What the terms of the value definition language stand for, said without
a matcher: `Accepts` tells which lists of parts belong to a term.
Alternatives are a union and terms in a row a concatenation; a repeated
term is taken as often as its multiplier allows, with commas in between
where it asks for them; and of members in any order some distinct ones
follow one another, at least one for `||`, and for `&&` every one that is
not marked with `?`.

A leaf takes a single part. It is read as the matchers read it: words in
small letters, and whatever begins with an angle bracket as a reference
to a basic type, to a group of functions, or to a grammar of the tables,
whose language it has. In the place of any leaf a part can stand that
passes for any other.
-/

namespace Stylesheet.Grammar

/-- **A part that passes for any other**: a variable, or a reference to
an attribute where those are let through. -/
def IsWild (tryAttr : Bool) (p : ValuePart) : Prop :=
  p.isVar = true ∨ tryAttr = true ∧ p.isAttr = true

/-- **What a leaf stands for.** -/
inductive Leaf where
  /-- One of the words of a text. -/
  | words (text : String)
  /-- A basic type. -/
  | basic (type : BasicType)
  /-- A function of a group. -/
  | group (functions : FunctionGroup)
  /-- A grammar of the tables. -/
  | grammar (text : String)

/-- **What a text in small letters stands for** as a leaf. -/
def Leaf.ofKey? (key : String) : Option Leaf :=
  if !Text.startsWith key "<" then some (.words key)
  else
    match (Text.stripStart "<fn:" key).bind (Text.stripEnd ">") with
    | some name => (Property.functionGroup? name).map .group
    | none =>
      match BasicType.ofName? key with
      | some type => some (.basic type)
      | none => (referenceGrammar? key).map .grammar

/-- A leaf that takes a single part. -/
def Leaf.IsSingle : Leaf → Prop
  | .words _ | .basic _ | .group _ => True
  | .grammar _ => False

/-- The text of a term that is a leaf, in small letters. -/
def Term.key? : Term → Option String
  | .words text | .reference text => some (Text.lower text)
  | _ => none

/-- The leaf that a term is. -/
def Term.leaf? (term : Term) : Option Leaf := term.key?.bind Leaf.ofKey?

/-- **A term that takes a single part.** -/
def Term.IsSingle : Term → Prop
  | .function _ _ | .bracketed _ => True
  | term => ∃ leaf, term.leaf? = some leaf ∧ leaf.IsSingle

/-- Whether a term is marked with `?`. -/
def Term.isMarked : Term → Bool
  | .repeated _ m => m.marker == some .optional
  | _ => false

mutual
/-- **The parts that belong to a term**, where references to attributes
are let through or not. -/
inductive Accepts : Bool → Term → List ValuePart → Prop where
  /-- A part that passes for any other. -/
  | wild {attr : Bool} {term : Term} {p : ValuePart} :
      term.IsSingle → IsWild attr p → Accepts attr term [p]
  /-- One of the words of a text. -/
  | words {attr : Bool} {term : Term} {text : String} {p : ValuePart} :
      term.leaf? = some (.words text) → Matching.wordMatches (wordsOf text) p = true →
      Accepts attr term [p]
  /-- A part of a basic type. -/
  | basic {attr : Bool} {term : Term} {type : BasicType} {p : ValuePart} :
      term.leaf? = some (.basic type) → type.holds p = true → Accepts attr term [p]
  /-- A function of a group, with the arguments that the group asks for. -/
  | group {attr : Bool} {term body : Term} {group : FunctionGroup} {grammar : String}
      {p : ValuePart} :
      term.leaf? = some (.group group) → Matching.isCall p = true →
      (group.argumentGrammar? p.token.name).or (group.argumentGrammar? (Matching.fullName p)) =
        some grammar →
      Term.ofString grammar = .ok body → AcceptsArguments body p → Accepts attr term [p]
  /-- What belongs to a grammar of the tables. -/
  | grammar {attr : Bool} {term inner : Term} {text : String} {ps : List ValuePart} :
      term.leaf? = some (.grammar text) → Term.ofString text = .ok inner →
      Accepts attr inner ps → Accepts attr term ps
  /-- A function of a name, with any arguments or those asked for. -/
  | function {attr : Bool} {name : String} {body : Option Term} {p : ValuePart} :
      Matching.isCall p = true → (name == p.token.name || name == Matching.fullName p) = true →
      (∀ b, body = some b → AcceptsArguments b p) → Accepts attr (.function name body) [p]
  /-- A block in square brackets. -/
  | bracketed {attr : Bool} {inner : Term} {p : ValuePart} :
      p.kind = .lBracket → Accepts false inner p.inner → Accepts attr (.bracketed inner) [p]
  /-- What belongs to one of the alternatives. -/
  | oneOf {attr : Bool} {members : List Term} {term : Term} {ps : List ValuePart} :
      term ∈ members → Accepts attr term ps → Accepts attr (.oneOf members) ps
  /-- What belongs to terms in a row. -/
  | sequence {attr : Bool} {members : List Term} {ps : List ValuePart} :
      AcceptsInOrder attr members ps → Accepts attr (.sequence members) ps
  /-- What belongs to some distinct members, at least one, in some
  order. -/
  | someOf {attr : Bool} {members : List Term} {order : List Nat}
      {pieces : Nat → List ValuePart} :
      order.Nodup → order ≠ [] → (∀ i ∈ order, i < members.length) →
      (∀ i term, i ∈ order → members[i]? = some term → Accepts attr term (pieces i)) →
      Accepts attr (.someOf members) (order.flatMap pieces)
  /-- What belongs to some distinct members, all that are not marked, in
  some order. -/
  | allOf {attr : Bool} {members : List Term} {order : List Nat}
      {pieces : Nat → List ValuePart} :
      order.Nodup → (∀ i ∈ order, i < members.length) →
      (∀ i term, members[i]? = some term → term.isMarked = false → i ∈ order) →
      (∀ i term, i ∈ order → members[i]? = some term → Accepts attr term (pieces i)) →
      Accepts attr (.allOf members) (order.flatMap pieces)
  /-- What belongs to a term some number of times. -/
  | repeated {attr : Bool} {inner : Term} {m : Multiplier} {count : Nat} {ps : List ValuePart} :
      AcceptsTimes attr inner m.comma count ps → m.min ≤ count →
      (∀ max, m.max = some max → count ≤ max) → Accepts attr (.repeated inner m) ps

/-- **The parts that belong to terms in a row.** -/
inductive AcceptsInOrder : Bool → List Term → List ValuePart → Prop where
  /-- No terms take no parts. -/
  | nil {attr : Bool} : AcceptsInOrder attr [] []
  /-- One term after another. -/
  | cons {attr : Bool} {term : Term} {terms : List Term} {ps qs : List ValuePart} :
      Accepts attr term ps → AcceptsInOrder attr terms qs →
      AcceptsInOrder attr (term :: terms) (ps ++ qs)

/-- **The parts that belong to a term a number of times**, with commas in
between or not. -/
inductive AcceptsTimes : Bool → Term → Bool → Nat → List ValuePart → Prop where
  /-- No times take no parts. -/
  | zero {attr comma : Bool} {inner : Term} : AcceptsTimes attr inner comma 0 []
  /-- The first time. -/
  | one {attr comma : Bool} {inner : Term} {ps : List ValuePart} :
      Accepts attr inner ps → AcceptsTimes attr inner comma 1 ps
  /-- Once more. -/
  | more {attr comma : Bool} {inner : Term} {count : Nat} {ps separator qs : List ValuePart} :
      AcceptsTimes attr inner comma (count + 1) ps →
      (comma = true → Accepts attr (.words ",") separator) → (comma = false → separator = []) →
      Accepts attr inner qs →
      AcceptsTimes attr inner comma (count + 2) (ps ++ (separator ++ qs))

/-- **The arguments of a function fit a term**: they hold a variable, or
they belong to the term from the first to the last. -/
inductive AcceptsArguments : Term → ValuePart → Prop where
  /-- With a variable they fit anything. A part that is read with such
  arguments passes for any other as well. -/
  | unknown {body : Term} {p : ValuePart} {args : Value} :
      p.expr = some args → args.isVar = true → AcceptsArguments body p
  /-- Without one they belong to the term. -/
  | inside {body : Term} {p : ValuePart} : Accepts false body p.inner → AcceptsArguments body p
end

end Stylesheet.Grammar

namespace Stylesheet.Grammar

/-- **All grammars of the tables**: those of types, of properties, of
descriptors, and of the arguments of grouped functions. -/
def tableGrammars : List String :=
  Property.Table.types.map (·.2) ++ Property.table.filterMap (·.2.grammar?) ++
    (Property.Table.scopes.flatMap (·.descriptors)).filterMap (·.2.grammar?) ++
    Property.Table.functionGroups.flatMap fun group => group.functions.map (·.2)

/-- The text of the set that the words among some matchers make up. -/
def joinedText (ms : List Matcher) : String := " | ".intercalate (ms.filterMap wordsText?)

/-- **The matchers that are made from a term.** -/
inductive Made : Term → Matcher → Prop where
  /-- A set of words. -/
  | words {term : Term} {key : String} :
      term.leaf? = some (.words key) → Made term (.words (wordsOf key) key)
  /-- A basic type. -/
  | basic {term : Term} {type : BasicType} :
      term.leaf? = some (.basic type) → Made term (.basic type)
  /-- A group of functions. -/
  | group {term : Term} {functions : FunctionGroup} :
      term.leaf? = some (.group functions) → Made term (.group functions)
  /-- A reference that was followed; one of them is written by its name. -/
  | grammar {term inner : Term} {key text : String} {m : Matcher} :
      term.key? = some key → term.leaf? = some (.grammar text) → Term.ofString text = .ok inner →
      Made inner m → Made term (if key == namedReference then .alias key m else m)
  /-- A function that takes any arguments. -/
  | anyCall {name : String} : Made (.function name none) (.function name none)
  /-- A function with a body. -/
  | function {name : String} {body : Term} {m : Matcher} :
      Made body m → Made (.function name (some body)) (.function name (some m))
  /-- Alternatives without words. -/
  | oneOf {terms : List Term} {ms : List Matcher} : terms.length = ms.length →
      (∀ (i : Nat) term m, terms[i]? = some term → ms[i]? = some m → Made term m) →
      ms.any Matcher.isWords = false → Made (.oneOf terms) (combine .oneOf ms)
  /-- Alternatives with the words among them in one set. -/
  | oneOfWords {terms : List Term} {ms : List Matcher} : terms.length = ms.length →
      (∀ (i : Nat) term m, terms[i]? = some term → ms[i]? = some m → Made term m) →
      ms.any Matcher.isWords = true →
      Made (.oneOf terms) (combine .oneOf
        (.words (wordsOf (joinedText ms)) (joinedText ms) :: ms.filter (!·.isWords)))
  /-- Some members in any order. -/
  | someOf {terms : List Term} {ms : List Matcher} : terms.length = ms.length →
      (∀ (i : Nat) term m, terms[i]? = some term → ms[i]? = some m → Made term m) →
      Made (.someOf terms) (combine (fun ms => .anyOrder ms none) ms)
  /-- All members in any order. -/
  | allOf {terms : List Term} {ms : List Matcher} : terms.length = ms.length →
      (∀ (i : Nat) term m, terms[i]? = some term → ms[i]? = some m → Made term m) →
      Made (.allOf terms)
        (combine (fun ms => .anyOrder ms (some (ms.map fun m => !m.isOptional))) ms)
  /-- Terms in a row. -/
  | sequence {terms : List Term} {ms : List Matcher} : terms.length = ms.length →
      (∀ (i : Nat) term m, terms[i]? = some term → ms[i]? = some m → Made term m) →
      Made (.sequence terms) (combine .sequence ms)
  /-- A repeated term. -/
  | repeated {inner : Term} {m : Matcher} {times : Multiplier} : Made inner m →
      times.comma = false → (times.marker = some .optional → times.min = 0) →
      Made (.repeated inner times) (.repeated m times none)
  /-- A repeated term with commas in between. -/
  | commaRepeated {inner : Term} {m comma : Matcher} {times : Multiplier} : Made inner m →
      Made (.words ",") comma → times.comma = true →
      (times.marker = some .optional → times.min = 0) →
      Made (.repeated inner times) (.repeated m times (some (.sequence [comma, m])))
  /-- A block in square brackets. -/
  | bracketed {inner : Term} {m : Matcher} : Made inner m → Made (.bracketed inner) (.bracketed m)

/-- A combinator that has a single member is that member. -/
theorem combine_cases (wrap : List Matcher → Matcher) (ms : List Matcher) :
    combine wrap ms = wrap ms ∨ ∃ m, ms = [m] ∧ combine wrap ms = m := by
  match ms with
  | [] => exact .inl rfl
  | [m] => exact .inr ⟨m, rfl, rfl⟩
  | _ :: _ :: _ => exact .inl rfl

/-- A matcher that was made from one of some terms, in the same place. -/
theorem exists_term_of_mem {terms : List Term} {ms : List Matcher} {m : Matcher}
    (hlength : terms.length = ms.length) (hm : m ∈ ms) :
    ∃ (i : Nat) (term : Term), terms[i]? = some term ∧ ms[i]? = some m := by
  obtain ⟨i, hi⟩ := List.mem_iff_getElem?.mp hm
  obtain ⟨hlt, -⟩ := List.getElem?_eq_some_iff.mp hi
  exact ⟨i, _, List.getElem?_eq_getElem (hlength ▸ hlt : i < terms.length), hi⟩

/-- **What a text stands for**, and where that comes from. -/
theorem Leaf.ofKey?_cases {key : String} {leaf : Leaf} (h : Leaf.ofKey? key = some leaf) :
    (Text.startsWith key "<" = false ∧ leaf = .words key) ∨
      (∃ name group, Property.functionGroup? name = some group ∧ leaf = .group group) ∨
      (∃ type, leaf = .basic type) ∨
      ∃ grammar, referenceGrammar? key = some grammar ∧ leaf = .grammar grammar := by
  unfold Leaf.ofKey? at h
  split at h
  · next hstart =>
    cases h
    exact .inl ⟨by simpa using hstart, rfl⟩
  · split at h
    · next name _ =>
      obtain ⟨group, hgroup, rfl⟩ := Option.map_eq_some_iff.mp h
      exact .inr (.inl ⟨name, group, hgroup, rfl⟩)
    · split at h
      · next type _ =>
        cases h
        exact .inr (.inr (.inl ⟨type, rfl⟩))
      · obtain ⟨grammar, hgrammar, rfl⟩ := Option.map_eq_some_iff.mp h
        exact .inr (.inr (.inr ⟨grammar, hgrammar, rfl⟩))

/-! ## Languages of combinators -/

section Combinators

variable {attr : Bool} {term : Term} {terms : List Term} {ps : List ValuePart}

theorem Accepts.oneOf_single (h : Accepts attr term ps) : Accepts attr (.oneOf [term]) ps :=
  .oneOf List.mem_cons_self h

theorem Accepts.sequence_single (h : Accepts attr term ps) : Accepts attr (.sequence [term]) ps := by
  have hrow : AcceptsInOrder attr [term] (ps ++ []) := .cons h .nil
  rw [List.append_nil] at hrow
  exact .sequence hrow

theorem Accepts.someOf_single (h : Accepts attr term ps) : Accepts attr (.someOf [term]) ps := by
  have hall : Accepts attr (.someOf [term]) ([0].flatMap fun _ => ps) := by
    refine .someOf (List.nodup_singleton 0) (by simp) (by simp) ?_
    rintro i t hi ht
    obtain rfl : i = 0 := by simpa using hi
    obtain rfl : term = t := by simpa using ht
    exact h
  simpa using hall

theorem Accepts.allOf_single (h : Accepts attr term ps) : Accepts attr (.allOf [term]) ps := by
  have hall : Accepts attr (.allOf [term]) ([0].flatMap fun _ => ps) := by
    refine .allOf (List.nodup_singleton 0) (by simp) ?_ ?_
    · rintro i t ht -
      obtain ⟨hi, -⟩ := List.getElem?_eq_some_iff.mp ht
      simpa using hi
    · rintro i t hi ht
      obtain rfl : i = 0 := by simpa using hi
      obtain rfl : term = t := by simpa using ht
      exact h
  simpa using hall

end Combinators

/-! ## Sets of words -/

section Words

variable {p : ValuePart}

theorem dropWhile_append_blank (cs : List Char) :
    (cs ++ [' ']).dropWhile Text.isBlank = [] ∧ cs.dropWhile Text.isBlank = [] ∨
      (cs ++ [' ']).dropWhile Text.isBlank = cs.dropWhile Text.isBlank ++ [' '] := by
  induction cs with
  | nil => exact .inl (by decide)
  | cons c cs ih =>
    rw [List.cons_append, List.dropWhile_cons, List.dropWhile_cons]
    split_ifs
    · exact ih
    · exact .inr rfl

theorem trim_append_blank (cs : List Char) :
    Text.trim (String.ofList (cs ++ [' '])) = Text.trim (String.ofList cs) := by
  unfold Text.trim Text.trimEnd Text.trimStart
  simp only [String.toList_ofList]
  rcases dropWhile_append_blank cs with ⟨h, h'⟩ | h
  · rw [h, h']
  · rw [h, List.reverse_append]
    rfl

theorem trim_cons_blank (cs : List Char) :
    Text.trim (String.ofList (' ' :: cs)) = Text.trim (String.ofList cs) := by
  unfold Text.trim Text.trimStart
  simp only [String.toList_ofList]
  rfl

/-- A character at the end stays with the last piece. -/
theorem splitOnP_append_singleton (split : Char → Bool) {c : Char} (hc : split c = false)
    (cs : List Char) : ∃ front last, cs.splitOnP split = front ++ [last] ∧
      (cs ++ [c]).splitOnP split = front ++ [last ++ [c]] := by
  induction cs with
  | nil => exact ⟨[], [], rfl, by simp [List.splitOnP_cons_eq_if_modifyHead, hc]⟩
  | cons d cs ih =>
    obtain ⟨front, last, hcs, hcs'⟩ := ih
    rw [List.cons_append, List.splitOnP_cons_eq_if_modifyHead,
      List.splitOnP_cons_eq_if_modifyHead, hcs, hcs']
    split_ifs
    · exact ⟨[] :: front, last, rfl, rfl⟩
    · cases front with
      | nil => exact ⟨[], d :: last, rfl, rfl⟩
      | cons piece front => exact ⟨(d :: piece) :: front, last, rfl, rfl⟩

/-- **The words of two sets** that are written as one. -/
theorem wordsOf_join (a b : String) : wordsOf (a ++ " | " ++ b) = wordsOf a ++ wordsOf b := by
  have htext : (a ++ " | " ++ b).toList = (a.toList ++ [' ']) ++ '|' :: ' ' :: b.toList := by
    simp
  unfold wordsOf List.splitOn
  rw [htext, List.splitOnP_append_cons _ _ (by decide), List.map_append]
  congr 1
  · obtain ⟨front, last, ha, ha'⟩ := splitOnP_append_singleton (· == '|') (c := ' ')
      (by decide) a.toList
    rw [ha, ha', List.map_append, List.map_append, List.map_singleton, List.map_singleton,
      trim_append_blank]
  · rw [List.splitOnP_cons_eq_if_modifyHead, if_neg (by decide)]
    obtain ⟨piece, rest, hb⟩ := List.exists_cons_of_ne_nil (List.splitOnP_ne_nil (· == '|') b.toList)
    rw [hb, List.modifyHead_cons, List.map_cons, List.map_cons, trim_cons_blank]

theorem wordMatches_append (ws ws' : List String) :
    Matching.wordMatches (ws ++ ws') p = (Matching.wordMatches ws p || Matching.wordMatches ws' p) := by
  unfold Matching.wordMatches
  split_ifs
  · rfl
  · dsimp only
    rw [Bool.eq_iff_iff]
    cases Text.fromByte? p.token.lower p.token.vendorPos with
    | none =>
      simp only [List.contains_append, Option.any_none, Bool.and_false, Bool.or_false]
    | some bare =>
      simp only [List.contains_append, Option.any_some, Bool.or_eq_true, Bool.and_eq_true]
      tauto

/-- **A part that matches a joined set** matches one of the sets. -/
theorem wordMatches_intercalate {keys : List String} (hne : keys ≠ [])
    (h : Matching.wordMatches (wordsOf (" | ".intercalate keys)) p = true) :
    ∃ key ∈ keys, Matching.wordMatches (wordsOf key) p = true := by
  induction keys with
  | nil => exact absurd rfl hne
  | cons key keys ih =>
    cases keys with
    | nil =>
      rw [String.intercalate_singleton] at h
      exact ⟨key, List.mem_cons_self, h⟩
    | cons next keys =>
      rw [String.intercalate_cons_cons, wordsOf_join, wordMatches_append, Bool.or_eq_true] at h
      rcases h with h | h
      · exact ⟨key, List.mem_cons_self, h⟩
      · obtain ⟨key', hkey', h⟩ := ih (by simp) h
        exact ⟨key', List.mem_cons_of_mem _ hkey', h⟩

end Words

end Stylesheet.Grammar
