import Stylesheet.Event

/-!
# The core language as it is written

Most of what is written in style sheets needs only a small part of the
language: rules whose selectors are a name, a class or an id, with
declarations whose values are words and whole numbers. This module has that
part as it is written, blanks included, so that a text of it is a list of
`Core.Rule` and every such list has one text.

What the text says is the same list without the blanks, and `Core.Rule.gists`
puts it as the events that should be reported for it, as far as they can be
told from the text alone.
-/

namespace Stylesheet

/-! ## What events say -/

/-- **What an event says** of the core language; events of any other kind
say nothing of it. -/
inductive Gist where
  /-- A stylesheet starts. -/
  | startSheet
  /-- A rule with some selectors starts. -/
  | startRule (selectors : List String)
  /-- A property has a value, perhaps an important one. -/
  | property (name value : String) (important : Bool)
  /-- A rule with some selectors ends, and whether it had no content. -/
  | endRule (selectors : List String) (empty : Bool)
  /-- A stylesheet ends. -/
  | endSheet
  /-- Anything else. -/
  | other
  deriving DecidableEq, Repr

/-- What an event says. -/
def Event.gist (e : Event) : Gist :=
  match e.kind with
  | .startStylesheet => .startSheet
  | .start (.rule selectors) => .startRule (selectors.map (·.text))
  | .property d => .property d.property.display d.value.text d.important
  | .stop (.rule selectors) empty => .endRule (selectors.map (·.text)) empty
  | .endStylesheet => .endSheet
  | _ => .other

/-- The place of the declaration that an event reports, if it reports one. -/
def Event.declaredAt? (e : Event) : Option Location :=
  match e.kind with
  | .property _ => some e.location
  | _ => none

namespace Core

/-- **What some events say**, the latest first, and where the declarations
among them stand. -/
structure Says (events : List Event) (gists : List Gist) (places : List Location) : Prop where
  /-- What they say, in order. -/
  gists_eq : events.reverse.map (·.gist) = gists
  /-- Where the declarations stand, in order. -/
  places_eq : events.reverse.filterMap (·.declaredAt?) = places

theorem Says.nil : Says [] [] [] := ⟨rfl, rfl⟩

theorem Says.append {events events' : List Event} {gists gists' : List Gist}
    {places places' : List Location} (h : Says events gists places)
    (h' : Says events' gists' places') :
    Says (events' ++ events) (gists ++ gists') (places ++ places') where
  gists_eq := by rw [List.reverse_append, List.map_append, h.gists_eq, h'.gists_eq]
  places_eq := by rw [List.reverse_append, List.filterMap_append, h.places_eq, h'.places_eq]

/-! ## Words, numbers and blanks -/

/-- The letters; every character beyond ASCII that can stand in a name is
taken for one. -/
def isLetter (c : Char) : Bool := c.isAlpha || 0xA0 ≤ c.toNat

/-- The characters words are made of after their first letter. -/
def isWordChar (c : Char) : Bool := isLetter c || c.isDigit || c == '-'

/-- **Spaces and newlines**, or nothing. -/
structure Gap where
  /-- The characters. -/
  chars : List Char
  /-- Each of them is a blank. -/
  blank : ∀ c ∈ chars, c = ' ' ∨ c = '\n'

/-- **A word**: a letter, and letters, digits and hyphens after it. -/
structure Word where
  /-- The first letter. -/
  first : Char
  /-- The characters after it. -/
  rest : List Char
  /-- The first one is a letter. -/
  first_isLetter : isLetter first = true
  /-- The others are letters, digits and hyphens. -/
  rest_isWordChar : ∀ c ∈ rest, isWordChar c = true

/-- **A whole number** without a sign. -/
structure Numeral where
  /-- The first digit. -/
  first : Char
  /-- The digits after it. -/
  rest : List Char
  /-- All of them are digits. -/
  isDigit : ∀ c ∈ first :: rest, c.isDigit = true

/-- The characters of a word. -/
def Word.chars (w : Word) : List Char := w.first :: w.rest

/-- The characters of a number. -/
def Numeral.chars (n : Numeral) : List Char := n.first :: n.rest

/-! ## Selectors -/

/-- **A selector** that is a single name. -/
inductive Simple where
  /-- The name of an element. -/
  | element (name : Word)
  /-- The name of a class, after a dot. -/
  | className (name : Word)
  /-- An id, after a hash. -/
  | id (name : Word)

/-- The text of a selector. -/
def Simple.chars : Simple → List Char
  | .element name => name.chars
  | .className name => '.' :: name.chars
  | .id name => '#' :: name.chars

/-- **The selectors of a rule** with commas between them, up to and
including the opening brace. -/
inductive Heads where
  /-- The last selector, with the blanks around it. -/
  | last (before : Gap) (selector : Simple) (after : Gap)
  /-- A selector with the blanks around it, and those after its comma. -/
  | more (before : Gap) (selector : Simple) (after : Gap) (rest : Heads)

/-- The text of selectors. -/
def Heads.chars : Heads → List Char
  | .last before selector after =>
    before.chars ++ (selector.chars ++ (after.chars ++ ['\x7b']))
  | .more before selector after rest =>
    before.chars ++ (selector.chars ++ (after.chars ++ (',' :: rest.chars)))

/-- The texts of the selectors by themselves. -/
def Heads.selectors : Heads → List String
  | .last _ selector _ => [String.ofList selector.chars]
  | .more _ selector _ rest => String.ofList selector.chars :: rest.selectors

/-! ## Declarations -/

/-- **A part of a value.** -/
inductive Part where
  /-- A word. -/
  | word (name : Word)
  /-- A number. -/
  | numeral (number : Numeral)

/-- The text of a part. -/
def Part.chars : Part → List Char
  | .word name => name.chars
  | .numeral number => number.chars

/-- **A value**: parts with a space between every two. -/
inductive Parts where
  /-- The last part. -/
  | last (part : Part)
  /-- A part, and those after it. -/
  | more (part : Part) (rest : Parts)

/-- The text of a value. -/
def Parts.chars : Parts → List Char
  | .last part => part.chars
  | .more part rest => part.chars ++ (' ' :: rest.chars)

/-- **A declaration** with the blanks around its name and its value. -/
structure Declared where
  /-- The blanks before the name. -/
  before : Gap
  /-- The name. -/
  name : Word
  /-- The blanks before the colon. -/
  beforeColon : Gap
  /-- The blanks after the colon. -/
  afterColon : Gap
  /-- The value. -/
  value : Parts
  /-- The blanks after the value. -/
  after : Gap

/-- The text of a declaration after its name. -/
def Declared.tail (d : Declared) : List Char :=
  d.beforeColon.chars ++ (':' :: (d.afterColon.chars ++ (d.value.chars ++ d.after.chars)))

/-- The text of a declaration. -/
def Declared.chars (d : Declared) : List Char := d.before.chars ++ (d.name.chars ++ d.tail)

/-- What a declaration says. -/
def Declared.gist (d : Declared) : Gist :=
  .property (String.ofList d.name.chars) (String.ofList d.value.chars) false

/-- **The body of a rule** after its opening brace, up to and including the
closing one. A semicolon after the last declaration may stand or not. -/
inductive Body where
  /-- Blanks, and the end. -/
  | done (blank : Gap)
  /-- A declaration, and the end. -/
  | last (declared : Declared)
  /-- A declaration with its semicolon, and what follows. -/
  | more (declared : Declared) (rest : Body)

/-- The text of a body. -/
def Body.chars : Body → List Char
  | .done blank => blank.chars ++ ['\x7d']
  | .last declared => declared.chars ++ ['\x7d']
  | .more declared rest => declared.chars ++ (';' :: rest.chars)

/-- **Where the declarations of a body stand** that stands after a text. -/
def Body.places (a : List Char) : Body → List Location
  | .done _ => []
  | .last declared => [Location.start.advance (a ++ declared.before.chars)]
  | .more declared rest =>
    Location.start.advance (a ++ declared.before.chars) :: rest.places (a ++ declared.chars ++ [';'])

/-- The declarations of a body. -/
def Body.declarations : Body → List Declared
  | .done _ => []
  | .last declared => [declared]
  | .more declared rest => declared :: rest.declarations

/-! ## Rules -/

/-- **A rule.** -/
structure Rule where
  /-- Its selectors. -/
  heads : Heads
  /-- Its body. -/
  body : Body

/-- The text of a rule. -/
def Rule.chars (r : Rule) : List Char := r.heads.chars ++ r.body.chars

/-- **What a rule says**: that it starts, what each of its declarations
says, and that it ends, empty if it has none. -/
def Rule.gists (r : Rule) : List Gist :=
  .startRule r.heads.selectors :: (r.body.declarations.map (·.gist) ++
    [.endRule r.heads.selectors r.body.declarations.isEmpty])

/-- **The text of rules** one after the other, and blanks at the end. -/
def sheetChars (rules : List Rule) (tail : Gap) : List Char :=
  rules.flatMap (·.chars) ++ tail.chars

/-- Where the declarations of rules stand that stand after a text. -/
def rulePlaces (a : List Char) : List Rule → List Location
  | [] => []
  | r :: rules => r.body.places (a ++ r.heads.chars) ++ rulePlaces (a ++ r.chars) rules

/-- **What rules say**, from the start of the stylesheet to its end. -/
def sheetGists (rules : List Rule) : List Gist :=
  .startSheet :: (rules.flatMap (·.gists) ++ [.endSheet])

end Core

/-!
## Where documents start and end

Of the events of a parse `documentMarks` keeps the starts and the ends of the
documents that stand in no block. Most events matter to it only in that
blocks start and end, and a run of them that leaves as many blocks open as
there were is **silent**: it can be left out.
-/

/-- **A place at which a document starts or ends.** -/
structure DocumentMark where
  /-- Whether it starts. -/
  starts : Bool
  /-- The functions that select it. -/
  functions : List String
  /-- The place. -/
  place : Location
  deriving DecidableEq, Repr

/-- **The documents that stand in no block**, where some number of blocks is
open before the first event. -/
def documentMarks (depth : Nat) : List Event → List DocumentMark
  | [] => []
  | e :: events =>
    match e.kind with
    | .start (.document functions) =>
      (if depth = 0 then [⟨true, functions, e.location⟩] else []) ++
        documentMarks (depth + 1) events
    | .start _ => documentMarks (depth + 1) events
    | .stop (.document functions) _ =>
      (if depth = 1 then [⟨false, functions, e.location⟩] else []) ++
        documentMarks (depth - 1) events
    | .stop _ _ => documentMarks (depth - 1) events
    | _ => documentMarks depth events

/-- **Events that can be left out** wherever they stand. -/
def Silent (events : List Event) : Prop :=
  ∀ depth rest, documentMarks depth (events ++ rest) = documentMarks depth rest

namespace Silent

variable {events events' : List Event}

theorem nil : Silent [] := fun _ _ => rfl

theorem append (h : Silent events) (h' : Silent events') : Silent (events ++ events') :=
  fun depth rest => by rw [List.append_assoc, h, h']

/-- Warnings are silent. -/
theorem of_warnings (h : ∀ e ∈ events, ∃ message, e.kind = .warning message) : Silent events := by
  intro depth rest
  induction events with
  | nil => rfl
  | cons e events ih =>
    obtain ⟨message, he⟩ := h e List.mem_cons_self
    rw [List.cons_append, documentMarks, he]
    exact ih fun f hf => h f (List.mem_cons_of_mem _ hf)

end Silent

/-! ## Rules -/

/-- The number of open blocks after what an event says. -/
def Gist.depthAfter (depth : Nat) : Gist → Nat
  | .startRule _ => depth + 1
  | .endRule _ _ => depth - 1
  | _ => depth

theorem documentMarks_cons {e : Event} (h : e.gist ≠ .other) (depth : Nat) (events : List Event) :
    documentMarks depth (e :: events) = documentMarks (e.gist.depthAfter depth) events := by
  obtain ⟨kind, place⟩ := e
  unfold Event.gist at h ⊢
  cases kind with
  | start kind => cases kind <;> first | rfl | exact absurd rfl h
  | stop kind => cases kind <;> first | rfl | exact absurd rfl h
  | _ => rfl

theorem documentMarks_append {events : List Event} (h : ∀ e ∈ events, e.gist ≠ .other) (depth : Nat)
    (rest : List Event) : documentMarks depth (events ++ rest) =
      documentMarks ((events.map (·.gist)).foldl Gist.depthAfter depth) rest := by
  induction events generalizing depth with
  | nil => rfl
  | cons e events ih =>
    rw [List.cons_append, documentMarks_cons (h e List.mem_cons_self),
      ih fun f hf => h f (List.mem_cons_of_mem _ hf)]
    rfl

namespace Core

theorem Rule.gists_ne_other (x : Rule) : ∀ g ∈ x.gists, g ≠ .other := by
  intro g hg
  simp only [Rule.gists, List.mem_cons, List.mem_append, List.mem_map, List.not_mem_nil,
    or_false] at hg
  obtain rfl | ⟨d, -, rfl⟩ | rfl := hg <;> nofun

/-- **A rule leaves as many blocks open as before.** -/
theorem Rule.depth_gists (x : Rule) (depth : Nat) :
    x.gists.foldl Gist.depthAfter depth = depth := by
  have hbody : ∀ ds : List Declared,
      (ds.map (·.gist)).foldl Gist.depthAfter (depth + 1) = depth + 1 := by
    intro ds
    induction ds with
    | nil => rfl
    | cons d ds ih => exact ih
  simp [Rule.gists, Gist.depthAfter, hbody]

/-- **A rule is silent.** -/
theorem Rule.silent (x : Rule) {events : List Event} (h : events.map (·.gist) = x.gists) :
    Silent events := by
  intro depth rest
  have hother : ∀ e ∈ events, e.gist ≠ .other := fun e he =>
    x.gists_ne_other _ (h ▸ List.mem_map_of_mem he)
  rw [documentMarks_append hother, h, x.depth_gists]

end Core

end Stylesheet
