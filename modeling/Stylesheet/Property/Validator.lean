import Stylesheet.Declaration
import Stylesheet.Grammar.Match

/-!
# Checking declarations

A declaration is fit when its value matches the grammar of its property.
Inside an at-rule with descriptors of its own, those take the place of
the properties, or come before them.

Some declarations are let through without a look at their grammar: those
of a vendor that the tables do not know, those whose value holds a
variable, and those whose value is one of the global words alone.

A `Validator` remembers which values have passed, by at-rule and
property, so that a value is matched once only. A value is known again by
its text without the blanks at its ends.
-/

namespace Stylesheet

/-- **A value that has passed**: where, for what property, and its text
without blanks at the ends. -/
structure KnownValue where
  /-- The at-rule whose descriptors were used. -/
  scope : Option String
  /-- The property, in small letters. -/
  property : String
  /-- The text of the value. -/
  text : String
  deriving DecidableEq, Repr

/-- **The memory of a validation**: the matchers made and the values that
have passed. -/
structure Validator where
  /-- The matchers made so far. -/
  catalog : Grammar.Catalog
  /-- The values that have passed, each once, the latest first. -/
  known : List KnownValue

namespace Validator

/-- A validator that has seen nothing. -/
def fresh : Validator := ⟨.empty, []⟩

/-- The number of values that are remembered. -/
def knownValues (v : Validator) : Nat := v.known.length

/-- Remember a value that has passed. -/
def remember (v : Validator) (value : KnownValue) : Validator :=
  if v.known.contains value then v else { v with known := value :: v.known }

/-- **The definition of a property** in an at-rule, or outside of all. -/
def lookup (table : Option Scope) (property : String) : Option Definition :=
  match table with
  | some scope =>
    (scope.descriptor? property).or
      (if scope.allProperties then Property.definition? property else none)
  | none => Property.definition? property

/-- The complaint that a value is not what was expected. -/
def mismatch (expected found : String) (location : Location) : Diagnostic :=
  .unfitAt ("Expected " ++ expected ++ " but found \"" ++ Text.clip found 30 ++ "\".") location

/-- Whether `attr(` starts a word somewhere in a text in small letters,
given the character before it. -/
def attrStartsWord (previous : Option Char) : List Char → Bool
  | [] => false
  | c :: cs =>
    ("attr(".toList.isPrefixOf (c :: cs) &&
      !previous.any fun p => Text.isAlphanumeric p || p == '_') ||
      attrStartsWord (some c) cs

/-- Whether a text mentions `attr(`, in any letter case. -/
def mentionsAttr (text : String) : Bool := attrStartsWord none (text.toList.map Char.toLower)

/-- The grammar that a text written as a reference refers to. -/
def expansion (grammar : String) : String :=
  ((Property.typeGrammar? grammar).or do
    let name ← (Text.stripStart "<" grammar).bind (Text.stripEnd ">")
    (Property.definition? name).bind (·.grammar?)).getD grammar

/-- **A grammar for messages**, with its references followed. -/
def describe (v : Validator) (grammar : String) : String × Validator :=
  let text := expansion grammar
  if text.toList.contains '<' then
    match v.catalog.compile text with
    | (.ok m, catalog) => (m.display, { v with catalog := catalog })
    | (.error _, catalog) => (text, { v with catalog := catalog })
  else (text, v)

/-- **A value matched against a matcher.** A value that does not fit is
tried again with references to attributes in the place of any part, if
it mentions one; such references are let through at its end as well. -/
def attempt (v : Validator) (m : Grammar.Matcher) (value : Value) (text : String) :
    Bool × Grammar.Cursor :=
  let (result, it) := m.run v.catalog (.start value.parts)
  if (result.isNone || !it.atEnd) && mentionsAttr text then
    let (result, it) :=
      if result.isNone then m.run v.catalog { it with pos := 0, tryAttr := true }
      else (result, it)
    let passed := ((it.parts.drop it.pos).takeWhile (·.isAttr)).length
    (result.isSome, { it with pos := it.pos + passed })
  else (result.isSome, it)

/-- A value against the grammar of its property. -/
def matchGrammar (v : Validator) (key : KnownValue) (grammar : String) (value : Value) :
    Except Diagnostic Unit × Validator :=
  match v.catalog.compile grammar with
  | (.error _, catalog) => (.ok (), { v with catalog := catalog })
  | (.ok m, catalog) =>
    let v := { v with catalog := catalog }
    let (matched, it) := v.attempt m value key.text
    let v := { v with catalog := v.catalog.consult it }
    match it.current?.filter fun _ => matched || it.pos > 0 with
    | some extra => (.error (mismatch "end of value" extra.text extra.location), v)
    | none =>
      if matched then (.ok (), v.remember key)
      else
        match it.bad with
        | some bad =>
          (.error (mismatch bad.matcher.display bad.args.text bad.args.location), v)
        | none =>
          let (expected, v) := v.describe grammar
          (.error (mismatch expected value.text value.location), v)

/-- **A value whose property has a grammar.** -/
def checkValue (v : Validator) (key : KnownValue) (grammar : String) (value : Value) :
    Except Diagnostic Unit × Validator :=
  if value.isVar then (.ok (), v)
  else
    let isGlobal (p : ValuePart) : Bool := p.type == .ident && Keywords.global.has p.token.text
    match value.parts with
    | first :: rest =>
      if isGlobal first then
        match rest with
        | next :: _ => (.error (mismatch "end of value" next.text next.location), v)
        | [] => (.ok (), v)
      else if v.known.contains key then (.ok (), v)
      else v.matchGrammar key grammar value
    | [] => if v.known.contains key then (.ok (), v) else v.matchGrammar key grammar value

/-- **Check a declaration**, in an at-rule or outside of all. -/
def check (v : Validator) (name : PropertyName) (value : Value) (scope : Option String) :
    Except Diagnostic Unit × Validator :=
  let table := scope.bind Property.scope?
  let written := Text.lower name.text
  let (property, definition) :=
    match lookup table written with
    | some definition => (written, some definition)
    | none =>
      if name.vendorPos > 0 then
        let bare := (Text.fromByte? written name.vendorPos).getD ""
        (bare, lookup table bare)
      else (written, none)
  match definition with
  | some (.grammar grammar) =>
    v.checkValue ⟨table.map (·.name), property, Text.trim value.text⟩ grammar value
  | some .any => (.ok (), v)
  | none =>
    if name.vendorPos > 0 then (.ok (), v)
    else
      let misplaced := table.isSome && (Property.definition? property).isSome
      (.error (.unfitAt ((if misplaced then "Misplaced" else "Unknown") ++ " property \"" ++
        name.display ++ "\".") name.location), v)

end Validator

end Stylesheet
