import Stylesheet.Grammar.Matcher
import Stylesheet.Grammar.Parser
import Stylesheet.Property.Lookup

/-!
# Making matchers

Grammars are read and made into matchers once; a `Catalog` remembers
the matcher of every text it has met. Whole grammars and single terms
share the catalog, so a text met as one is answered from it as the
other.

A reference to a type is followed to the type's grammar: the basic types
stand for themselves, then come the named types, the properties and the
descriptors of at-rules.
-/

namespace Stylesheet.Grammar

/-- **The matchers made so far**, by the texts they were made from, the
latest first. -/
structure Catalog where
  /-- Texts and their matchers. -/
  entries : List (String × Matcher)

namespace Catalog

/-- The catalog before anything is made. -/
def empty : Catalog := ⟨[]⟩

/-- The matcher made from a text. -/
def find? (catalog : Catalog) (text : String) : Option Matcher := catalog.entries.lookup text

/-- Remember the matcher of a text. -/
def insert (catalog : Catalog) (text : String) (m : Matcher) : Catalog :=
  ⟨(text, m) :: catalog.entries⟩

end Catalog

/-- **Making a matcher**: what was remembered on the way stays
remembered even when it fails. -/
abbrev Compiling := ExceptT Diagnostic (StateM Catalog)

namespace Compiling

/-- The remembered matcher of a text, or one that is made now and then
remembered. -/
def memo (text : String) (make : Compiling Matcher) : Compiling Matcher := do
  match (← get).find? text with
  | some m => return m
  | none =>
    let m ← make
    modify (·.insert text m)
    return m

end Compiling

/-- **The words of a set**: what stands between bars, without blanks and
without the quotes around it. -/
def wordsOf (text : String) : List String :=
  (text.toList.splitOn '|').map fun cs =>
    let word := Text.trim (String.ofList cs)
    ((Text.stripStart "\"" word).bind (Text.stripEnd "\"")).getD word

/-- **The grammar behind a reference**: a named type, a property, or a
descriptor of some at-rule. -/
def referenceGrammar? (name : String) : Option String :=
  (Property.typeGrammar? name).or do
    let inner ← (Text.stripStart "<" name).bind (Text.stripEnd ">")
    ((Property.definition? inner).bind (·.grammar?)).or
      (Property.Table.scopes.findSome? fun scope => (scope.descriptor? inner).bind (·.grammar?))

/-- The reference that is written by its name and not by its grammar. -/
def namedReference : String := "<url>"

/-- The matcher of a single term that is not remembered, where
`followed` makes the matchers of the grammars behind references. -/
def makeTerm (followed : String → Compiling Matcher) (text key : String) : Compiling Matcher :=
  if !Text.startsWith key "<" then return .words (wordsOf key) key
  else
    match (Text.stripStart "<fn:" text).bind (Text.stripEnd ">") with
    | some name =>
      match Property.functionGroup? name with
      | some group => return .group group
      | none =>
        throw (.bare ("Internal grammar error. Unknown function group \"" ++ name ++ "\"."))
    | none =>
      match BasicType.ofName? key with
      | some type => return .basic type
      | none =>
        match referenceGrammar? key with
        | none => throw (.bare ("Internal grammar error. Unknown type \"" ++ key ++ "\"."))
        | some grammar => do
          let inner ← followed grammar
          return if key == namedReference then .alias key inner else inner

/-- **The matcher of a single term**: words, or a reference. -/
def termWith (followed : String → Compiling Matcher) (text : String) : Compiling Matcher :=
  let key := Text.lower text
  Compiling.memo key (makeTerm followed text key)

/-- Several matchers under a combinator; a single one needs none. -/
def combine (wrap : List Matcher → Matcher) : List Matcher → Matcher
  | [m] => m
  | members => wrap members

/-- The text of a set of words. -/
def wordsText? : Matcher → Option String
  | .words _ text => some text
  | _ => none

/-- **Alternatives**, with all words among them in one set that comes
first. -/
def makeOneOf (followed : String → Compiling Matcher) (members : List Matcher) :
    Compiling Matcher := do
  let (sets, others) := members.partition Matcher.isWords
  if sets.isEmpty then return combine .oneOf others
  else
    let words ← termWith followed (" | ".intercalate (sets.filterMap wordsText?))
    return combine .oneOf (words :: others)

/-- **A repeated matcher.** Where commas stand between the repetitions,
each one after the first is a comma and the matcher. -/
def makeRepeated (followed : String → Compiling Matcher) (inner : Matcher) (m : Multiplier) :
    Compiling Matcher := do
  if m.comma then
    let comma ← termWith followed ","
    return .repeated inner m (some (.sequence [comma, inner]))
  else return .repeated inner m none

mutual
/-- **The matcher of a term.** -/
def build (followed : String → Compiling Matcher) : Term → Compiling Matcher
  | .words text => termWith followed text
  | .reference name => termWith followed name
  | .function name body => return .function name (← buildBody followed body)
  | .oneOf members => do makeOneOf followed (← buildAll followed members)
  | .someOf members =>
    return combine (fun ms => .anyOrder ms none) (← buildAll followed members)
  | .allOf members =>
    return combine (fun ms => .anyOrder ms (some (ms.map fun m => !m.isOptional)))
      (← buildAll followed members)
  | .sequence members => return combine .sequence (← buildAll followed members)
  | .repeated term m => do makeRepeated followed (← build followed term) m
  | .bracketed term => return .bracketed (← build followed term)

/-- The matcher of the body of a function. -/
def buildBody (followed : String → Compiling Matcher) : Option Term → Compiling (Option Matcher)
  | none => return none
  | some body => return some (← build followed body)

/-- The matchers of several terms. -/
def buildAll (followed : String → Compiling Matcher) : List Term → Compiling (List Matcher)
  | [] => return []
  | term :: terms => return (← build followed term) :: (← buildAll followed terms)
end

/-- The matcher of a grammar whose references are followed to a depth. -/
def compileTo : Nat → String → Compiling Matcher
  | 0, text => throw (.bare ("Internal grammar error. Endless grammar \"" ++ text ++ "\"."))
  | depth + 1, text =>
    Compiling.memo text do
      match Term.ofString text with
      | .ok term => build (compileTo depth) term
      | .error e => throw e

/-- How many references can follow one another: no more than there are
grammars in the tables, as none refers back to itself. -/
def referenceDepth : Nat :=
  Property.Table.types.length + Property.table.length +
    (Property.Table.scopes.flatMap (·.descriptors)).length + 1

/-- **The matcher of a grammar.** -/
def compile (text : String) : Compiling Matcher := compileTo (referenceDepth + 1) text

/-- **The matcher of a single term.** -/
def term (text : String) : Compiling Matcher := termWith (compileTo (referenceDepth + 1)) text

namespace Catalog

/-- The matcher of a grammar, and the catalog afterwards. -/
def compile (catalog : Catalog) (text : String) : Except Diagnostic Matcher × Catalog :=
  (Grammar.compile text).run.run catalog

/-- The matcher of a single term, and the catalog afterwards. -/
def term (catalog : Catalog) (text : String) : Except Diagnostic Matcher × Catalog :=
  (Grammar.term text).run.run catalog

end Catalog

end Stylesheet.Grammar
