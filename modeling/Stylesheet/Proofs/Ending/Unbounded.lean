import Stylesheet.Grammar.Match

/-!
# Reading, making and matching without bounds

The definitions that run carry bounds: on how deep the brackets of a grammar
are nested, on how many references follow one another, on how often a
repetition goes round, and on how many members a search puts to use. Here are
the same algorithms with these bounds left out, and nothing says beforehand
that they end.

All that limits them is how deep calls may go, whatever they are calls of.
A call that is made too deep has no answer, and then neither has the one it is
made from. An algorithm ends if there is a depth from which on it has an answer
(`Ends`).
-/

namespace Stylesheet.Grammar.Unbounded

open Stylesheet.Grammar.Parser

/-! ## Computations that end -/

section Ends

variable {α β : Type} {a : α} {b : β} {f : Nat → Option α}

/-- **A computation that ends**: from some depth on it has this answer. -/
def Ends (f : Nat → Option α) (a : α) : Prop := ∃ n, ∀ depth, n ≤ depth → f depth = some a

namespace Ends

/-- The answer is known without a call. -/
theorem known (a : α) : Ends (fun _ => some a) a := ⟨0, fun _ _ => rfl⟩

/-- One more call. -/
theorem call (h : Ends (fun depth => f (depth + 1)) a) : Ends f a := by
  obtain ⟨n, hn⟩ := h
  refine ⟨n + 1, fun depth hdepth => ?_⟩
  obtain ⟨k, rfl⟩ := Nat.exists_eq_add_of_le' hdepth
  exact hn (k + n) (Nat.le_add_left n k)

theorem bind {g : Nat → α → Option β} (h : Ends f a) (hg : Ends (fun depth => g depth a) b) :
    Ends (fun depth => f depth >>= g depth) b := by
  obtain ⟨n, hn⟩ := h
  obtain ⟨n', hn'⟩ := hg
  refine ⟨max n n', fun depth hdepth => ?_⟩
  show f depth >>= g depth = some b
  rw [hn depth (Nat.le_trans (Nat.le_max_left n n') hdepth)]
  exact hn' depth (Nat.le_trans (Nat.le_max_right n n') hdepth)

end Ends

end Ends

/-! ## Reading grammars -/

/-- **What a reading comes to**: a term and the rest of the text, if any. -/
abbrev Found := Option (Term × List Char)

/-- **The combinations**, from the one that binds least to the one that
binds most. -/
inductive Level where
  /-- Written `a | b`. -/
  | oneOf
  /-- Written `a || b`. -/
  | someOf
  /-- Written `a && b`. -/
  | allOf
  /-- Written `a b`. -/
  | sequence

namespace Level

/-- What stands between the members of a combination. -/
def separator : Level → List Char → Option (List Char)
  | .oneOf => singleBar
  | .someOf => expectSpaced "||"
  | .allOf => expectSpaced "&&"
  | .sequence => gapBetween

/-- The term of a combination. -/
def wrap : Level → List Term → Term
  | .oneOf => Term.combine .oneOf
  | .someOf => Term.combine .someOf
  | .allOf => Term.combine .allOf
  | .sequence => ofSequence

end Level

/-- The words of a run, each with what follows it. -/
def wordsFrom : Nat → List Char → Option (List (List Char × List Char))
  | 0, _ => none
  | depth + 1, cs => do
    match word cs with
    | none => return []
    | some (w, rest) =>
      match anyBar rest with
      | none => return [(w, rest)]
      | some next =>
        let more ← wordsFrom depth next
        return (w, rest) :: more

/-- A run of words as one term. -/
def wordRun (depth : Nat) (cs : List Char) : Option Found := do
  let words ← wordsFrom depth cs
  return (longestRun words.reverse).map fun (ws, rest) =>
    (.words (" | ".intercalate (ws.map fun w => Text.lower (String.ofList w))), rest)

mutual
/-- **The members of a combination**, at least one. -/
def combination : Nat → Level → List Char → Option Found
  | 0, _, _ => none
  | depth + 1, level, cs => do
    match ← member depth level cs with
    | none => return none
    | some (term, rest) =>
      let (terms, rest) ← further depth level rest
      return some (level.wrap (term :: terms), rest)

/-- More members, each after a separator. -/
def further : Nat → Level → List Char → Option (List Term × List Char)
  | 0, _, _ => none
  | depth + 1, level, cs => do
    match level.separator cs with
    | none => return ([], cs)
    | some afterSeparator =>
      match ← member depth level afterSeparator with
      | none => return ([], cs)
      | some (term, rest) =>
        let (terms, rest) ← further depth level rest
        return (term :: terms, rest)

/-- A member of a combination, which is one of the next level. -/
def member : Nat → Level → List Char → Option Found
  | 0, _, _ => none
  | depth + 1, .oneOf, cs => do
    match ← wordRun depth cs with
    | some found => return some found
    | none => combination depth .someOf cs
  | depth + 1, .someOf, cs => combination depth .allOf cs
  | depth + 1, .allOf, cs => combination depth .sequence cs
  | depth + 1, .sequence, cs => item depth cs

/-- An item and its multiplier. -/
def item : Nat → List Char → Option Found
  | 0, _ => none
  | depth + 1, cs => do
    match ← component depth cs with
    | none => return none
    | some (term, rest) =>
      match multiplier rest with
      | some (m, rest) => return some (.repeated term m, rest)
      | none => return some (term, rest)

/-- What a multiplier can follow. -/
def component : Nat → List Char → Option Found
  | 0, _ => none
  | depth + 1, cs => do
    match ← group depth cs with
    | some found => return some found
    | none =>
      match ← function depth cs with
      | some found => return some found
      | none => return (reference cs).or (literal cs)

/-- A group in square brackets. -/
def group : Nat → List Char → Option Found
  | 0, _ => none
  | depth + 1, cs => do
    match expect '[' cs with
    | none => return none
    | some rest =>
      match ← combination depth .oneOf (skipGap rest) with
      | none => return none
      | some (term, rest) =>
        return (expect ']' (skipGap rest)).map fun rest => (term, rest)

/-- A function, with or without a body. -/
def function : Nat → List Char → Option Found
  | 0, _ => none
  | depth + 1, cs => do
    match word cs with
    | none => return none
    | some (name, rest) =>
      match expect '(' rest with
      | none => return none
      | some rest =>
        let rest := skipGap rest
        let name := Text.lower (String.ofList name)
        match expect ')' rest with
        | some rest => return some (.function name none, rest)
        | none =>
          match ← combination depth .oneOf rest with
          | none => return none
          | some (body, rest) =>
            return (expect ')' (skipGap rest)).map fun rest =>
              (.function name (some body), rest)
end

/-- **The term a grammar is written for.** -/
def read (depth : Nat) (text : String) : Option (Except Diagnostic Term) := do
  match ← combination depth .oneOf text.toList with
  | some (term, rest) =>
    match skipGap rest with
    | [] => return .ok term
    | rest => return .error (complaint text rest)
  | none => return .error (complaint text text.toList)

/-! ## Making matchers -/

/-- **A making that may be called too deep**, or fail. -/
abbrev Making := ExceptT Diagnostic (StateT Catalog Option)

/-- A making that is called too deep. -/
def Making.tooDeep {α : Type} : Making α := fun _ => none

mutual
/-- **The matcher of a grammar**: the remembered one, or one that is made now
and then remembered. -/
def compile : Nat → String → Making Matcher
  | 0, _ => .tooDeep
  | depth + 1, text => do
    match (← get).find? text with
    | some m => return m
    | none =>
      let m ← make depth text
      modify (·.insert text m)
      return m

/-- The matcher of a grammar that is not remembered. -/
def make : Nat → String → Making Matcher
  | 0, _ => .tooDeep
  | depth + 1, text => do
    match ← (read depth text : Making (Except Diagnostic Term)) with
    | .error e => throw e
    | .ok t => build depth t

/-- **The matcher of a single term**: words, or a reference. -/
def term : Nat → String → Making Matcher
  | 0, _ => .tooDeep
  | depth + 1, text => do
    let key := Text.lower text
    match (← get).find? key with
    | some m => return m
    | none =>
      let m ← makeTerm depth text key
      modify (·.insert key m)
      return m

/-- The matcher of a single term that is not remembered. -/
def makeTerm : Nat → String → String → Making Matcher
  | 0, _, _ => .tooDeep
  | depth + 1, text, key => do
    if !Text.startsWith key "<" then return .words (wordsOf key) key
    else
      match (Text.stripStart "<fn:" text).bind (Text.stripEnd ">") with
      | some name =>
        match Property.functionGroup? name with
        | some group => return .group group
        | none =>
          throw (.bare ("Internal grammar error. Unknown function group \"" ++ name ++ "\"."))
      | none =>
        match BasicType.ofName? key with
        | some type => return .basic type
        | none =>
          match referenceGrammar? key with
          | none => throw (.bare ("Internal grammar error. Unknown type \"" ++ key ++ "\"."))
          | some grammar =>
            let inner ← compile depth grammar
            return if key == namedReference then .alias key inner else inner

/-- **The matcher of a term.** -/
def build : Nat → Term → Making Matcher
  | 0, _ => .tooDeep
  | depth + 1, .words text => term depth text
  | depth + 1, .reference name => term depth name
  | _ + 1, .function name none => return .function name none
  | depth + 1, .function name (some body) => do
    let m ← build depth body
    return .function name (some m)
  | depth + 1, .oneOf members => do
    let ms ← buildAll depth members
    let (sets, others) := ms.partition Matcher.isWords
    if sets.isEmpty then return combine .oneOf others
    else
      let words ← term depth (" | ".intercalate (sets.filterMap wordsText?))
      return combine .oneOf (words :: others)
  | depth + 1, .someOf members => do
    let ms ← buildAll depth members
    return combine (fun ms => .anyOrder ms none) ms
  | depth + 1, .allOf members => do
    let ms ← buildAll depth members
    return combine (fun ms => .anyOrder ms (some (ms.map fun m => !m.isOptional))) ms
  | depth + 1, .sequence members => do
    let ms ← buildAll depth members
    return combine .sequence ms
  | depth + 1, .repeated t m => do
    let inner ← build depth t
    if m.comma then
      let comma ← term depth ","
      return .repeated inner m (some (.sequence [comma, inner]))
    else return .repeated inner m none
  | depth + 1, .bracketed t => do
    let m ← build depth t
    return .bracketed m

/-- The matchers of several terms. -/
def buildAll : Nat → List Term → Making (List Matcher)
  | 0, _ => .tooDeep
  | _ + 1, [] => return []
  | depth + 1, t :: ts => do
    let m ← build depth t
    let ms ← buildAll depth ts
    return m :: ms
end

/-! ## Matching -/

mutual
/-- **Match from a place in the parts on**; the grammars of grouped functions
are made with a catalog. -/
def follow (catalog : Catalog) : Nat → Matcher → Cursor → Option (Option Nat × Cursor)
  | 0, _, _ => none
  | depth + 1, .alias _ inner, it => follow catalog depth inner it
  | depth + 1, .oneOf members, it => do
    if it.current?.isNone then return (none, it)
    else
      let (result, after) ← firstOf catalog depth members it
      return (result, if result.isNone then { after with pos := it.pos } else after)
  | depth + 1, .sequence members, it => do
    if it.current?.isNone then return (none, it)
    else
      let (result, after) ← inOrder catalog depth members it
      return (result, if result.isNone then { after with pos := it.pos } else after)
  | depth + 1, .anyOrder members required, it => do
    if it.current?.isNone then return (none, it)
    else
      let (result, after) ← anyOrder catalog depth members required it
      return (result, if result.isNone then { after with pos := it.pos } else after)
  | depth + 1, .repeated inner times separator, it => do
    if it.current?.isNone then return (if times.min = 0 then some 0 else none, it)
    else
      let (count, after) ←
        repeating catalog depth times.max inner (separator.getD inner) 0 it
      if times.min ≤ count then return (some count, after)
      else return (none, { after with pos := it.pos })
  | depth + 1, leaf, it => single catalog depth leaf it

/-- A matcher that takes a single part. -/
def single (catalog : Catalog) : Nat → Matcher → Cursor → Option (Option Nat × Cursor)
  | 0, _, _ => none
  | depth + 1, m, it => do
    match it.current? with
    | none => return (none, it)
    | some part =>
      if part.isVar then return (some 1, { it with pos := it.pos + 1 })
      else
        let (fits, it) ← matchPart catalog depth m part it
        if fits || (it.tryAttr && part.isAttr) then return (some 1, { it with pos := it.pos + 1 })
        else return (none, it)

/-- The first of some matchers that matches. -/
def firstOf (catalog : Catalog) : Nat → List Matcher → Cursor → Option (Option Nat × Cursor)
  | 0, _, _ => none
  | _ + 1, [], it => return (none, it)
  | depth + 1, m :: ms, it => do
    match ← follow catalog depth m it with
    | (some _, after) => return (some 1, after)
    | (none, after) => firstOf catalog depth ms after

/-- Some matchers, one after another. -/
def inOrder (catalog : Catalog) : Nat → List Matcher → Cursor → Option (Option Nat × Cursor)
  | 0, _, _ => none
  | _ + 1, [], it => return (some 1, it)
  | depth + 1, m :: ms, it => do
    match ← follow catalog depth m it with
    | (some _, after) => inOrder catalog depth ms after
    | (none, after) => return (none, after)

/-- **A repetition**, which goes on as long as it gets on. -/
def repeating (catalog : Catalog) :
    Nat → Option Nat → Matcher → Matcher → Nat → Cursor → Option (Nat × Cursor)
  | 0, _, _, _, _, _ => none
  | depth + 1, max, m, next, count, it => do
    if max.any (· ≤ count) then return (count, it)
    else
      match ← follow catalog depth m it with
      | (none, after) => return (count, after)
      | (some _, after) =>
        if after.pos = it.pos then return (count + 1, after)
        else repeating catalog depth max next next (count + 1) after

/-- **Members in any order**: all those that are required, or at least one
when no marks say which are. -/
def anyOrder (catalog : Catalog) :
    Nat → List Matcher → Option (List Bool) → Cursor → Option (Option Nat × Cursor)
  | 0, _, _, _ => none
  | depth + 1, members, required, it => do
    let numbered := (List.range members.length).zip members
    let (complete, search, after) ← tryFrom catalog depth numbered required false 0 numbered
      ⟨members.map fun _ => false, 0⟩ it
    let (search, after) ←
      if complete then pure (search, after)
      else
        let (_, search, after) ←
          tryFrom catalog depth numbered required true 0 numbered search after
        pure (search, after)
    let matched : Bool :=
      match required with
      | none => decide (0 < search.best)
      | some marks => (marks.zip search.seen).all fun (mark, seen) => !mark || seen
    return (if matched then some 1 else none, after)

/-- **The search for members**, from some of them on, after `count` that
count. -/
def tryFrom (catalog : Catalog) :
    Nat → List (Nat × Matcher) → Option (List Bool) → Bool → Nat → List (Nat × Matcher) →
      AnyOrder.Search → Cursor → Option (Bool × AnyOrder.Search × Cursor)
  | 0, _, _, _, _, _, _, _ => none
  | _ + 1, members, _, retry, count, [], search, it =>
    if retry then return (count == search.best, search, it)
    else return (count == members.length, { search with best := max search.best count }, it)
  | depth + 1, members, required, retry, count, (i, m) :: left, search, it => do
    if search.seen[i]?.getD false then
      tryFrom catalog depth members required retry count left search it
    else
      match ← follow catalog depth m it with
      | (some (_ + 1), after) =>
        let used := { search with seen := search.seen.set i true }
        let more := count + if Matcher.isRequired required i then 1 else 0
        match ← tryFrom catalog depth members required retry more members used after with
        | (true, search, after) => return (true, search, after)
        | (false, search, after) =>
          tryFrom catalog depth members required retry count left
            { search with seen := search.seen.set i false } { after with pos := it.pos }
      | (_, after) =>
        tryFrom catalog depth members required retry count left search { after with pos := it.pos }

/-- A part against a matcher that takes a single one. -/
def matchPart (catalog : Catalog) :
    Nat → Matcher → ValuePart → Cursor → Option (Bool × Cursor)
  | 0, _, _, _ => none
  | _ + 1, .words words _, part, it => return (Matching.wordMatches words part, it)
  | _ + 1, .basic type, part, it => return (type.holds part, it)
  | depth + 1, .function name body, part, it =>
    if Matching.isCall part && (name == part.token.name || name == Matching.fullName part) then
      match body with
      | none => return (true, it)
      | some body => argumentsFit catalog depth body part it
    else return (false, it)
  | depth + 1, .group group, part, it => do
    if Matching.isCall part then
      match (group.argumentGrammar? part.token.name).or
          (group.argumentGrammar? (Matching.fullName part)) with
      | none => return (false, it)
      | some grammar =>
        let it := { it with consulted := grammar :: it.consulted }
        let (made, _) ← (compile depth grammar).run.run catalog
        match made.toOption with
        | none => return (false, it)
        | some body => argumentsFit catalog depth body part it
    else return (false, it)
  | depth + 1, .bracketed inner, part, it => do
    if part.kind = .lBracket then
      let found ← inside catalog depth inner part.inner
      return (found.fits, { it with consulted := found.consulted ++ it.consulted })
    else return (false, it)
  | _ + 1, _, _, it => return (false, it)

/-- A function's arguments against a body. -/
def argumentsFit (catalog : Catalog) :
    Nat → Matcher → ValuePart → Cursor → Option (Bool × Cursor)
  | 0, _, _, _ => none
  | depth + 1, body, part, it => do
    match part.expr with
    | some args =>
      if args.isVar then return (true, it)
      else
        let found ← inside catalog depth body args.parts
        let it := { it with consulted := found.consulted ++ it.consulted }
        if found.fits then return (true, it)
        else if args.isEmpty then return (false, it)
        else return (false, { it with bad := some ⟨args, body⟩ })
    | none =>
      let found ← inside catalog depth body []
      return (found.fits, { it with consulted := found.consulted ++ it.consulted })

/-- The match of all parts of a level. -/
def inside (catalog : Catalog) : Nat → Matcher → List ValuePart → Option Inside
  | 0, _, _ => none
  | depth + 1, m, parts => do
    let (result, it) ← follow catalog depth m (.start parts)
    return ⟨result.isSome && it.atEnd, it.consulted⟩
end

end Stylesheet.Grammar.Unbounded
