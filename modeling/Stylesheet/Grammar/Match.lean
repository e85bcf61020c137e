import Stylesheet.Grammar.Compile

/-!
# Matching values against grammars

A matcher runs along the parts of a value. It either takes some of them
and says how often it matched – which is once for everything but a
repetition – or it fails and takes none.

A function or a block in square brackets is a single part, and what
stands inside it is matched on its own, from its start to its end. So
matching goes as deep as the value's brackets, and `Matching.inside` is
built up from the innermost level outwards: `enter` below is always the
matching of one level further in.

Members in any order are found by a search that also goes back on
matches that succeeded, because a member may take what only a later one
could have used. The first search looks for all members at once; if that
fails, a second one settles for the most required members that any
attempt has found.

A function whose arguments do not fit is remembered, as the most telling
cause of a failure. The grammars of grouped functions are made on
demand; which ones were asked for is recorded, so that the catalog can
be brought up to date afterwards.
-/

namespace Stylesheet.Grammar

/-- **A function whose arguments did not fit**, and what they should have
been. -/
structure BadFunction where
  /-- The arguments. -/
  args : Value
  /-- The grammar they failed. -/
  matcher : Matcher

/-- **A place in the parts of a value**, and what matching has noticed
so far. -/
structure Cursor where
  /-- The parts. -/
  parts : List ValuePart
  /-- How many of them have been taken. -/
  pos : Nat
  /-- Whether a reference to an attribute can stand for any part. -/
  tryAttr : Bool
  /-- The last function whose arguments did not fit. -/
  bad : Option BadFunction
  /-- The grammars of grouped functions that were asked for, the latest
  first. -/
  consulted : List String

namespace Cursor

/-- The start of some parts. -/
def start (parts : List ValuePart) : Cursor := ⟨parts, 0, false, none, []⟩

/-- The next part. -/
def current? (it : Cursor) : Option ValuePart := it.parts[it.pos]?

/-- Whether all parts have been taken. -/
def atEnd (it : Cursor) : Bool := it.parts.length ≤ it.pos

end Cursor

/-- **A step of matching**: how often it matched, or nothing. -/
abbrev Step := Cursor → Option Nat × Cursor

/-- What a match of a whole level found: whether it took everything, and
the grammars it asked for. -/
structure Inside where
  /-- Whether the parts match from the first to the last. -/
  fits : Bool
  /-- The grammars asked for, the latest first. -/
  consulted : List String

/-- **What matching depends on** besides the matcher and the parts. -/
structure Surroundings where
  /-- The matcher of a grammar of a grouped function. -/
  resolve : String → Option Matcher
  /-- The match of everything inside a function or a block. -/
  enter : Matcher → List ValuePart → Inside

namespace Step

/-- A step that fails takes nothing. -/
def restoring (step : Step) : Step := fun it =>
  match step it with
  | (none, after) => (none, { after with pos := it.pos })
  | matched => matched

/-- **The first of some steps that matches.** -/
def firstOf : List Step → Step
  | [], it => (none, it)
  | step :: steps, it =>
    match step it with
    | (some _, after) => (some 1, after)
    | (none, after) => firstOf steps after

/-- **Some steps, one after another.** -/
def inOrder : List Step → Step
  | [], it => (some 1, it)
  | step :: steps, it =>
    match step it with
    | (some _, after) => inOrder steps after
    | (none, after) => (none, after)

/-- **A step as often as it matches**, at most as often as the fuel and
the bound allow. A match that takes nothing counts once and ends it. -/
def repeating (max : Option Nat) (step next : Step) : Nat → Nat → Step
  | 0, count, it => (some count, it)
  | fuel + 1, count, it =>
    if max.any (· ≤ count) then (some count, it)
    else
      match step it with
      | (none, after) => (some count, after)
      | (some _, after) =>
        if after.pos = it.pos then (some (count + 1), after)
        else repeating max next next fuel (count + 1) after

end Step

/-! ## Members in any order -/

/-- **A member of a group in any order.** -/
structure Member where
  /-- Its match. -/
  step : Step
  /-- Whether it counts. -/
  counts : Bool

namespace AnyOrder

/-- **The state of the search**: which members are in use, and the most
counting members that any attempt has found. -/
structure Search where
  /-- For each member, whether it is in use. -/
  seen : List Bool
  /-- The most that have been found. -/
  best : Nat

/-- **The search for members**, from the `i`-th on, after `count` that
count. `deeper` goes on after a match. -/
def tryFrom (members : List Member) (retry : Bool) (count : Nat)
    (deeper : Nat → Search → Cursor → Bool × Search × Cursor) :
    List (Nat × Member) → Search → Cursor → Bool × Search × Cursor
  | [], search, it =>
    if retry then (count == search.best, search, it)
    else
      (count == members.length, { search with best := max search.best count }, it)
  | (i, member) :: rest, search, it =>
    if search.seen[i]?.getD false then tryFrom members retry count deeper rest search it
    else
      match member.step it with
      | (some (_ + 1), after) =>
        let used := { search with seen := search.seen.set i true }
        match deeper (count + if member.counts then 1 else 0) used after with
        | (true, search, after) => (true, search, after)
        | (false, search, after) =>
          tryFrom members retry count deeper rest
            { search with seen := search.seen.set i false } { after with pos := it.pos }
      | (_, after) =>
        tryFrom members retry count deeper rest search { after with pos := it.pos }

/-- The search to a depth; each level puts one more member to use. -/
def run (members : List Member) (retry : Bool) :
    Nat → Nat → Search → Cursor → Bool × Search × Cursor
  | 0, _, search, it => (false, search, it)
  | depth + 1, count, search, it =>
    tryFrom members retry count (run members retry depth)
      ((List.range members.length).zip members) search it

/-- **Members in any order**: all those that are required, or at least
one when no marks say which are. -/
def step (members : List Member) (required : Option (List Bool)) : Step := fun it =>
  let depth := members.length + 1
  let (complete, search, after) :=
    run members false depth 0 ⟨members.map fun _ => false, 0⟩ it
  let (search, after) :=
    if complete then (search, after) else (run members true depth 0 search after).2
  let matched : Bool :=
    match required with
    | none => decide (0 < search.best)
    | some marks => (marks.zip search.seen).all fun (mark, seen) => !mark || seen
  (if matched then some 1 else none, after)

end AnyOrder

/-! ## Matchers -/

namespace Matching

/-- A part against a set of words, with or without its vendor's mark.
Functions and blocks are no words. -/
def wordMatches (words : List String) (part : ValuePart) : Bool :=
  if part.type = .function || part.type = .block then false
  else
    let text := part.token.lower
    let vendorPos := part.token.vendorPos
    words.contains text ||
      (vendorPos > 0 && (Text.fromByte? text vendorPos).any words.contains)

/-- The name of a function with its vendor's mark. -/
def fullName (part : ValuePart) : String := part.token.vendor.getD "" ++ part.token.name

/-- **A function's arguments against a body.** Arguments with a variable
fit anything; missing arguments are matched as no parts. -/
def argumentsFit (s : Surroundings) (body : Matcher) (part : ValuePart) (it : Cursor) :
    Bool × Cursor :=
  match part.expr with
  | some args =>
    if args.isVar then (true, it)
    else
      let found := s.enter body args.parts
      let it := { it with consulted := found.consulted ++ it.consulted }
      if found.fits then (true, it)
      else if args.isEmpty then (false, it)
      else (false, { it with bad := some ⟨args, body⟩ })
  | none =>
    let found := s.enter body []
    (found.fits, { it with consulted := found.consulted ++ it.consulted })

/-- Whether a part can be a function at all; addresses are. -/
def isCall (part : ValuePart) : Bool := part.type = .function || part.type = .uri

/-- A part against a function of a given name and body. -/
def functionMatches (s : Surroundings) (name : String) (body : Option Matcher)
    (part : ValuePart) (it : Cursor) : Bool × Cursor :=
  if isCall part && (name == part.token.name || name == fullName part) then
    match body with
    | none => (true, it)
    | some body => argumentsFit s body part it
  else (false, it)

/-- A part against the functions of a group. -/
def groupMatches (s : Surroundings) (group : FunctionGroup) (part : ValuePart) (it : Cursor) :
    Bool × Cursor :=
  if isCall part then
    match (group.argumentGrammar? part.token.name).or (group.argumentGrammar? (fullName part)) with
    | none => (false, it)
    | some grammar =>
      let it := { it with consulted := grammar :: it.consulted }
      match s.resolve grammar with
      | none => (false, it)
      | some body => argumentsFit s body part it
  else (false, it)

/-- A block in square brackets whose inside fits. -/
def bracketMatches (s : Surroundings) (inner : Matcher) (part : ValuePart) (it : Cursor) :
    Bool × Cursor :=
  if part.kind = .lBracket then
    let found := s.enter inner part.inner
    (found.fits, { it with consulted := found.consulted ++ it.consulted })
  else (false, it)

/-- **A step that takes one part** if it passes a test, if it is a
variable, or if it refers to an attribute where those are let through. -/
def single (test : ValuePart → Cursor → Bool × Cursor) : Step := fun it =>
  match it.current? with
  | none => (none, it)
  | some part =>
    if part.isVar then (some 1, { it with pos := it.pos + 1 })
    else
      let (fits, it) := test part it
      if fits || (it.tryAttr && part.isAttr) then (some 1, { it with pos := it.pos + 1 })
      else (none, it)

/-- A step that needs a part to look at. -/
def needsPart (step : Step) : Step := fun it =>
  match it.current? with
  | none => (none, it)
  | some _ => step.restoring it

/-- **A repetition.** At the end of the parts it matches no times, if it
may; elsewhere it must match often enough. -/
def repetition (m : Multiplier) (step next : Step) : Step := fun it =>
  match it.current? with
  | none => if m.min = 0 then (some 0, it) else (none, it)
  | some _ =>
    Step.restoring (fun it =>
      match Step.repeating m.max step next (it.parts.length + 1) 0 it with
      | (some count, after) => (if m.min ≤ count then some count else none, after)
      | failed => failed) it

mutual
/-- **The step of a matcher.** -/
def stepOf (s : Surroundings) : Matcher → Step
  | .words words _ => single fun part it => (wordMatches words part, it)
  | .basic type => single fun part it => (type.holds part, it)
  | .function name body => single (functionMatches s name body)
  | .group functions => single (groupMatches s functions)
  | .oneOf members => needsPart (Step.firstOf (stepsOf s members))
  | .sequence members => needsPart (Step.inOrder (stepsOf s members))
  | .anyOrder members required =>
    needsPart (AnyOrder.step (membersOf s required 0 members) required)
  | .repeated inner m separator =>
    repetition m (stepOf s inner) (nextOf s (stepOf s inner) separator)
  | .alias _ inner => stepOf s inner
  | .bracketed inner => single (bracketMatches s inner)

/-- The step of a repetition after the first time. -/
def nextOf (s : Surroundings) (step : Step) : Option Matcher → Step
  | none => step
  | some separator => stepOf s separator

/-- The steps of several matchers. -/
def stepsOf (s : Surroundings) : List Matcher → List Step
  | [] => []
  | m :: ms => stepOf s m :: stepsOf s ms

/-- The members of a group in any order, from the `i`-th on. -/
def membersOf (s : Surroundings) (required : Option (List Bool)) (i : Nat) :
    List Matcher → List Member
  | [] => []
  | m :: ms => ⟨stepOf s m, Matcher.isRequired required i⟩ :: membersOf s required (i + 1) ms
end

/-- **The match of all parts of a level**, where the levels further in go
to a depth. -/
def inside (resolve : String → Option Matcher) : Nat → Matcher → List ValuePart → Inside
  | 0, m, parts =>
    let (result, it) := stepOf ⟨resolve, fun _ _ => ⟨false, []⟩⟩ m (.start parts)
    ⟨result.isSome && it.atEnd, it.consulted⟩
  | depth + 1, m, parts =>
    let (result, it) := stepOf ⟨resolve, inside resolve depth⟩ m (.start parts)
    ⟨result.isSome && it.atEnd, it.consulted⟩

/-- The surroundings for parts of a nesting depth, with the grammars of
grouped functions made from a catalog. -/
def surroundings (catalog : Catalog) (parts : List ValuePart) : Surroundings where
  resolve grammar := (catalog.compile grammar).1.toOption
  enter := inside (fun grammar => (catalog.compile grammar).1.toOption)
    (ValuePart.nestingAll parts - 1)

end Matching

/-- **Match from a place in the parts on.** -/
def Matcher.run (m : Matcher) (catalog : Catalog) (it : Cursor) : Option Nat × Cursor :=
  Matching.stepOf (Matching.surroundings catalog it.parts) m it

/-- The catalog after a match has asked it for grammars. -/
def Catalog.consult (catalog : Catalog) (it : Cursor) : Catalog :=
  it.consulted.foldr (fun grammar catalog => (catalog.compile grammar).2) catalog

end Stylesheet.Grammar
