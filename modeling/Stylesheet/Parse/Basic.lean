import Stylesheet.BlockStore
import Stylesheet.Options.Basic
import Stylesheet.Property.Validator
import Stylesheet.Token.Recovery

/-!
# Parsing

A `Parser` reads from a token stream and reports events. It either
returns a result or fails with a diagnostic; what it has read and
reported until then stays. Whoever catches the failure decides where to
go on.

Two things bound how long a parser runs. Every construct that can hold
itself – brackets, selectors, conditions, blocks – is a function of how
deep it may still go, and every repetition has a number of rounds. Both
start from the same **budget**, which is larger than the number of
tokens the source can have, so that neither is ever used up.

Style rules and at-rules read their bodies in the same way and differ
only in what the body may hold. A `BlockShape` says what that is. The
readers of rules take the reader of blocks as an argument, because
blocks hold rules in turn.
-/

namespace Stylesheet

namespace Parse

/-- **What a parser reads, keeps and reports.** -/
structure State where
  /-- The tokens. -/
  stream : Stream
  /-- What the caller asked for. -/
  options : Options
  /-- The memory of the checks of declarations. -/
  validator : Validator
  /-- The rules of earlier parses, when they are to be used. -/
  store : Option BlockStore
  /-- The events reported, the latest first. -/
  events : List Event
  /-- The events held back while it is open what they belong to, the
  latest first. -/
  deferred : Option (List Event)
  /-- The number of blocks around the current place. -/
  depth : Nat
  /-- The number of those that hold declarations. -/
  inStyle : Nat
  /-- The number of those that belong to `@scope`. -/
  inScope : Nat
  /-- The bracket that must be closed before reading can go on after an
  error. -/
  pair : Option TokenKind
  /-- How deep constructs can go, and how long repetitions. -/
  budget : Nat

/-- The budget of a source: more than it can have tokens, twice over. -/
def budgetOf (source : List Char) : Nat := 4 * source.length + 64

/-- **The state before anything is read.** -/
def State.initial (text : String) (options : Options) (validator : Validator)
    (store : Option BlockStore) : State :=
  let stream := Stream.ofString text
  { stream, options, validator, store
    events := []
    deferred := none
    depth := 0
    inStyle := 0
    inScope := 0
    pair := none
    budget := budgetOf stream.source }

end Parse

/-- **A parser.** -/
abbrev Parser := ExceptT Diagnostic (StateM Parse.State)

namespace Parser

/-- The state a parser is in. -/
def state : Parser Parse.State := get

/-- Change the state. -/
def update (f : Parse.State → Parse.State) : Parser Unit := modify f

/-- The options of the parse. -/
def options : Parser Options := return (← state).options

/-- How deep and how long the parser may go. -/
def budget : Parser Nat := return (← state).budget

/-- **A result or a failure**, so that the caller can go on after
either. -/
def attempt {α : Type} (p : Parser α) : Parser (Except Diagnostic α) :=
  tryCatch (return .ok (← p)) fun e => return .error e

/-- A result, or the failure it stands for. -/
def ofExcept {α : Type} : Except Diagnostic α → Parser α
  | .ok a => return a
  | .error e => throw e

/-- What is said when a construct is nested more deeply than its source
can be. -/
def tooDeep : Diagnostic := .bare "Nested too deeply."

/-- **A step over and over**, until it is done or the rounds are used
up. -/
def rounds {σ : Type} (step : σ → Parser (ForInStep σ)) : Nat → σ → Parser σ
  | 0, s => return s
  | n + 1, s => do
    match ← step s with
    | .done s => return s
    | .yield s => rounds step n s

/-- A step over and over, as long as the source can ask for it. -/
def repeating {σ : Type} (s : σ) (step : σ → Parser (ForInStep σ)) : Parser σ := do
  rounds step (← budget) s

/-! ## Tokens -/

/-- Ask the stream for something. -/
def ask {α : Type} (f : Stream → α × Stream) : Parser α :=
  modifyGet fun s => let (a, stream) := f s.stream; (a, { s with stream := stream })

/-- Ask the stream for something it may refuse. -/
def demand {α : Type} (f : Stream → Except Diagnostic α × Stream) : Parser α := do
  ofExcept (← ask f)

/-- Move the stream. -/
def moveStream (f : Stream → Stream) : Parser Unit :=
  update fun s => { s with stream := f s.stream }

/-- The next token, with placeholders and blanks if asked for. -/
def next (placeholders blanks : Bool) : Parser Token := ask (·.get placeholders blanks)

/-- The next token that is not hidden. -/
def grab : Parser Token := ask (·.grab)

/-- The token handed out last. -/
def current : Parser Token := return (← state).stream.current

/-- Take the last token back. -/
def unget : Parser Unit := do
  let stream ← ofExcept (← state).stream.unget
  moveStream fun _ => stream

/-- The next token if it is of one of the kinds, blanks included. -/
def matchKinds (kinds : List TokenKind) : Parser (Option Token) := ask (·.matchKinds kinds)

/-- The next token that is not hidden, if it is of one of the kinds. -/
def matchSmart (kinds : List TokenKind) : Parser (Option Token) := ask (·.matchSmart kinds)

/-- The next name, if it is a word of a set. -/
def matchKeyword (set : Keywords) : Parser (Option Token) := ask (·.matchKeyword .ident set)

/-- The token handed out last, if it is of one of the kinds. -/
def matchReuse (kinds : List TokenKind) : Parser (Option Token) := ask (·.matchReuse kinds)

/-- As `matchKinds`, or fail. -/
def mustMatch (kinds : List TokenKind) : Parser Token := demand (·.mustMatch kinds)

/-- As `matchSmart`, or fail. -/
def mustMatchSmart (kinds : List TokenKind) : Parser Token := demand (·.mustMatchSmart kinds)

/-- As `matchKeyword`, or fail. -/
def mustMatchKeyword (set : Keywords) : Parser Token := demand (·.mustMatchKeyword .ident set)

/-- As `matchReuse`, or fail. -/
def mustReuse (kinds : List TokenKind) : Parser Token := demand (·.mustReuse kinds)

/-- Go on at another place. -/
def seek (loc : Location) : Parser Unit := moveStream (·.seek loc)

/-- The source between two byte offsets. -/
def slice (start stop : Nat) : Parser String := return (← state).stream.slice start stop

/-- Fail at a token. -/
def failAt {α : Type} (expected : String) (t : Token) : Parser α := throw (t.unexpected expected)

/-- Fail at the token handed out last. -/
def failHere {α : Type} (expected : String) : Parser α := do failAt expected (← current)

/-! ## Events -/

/-- **Report an event**, also to the open rule it belongs to. -/
def dispatch (e : Event) : Parser Unit :=
  update fun s =>
    { s with events := e :: s.events, store := s.store.map (·.addEvent e) }

/-- Report events of an earlier parse. -/
def replay (events : List Event) : Parser Unit :=
  update fun s => { s with events := events.reverse ++ s.events }

/-- **Report an event, or hold it back** while events are held back. -/
def fire (kind : EventKind) (location : Location) : Parser Unit := do
  let e : Event := ⟨kind, location⟩
  match (← state).deferred with
  | some held => update fun s => { s with deferred := some (e :: held) }
  | none => dispatch e

/-- Report a warning. -/
def warn (message : String) (location : Location) : Parser Unit :=
  fire (.warning message) location

/-- **Report an error and go on.** -/
def report (error : Diagnostic) : Parser Unit := do
  let stream := (← state).stream
  fire (.error error !stream.atEnd) (error.location.getD stream.reader.location)

end Parser

/-! ## What a block may hold -/

/-- **What a block may hold.** -/
structure BlockShape where
  /-- What is reported at its start and its end. -/
  event : Option BlockKind := none
  /-- Whether the opening brace was read already. -/
  opened : Bool := false
  /-- Whether it holds declarations. -/
  declarations : Bool := false
  /-- Whether it can hold the margin boxes of a page. -/
  margins : Bool := false
  /-- The at-rule whose descriptors it holds. Such a block has no style
  rules. -/
  scope : Option String := none

/-- **The end of a block.** -/
structure BlockEnd where
  /-- The closing brace. -/
  close : Token
  /-- Whether the block had no content. -/
  empty : Bool

/-- **How a block is read**, given the place its events start from. -/
abbrev BlockParser := Location → BlockShape → Parser BlockEnd

/-- **What came of an attempt to read a style rule.** -/
inductive RuleOutcome where
  /-- A rule was read, or taken from an earlier parse. -/
  | parsed
  /-- A broken rule was reported and passed over. -/
  | failed
  /-- There is no rule here; the token it should start with was taken
  back. -/
  | notRule
  deriving DecidableEq, Repr

end Stylesheet
