import Stylesheet.Report.Lines
import Stylesheet.Session
import Stylesheet.Token.Stream

/-!
# The command

The command parses a stylesheet and prints its outline, or its events as
JSON, or nothing but what is wrong with it. What it prints depends on
its arguments and the text of the file alone.
-/

namespace Stylesheet

namespace Command

/-- **The arguments of the command.** -/
structure Settings where
  /-- The file to read. -/
  file : Option String := none
  /-- Print the tokens and nothing else. -/
  tokens : Bool := false
  /-- Print the events as JSON. -/
  json : Bool := false
  /-- Print no events. -/
  quiet : Bool := false
  /-- Stop at the first error. -/
  strict : Bool := false
  /-- Take `*property` for a declaration. -/
  starHack : Bool := false
  /-- Take `_property` for a declaration. -/
  underscoreHack : Bool := false
  /-- Take `progid:` filters. -/
  ieFilters : Bool := false
  /-- How often the file is parsed. -/
  repeats : Nat := 1

/-- A count, perhaps with a plus in front. -/
def count? (text : String) : Option Nat :=
  let digits := ((Text.stripStart "+" text).getD text).toList
  if digits.isEmpty || !digits.all Char.isDigit then none
  else
    let n := Text.decimalValue digits
    if n < Nat.pow 2 64 then some n else none

/-- An argument that is a switch. -/
def switch? (s : Settings) : String → Option Settings
  | "--tokens" => some { s with tokens := true }
  | "--json" => some { s with json := true }
  | "--quiet" | "-q" => some { s with quiet := true }
  | "--strict" => some { s with strict := true }
  | "--star-hack" => some { s with starHack := true }
  | "--underscore-hack" => some { s with underscoreHack := true }
  | "--ie-filters" => some { s with ieFilters := true }
  | "--debug" | "-d" => some s
  | _ => none

/-- **The settings that arguments stand for**; `none` if one of them is
not understood. -/
def settings? (s : Settings) : List String → Option Settings
  | [] => some s
  | "--repeat" :: n :: rest => do settings? { s with repeats := ← count? n } rest
  | arg :: rest =>
    match switch? s arg with
    | some s => settings? s rest
    | none =>
      match Text.stripStart "--repeat=" arg with
      | some n => do settings? { s with repeats := ← count? n } rest
      | none =>
        if Text.startsWith arg "-" || s.file.isSome then none
        else settings? { s with file := some arg } rest

/-- How the command is used. -/
def usage : String :=
  "usage: stylesheet FILE [--tokens] [--json] [--quiet] [--strict] [--star-hack] " ++
    "[--underscore-hack] [--ie-filters] [--repeat N]"

/-- The options of the parses. Rules are kept only if there is more than
one. -/
def Settings.options (s : Settings) : Options where
  strict := s.strict
  starHack := s.starHack
  underscoreHack := s.underscoreHack
  ieFilters := s.ieFilters
  reuseCache := s.repeats > 1

/-- **What the command leaves behind.** -/
structure Printout where
  /-- The exit code. -/
  code : Nat
  /-- What is printed. -/
  output : String
  /-- What is printed about a failure. -/
  errors : String
  deriving DecidableEq, Repr

/-- A diagnostic with the lines it is about. -/
def diagnosticText (source : String) (d : Diagnostic) : String :=
  "\n" ++
    match d.location with
    | some loc => Snippet.render source loc d.message
    | none => d.message ++ "\n"

/-- The line about one of several parses. -/
def roundLine (round : Nat) (events : List Event) (session : Session) : String :=
  s!"round {round}: {events.length} events, {session.hits} cache hits so far\n"

/-- **Parse as often as asked**, from a round on. The answer is what is
printed on the way, with the events of the last parse or the failure of
the first that failed. -/
def rounds (settings : Settings) (source : String) (now : Nat → Nat) (round : Nat)
    (session : Session) (printed : String) (events : List Event) :
    Nat → String × Except Diagnostic (List Event)
  | 0 => (printed, .ok events)
  | n + 1 =>
    let (outcome, session) := session.parse source settings.options (now round)
    match outcome.result with
    | .error e => (printed ++ diagnosticText source e, .error e)
    | .ok _ =>
      let line :=
        if settings.repeats > 1 then roundLine (round + 1) outcome.events session else ""
      rounds settings source now (round + 1) session (printed ++ line) outcome.events n

/-- The events as they are printed. -/
def eventsText (settings : Settings) (events : List Event) : String :=
  if settings.quiet then ""
  else if settings.json then String.join (events.map fun e => Report.eventLine e ++ "\n")
  else outline events

/-- What is wrong, and how much. -/
def problemsText (source : String) (diagnostics : List Diagnostic) : String :=
  String.join (diagnostics.map (diagnosticText source)) ++
    if diagnostics.isEmpty then "" else s!"{diagnostics.length} problem(s) found\n"

/-- The tokens of a text, one a line. -/
def tokensText (source : String) : String :=
  String.join ((Stream.ofString source).allTokens.1.map fun t => Report.tokenLine t ++ "\n")

/-- **Run the command on a text**, given the time at the start of each
round. -/
def run (settings : Settings) (source : String) (now : Nat → Nat) : Printout :=
  if settings.tokens then ⟨0, tokensText source, ""⟩
  else
    let session := (Session.new {}).openDocument (settings.file.getD "")
    match rounds settings source now 0 session "" [] (max settings.repeats 1) with
    | (printed, .error e) => ⟨1, printed, "Error: " ++ e.message ++ "\n"⟩
    | (printed, .ok events) =>
      ⟨0, printed ++ eventsText settings events ++ problemsText source (diagnosticsOf events), ""⟩

end Command

end Stylesheet
