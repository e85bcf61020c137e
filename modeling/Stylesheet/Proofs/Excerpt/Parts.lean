import Stylesheet.Proofs.Excerpt.Reader
import Stylesheet.Proofs.Lookahead.Window
import Stylesheet.Proofs.Reads.Basic

/-!
# How the parts of a value are read

What a part is follows from its first token, and for brackets and functions
from what is read inside them. The equations here say so for each kind of
part, as far as the part is read at all; whoever follows a value through a
run has no need to look into its parsers.
-/

/-!
## Runs on a text and on an excerpt

Where a value is read nothing is ahead, and the reader stands right after the
token at hand (`Poised`). A run that never goes back reads whole tokens from
there (`Onward`). A run on an excerpt is beside one on the text if their
readers are, and level with it if both have the same token at hand, too.
-/

namespace Stylesheet

open Parse (State)
open Reader (toStart)
open Lexeme (Fenced)

namespace Parse.State

/-- **A state with nothing ahead**, whose reader stands right after the token
handed out last. -/
structure Poised (s : State) : Prop where
  /-- Nothing is ahead. -/
  bare : s.stream.ahead = []
  /-- The reader stands after the token at hand. -/
  flush : s.stream.reader.location = s.stream.current.stop

/-- **A run that reads whole tokens.** -/
structure Onward (s s' : State) : Prop where
  /-- The state is poised. -/
  poised : s'.Poised
  /-- Whole tokens were read. -/
  lexes : Lexes s.stream.reader.rest s'.stream.reader.rest
  /-- The options are the same. -/
  options_eq : s'.options = s.options
  /-- The budget is the same. -/
  budget_eq : s'.budget = s.budget
  /-- The source is the same. -/
  source_eq : s'.stream.source = s.stream.source

/-- **A state of a run on a text beside one of a run on an excerpt**, both
with nothing ahead, the same budget, and without old filters. -/
structure Beside (lead after : List Char) (s u : State) : Prop where
  /-- The readers stand beside each other. -/
  reader : s.stream.reader.Beside lead after u.stream.reader
  /-- Nothing is ahead in the text. -/
  bare : s.stream.ahead = []
  /-- Nothing is ahead in the excerpt. -/
  bare' : u.stream.ahead = []
  /-- The budgets are the same. -/
  budget_eq : u.budget = s.budget
  /-- Old filters are not asked for. -/
  filters : s.options.ieFilters = false
  /-- Nor are they in the excerpt. -/
  filters' : u.options.ieFilters = false

/-- **States beside each other with the same token at hand.** -/
structure Level (lead after : List Char) (s u : State) : Prop extends Beside lead after s u where
  /-- The tokens handed out last are the same. -/
  current : u.stream.current = shift (toStart lead) s.stream.current
  /-- The token lies in the excerpt. -/
  within : s.stream.current.Within (Text.byteLength lead)
    (Text.byteLength lead + Text.byteLength u.stream.source)

/-- **A state that differs only in what reading does not look at.** -/
structure Alike (s s' : State) : Prop where
  /-- The stream is the same. -/
  stream_eq : s'.stream = s.stream
  /-- The options are the same. -/
  options_eq : s'.options = s.options
  /-- The budget is the same. -/
  budget_eq : s'.budget = s.budget

variable {s s' s'' u u' : State} {lead after : List Char}

theorem Alike.refl (s : State) : Alike s s := ⟨rfl, rfl, rfl⟩

theorem Onward.refl (h : s.Poised) : Onward s s := ⟨h, .refl _, rfl, rfl, rfl⟩

theorem Onward.trans (h : Onward s s') (h' : Onward s' s'') : Onward s s'' :=
  ⟨h'.poised, h.lexes.trans h'.lexes, h'.options_eq.trans h.options_eq,
    h'.budget_eq.trans h.budget_eq, h'.source_eq.trans h.source_eq⟩

theorem Alike.onward (h : Alike s s') (hs : s.Poised) : Onward s s' := by
  obtain ⟨hstream, hoptions, hbudget⟩ := h
  refine ⟨⟨?_, ?_⟩, ?_, hoptions, hbudget, congrArg _ hstream⟩ <;> rw [hstream]
  · exact hs.bare
  · exact hs.flush
  · exact .refl _

/-- What reading does not look at can change on both sides. -/
theorem Level.of_alike (h : Level lead after s u) (hs : Alike s s') (hu : Alike u u') :
    Level lead after s' u' := by
  obtain ⟨hstream, hoptions, hbudget⟩ := hs
  obtain ⟨hstream', hoptions', hbudget'⟩ := hu
  refine ⟨⟨?_, ?_, ?_, ?_, ?_, ?_⟩, ?_, ?_⟩
  · rw [hstream, hstream']
    exact h.reader
  · rw [hstream]
    exact h.bare
  · rw [hstream']
    exact h.bare'
  · rw [hbudget, hbudget']
    exact h.budget_eq
  · rw [hoptions]
    exact h.filters
  · rw [hoptions']
    exact h.filters'
  · rw [hstream, hstream']
    exact h.current
  · rw [hstream, hstream']
    exact h.within

/-- What is left after reading on is no more than before. -/
theorem Onward.length_le (h : Onward s s') :
    s'.stream.reader.rest.length ≤ s.stream.reader.rest.length := h.lexes.length_le

/-- Reading on in the text goes on in the same excerpt. -/
theorem Beside.source_eq_of_onward {u' : State} (h : Beside lead after s u) (hs : Onward s s')
    (h' : Beside lead after s' u') : u'.stream.source = u.stream.source := by
  have hsource : lead ++ (u.stream.source ++ after) = lead ++ (u'.stream.source ++ after) :=
    h.reader.source_eq.symm.trans (hs.source_eq.symm.trans h'.reader.source_eq)
  exact (List.append_cancel_right (List.append_cancel_left hsource)).symm

/-- The state after the next token. -/
def afterGet (s : State) (placeholders blanks : Bool) : State :=
  { s with stream := (s.stream.get placeholders blanks).2 }

/-- The state after the next token of a value. -/
abbrev afterNext (s : State) : State := s.afterGet true false

/-- With nothing ahead, the next token is cut from the source. -/
theorem get_eq (h : s.stream.ahead = []) (placeholders blanks : Bool) :
    (s.stream.get placeholders blanks).1 =
        (s.stream.reader.lex ⟨blanks, placeholders, false⟩).1 ∧
      (s.afterGet placeholders blanks).stream.reader =
        (s.stream.reader.lex ⟨blanks, placeholders, false⟩).2 := by
  rcases hstream : s.stream with ⟨r, behind, ahead⟩
  unfold afterGet
  rw [hstream] at h ⊢
  obtain rfl : ahead = [] := h
  exact ⟨rfl, rfl⟩

/-- **The next token** is at hand. -/
theorem onward_afterGet (h : s.stream.ahead = []) (placeholders blanks : Bool) :
    Onward s (s.afterGet placeholders blanks) ∧
      (s.afterGet placeholders blanks).stream.current = (s.stream.get placeholders blanks).1 := by
  have hnear : s.stream.Near := by
    unfold Stream.Near
    rw [h]
    exact Nat.zero_le 1
  have hat := hnear.get placeholders blanks
  obtain ⟨htoken, hreader⟩ := get_eq h placeholders blanks
  have hcurrent : (s.afterGet placeholders blanks).stream.current =
      (s.stream.get placeholders blanks).1 := hat.current_eq
  refine ⟨⟨⟨hat.bare, ?_⟩, ?_, rfl, rfl, s.stream.get_source placeholders blanks⟩, hcurrent⟩
  · rw [hcurrent, htoken, hreader]
    rfl
  · rw [hreader]
    exact s.stream.reader.lexes_lex rfl

/-- **The next token of the excerpt** is that of the text. -/
theorem Beside.afterGet (ha : Fenced after) (h : Beside lead after s u)
    (placeholders blanks : Bool)
    (hin : after.length ≤ (s.afterGet placeholders blanks).stream.reader.rest.length) :
    (u.stream.get placeholders blanks).1 =
        shift (toStart lead) (s.stream.get placeholders blanks).1 ∧
      Level lead after (s.afterGet placeholders blanks) (u.afterGet placeholders blanks) := by
  obtain ⟨htoken, hreader⟩ := get_eq h.bare placeholders blanks
  obtain ⟨htoken', hreader'⟩ := get_eq h.bare' placeholders blanks
  obtain ⟨honward, hcurrent⟩ := onward_afterGet h.bare placeholders blanks
  obtain ⟨honward', hcurrent'⟩ := onward_afterGet h.bare' placeholders blanks
  rw [hreader] at hin
  obtain ⟨hsame, hwithin, hbeside⟩ := h.reader.lex ha rfl hin
  have hget : (u.stream.get placeholders blanks).1 =
      shift (toStart lead) (s.stream.get placeholders blanks).1 := by
    rw [htoken, htoken', hsame]
  have hsource : (u.afterGet placeholders blanks).stream.source = u.stream.source :=
    u.stream.get_source placeholders blanks
  refine ⟨hget, ⟨?_, honward.poised.bare, honward'.poised.bare, h.budget_eq, h.filters,
    h.filters'⟩, ?_, ?_⟩
  · rw [hreader, hreader']
    exact hbeside
  · rw [hcurrent, hcurrent', hget]
  · rw [hcurrent, htoken, hsource]
    exact hwithin

end Parse.State

namespace Parser

variable {α β : Type} {p : Parser α} {f : α → Parser β} {s s' : State} {inner : ExprParser}
  {t : Token} {raw : Bool} {part : ValuePart}

/-- **What two parsers in turn come to**, if they succeed. -/
theorem bind_eq_ok {b : β} :
    (p >>= f) s = (.ok b, s') ↔ ∃ a s₁, p s = (.ok a, s₁) ∧ f a s₁ = (.ok b, s') := by
  rcases hp : p s with ⟨e | a, s₁⟩
  · rw [bind_error hp]
    constructor
    · rintro ⟨⟩
    · rintro ⟨a, s₂, h, -⟩
      cases h
  · rw [bind_ok hp]
    constructor
    · exact fun h => ⟨a, s₁, rfl, h⟩
    · rintro ⟨a, s₂, h, h'⟩
      cases h
      exact h'

/-- What a bracketed block is, given its brackets and its inside. -/
def blockOf (t : Token) (inside : Option Value) (text : String) (last : Token) : ValuePart :=
  { ValuePart.ofToken t with
    text := text
    type := .block
    isVar := inside.any (·.isVar)
    stop := last.stop
    expr := inside }

/-- What a function is, given its name, its arguments and its bracket. -/
def functionOf (t : Token) (args : Option Value) (text : String) (close : Token) : ValuePart :=
  let part := { ValuePart.ofToken t with text := text, stop := close.stop, expr := args }
  match args with
  | none => part
  | some args =>
    { part with
      isCalc := calcFunctions.contains t.name
      isVar := args.isVar || t.name == "var" || t.name == "env"
      isAttr := t.name == "attr" &&
        args.parts.head?.any fun p => p.kind == .ident || p.kind == .uvar }

/-- The source from a token to the one at hand. -/
def textFrom (t : Token) (s : State) : String :=
  s.stream.slice t.location.offset s.stream.current.stop.offset

/-- Nothing succeeds after a failure. -/
theorem failAt_bind_ne_ok {expected : String} {b : β} :
    ((failAt expected t : Parser α) >>= f) s ≠ (.ok b, s') := by
  rintro h
  obtain ⟨a, s₁, hfail, -⟩ := bind_eq_ok.mp h
  cases hfail

/-- **A bracketed block is read** with its inside up to the bracket. -/
theorem blockPart_eq_ok {close : TokenKind} : blockPart inner t close raw s = (.ok part, s') ↔
    ∃ inside, inner [close] raw s = (.ok inside, s') ∧ (s'.stream.current.kind == close) = true ∧
      part = blockOf t inside (textFrom t s') s'.stream.current := by
  unfold blockPart
  rw [bind_eq_ok]
  refine exists_congr fun inside => ⟨?_, ?_⟩
  · rintro ⟨s₁, hinner, hrest⟩
    obtain ⟨last, s₂, ⟨⟩, hrest⟩ := bind_eq_ok.mp hrest
    by_cases hclose : (s₁.stream.current.kind == close) = true
    · rw [if_pos hclose] at hrest
      cases hrest
      exact ⟨hinner, hclose, rfl⟩
    · rw [if_neg hclose] at hrest
      exact absurd hrest failAt_bind_ne_ok
  · rintro ⟨hinner, hclose, rfl⟩
    refine ⟨s', hinner, bind_eq_ok.mpr ⟨s'.stream.current, s', rfl, ?_⟩⟩
    rw [if_pos hclose]
    rfl

/-- **A function is read** with its arguments up to the bracket. -/
theorem functionPart_eq_ok : functionPart inner t raw s = (.ok part, s') ↔
    ∃ args, inner [.rParen] raw s = (.ok args, s') ∧
      (s'.stream.current.kind == .rParen) = true ∧
      part = functionOf t args (textFrom t s') s'.stream.current := by
  unfold functionPart
  rw [bind_eq_ok]
  refine exists_congr fun args => ⟨?_, ?_⟩
  · rintro ⟨s₁, hinner, hrest⟩
    obtain ⟨close, s₂, ⟨⟩, hrest⟩ := bind_eq_ok.mp hrest
    by_cases hclose : (s₁.stream.current.kind == .rParen) = true
    · rw [if_pos hclose] at hrest
      cases args <;> cases hrest <;> exact ⟨hinner, hclose, rfl⟩
    · rw [if_neg hclose] at hrest
      exact absurd hrest failAt_bind_ne_ok
  · rintro ⟨hinner, hclose, rfl⟩
    refine ⟨s', hinner, bind_eq_ok.mpr ⟨s'.stream.current, s', rfl, ?_⟩⟩
    rw [if_pos hclose]
    cases args <;> rfl

/-- Reporting leaves alone what reading looks at. -/
theorem fire_alike (kind : EventKind) (location : Location) (s : State) :
    ∃ s', fire kind location s = (.ok (), s') ∧ s.Alike s' := by
  cases hdeferred : s.deferred with
  | none =>
    have hfire : fire kind location s = dispatch ⟨kind, location⟩ s := by
      unfold fire
      refine (bind_ok (show state s = (.ok s, s) from rfl)).trans ?_
      rw [hdeferred]
    exact ⟨{ s with
      events := ⟨kind, location⟩ :: s.events
      store := s.store.map (·.addEvent ⟨kind, location⟩) }, hfire, rfl, rfl, rfl⟩
  | some held => exact ⟨_, fire_apply_of_held hdeferred kind location, rfl, rfl, rfl⟩

/-- What a hash is. -/
def hashOf (t : Token) : ValuePart :=
  if isHexColor t.text then { ValuePart.ofToken t with type := .color } else .ofToken t

/-- **A hash is a part** with no more than a warning. -/
theorem hashPart_apply (t : Token) (s : State) : ∃ s', hashPart t s = (.ok (hashOf t), s') ∧
    s.Alike s' := by
  unfold hashPart hashOf
  dsimp only
  by_cases hcolor : isHexColor t.text = true
  · rw [if_pos hcolor, if_pos hcolor]
    exact ⟨s, rfl, .refl s⟩
  · rw [if_neg hcolor, if_neg hcolor]
    obtain ⟨s', hwarn, halike⟩ := fire_alike (.warning ("Expected a hex color but found \"" ++
      Text.clip t.text 30 ++ "\".")) t.location s
    exact ⟨s', bind_eq_ok.mpr ⟨(), s', hwarn, rfl⟩, halike⟩

/-- What a token is that is a part by itself. -/
def tokenOf (t : Token) (raw : Bool) : ValuePart :=
  if raw then .ofToken t
  else if t.kind == .hash then hashOf t
  else if t.kind == .ident && !t.isCustomIdent then wordPart t
  else .ofToken t

/-- **A token that is a part by itself.** -/
theorem plainPart_apply (hfunction : ¬(t.kind == .function) = true) (s : State) :
    ∃ s', plainPart inner t raw s = (.ok (tokenOf t raw), s') ∧ s.Alike s' := by
  unfold plainPart tokenOf
  rw [if_neg hfunction]
  split_ifs
  · exact ⟨s, rfl, .refl s⟩
  · exact hashPart_apply t s
  · exact ⟨s, rfl, .refl s⟩
  · exact ⟨s, rfl, .refl s⟩

/-- **A function is no old filter** where these are not asked for. -/
theorem plainPart_eq_ok (hfunction : (t.kind == .function) = true)
    (hfilters : s.options.ieFilters = false) : plainPart inner t raw s = (.ok part, s') ↔
      t.isFilterFunction = false ∧ functionPart inner t raw s = (.ok part, s') := by
  unfold plainPart
  rw [if_pos hfunction]
  constructor
  · intro h
    obtain ⟨o, s₁, ⟨⟩, h⟩ := bind_eq_ok.mp h
    cases hfilter : t.isFilterFunction with
    | true =>
      rw [if_pos (by rw [hfilter, hfilters]; rfl)] at h
      exact absurd h failAt_bind_ne_ok
    | false =>
      rw [if_neg (by rw [hfilter]; exact Bool.false_ne_true)] at h
      exact ⟨rfl, h⟩
  · rintro ⟨hfilter, h⟩
    refine bind_eq_ok.mpr ⟨s.options, s, rfl, ?_⟩
    rw [if_neg (by rw [hfilter]; exact Bool.false_ne_true)]
    exact h

/-- **One part** after its first token. -/
def partOf (inner : ExprParser) (t : Token) (raw : Bool) : Parser ValuePart :=
  match closingKind? t.kind with
  | some close => blockPart inner t close raw
  | none => plainPart inner t raw

/-- **Whether a value ends** before a token, given whether it has parts. -/
def endsBefore (ends : List TokenKind) (raw hasParts : Bool) (t : Token) : Bool :=
  t.isEof || ends.contains t.kind || (!raw && t.kind == .lBrace && hasParts)

/-- **One more part**, or the end of the value. -/
theorem exprStep_apply (inner : ExprParser) (ends : List TokenKind) (raw : Bool)
    (parts : List ValuePart) (s : State) : exprStep inner ends raw parts s =
      if endsBefore ends raw (!parts.isEmpty) (s.stream.get true false).1 then
        (.ok (.done parts), s.afterNext)
      else (partOf inner (s.stream.get true false).1 raw >>= fun part =>
        Pure.pure (.yield (part :: parts))) s.afterNext := by
  unfold exprStep
  have hnext : next true false s = (.ok (s.stream.get true false).1, s.afterNext) := rfl
  refine (bind_ok hnext).trans ?_
  generalize (s.stream.get true false).1 = t
  unfold endsBefore partOf
  by_cases hends : (t.isEof || ends.contains t.kind) = true
  · rw [if_pos hends, hends, Bool.true_or, if_pos rfl]
    rfl
  · rw [if_neg hends, Bool.eq_false_iff.mpr hends, Bool.false_or]
    cases hclose : closingKind? t.kind with
    | some close =>
      dsimp only
      split_ifs <;> rfl
    | none =>
      have hbrace : (t.kind == .lBrace) = false := by
        refine Bool.eq_false_iff.mpr fun hbrace => ?_
        rw [eq_of_beq hbrace] at hclose
        cases hclose
      rw [hbrace, Bool.and_false, Bool.false_and, if_neg Bool.false_ne_true]

/-- **A value is done** before a token that ends it, which is read, too. -/
theorem exprStep_eq_done {ends : List TokenKind} {parts v : List ValuePart} :
    exprStep inner ends raw parts s = (.ok (.done v), s') ↔
      endsBefore ends raw (!parts.isEmpty) (s.stream.get true false).1 = true ∧
        v = parts ∧ s' = s.afterNext := by
  rw [exprStep_apply]
  by_cases hends : endsBefore ends raw (!parts.isEmpty) (s.stream.get true false).1 = true
  · rw [if_pos hends]
    constructor
    · rintro ⟨⟩
      exact ⟨hends, rfl, rfl⟩
    · rintro ⟨-, rfl, rfl⟩
      rfl
  · rw [if_neg hends, bind_eq_ok]
    constructor
    · rintro ⟨part, s₁, -, ⟨⟩⟩
    · rintro ⟨h, -⟩
      exact absurd h hends

/-- **A value goes on** with a part. -/
theorem exprStep_eq_yield {ends : List TokenKind} {parts v : List ValuePart} :
    exprStep inner ends raw parts s = (.ok (.yield v), s') ↔
      ¬endsBefore ends raw (!parts.isEmpty) (s.stream.get true false).1 = true ∧
        ∃ part, partOf inner (s.stream.get true false).1 raw s.afterNext = (.ok part, s') ∧
          v = part :: parts := by
  rw [exprStep_apply]
  by_cases hends : endsBefore ends raw (!parts.isEmpty) (s.stream.get true false).1 = true
  · rw [if_pos hends]
    constructor
    · rintro ⟨⟩
    · rintro ⟨h, -⟩
      exact absurd hends h
  · rw [if_neg hends, bind_eq_ok]
    constructor
    · rintro ⟨part, s₁, hpart, ⟨⟩⟩
      exact ⟨hends, part, hpart, rfl⟩
    · rintro ⟨-, part, hpart, rfl⟩
      exact ⟨part, s', hpart, rfl⟩

/-- **What a round of a loop comes to**: the loop is done, or goes on. -/
theorem rounds_eq_ok {σ : Type} {step : σ → Parser (ForInStep σ)} {n : Nat} {a b : σ} :
    rounds step (n + 1) a s = (.ok b, s') ↔ step a s = (.ok (.done b), s') ∨
      ∃ a' s₁, step a s = (.ok (.yield a'), s₁) ∧ rounds step n a' s₁ = (.ok b, s') := by
  rw [rounds, bind_eq_ok]
  constructor
  · rintro ⟨c | a', s₁, hstep, hrest⟩
    · cases hrest
      exact Or.inl hstep
    · exact Or.inr ⟨a', s₁, hstep, hrest⟩
  · rintro (hstep | ⟨a', s₁, hstep, hrest⟩)
    · exact ⟨.done b, s', hstep, rfl⟩
    · exact ⟨.yield a', s₁, hstep, hrest⟩

end Parser

end Stylesheet
