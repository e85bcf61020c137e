import Stylesheet.Proofs.Excerpt.Counts
import Stylesheet.Proofs.WellFormed.Moving

/-!
# Reading modifiers from an excerpt

A modifier of a compound is read to its end, and no further. So the excerpt
that holds its last token holds the modifier, and the same modifier is read
there, moved to the start.

What stands in the argument of a pseudo-class is followed by the closing
bracket. Lists of selectors are read one token too far, but that token is the
bracket, and it is all that is needed of them here (`Echoing`).
-/

namespace Stylesheet

open Parse (State)
open Parse.State (Onward Level Inside Steady Meets Faces Sees Carries Arrives)
open Reader (toStart)
open Lexeme (Fenced)

/-! ## Closing brackets -/

/-- **A closing bracket** that is cut is the last thing read. -/
theorem Reader.exists_close (r : Reader) {mode : Mode} (hcomments : mode.comments = false)
    (h : (r.lex mode).1.kind = .rParen) : ∃ y, r.rest = y ++ ')' :: (r.lex mode).2.rest := by
  refine lex_induction mode (P := fun r => (r.lex mode).1.kind = .rParen →
    ∃ y, r.rest = y ++ ')' :: (r.lex mode).2.rest) (fun r lx _ _ hlex ih h => ?_)
    (fun r _ hlex h => ?_) r h
  · rw [hlex] at h ⊢
    obtain ⟨y, hy⟩ := ih h
    refine ⟨r.rest.take lx.size ++ y, ?_⟩
    rw [List.append_assoc, ← hy]
    exact (List.take_append_drop lx.size r.rest).symm
  · rw [hlex] at h ⊢
    replace h : (mode.firstOf r.rest).kind = .rParen := h
    rw [Mode.firstOf_eq_first hcomments] at h ⊢
    obtain ⟨c, rest, hrest, hkind, hfirst⟩ := @Lexeme.first_of_isMark r.rest (by
      rw [h]
      rfl)
    have hclose : c = ')' := by
      rw [h] at hkind
      unfold TokenKind.ofChar? at hkind
      split at hkind <;> first
        | rfl
        | exact absurd (Option.some.inj hkind) TokenKind.noConfusion
        | cases hkind
    refine ⟨[], ?_⟩
    show r.rest = [] ++ ')' :: r.rest.drop (Lexeme.first r.rest).size
    rw [hfirst, hrest, hclose]
    rfl

namespace Parse.State

variable {s s' s'' : State}

/-- **A run that ends with a closing bracket.** -/
def Shuts (s s' : State) : Prop :=
  ∃ y, s.stream.reader.rest = y ++ ')' :: s'.stream.reader.rest

theorem Onward.shuts (h : Onward s s') (h' : Shuts s' s'') : Shuts s s'' := by
  obtain ⟨w, hw⟩ := h.lexes.isSuffix
  obtain ⟨y, hy⟩ := h'
  exact ⟨w ++ y, by rw [List.append_assoc, ← hy, hw]⟩

theorem shuts_afterGet (hbare : s.stream.ahead = []) {placeholders blanks : Bool}
    (h : (s.afterGet placeholders blanks).stream.current.kind = .rParen) :
    Shuts s (s.afterGet placeholders blanks) := by
  obtain ⟨htoken, hreader⟩ := get_eq hbare placeholders blanks
  rw [(onward_afterGet hbare placeholders blanks).2, htoken] at h
  unfold Shuts
  rw [hreader]
  exact s.stream.reader.exists_close rfl h

end Parse.State

open Parse.State (Shuts onward_afterGet shuts_afterGet)

/-! ## Lists of selectors -/

/-- **A reader of lists of selectors that reads excerpts** as it reads the text:
if a closing bracket is at hand after a list, whole tokens were read, the
bracket last, and an excerpt that holds it gives the same list. -/
structure Echoing (group : Parser.GroupParser) : Prop where
  /-- Whole tokens are read. -/
  onward : ∀ {relative lax : Bool} {s s' : State} {v : Option (List Selector)}, s.Steady →
    group none relative lax s = (.ok v, s') → s'.stream.current.kind = .rParen → Onward s s'
  /-- The bracket is the last of them. -/
  shuts : ∀ {relative lax : Bool} {s s' : State} {v : Option (List Selector)}, s.Steady →
    group none relative lax s = (.ok v, s') → s'.stream.current.kind = .rParen → Shuts s s'
  /-- The excerpt gives the same list. -/
  echo : ∀ {relative lax : Bool} {s s' u : State} {v : Option (List Selector)}
    {lead x after : List Char}, Fenced after → Meets lead x after s u →
    group none relative lax s = (.ok v, s') → s'.stream.current.kind = .rParen →
    s'.Inside after → ∃ u', group none relative lax u = (.ok (shift (toStart lead) v), u') ∧
      Level lead after s' u' ∧ u'.stream.source = x

namespace Parser

variable {group : GroupParser} {s s' : State} {t : Token}

/-- **The token at hand is looked at again.** -/
theorem mustReuse_eq_ok {kinds : List TokenKind} : mustReuse kinds s = (.ok t, s') ↔
    t = s.stream.current ∧ kinds.contains t.kind = true ∧ s' = s := by
  unfold mustReuse
  refine demand_eq_ok_iff (K := fun t => kinds.contains t.kind = true) (fun h => ?_)
    (fun h => ?_) <;>
    unfold Stream.mustReuse Stream.matchReuse
  · rw [if_pos h]
  · rw [if_neg h]
    exact ⟨_, rfl⟩

/-- **A list of selectors in an argument** is read up to the bracket. -/
theorem selectorArgs_eq_ok {name : String} {list : List Selector} :
    selectorArgs group name s = (.ok list, s') ↔
      group none (name == "has") (laxFunctions.contains name) s = (.ok (some list), s') ∧
        s'.stream.current.kind = .rParen := by
  have hclose : ∀ {s₁ s₂ : State} {a : Unit},
      (discard (mustReuse [.rParen]) : Parser Unit) s₁ = (.ok a, s₂) ↔
        s₁.stream.current.kind = .rParen ∧ s₂ = s₁ := by
    intro s₁ s₂ a
    refine (bind_eq_ok (p := mustReuse [.rParen]) (f := fun _ => Pure.pure ())).trans ⟨?_, ?_⟩
    · rintro ⟨t, s₃, hreuse, ⟨⟩⟩
      obtain ⟨rfl, hkind, rfl⟩ := mustReuse_eq_ok.mp hreuse
      exact ⟨by simpa using hkind, rfl⟩
    · rintro ⟨hkind, rfl⟩
      exact ⟨_, _, mustReuse_eq_ok.mpr ⟨rfl, by simpa using hkind, rfl⟩, rfl⟩
  unfold selectorArgs
  rw [bind_eq_ok]
  constructor
  · rintro ⟨_ | found, s₁, hgroup, hrest⟩
    · cases hrest
    · obtain ⟨_, s₂, hreuse, ⟨⟩⟩ := bind_eq_ok.mp hrest
      obtain ⟨hkind, rfl⟩ := hclose.mp hreuse
      exact ⟨hgroup, hkind⟩
  · rintro ⟨hgroup, hkind⟩
    exact ⟨some list, s', hgroup, bind_eq_ok.mpr ⟨(), s', hclose.mpr ⟨hkind, rfl⟩, rfl⟩⟩

/-- An argument that starts with a count, or with none, after the token that
follows it. -/
def countArg (group : GroupParser) (name : String) (count : Option Nth) (first t : Token) :
    Parser (PseudoArgs Selector) :=
  match count with
  | some count =>
    if t.isKeyword .of then do return .nth count (← selectorArgs group name)
    else if t.kind == .rParen then return .nth count []
    else failAt "" first
  | none => if t.kind == .rParen then return .value none else failAt "" first

/-- What follows a count in an argument. -/
def countRest (group : GroupParser) (name : String) (count : Option Nth) :
    Parser (PseudoArgs Selector) := do
  let first ← next false true
  let t ← if first.kind == .whitespace then grab else pure first
  countArg group name count first t

theorem countArgs_eq (group : GroupParser) (name : String) :
    countArgs group name = ask (·.readNth) >>= countRest group name := by
  unfold countArgs countRest countArg
  refine congrArg (_ >>= ·) (funext fun count => ?_)
  cases count <;> rfl

/-- A pseudo-class or pseudo-element whose last token is at hand. -/
def pseudoEnd (colon : Token) (colons : Nat) (name : String)
    (args : Option (PseudoArgs Selector)) : Parser (Modifier Selector) := do
  return ⟨.pseudo name colons args, ← slice colon.location.offset (← current).stop.offset,
    colon.location⟩

/-- A pseudo-class or pseudo-element after its colons. -/
def pseudoRest (group : GroupParser) (colon : Token) (colons : Nat) :
    Parser (Modifier Selector) := do
  let t ← mustMatch [.function, .ident]
  if t.kind == .ident then pseudoEnd colon colons t.lower none
  else
    update fun s => { s with pair := some .rParen }
    let args ← pseudoArgs group t.name
    update fun s => { s with pair := none }
    pseudoEnd colon colons t.name (some args)

/-- **Whether there is a second colon** is seen without reading on. -/
theorem pseudo_apply (group : GroupParser) (hbare : s.stream.ahead = []) :
    pseudo group t s = if (s.stream.get false true).1.kind = .colon
      then pseudoRest group t 2 (s.afterGet false true) else pseudoRest group t 1 s := by
  unfold pseudo
  by_cases hcolon : (s.stream.get false true).1.kind = .colon
  · have hasked := matchKinds_apply [.colon] s
    rw [if_pos (by rw [hcolon]; rfl)] at hasked
    rw [if_pos hcolon, bind_ok hasked]
    rfl
  · have hasked := matchKinds_apply [.colon] s
    rw [if_neg (by simpa using hcolon)] at hasked
    rw [if_neg hcolon, bind_ok hasked]
    -- what is taken back is handed out again
    have hback : (s.stream.get false true).2.back.get false true = s.stream.get false true := by
      rcases hstream : s.stream with ⟨r, behind, ahead⟩
      rw [hstream] at hbare
      obtain rfl : ahead = [] := hbare
      exact Stream.get_of_ahead _ _ [] (r.hides_lex rfl rfl)
    have hmatch : mustMatch [.function, .ident]
        { s with stream := (s.stream.get false true).2.back } = mustMatch [.function, .ident] s := by
      unfold mustMatch
      rw [demand_apply, demand_apply]
      unfold Stream.mustMatch Stream.matchKinds
      dsimp only
      rw [hback]
    exact bind_eq hmatch

/-- An attribute test whose closing bracket was read. -/
def attributeEnd (start : Token) (test : AttributeTest) (close : Token) :
    Parser (Modifier Selector) := do
  update fun s => { s with pair := none }
  return ⟨.attribute test, ← slice start.location.offset close.stop.offset, start.location⟩

/-- The closing bracket of an attribute test, unless it was read already. -/
def attributeClose (start : Token) (test : AttributeTest) (close : Option Token) :
    Parser (Modifier Selector) :=
  match close with
  | some t => attributeEnd start test t
  | none => do attributeEnd start test (← mustMatchSmart [.rBracket])

/-- An attribute test after its name. -/
def attributeRest (start : Token) (head : AttributeHead) (name : String) :
    Parser (Modifier Selector) := do
  let head ← attributeOp head
  if head.op.isSome then
    let found ← attributeValue
    attributeClose start ⟨head.ns, name, head.op, some found.1, found.2.1⟩ found.2.2
  else attributeClose start ⟨head.ns, name, head.op, none, none⟩ head.close

/-- The name of an attribute test, unless it was read already. -/
def attributeNamed (start : Token) (head : AttributeHead) : Parser (Modifier Selector) :=
  match head.name with
  | some name => attributeRest start head name
  | none => do attributeRest start head (← mustMatch [.ident]).text

/-- **An attribute test**, in pieces. -/
theorem attributeTest_eq (start : Token) : attributeTest start = (do
    let first ← mustMatchSmart [.pipe, .ident, .star]
    update fun s => { s with pair := some .rBracket }
    let head ← attributeHead first
    attributeNamed start head) := by
  have hclose : ∀ (test : AttributeTest) (close : Option Token), attributeClose start test close =
      (do
        let close ←
          match close with
          | some t => pure t
          | none => mustMatchSmart [.rBracket]
        attributeEnd start test close) := by
    intro test close
    cases close <;> rfl
  unfold attributeTest
  refine congrArg (_ >>= ·) (funext fun first => congrArg (_ >>= ·) (funext fun _ =>
    congrArg (_ >>= ·) (funext fun head => ?_)))
  unfold attributeNamed attributeRest
  simp only [hclose]
  cases head.name <;> rfl

/-- An argument that starts with a count ends with the bracket. -/
theorem countRest_shuts (hgroup : Echoing group) (hs : s.Steady) {name : String}
    {count : Option Nth} {args : PseudoArgs Selector}
    (h : countRest group name count s = (.ok args, s')) : Shuts s s' := by
  have harg : ∀ {first t : Token} {s₁ : State}, Onward s s₁ → (t.kind = .rParen → Shuts s s₁) →
      countArg group name count first t s₁ = (.ok args, s') → Shuts s s' := by
    intro first t s₁ honward hclose h
    unfold countArg at h
    cases count with
    | some count =>
      dsimp only at h
      split_ifs at h with hof hkind
      · obtain ⟨list, s₂, hlist, ⟨⟩⟩ := bind_eq_ok.mp h
        obtain ⟨hrun, hkind⟩ := selectorArgs_eq_ok.mp hlist
        exact honward.shuts (hgroup.shuts (honward.steady hs) hrun hkind)
      · cases h
        exact hclose (eq_of_beq hkind)
      · cases h
    | none =>
      dsimp only at h
      split_ifs at h with hkind
      · cases h
        exact hclose (eq_of_beq hkind)
      · cases h
  unfold countRest at h
  obtain ⟨first, s₁, ⟨⟩, h⟩ := bind_eq_ok.mp h
  have hfirst := onward_afterGet hs.bare false true
  dsimp only at h
  split_ifs at h with hblank
  · obtain ⟨t, s₂, ⟨⟩, h⟩ := bind_eq_ok.mp h
    have hsecond := onward_afterGet hfirst.1.poised.bare false false
    refine harg (hfirst.1.trans hsecond.1) (fun hkind => hfirst.1.shuts ?_) h
    exact shuts_afterGet hfirst.1.poised.bare (hsecond.2 ▸ hkind)
  · exact harg hfirst.1 (fun hkind => shuts_afterGet hs.bare (hfirst.2 ▸ hkind)) h

end Parser

instance : Shift Parser.AttributeHead where
  shift δ head := { head with close := shift δ head.close }

namespace Mirrors

variable {lead x after : List Char} {group : Parser.GroupParser} {s u : State} {t : Token}

/-- A parser of which only the reading matters. -/
theorem discard {α : Type} {p q : Parser α} {F : α → α} {J : α → Prop}
    (h : Mirrors lead x after p q s u F J) :
    Mirrors lead x after (Functor.discard p) (Functor.discard q) s u id fun _ => True := by
  intro a s' hrun
  obtain ⟨b, s₁, hp, ⟨⟩⟩ := (Parser.bind_eq_ok (f := fun _ => Pure.pure ())).mp hrun
  refine ⟨(h b s' hp).1, fun hin => ?_⟩
  obtain ⟨-, u', hq, hlevel⟩ := (h b s' hp).2 hin
  exact ⟨trivial, u', (Parser.bind_eq_ok (f := fun _ => Pure.pure ())).mpr ⟨F b, u', hq, rfl⟩,
    hlevel⟩

/-! ### Attribute tests -/

/-- The closing bracket of an attribute test lies in the excerpt, if it was
read. -/
def CloseIn (lead x : List Char) (close : Option Token) : Prop :=
  ∀ t, close = some t → t.LiesIn lead x

theorem closeIn_none : CloseIn lead x none := fun _ h => by cases h

theorem closeIn_some (h : t.LiesIn lead x) : CloseIn lead x (some t) := fun _ h' => by
  obtain rfl := Option.some.inj h'
  exact h

section Reading

variable (ha : Fenced after)

include ha

theorem attributeHead (h : Faces lead x after s u) (t : Token) :
    Mirrors lead x after (Parser.attributeHead t) (Parser.attributeHead (shift (toStart lead) t))
      s u (shift (toStart lead)) fun head => CloseIn lead x head.close := by
  unfold Parser.attributeHead
  rw [show (shift (toStart lead) t).kind = t.kind from rfl]
  split
  · exact pure h rfl fun _ => closeIn_none
  · exact (discard (mustMatch ha h.toMeets _)).bind h.steady fun _ s₁ u₁ h₁ _ _ =>
      pure h₁ rfl fun _ => closeIn_none
  · refine (next ha h.toMeets false true).bind h.steady fun v s₁ u₁ h₁ _ hv => ?_
    rw [show (shift (toStart lead) v).kind = v.kind from rfl]
    split
    · exact pure h₁ rfl fun _ => closeIn_none
    · exact pure h₁ rfl fun _ => closeIn_none
    · exact pure h₁ rfl fun _ => closeIn_none
    · exact pure h₁ rfl fun _ => closeIn_none
    · exact pure h₁ rfl fun hin => closeIn_some (hv hin)
    · exact failAt _ _ _ _

theorem attributeOp (h : Faces lead x after s u) (head : Parser.AttributeHead)
    (hhead : s.Inside after → CloseIn lead x head.close) :
    Mirrors lead x after (Parser.attributeOp head)
      (Parser.attributeOp (shift (toStart lead) head)) s u (shift (toStart lead))
      fun head => CloseIn lead x head.close := by
  unfold Parser.attributeOp
  rw [show (shift (toStart lead) head).op = head.op from rfl,
    show (shift (toStart lead) head).close.isNone = head.close.isNone from Option.isNone_map]
  refine ite (fun _ => ?_) fun _ => pure h rfl hhead
  refine (mustMatchSmart ha h.toMeets _).bind h.steady fun v s₁ u₁ h₁ honward hv => ?_
  exact ite (fun _ => pure h₁ rfl fun hin => closeIn_some (hv hin).1) fun _ =>
    pure h₁ rfl fun hin => hhead (honward.inside hin)

theorem attributeValue (h : Faces lead x after s u) :
    Mirrors lead x after Parser.attributeValue Parser.attributeValue s u
      (Prod.map id (Prod.map id (shift (toStart lead)))) fun found =>
        CloseIn lead x found.2.2 := by
  unfold Parser.attributeValue
  refine (mustMatchSmart ha h.toMeets _).bind h.steady fun value s₁ u₁ h₁ _ _ => ?_
  refine (next ha h₁.toMeets false false).bind h₁.steady fun v s₂ u₂ h₂ _ hv => ?_
  refine ite (fun _ => pure h₂ rfl fun hin => closeIn_some (hv hin)) fun _ =>
    ite (fun _ => pure h₂ rfl fun _ => closeIn_none) fun _ => failAt _ _ _ _

variable (hlo : Text.byteLength lead ≤ t.location.offset)

include hlo

omit ha in
/-- The text of a modifier is cut out of the excerpt. -/
theorem sliced (h : Faces lead x after s u) {stop : Location} {kind : ModifierKind Selector}
    (hstop : s.Inside after → stop.offset ≤ Text.byteLength lead + Text.byteLength x) :
    Mirrors lead x after
      (Parser.slice t.location.offset stop.offset >>= fun text =>
        Pure.pure (⟨kind, text, t.location⟩ : Modifier Selector))
      (Parser.slice (shift (toStart lead) t).location.offset
        (shift (toStart lead) stop).offset >>= fun text =>
          Pure.pure ⟨Selector.moveKind (toStart lead) kind, text, (shift (toStart lead) t).location⟩)
      s u (Selector.moveModifier (toStart lead)) fun _ => True :=
  (slice h (fun _ => hlo) hstop (fun _ => rfl) fun _ => rfl).bind h.steady
    fun _ _ _ h₁ _ _ => pure h₁ rfl fun _ => trivial

omit ha in
theorem attributeEnd (h : Faces lead x after s u) (test : AttributeTest) (close : Token)
    (hclose : s.Inside after → close.LiesIn lead x) :
    Mirrors lead x after (Parser.attributeEnd t test close)
      (Parser.attributeEnd (shift (toStart lead) t) test (shift (toStart lead) close)) s u
      (Selector.moveModifier (toStart lead)) fun _ => True := by
  unfold Parser.attributeEnd
  exact (setPair h none).bind h.steady fun _ s₁ u₁ h₁ honward _ =>
    sliced hlo h₁ fun hin => (hclose (honward.inside hin)).le_hi

theorem attributeClose (h : Faces lead x after s u) (test : AttributeTest)
    (close : Option Token) (hclose : s.Inside after → CloseIn lead x close) :
    Mirrors lead x after (Parser.attributeClose t test close)
      (Parser.attributeClose (shift (toStart lead) t) test (shift (toStart lead) close)) s u
      (Selector.moveModifier (toStart lead)) fun _ => True := by
  cases close with
  | some close => exact attributeEnd hlo h test close fun hin => hclose hin close rfl
  | none =>
    exact (mustMatchSmart ha h.toMeets _).bind h.steady fun close s₁ u₁ h₁ _ hlies =>
      attributeEnd hlo h₁ test close fun hin => (hlies hin).1

theorem attributeRest (h : Faces lead x after s u) (head : Parser.AttributeHead)
    (hhead : s.Inside after → CloseIn lead x head.close) (name : String) :
    Mirrors lead x after (Parser.attributeRest t head name)
      (Parser.attributeRest (shift (toStart lead) t) (shift (toStart lead) head) name) s u
      (Selector.moveModifier (toStart lead)) fun _ => True := by
  unfold Parser.attributeRest
  refine (attributeOp ha h head hhead).bind h.steady fun head s₁ u₁ h₁ _ hhead₁ => ?_
  refine ite (fun _ => ?_) fun _ => attributeClose ha hlo h₁ _ head.close hhead₁
  exact (attributeValue ha h₁).bind h₁.steady fun found s₂ u₂ h₂ _ hfound =>
    attributeClose ha hlo h₂ _ found.2.2 hfound

theorem attributeTest (h : Meets lead x after s u) :
    Mirrors lead x after (Parser.attributeTest t) (Parser.attributeTest (shift (toStart lead) t))
      s u (Selector.moveModifier (toStart lead)) fun _ => True := by
  rw [Parser.attributeTest_eq, Parser.attributeTest_eq]
  refine (mustMatchSmart ha h _).bind h.steady fun first s₁ u₁ h₁ _ _ => ?_
  refine (setPair h₁ _).bind h₁.steady fun _ s₂ u₂ h₂ _ _ => ?_
  refine (attributeHead ha h₂ first).bind h₂.steady fun head s₃ u₃ h₃ _ hhead => ?_
  unfold Parser.attributeNamed
  rw [show (shift (toStart lead) head).name = head.name from rfl]
  cases head.name with
  | some name => exact attributeRest ha hlo h₃ head hhead name
  | none =>
    exact (mustMatch ha h₃.toMeets _).bind h₃.steady fun name s₄ u₄ h₄ honward _ =>
      attributeRest ha hlo h₄ head (fun hin => hhead (honward.inside hin)) name.text

end Reading

/-! ### Pseudo-classes -/

section Reading

variable (ha : Fenced after) (hgroup : Echoing group)

include ha hgroup

/-- A list of selectors in an argument. -/
theorem selectorArgs (h : Meets lead x after s u) (name : String) :
    Mirrors lead x after (Parser.selectorArgs group name) (Parser.selectorArgs group name) s u
      (shift (toStart lead)) fun _ => True := by
  intro list s' hrun
  obtain ⟨hlist, hclose⟩ := Parser.selectorArgs_eq_ok.mp hrun
  refine ⟨hgroup.onward h.steady hlist hclose, fun hin => ?_⟩
  obtain ⟨u', hlist', hlevel, hsource⟩ := hgroup.echo ha h hlist hclose hin
  refine ⟨trivial, u', Parser.selectorArgs_eq_ok.mpr ⟨hlist', ?_⟩, hlevel, hsource⟩
  rw [hlevel.current]
  exact hclose

/-- What follows a count. -/
theorem countRest (h : Meets lead x after s u) (name : String) (count : Option Nth) :
    Mirrors lead x after (Parser.countRest group name count) (Parser.countRest group name count)
      s u (Selector.moveArgs (toStart lead)) fun _ => True := by
  have harg : ∀ (first t : Token) {s₁ u₁ : State}, Faces lead x after s₁ u₁ →
      Mirrors lead x after (Parser.countArg group name count first t)
        (Parser.countArg group name count (shift (toStart lead) first) (shift (toStart lead) t))
        s₁ u₁ (Selector.moveArgs (toStart lead)) fun _ => True := by
    intro first t s₁ u₁ h₁
    cases count with
    | some count =>
      refine ite (fun _ => ?_) fun _ => ite (fun _ => pure h₁ rfl fun _ => trivial) fun _ =>
        failAt _ _ _ _
      refine (selectorArgs ha hgroup h₁.toMeets name).bind h₁.steady fun list s₂ u₂ h₂ _ _ =>
        pure h₂ ?_ fun _ => trivial
      exact congrArg (PseudoArgs.nth count) (Selector.moveAll_eq_map _ list)
    | none => exact ite (fun _ => pure h₁ rfl fun _ => trivial) fun _ => failAt _ _ _ _
  unfold Parser.countRest
  refine (next ha h false true).bind h.steady fun first s₁ u₁ h₁ _ _ => ?_
  rw [show (shift (toStart lead) first).kind = first.kind from rfl]
  refine ite (fun _ => ?_) fun _ => harg first first h₁
  exact (next ha h₁.toMeets false false).bind h₁.steady fun t s₂ u₂ h₂ _ _ => harg first t h₂

/-- **A count in an argument**, and what it counts among. The bracket at the end
is what shows that the count is the same. -/
theorem countArgs (h : Meets lead x after s u) (name : String) :
    Mirrors lead x after (Parser.countArgs group name) (Parser.countArgs group name) s u
      (Selector.moveArgs (toStart lead)) fun _ => True := by
  rw [Parser.countArgs_eq]
  intro args s' hrun
  obtain ⟨count, s₁, ⟨⟩, hrest⟩ := Parser.bind_eq_ok.mp hrun
  have hsteady := (State.onward_afterNth h.steady.bare).steady h.steady
  have honward := (countRest Lexeme.fenced_blank hgroup (.outside hsteady) name _ _ _ hrest).1
  refine ⟨(State.onward_afterNth h.steady.bare).trans honward, fun hin => ?_⟩
  obtain ⟨y, hy⟩ := Parser.countRest_shuts hgroup hsteady hrest
  obtain ⟨hcount, hlevel, hsource⟩ := h.afterNth ha hy hin
  have hmeets : Faces lead x after s.afterNth u.afterNth :=
    .of_level hsteady (fun _ => hlevel) fun _ => hsource
  obtain ⟨-, u', hrest', hlevel'⟩ := (countRest ha hgroup hmeets.toMeets name _ _ _ hrest).2 hin
  refine ⟨trivial, u', Parser.bind_eq_ok.mpr ⟨u.stream.readNth.1, u.afterNth, rfl, ?_⟩, hlevel'⟩
  rw [hcount]
  exact hrest'

theorem pseudoArgs (h : Faces lead x after s u) (name : String) :
    Mirrors lead x after (Parser.pseudoArgs group name) (Parser.pseudoArgs group name) s u
      (Selector.moveArgs (toStart lead)) fun _ => True := by
  unfold Parser.pseudoArgs
  refine ite (fun _ => countArgs ha hgroup h.toMeets name) fun _ => ite (fun _ => ?_) fun _ => ?_
  · refine (selectorArgs ha hgroup h.toMeets name).bind h.steady fun list s₁ u₁ h₁ _ _ =>
      pure h₁ ?_ fun _ => trivial
    exact congrArg PseudoArgs.selectors (Selector.moveAll_eq_map _ list)
  · refine (expr ha h _ _).bind h.steady fun value s₁ u₁ h₁ _ _ => ?_
    refine (current h₁).bind h₁.steady fun close s₂ u₂ h₂ _ _ => ?_
    exact ite (fun _ => pure h₂ rfl fun _ => trivial) fun _ =>
      of_failure fun _ _ => Parser.failAt_bind_ne_ok

variable (hlo : Text.byteLength lead ≤ t.location.offset)

include hlo

omit ha hgroup in
theorem pseudoEnd (h : Faces lead x after s u) (colons : Nat) (name : String)
    (args : Option (PseudoArgs Selector)) :
    Mirrors lead x after (Parser.pseudoEnd t colons name args)
      (Parser.pseudoEnd (shift (toStart lead) t) colons name
        (Selector.moveArgs? (toStart lead) args)) s u
      (Selector.moveModifier (toStart lead)) fun _ => True :=
  (current h).bind h.steady fun _ _ _ h₁ _ hlast =>
    sliced hlo h₁ fun hin => (hlast hin).le_hi

/-- A pseudo-class or pseudo-element after its colons. -/
theorem pseudoRest (h : Meets lead x after s u) (colons : Nat) :
    Mirrors lead x after (Parser.pseudoRest group t colons)
      (Parser.pseudoRest group (shift (toStart lead) t) colons) s u
      (Selector.moveModifier (toStart lead)) fun _ => True := by
  unfold Parser.pseudoRest
  refine (mustMatch ha h _).bind h.steady fun name s₁ u₁ h₁ _ _ => ?_
  rw [show (shift (toStart lead) name).kind = name.kind from rfl]
  refine ite (fun _ => pseudoEnd hlo h₁ colons name.lower none) fun _ => ?_
  refine (setPair h₁ _).bind h₁.steady fun _ s₂ u₂ h₂ _ _ => ?_
  refine (pseudoArgs ha hgroup h₂ name.name).bind h₂.steady fun args s₃ u₃ h₃ _ _ => ?_
  exact (setPair h₃ none).bind h₃.steady fun _ s₄ u₄ h₄ _ _ =>
    pseudoEnd hlo h₄ colons name.name (some args)

theorem pseudo (h : Meets lead x after s u) :
    Mirrors lead x after (Parser.pseudo group t) (Parser.pseudo group (shift (toStart lead) t)) s u
      (Selector.moveModifier (toStart lead)) fun _ => True := by
  intro m s' hrun
  rw [Parser.pseudo_apply group h.steady.bare] at hrun
  have hnext := onward_afterGet h.steady.bare false true
  split_ifs at hrun with hcolon
  · have honward := (pseudoRest Lexeme.fenced_blank hgroup (Nat.zero_le _)
      (.outside (hnext.1.steady h.steady)) 2 _ _ hrun).1
    refine ⟨hnext.1.trans honward, fun hin => ?_⟩
    have hin₁ := honward.inside hin
    obtain ⟨htrails, hsame, -⟩ := h.afterGet ha (hnext.1.inside hin₁) false true
    obtain ⟨-, u', hrun', hlevel⟩ :=
      (pseudoRest ha hgroup hlo htrails.toMeets 2 _ _ hrun).2 hin
    refine ⟨trivial, u', ?_, hlevel⟩
    rw [Parser.pseudo_apply group (h.beside (hnext.1.inside hin₁)).bare', if_pos]
    · exact hrun'
    · rw [hsame hin₁]
      exact hcolon
  · obtain ⟨honward, hmirror⟩ := pseudoRest ha hgroup hlo h 1 _ _ hrun
    refine ⟨honward, fun hin => ?_⟩
    have hin' := honward.inside hin
    obtain ⟨-, u', hrun', hlevel⟩ := hmirror hin
    obtain ⟨-, hsame, hend⟩ := h.afterGet ha hin' false true
    refine ⟨trivial, u', ?_, hlevel⟩
    rw [Parser.pseudo_apply group (h.beside hin').bare', if_neg]
    · exact hrun'
    · by_cases hin₁ : (s.afterGet false true).Inside after
      · rw [hsame hin₁]
        exact hcolon
      · rw [hend hin₁]
        exact TokenKind.noConfusion

end Reading

end Mirrors

/-! ## Modifiers -/

namespace Parser

/-- The tokens a modifier can start with. -/
def modifierStart : List TokenKind := [.amp, .hash, .dot, .lBracket, .colon]

/-- A modifier of more than one token after the first. -/
def longModifier (group : GroupParser) (t : Token) : Parser (Modifier Selector) :=
  match t.kind with
  | .dot => do return ⟨.className, "." ++ (← mustMatch [.ident]).text, t.location⟩
  | .lBracket => attributeTest t
  | _ => pseudo group t

variable {group : GroupParser} {s s' : State} {t : Token} {m : Modifier Selector} {stop : Location}

/-- A token of another kind starts none. -/
theorem modifier?_of_other (h : modifierStart.contains t.kind = false) :
    modifier? group t = pure none := by
  unfold modifier?
  split <;> first
    | rfl
    | (rename_i hkind; rw [hkind] at h; cases h)

/-- **What the kind of a token says of the modifier it starts**: there is none,
it is all of it, or it is followed by the rest. -/
theorem modifier?_cases (group : GroupParser) (t : Token) :
    (modifierStart.contains t.kind = false ∧
      ∀ t' : Token, t'.kind = t.kind → modifier? group t' = pure none) ∨
    (∃ kind : ModifierKind Selector, (∀ δ, Selector.moveKind δ kind = kind) ∧
      ∀ t' : Token, t'.kind = t.kind →
        modifier? group t' = pure (some (⟨kind, t'.text, t'.location⟩, t'.stop))) ∨
    ∀ t' : Token, t'.kind = t.kind → modifier? group t' = (do
      let m ← longModifier group t'
      return some (m, (← current).stop)) := by
  cases hstart : modifierStart.contains t.kind with
  | false =>
    exact Or.inl ⟨rfl, fun t' ht' => modifier?_of_other (ht'.symm ▸ hstart)⟩
  | true =>
    refine Or.inr ?_
    have hmem := List.contains_iff_mem.mp hstart
    simp only [modifierStart, List.mem_cons, List.not_mem_nil, or_false] at hmem
    unfold modifier? longModifier
    rcases hmem with hkind | hkind | hkind | hkind | hkind <;> rw [hkind]
    · exact Or.inl ⟨.amp, fun _ => rfl, fun t' ht' => by rw [ht']⟩
    · exact Or.inl ⟨.id, fun _ => rfl, fun t' ht' => by rw [ht']⟩
    · refine Or.inr fun t' ht' => ?_
      rw [ht']
      simp only [bind_assoc, pure_bind]
    · exact Or.inr fun t' ht' => by rw [ht']
    · exact Or.inr fun t' ht' => by rw [ht']

/-- **Only a token that starts none** is followed by no modifier. -/
theorem modifier?_eq_none (h : modifier? group t s = (.ok none, s')) :
    modifierStart.contains t.kind = false ∧ s' = s := by
  rcases modifier?_cases group t with ⟨hother, hnone⟩ | ⟨kind, -, hshort⟩ | hlong
  · rw [hnone t rfl] at h
    cases h
    exact ⟨hother, rfl⟩
  · rw [hshort t rfl] at h
    cases h
  · rw [hlong t rfl] at h
    obtain ⟨m, s₁, -, h⟩ := bind_eq_ok.mp h
    cases h

/-- **A modifier after its first token**: whole tokens are read, up to where it
stops, and an excerpt that holds them gives the same modifier. -/
theorem modifier?_run (hgroup : Echoing group) (hs : s.Steady)
    (hstop : s.stream.reader.location = t.stop)
    (h : modifier? group t s = (.ok (some (m, stop)), s')) :
    Arrives (Sees t) s s' stop fun lead _ u u' => modifier? group (shift (toStart lead) t) u =
      (.ok (some (Selector.moveModifier (toStart lead) m, shift (toStart lead) stop)), u') := by
  rcases modifier?_cases group t with ⟨-, hnone⟩ | ⟨kind, hkind, hshort⟩ | hlong
  · rw [hnone t rfl] at h
    cases h
  · rw [hshort t rfl] at h
    cases h
    refine ⟨(Carries.refl hs fun lead x u => ?_).at_end fun hu _ => hu.1, hstop⟩
    rw [hshort (shift (toStart lead) t) rfl]
    show _ = (Except.ok (some (Modifier.mk (Selector.moveKind _ kind) _ _, _)), u)
    rw [hkind]
    rfl
  · have hmirrors : ∀ {lead x after : List Char} {u : State}, Fenced after →
        Text.byteLength lead ≤ t.location.offset → Meets lead x after s u →
        Mirrors lead x after (longModifier group t) (longModifier group (shift (toStart lead) t))
          s u (Selector.moveModifier (toStart lead)) fun _ => True := by
      intro lead x after u ha hlo hu
      unfold longModifier
      rw [show (shift (toStart lead) t).kind = t.kind from rfl]
      split
      · exact (Mirrors.mustMatch ha hu _).bind hs fun name _ _ h₁ _ _ =>
          .pure h₁ rfl fun _ => trivial
      · exact Mirrors.attributeTest ha hlo hu
      · exact Mirrors.pseudo ha hgroup hlo hu
    rw [hlong t rfl] at h
    obtain ⟨m', s₁, hm, h⟩ := bind_eq_ok.mp h
    cases h
    have honward := (hmirrors Lexeme.fenced_blank (Nat.zero_le _) (.outside hs) _ _ hm).1
    refine ⟨⟨honward, fun {lead x after u} ha ⟨hu, hlo⟩ hin => ?_⟩, honward.poised.flush⟩
    obtain ⟨-, u', hm', hlevel, hsource⟩ := (hmirrors ha hlo hu _ _ hm).2 hin
    refine ⟨u', ⟨honward.steady hs, fun _ => hlevel.toBeside, fun _ => hsource⟩, ?_⟩
    rw [hlong (shift (toStart lead) t) rfl]
    refine bind_eq_ok.mpr ⟨_, u', hm', ?_⟩
    show (Except.ok (some (_, u'.stream.current.stop)), u') = _
    rw [hlevel.current]
    rfl

end Parser

end Stylesheet
