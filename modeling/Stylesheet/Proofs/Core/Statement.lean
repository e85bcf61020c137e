import Stylesheet.Proofs.BalancedText
import Stylesheet.Proofs.Core.Prelude
import Stylesheet.Proofs.Core.Rule

/-!
# Blocks of rules

The body of a document holds rules and at-rules that are not known. As a
block it is read one of them at a time, as they are read at the top, up to
its brace. Nothing of what is reported on the way is a document, and the
text is balanced.
-/

/-!
## At-rules that are not known

An at-rule whose name is not known is passed over up to its semicolon or to
the end of its block. Whether the rest of a stylesheet is read or only its
documents are asked for makes no difference to where that is, only to the
warning.
-/

namespace Stylesheet

open Parse (State)
open Stylesheet.Parser

namespace Core

/-- The names of the at-rules that are known. -/
def knownRules : List String :=
  ["charset", "container", "counter-style", "document", "font-face", "font-palette-values",
    "import", "keyframes", "layer", "media", "namespace", "page", "property", "scope", "viewport",
    "supports"]

/-- **How an at-rule ends**: with a semicolon, or with a block of balanced
text. -/
inductive Ending where
  /-- A semicolon. -/
  | semicolon
  /-- A block. -/
  | block (body : List Char) (balanced : BalancedText false body)
      (inLine : body.all isInLine = true)

/-- The text of the end of an at-rule. -/
def Ending.chars : Ending → List Char
  | .semicolon => [';']
  | .block body _ _ => '\x7b' :: (body ++ ['\x7d'])

/-- **An at-rule that is not known.** What stands between its keyword and its
end has no braces and no semicolons outside of brackets. -/
structure Unknown where
  /-- The blanks before it. -/
  before : Gap
  /-- Its at-keyword. -/
  keyword : AtWord
  /-- Its name is not known. -/
  unknown : keyword.name ∉ knownRules
  /-- What stands before its end. -/
  prelude : List Char
  /-- A blank or a mark comes after the keyword. -/
  spaced : Ends prelude
  /-- It is balanced. -/
  flat : BalancedText true prelude
  /-- Its lines end in newlines. -/
  inLine : prelude.all isInLine = true
  /-- Its end. -/
  ending : Ending

/-- The text of an at-rule after its keyword. -/
def Unknown.tail (u : Unknown) : List Char := u.prelude ++ u.ending.chars

/-- The text of an at-rule. -/
def Unknown.chars (u : Unknown) : List Char :=
  u.before.chars ++ ('@' :: u.keyword.chars ++ u.tail)

variable {s : State} {a z : List Char} {l : List Token} {block : BlockParser}

/-! ## Tokens -/

/-- An at-keyword where it stands. -/
def AtWord.token (w : AtWord) (a : List Char) : Token := w.lexeme.after a ('@' :: w.chars)

/-- **The next token is an at-keyword**, after blanks. -/
theorem next_at (p : Bool) (g : Gap) (w : AtWord) (h : Ends z) :
    next p false (s.on a (g.chars ++ ('@' :: w.chars ++ z)) l []) =
      (.ok (w.token (a ++ g.chars)), s.on (a ++ g.chars ++ '@' :: w.chars) z
        (w.token (a ++ g.chars) :: l.take 4) []) :=
  next_on g (.cons (by decide)) (significant_at w h) rfl

/-- What follows the at-keyword. -/
theorem Unknown.ends_tail (u : Unknown) : Ends (u.tail ++ z) := by
  have hprelude := u.spaced
  intro c hc
  unfold Unknown.tail at hc
  cases hchars : u.prelude with
  | nil =>
    rw [hchars] at hc
    cases hending : u.ending with
    | semicolon =>
      rw [hending] at hc
      obtain rfl : ';' = c := Option.some.inj hc
      rfl
    | block body =>
      rw [hending] at hc
      obtain rfl : '\x7b' = c := Option.some.inj hc
      rfl
  | cons d cs =>
    rw [hchars] at hc hprelude
    exact hprelude c hc

/-! ## Passing over -/

/-- **The end of an at-rule** is where a walk at its level ends. -/
theorem Ending.extent (e : Ending) (z : List Char) :
    Recovery.extent [] none 0 (e.chars ++ z) = e.chars.length := by
  cases e with
  | semicolon => rfl
  | block body hbalanced hinLine =>
    have hopen := Recovery.extent_open [] (body ++ '\x7d' :: z) (o := '\x7b') rfl
      (show Recovery.closes none '\x7b' = false from rfl)
    have hbody := hbalanced.extent [none] ('\x7d' :: z)
      (show IsLevel false (some '\x7d') from rfl) (by simp)
    have hclose : Recovery.extent [none] (some '\x7d') 0 ('\x7d' :: z) = 1 := rfl
    rw [hbody, hclose] at hopen
    rw [show (Ending.block body hbalanced hinLine).chars ++ z = '\x7b' :: (body ++ '\x7d' :: z) by
      simp [Ending.chars], hopen]
    simp [Ending.chars]
    omega

/-- **The rest of an at-rule is passed over** to its end. -/
theorem Unknown.skipBroken (u : Unknown) :
    Stream.skipBroken ⟨Reader.on a (u.tail ++ z), l, []⟩ false =
      ⟨Reader.on (a ++ u.tail) z, [], []⟩ := by
  have hstar : (u.ending.chars ++ z).head? ≠ some '*' := by
    cases u.ending <;> simp [Ending.chars]
  have hflat : IsLevel true none := rfl
  have hextent : Recovery.extent [] none 0 (u.tail ++ z) = u.tail.length := by
    rw [Unknown.tail, List.append_assoc, u.flat.extent [] _ hflat hstar, u.ending.extent,
      List.length_append]
  show (⟨(Reader.on a (u.tail ++ z)).advance (Recovery.extent [] none 0 (u.tail ++ z)), [], []⟩ :
    Stream) = _
  rw [hextent, Reader.advance_on]

/-- An at-rule with a name that is not known. -/
theorem namedRule_unknown {t : Token} (h : t.name ∉ knownRules) :
    namedRule block t = unknownRule t := by
  unfold namedRule
  split
  case h_17 => rfl
  all_goals
    next hname =>
    rw [hname] at h
    exact absurd (by decide) h

/-- **An at-rule that is not known** is passed over, with a warning or
without. -/
theorem atRule_unknown (block : BlockParser) (u : Unknown) (hopen : Open s) {t : Token}
    (ht : t.name = u.keyword.name) (top : Bool) :
    ∃ events, (∀ e ∈ events, ∃ message, e.kind = .warning message) ∧
      atRule block t top (s.on a (u.tail ++ z) l []) =
        (.ok (), (reporting s s.validator events).on (a ++ u.tail) z [] []) := by
  have hmove : ∀ s : State, moveStream (·.skipBroken false) (s.on a (u.tail ++ z) l []) =
      (.ok (), s.on (a ++ u.tail) z [] []) := fun s =>
    congrArg (fun stream =>
      ((.ok (), { s with stream := stream }) : Except Diagnostic Unit × State))
      (u.skipBroken (a := a) (z := z) (l := l))
  have hoptions : ∀ {s : State} (f : Options → Parser Unit), (do f (← options) : Parser Unit)
      s = f s.options s := fun f => bind_ok (show options _ = (.ok _, _) from rfl)
  unfold atRule
  by_cases hskip : (top && s.options.topDocOnly && t.name != "document") = true
  · refine ⟨[], nofun, (hoptions _).trans ?_⟩
    rw [if_pos (show (top && (s.on a (u.tail ++ z) l []).options.topDocOnly && _) = true
      from hskip)]
    exact hmove s
  · let e : Event := ⟨.warning ("Unknown @ rule: " ++ t.text ++ "."), t.location⟩
    have hwarn := fire_apply (s := s.on a (u.tail ++ z) l []) hopen.deferred hopen.store
      e.kind e.location
    refine ⟨[e], fun f hf => ⟨_, congrArg Event.kind (List.mem_singleton.mp hf)⟩,
      (hoptions _).trans ?_⟩
    rw [if_neg (show ¬(top && (s.on a (u.tail ++ z) l []).options.topDocOnly && _) = true
        from hskip),
      namedRule_unknown (ht ▸ u.unknown)]
    unfold unknownRule
    refine (hoptions _).trans ?_
    rw [show (s.on a (u.tail ++ z) l []).options.strict = false from hopen.strict,
      if_neg Bool.false_ne_true]
    refine (show _ = _ from bind_ok hwarn).trans ?_
    exact hmove (reporting s s.validator [e])

theorem Unknown.all_isInLine (u : Unknown) : u.chars.all isInLine = true := by
  have hending : u.ending.chars.all isInLine = true := by
    cases u.ending with
    | semicolon => rfl
    | block body hbalanced hinLine =>
      rw [Ending.chars, List.all_cons, List.all_append, hinLine]
      rfl
  have hat : isInLine '@' = true := by decide
  simp [Unknown.chars, Unknown.tail, u.inLine, hending, hat, -List.all_eq_true]

/-- No filter function begins in a rule, whatever follows it. -/
def Rule.Unfiltered (r : Rule) : Prop :=
  ∀ d ∈ r.body.declarations, String.ofList d.name.chars ≠ "progid"

theorem Rule.Unfiltered.noFilter {r : Rule} (h : r.Unfiltered) (z : List Char) :
    r.body.NoFilter z := fun d hd hname => absurd hname (h d hd)

/-- **A rule or an at-rule that is not known.** -/
inductive Statement where
  /-- A rule. -/
  | rule (x : Rule) (unfiltered : x.Unfiltered)
  /-- An at-rule. -/
  | unknown (u : Unknown)

/-- The blanks before a statement. -/
def Statement.before : Statement → Gap
  | .rule x _ => x.heads.before
  | .unknown u => u.before

/-- The text of a statement. -/
def Statement.chars : Statement → List Char
  | .rule x _ => x.chars
  | .unknown u => u.chars

/-- The text of statements, one after the other, and blanks at the end. -/
def statementChars (statements : List Statement) (after : Gap) : List Char :=
  statements.flatMap (·.chars) ++ after.chars

/-! ## Balanced text -/

/-- **A class of characters without brackets, quotes, backslash and slash**
makes balanced text. -/
theorem balanced_of {p : Char → Bool}
    (hp : ['(', ')', '[', ']', '\x7b', '\x7d', '"', '\'', '\\', '/'].all (fun c => !p c) = true)
    {cs : List Char} (h : ∀ c ∈ cs, p c = true) : BalancedText false cs := by
  refine .of_plain fun c hc => ?_
  have hne : ∀ d ∈ ['(', ')', '[', ']', '\x7b', '\x7d', '"', '\'', '\\', '/'], c ≠ d := by
    rintro d hd rfl
    have hnot := List.all_eq_true.mp hp _ hd
    rw [h _ hc] at hnot
    cases hnot
  simp only [List.mem_cons, List.not_mem_nil, or_false, forall_eq_or_imp, forall_eq] at hne
  obtain ⟨hne₁, hne₂, hne₃, hne₄, hne₅, hne₆, hne₇, hne₈, hne₉, hne₁₀⟩ := hne
  refine ⟨?_, hne₁₀, nofun⟩
  simp [isPlain, isBracket, isClosing, *]

theorem balanced_of_isInk {cs : List Char} (h : cs.all isInk = true) : BalancedText false cs :=
  balanced_of (by decide) (List.all_eq_true.mp h)

/-- Ink starts no comment. -/
theorem head_ne_star {cs ds : List Char} (h : cs.all isInk = true) (hds : ds.head? ≠ some '*') :
    (cs ++ ds).head? ≠ some '*' := by
  cases cs with
  | nil => exact hds
  | cons c cs =>
    intro hhead
    obtain rfl : c = '*' := Option.some.inj hhead
    exact absurd (List.all_eq_true.mp h _ List.mem_cons_self) (by decide)

theorem Ending.balanced (e : Ending) : BalancedText false e.chars := by
  cases e with
  | semicolon => exact .plain (by decide) (by decide) (by decide) .nil
  | block body hbody => exact .group rfl (by decide) hbody .nil

/-- **The text of a statement is balanced.** -/
theorem Statement.balanced (x : Statement) : BalancedText false x.chars := by
  cases x with
  | rule x hx =>
    have hbody : BalancedText false ('\x7b' :: (x.body.ink ++ ['\x7d'])) :=
      .group rfl (by decide) (balanced_of_isInk x.body.all_isInk) .nil
    have hchars : (Statement.rule x hx).chars =
        x.heads.ink ++ '\x7b' :: (x.body.ink ++ ['\x7d']) := by
      simp [Statement.chars, Rule.chars, Heads.chars_eq, Body.chars_eq]
    rw [hchars]
    exact (balanced_of_isInk x.heads.all_isInk).append hbody (by simp)
  | unknown u =>
    have hkeyword : BalancedText false u.keyword.chars :=
      balanced_of (by decide) u.keyword.isNameChar
    have htail : BalancedText false u.tail := u.flat.loosen.append u.ending.balanced (by
      cases u.ending <;> simp [Ending.chars])
    have hstar : u.tail.head? ≠ some '*' := fun hhead =>
      absurd (u.ends_tail (z := []) '*' (by simpa using hhead)) (by decide)
    have hat : BalancedText false ('@' :: u.keyword.chars ++ u.tail) :=
      .plain (by decide) (by decide) (by simp) (hkeyword.append htail hstar)
    exact (balanced_of_isInk u.before.all_isInk).append hat (by simp)

theorem head_statementChars (statements : List Statement) (after : Gap) :
    (statementChars statements after).head? ≠ some '*' := by
  cases statements with
  | nil =>
    have hhead := head_ne_star after.all_isInk (show [].head? ≠ some '*' by simp)
    rwa [List.append_nil] at hhead
  | cons x statements =>
    rw [statementChars, List.flatMap_cons, List.append_assoc]
    cases x with
    | rule x hx =>
      rw [show (Statement.rule x hx).chars = x.heads.ink ++ '\x7b' :: x.body.chars by
        simp [Statement.chars, Rule.chars, Heads.chars_eq], List.append_assoc]
      exact head_ne_star x.heads.all_isInk (by simp)
    | unknown u =>
      rw [Statement.chars, Unknown.chars, List.append_assoc]
      exact head_ne_star u.before.all_isInk (by simp)

/-- **The text of a body is balanced.** -/
theorem balanced_statementChars (statements : List Statement) (after : Gap) :
    BalancedText false (statementChars statements after) := by
  induction statements with
  | nil => exact balanced_of_isInk after.all_isInk
  | cons x statements ih =>
    rw [statementChars, List.flatMap_cons, List.append_assoc]
    exact x.balanced.append ih (head_statementChars statements after)

variable {s s₁ s₂ : State} {a z : List Char} {l : List Token} {t : Token} {i : BlockParser}
  {y : BlockShape} {r : BlockSoFar}

/-! ## Reading -/

/-- **One item of a block** that is read to its end. -/
theorem blockStep_of_item (hnext : next true false s = (.ok t, s₁))
    (ht : t.kind ∈ [TokenKind.ident, .dot, .hash, .at])
    (hkey : (r.previous == some (t.location.offset, t.kind)) = false)
    (hitem : blockItem i y t s₁ = (.ok true, s₂)) :
    blockStep i y false r s =
      (.ok (.yield ⟨true, some (t.location.offset, t.kind), r.close⟩), s₂) := by
  have hstep : blockItemStep i y r t s₁ =
      (.ok (.yield ⟨true, some (t.location.offset, t.kind), r.close⟩), s₂) := by
    unfold blockItemStep
    dsimp only
    rw [if_neg (Bool.eq_false_iff.mp hkey)]
    refine (show _ = _ from bind_ok (attempt_ok hitem)).trans ?_
    show (Except.ok (ForInStep.yield (⟨r.child || true, _, _⟩ : BlockSoFar)), _) = _
    rw [Bool.or_true]
  have hgo : blockStep i y false r s = blockItemStep i y r t s₁ := by
    refine (show _ = _ from bind_ok hnext).trans ?_
    simp only [List.mem_cons, List.not_mem_nil, or_false] at ht
    rcases ht with hkind | hkind | hkind | hkind <;> rw [hkind] <;> rfl
  exact hgo.trans hstep

/-- The shape of a block without events, after its brace. -/
abbrev plainShape : BlockShape := { opened := true }

/-- **A statement in a body.** -/
theorem blockStep_statement (x : Statement) (hdeep : Deep s.budget i) (hopen : Open s)
    (hinStyle : s.inStyle = 0) (hbudget : x.chars.length + 1 < s.budget) (hahead : Ahead r a) :
    ∃ (validator : Validator) (events : List Event) (l' : List Token) (kind : TokenKind),
      Silent events.reverse ∧
      blockStep i plainShape false r (s.on a (x.chars ++ z) l []) =
        (.ok (.yield ⟨true, some ((Location.start.advance (a ++ x.before.chars)).offset, kind),
            r.close⟩),
          (reporting s validator events).on (a ++ x.chars) z l' []) := by
  cases x with
  | rule x hx =>
    obtain ⟨t, s₁, hnext, hfirst⟩ := next_heads (s := s) (a := a) (l := l)
      (z := x.body.chars ++ z) x.heads
    rw [← List.append_assoc, show x.heads.chars ++ x.body.chars = x.chars from rfl] at hnext
    have hall : ∀ kind ∈ [TokenKind.ident, .dot, .hash], (kind == .uvar) = false ∧
        (kind == .at) = false ∧ (kind == .star) = false ∧
        kind ∈ [TokenKind.ident, .dot, .hash, .at] := by decide
    obtain ⟨huvar, hat, hstar, hkind⟩ := hall _ hfirst.kind
    obtain ⟨validator, events, l', hsays, hrule⟩ := styleRule_on hdeep x
      (hx.noFilter z) hopen hinStyle hbudget (hnext false) huvar
    have hitem : blockItem i plainShape t s₁ =
        (.ok true, (reporting s validator events).on (a ++ x.chars) z l' []) := by
      have hstyle : decide (s₁.inStyle > 0) = false := by
        rw [eq_of_next (hnext false)]
        exact decide_eq_false (by simp [Parse.State.on, hinStyle])
      unfold blockItem
      refine (bind_ok (show state s₁ = (.ok s₁, s₁) from rfl)).trans ?_
      dsimp only
      rw [hat, if_neg Bool.false_ne_true, hstyle]
      refine (bind_ok (show options s₁ = (.ok s₁.options, s₁) from rfl)).trans ?_
      rw [hstar, hfirst.isCustomIdent]
      exact bind_ok hrule
    refine ⟨validator, events, l', t.kind, x.silent hsays.gists_eq, ?_⟩
    rw [show (Statement.rule x hx).before = x.heads.before from rfl, ← hfirst.location]
    refine blockStep_of_item (hnext true) hkind ?_ hitem
    rw [hfirst.location]
    exact hahead.ne x.heads.before.chars t.kind
  | unknown u =>
    let t := u.keyword.token (a ++ u.before.chars)
    have hnext : next true false (s.on a (u.before.chars ++ ('@' :: u.keyword.chars ++
        (u.tail ++ z))) l []) = _ := next_at true u.before u.keyword u.ends_tail
    obtain ⟨events, hwarnings, hrule⟩ := atRule_unknown i (s := s) (a := a ++ u.before.chars ++
      '@' :: u.keyword.chars) (z := z) (l := t :: l.take 4) u hopen
      (show t.name = u.keyword.name from rfl) false
    refine ⟨s.validator, events, [], .at,
      .of_warnings fun e he => hwarnings e (List.mem_reverse.mp he), ?_⟩
    have hitem : blockItem i plainShape t (s.on (a ++ u.before.chars ++
        '@' :: u.keyword.chars) (u.tail ++ z) (t :: l.take 4) []) = (.ok true,
          (reporting s s.validator events).on (a ++ u.before.chars ++ '@' :: u.keyword.chars ++
            u.tail) z [] []) := by
      unfold blockItem
      refine (bind_ok (show state _ = (.ok _, _) from rfl)).trans ?_
      dsimp only
      rw [if_pos (show (t.kind == .at) = true from rfl), Bool.false_and, if_neg Bool.false_ne_true]
      exact bind_ok hrule
    have hstep := blockStep_of_item hnext
      (show TokenKind.at ∈ [TokenKind.ident, .dot, .hash, .at] by decide)
      (hahead.ne u.before.chars .at) hitem
    rw [show (Statement.unknown u).chars ++ z =
        u.before.chars ++ ('@' :: u.keyword.chars ++ (u.tail ++ z)) by
      simp [Statement.chars, Unknown.chars],
      show a ++ (Statement.unknown u).chars =
        a ++ u.before.chars ++ '@' :: u.keyword.chars ++ u.tail by
      simp [Statement.chars, Unknown.chars]]
    exact hstep

theorem Statement.length_pos (x : Statement) : 0 < x.chars.length := by
  cases x with
  | rule x hx => exact x.length_pos
  | unknown u =>
    simp only [Statement.chars, Unknown.chars, List.cons_append, List.length_append,
      List.length_cons]
    omega

/-- **The next statement starts further on.** -/
theorem Statement.ahead (x : Statement) (a : List Char) (kind : TokenKind) {close : Option Token} :
    Ahead ⟨true, some ((Location.start.advance (a ++ x.before.chars)).offset, kind), close⟩
      (a ++ x.chars) := by
  intro key hkey
  obtain rfl := Option.some.inj hkey
  have hlt : Text.byteLength x.before.chars < Text.byteLength x.chars := by
    have hbrace := Char.utf8Size_pos '\x7b'
    have hcomma := Char.utf8Size_pos ','
    have hat := Char.utf8Size_pos '@'
    cases x with
    | rule x hx =>
      rw [Statement.before, Statement.chars, Rule.chars, Text.byteLength_append]
      cases x.heads <;>
        simp only [Heads.before, Heads.chars, Text.byteLength_append, Text.byteLength_cons] <;>
        omega
    | unknown u =>
      simp only [Statement.before, Statement.chars, Unknown.chars, List.cons_append,
        Text.byteLength_append, Text.byteLength_cons]
      omega
  rw [Location.offset_advance_start, Text.byteLength_append, Text.byteLength_append]
  omega

/-- **The statements of a body**, up to and including its brace. -/
theorem blockStatements_on (statements : List Statement) (after : Gap) {n : Nat}
    (hn : (statementChars statements after).length < n) (hdeep : Deep s.budget i) (hopen : Open s)
    (hinStyle : s.inStyle = 0) (hbudget : (statementChars statements after).length + 1 < s.budget)
    (hahead : Ahead r a) :
    ∃ (validator : Validator) (events : List Event) (child : Bool)
      (previous : Option (Nat × TokenKind)) (l' : List Token),
      Silent events.reverse ∧
      rounds (blockStep i plainShape false) n r
          (s.on a (statementChars statements after ++ '\x7d' :: z) l []) =
        (.ok ⟨child, previous,
            some (markAt '\x7d' .rBrace (a ++ statementChars statements after))⟩,
          (reporting s validator events).on (a ++ statementChars statements after ++ ['\x7d']) z l'
            []) := by
  induction statements generalizing s a l r n with
  | nil =>
    obtain ⟨n, rfl⟩ : ∃ k, n = k + 1 := ⟨n - 1, by omega⟩
    exact ⟨s.validator, [], r.child, r.previous, _, .nil, rounds_done (blockStep_brace after)⟩
  | cons x statements ih =>
    have hchars : statementChars (x :: statements) after =
        x.chars ++ statementChars statements after := by
      simp [statementChars]
    have hpos := x.length_pos
    rw [hchars, List.length_append] at hn hbudget
    obtain ⟨n, rfl⟩ : ∃ k, n = k + 1 := ⟨n - 1, by omega⟩
    obtain ⟨validator₁, events₁, l₁, kind, hsilent₁, hstep⟩ := blockStep_statement (a := a) (l := l)
      (z := statementChars statements after ++ '\x7d' :: z) (r := r) x hdeep hopen hinStyle
      (by omega) hahead
    obtain ⟨validator, events, child, previous, l', hsilent, hrounds⟩ :=
      ih (s := reporting s validator₁ events₁) (a := a ++ x.chars) (l := l₁)
        (r := ⟨true, _, r.close⟩) (n := n) (by omega) hdeep (hopen.reporting _ _) hinStyle
        (show _ < s.budget by omega) (x.ahead a kind)
    refine ⟨validator, events ++ events₁, child, previous, l', ?_, ?_⟩
    · rw [List.reverse_append]
      exact hsilent₁.append hsilent
    · rw [hchars, ← List.append_assoc a, List.append_assoc x.chars]
      refine (rounds_yield hstep).trans (hrounds.trans ?_)
      rw [reporting_reporting]

/-! ## Lines -/

theorem Statement.all_isInLine (x : Statement) : x.chars.all isInLine = true := by
  cases x with
  | rule x hx => exact Core.all_isInLine (by simp [Statement.chars, Rule.chars])
  | unknown u => exact u.all_isInLine

theorem all_isInLine_statementChars (statements : List Statement) (after : Gap) :
    (statementChars statements after).all isInLine = true := by
  rw [statementChars, List.all_append, after.all_isInLine, Bool.and_true, List.all_flatMap]
  exact List.all_eq_true.mpr fun x _ => x.all_isInLine

end Core

end Stylesheet
