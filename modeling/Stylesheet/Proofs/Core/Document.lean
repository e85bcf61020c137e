import Stylesheet.Proofs.Core.Statement

/-!
# Documents of the core language

The at-rule `@document` with addresses, and statements in its body. The body
is read, or it is passed over when only the documents are asked for; both
come to the same brace, since its text is balanced.
-/

namespace Stylesheet

open Parse (State)
open Stylesheet.Parser

namespace Core

/-! ## Documents as they are written -/

/-- The text of a function that selects documents, with the blanks around
it. -/
def Site.chars (x : Site) : List Char := x.before.chars ++ (x.uri ++ x.after.chars)

/-- **The functions of a document** with commas between them, up to and
including the opening brace. -/
inductive Sites where
  /-- The last function. -/
  | last (site : Site)
  /-- A function, and those after its comma. -/
  | more (site : Site) (rest : Sites)

/-- The text of functions. -/
def Sites.chars : Sites → List Char
  | .last site => site.chars ++ ['\x7b']
  | .more site rest => site.chars ++ (',' :: rest.chars)

/-- The blanks before functions. -/
def Sites.before : Sites → Gap
  | .last site => site.before
  | .more site _ => site.before

/-- The texts of the functions by themselves. -/
def Sites.functions : Sites → List String
  | .last site => [String.ofList site.uri]
  | .more site rest => String.ofList site.uri :: rest.functions

/-- **A document.** -/
structure Document where
  /-- The blanks before it. -/
  before : Gap
  /-- Its at-keyword. -/
  keyword : AtWord
  /-- The keyword is that of documents, perhaps with a vendor's mark. -/
  name_keyword : keyword.name = "document"
  /-- Its functions. -/
  sites : Sites
  /-- There are blanks between the keyword and the first of them. -/
  spaced : sites.before.chars ≠ []
  /-- What its body holds. -/
  statements : List Statement
  /-- The blanks after them. -/
  after : Gap

/-- The text of the body of a document. -/
def Document.body (d : Document) : List Char := statementChars d.statements d.after

/-- The text of a document. -/
def Document.chars (d : Document) : List Char :=
  d.before.chars ++ ('@' :: d.keyword.chars ++ (d.sites.chars ++ (d.body ++ ['\x7d'])))

/-- Blanks come after the keyword. -/
theorem Document.ends_sites (d : Document) {z : List Char} : Ends (d.sites.chars ++ z) := by
  intro c hc
  have hchars : ∃ cs, d.sites.chars = d.sites.before.chars ++ cs := by
    cases d.sites with
    | last x => exact ⟨_, List.append_assoc _ _ _⟩
    | more x xs => exact ⟨_, List.append_assoc _ _ _⟩
  obtain ⟨cs, hchars⟩ := hchars
  obtain ⟨b, blanks, hblanks⟩ := List.exists_cons_of_ne_nil d.spaced
  rw [hchars, hblanks] at hc
  obtain rfl : b = c := Option.some.inj hc
  obtain rfl | rfl := d.sites.before.blank b (hblanks ▸ List.mem_cons_self) <;> rfl

variable {s : State} {a z : List Char} {l : List Token}

/-! ## The functions of a document -/

/-- **The next token is a function** with an address. -/
theorem next_site (x : Site) :
    next false false (s.on a (x.before.chars ++ (x.uri ++ z)) l []) =
      (.ok (x.lexeme.after (a ++ x.before.chars) x.uri),
        s.on (a ++ x.before.chars ++ x.uri) z
          (x.lexeme.after (a ++ x.before.chars) x.uri :: l.take 4) []) :=
  next_on x.before x.solid (significant_uri x) rfl

/-- **One more function**, up to the comma or brace after it. -/
theorem documentStep_of_comma (start : Token) (functions : List String) (x : Site)
    {comma : Option Token} {s₁ : State}
    (hcomma : matchSmart [.comma] (s.on (a ++ x.before.chars ++ x.uri) z
      (x.lexeme.after (a ++ x.before.chars) x.uri :: l.take 4) []) = (.ok comma, s₁)) :
    documentStep start functions (s.on a (x.before.chars ++ (x.uri ++ z)) l []) =
      (.ok (if comma.isNone then .done (String.ofList x.uri :: functions)
        else .yield (String.ofList x.uri :: functions)), s₁) := by
  have hsite := matchSmart_some [.function, .ident, .uri] (next_site (s := s) (a := a)
    (z := z) (l := l) x) rfl rfl
  unfold documentStep
  refine (bind_ok hsite).trans ?_
  dsimp only
  rw [if_pos (show ((x.lexeme.after (a ++ x.before.chars) x.uri).kind == TokenKind.uri) = true
    from rfl), pure_bind]
  exact bind_ok hcomma

/-- **All functions of a document**, and its brace, which is taken back. -/
theorem documentSteps_on (xs : Sites) {n : Nat} (hn : xs.functions.length ≤ n) (start : Token)
    (functions : List String) :
    ∃ l' a', rounds (documentStep start) n functions
        (s.on a (xs.chars ++ z) l []) =
      (.ok (xs.functions.reverse ++ functions), s.on (a ++ xs.chars) z l'
        [markAt '\x7b' .lBrace a']) := by
  have hcomma : ([TokenKind.comma].contains .whitespace) = false := by decide
  induction xs generalizing a l n functions with
  | last x =>
    obtain ⟨n, rfl⟩ : ∃ k, n = k + 1 := ⟨n - 1, by simp [Sites.functions] at hn; omega⟩
    have hmark := matchSmart_none [.comma] (next_mark (s := s)
      (a := a ++ x.before.chars ++ x.uri) (z := z)
      (l := x.lexeme.after (a ++ x.before.chars) x.uri :: l.take 4) x.after
      (show ('\x7b', TokenKind.lBrace) ∈ marks by decide)) hcomma rfl
    have hstep := documentStep_of_comma start functions x hmark
    rw [show (Sites.last x).chars ++ z =
      x.before.chars ++ (x.uri ++ (x.after.chars ++ '\x7b' :: z)) by simp [Sites.chars, Site.chars],
      show a ++ (Sites.last x).chars = a ++ x.before.chars ++ x.uri ++ x.after.chars ++ ['\x7b'] by
        simp [Sites.chars, Site.chars]]
    exact ⟨_, _, rounds_done hstep⟩
  | more x xs ih =>
    obtain ⟨n, rfl⟩ : ∃ k, n = k + 1 := ⟨n - 1, by simp [Sites.functions] at hn; omega⟩
    have hmark := matchSmart_some [.comma] (next_mark (s := s)
      (a := a ++ x.before.chars ++ x.uri) (z := xs.chars ++ z)
      (l := x.lexeme.after (a ++ x.before.chars) x.uri :: l.take 4) x.after
      (show (',', TokenKind.comma) ∈ marks by decide)) hcomma rfl
    have hstep := documentStep_of_comma start functions x hmark
    obtain ⟨l', a', hrounds⟩ := ih (a := a ++ x.chars ++ [','])
      (l := markAt ',' .comma (a ++ x.before.chars ++ x.uri ++ x.after.chars) ::
        (x.lexeme.after (a ++ x.before.chars) x.uri :: l.take 4).take 4) (n := n)
      (by simpa [Sites.functions] using hn) (String.ofList x.uri :: functions)
    refine ⟨l', a', ?_⟩
    rw [show (Sites.more x xs).chars ++ z = x.before.chars ++ (x.uri ++ (x.after.chars ++
      ',' :: (xs.chars ++ z))) by simp [Sites.chars, Site.chars],
      show a ++ (Sites.more x xs).chars = a ++ x.chars ++ [','] ++ xs.chars by
        simp [Sites.chars]]
    refine (rounds_yield hstep).trans ?_
    simp only [Site.chars, Sites.functions, List.reverse_cons, List.append_assoc, List.cons_append,
      List.nil_append] at hrounds ⊢
    exact hrounds

/-! ## Bodies -/

/-- **A body that is passed over**, up to its brace. -/
theorem skipBroken_body {body : List Char} (h : BalancedText false body) (l : List Token) :
    Stream.skipBroken ⟨Reader.on a (body ++ '\x7d' :: z), l, []⟩ true =
      ⟨Reader.on (a ++ body) ('\x7d' :: z), [], []⟩ := by
  have hextent : Recovery.extent [] (some '\x7d') 0 (body ++ '\x7d' :: z) = body.length := by
    rw [h.extent [] _ (show IsLevel false (some '\x7d') from rfl) (by simp)]
    rfl
  show (⟨(Reader.on a (body ++ '\x7d' :: z)).advance (Recovery.extent [] (some '\x7d') 0
    (body ++ '\x7d' :: z)), [], []⟩ : Stream) = _
  rw [hextent, Reader.advance_on]

/-- The closing brace of a body. -/
abbrev Document.close (d : Document) (a : List Char) : Token := markAt '\x7d' .rBrace (a ++ d.body)

/-- **A body that is read**: its rules are reported. -/
theorem block_document (d : Document) (hopen : Open s)
    (hinStyle : s.inStyle = 0) (hbudget : d.body.length + 2 < s.budget) (start : Location) :
    ∃ (validator : Validator) (events : List Event) (empty : Bool) (l' : List Token),
      Silent events.reverse ∧
      block start plainShape (s.on a (d.body ++ '\x7d' :: z) l []) =
        (.ok ⟨d.close a, empty⟩,
          (reporting s validator events).on (a ++ d.body ++ ['\x7d']) z l' []) := by
  obtain ⟨k, hk⟩ : ∃ k, s.budget = k + 2 := ⟨s.budget - 2, by omega⟩
  obtain ⟨validator, events, child, previous, l', hsilent, hrounds⟩ := blockStatements_on (a := a)
    (s := { s with depth := s.depth + 1, inStyle := s.inStyle + 0 }) (z := z) (l := l)
    (i := blockTo (k + 1)) (r := ⟨false, none, none⟩) d.statements d.after (n := s.budget)
    (show d.body.length < s.budget by omega) (deep_blockTo _ _)
    ⟨hopen.strict, hopen.deferred, hopen.store⟩ hinStyle
    (show d.body.length + 1 < s.budget by omega) nofun
  have hloop := attempt_ok (show repeating _ (blockStep (blockTo (k + 1))
    plainShape false) (State.on { s with depth := s.depth + 1, inStyle := s.inStyle + 0 } a _ l
      []) = _ from hrounds)
  refine ⟨validator, events, !child, l', hsilent, ?_⟩
  show blockTo s.budget start plainShape _ = _
  rw [hk]
  refine (show _ = _ from bind_ok (show blockItems (blockTo (k + 1)) plainShape
    false _ = _ from ?_)).trans rfl
  refine (show _ = _ from bind_ok (show update _ _ = (.ok (), _) from rfl)).trans ?_
  exact (show _ = _ from bind_ok hloop).trans rfl

/-- **A body that is passed over**: nothing is reported of it. -/
theorem skip_document (d : Document) :
    (do
      moveStream (·.skipBroken true)
      return ⟨← mustMatchSmart [.rBrace], false⟩ : Parser BlockEnd)
        (s.on a (d.body ++ '\x7d' :: z) l []) =
      (.ok ⟨d.close a, false⟩, s.on (a ++ d.body ++ ['\x7d']) z [d.close a] []) := by
  have hskip := skipBroken_body (a := a) (z := z) (balanced_statementChars d.statements d.after) l
  have hnext : next false false (s.on (a ++ d.body)
      (noGap.chars ++ '\x7d' :: z) [] []) = _ :=
    next_mark noGap (show ('\x7d', TokenKind.rBrace) ∈ marks by decide)
  rw [show noGap.chars = [] from rfl, List.nil_append, List.append_nil] at hnext
  have hmust := mustMatchSmart_of_next [.rBrace] hnext (by decide) rfl
  refine (bind_ok (show moveStream (·.skipBroken true) _ =
    (.ok (), s.on (a ++ d.body) ('\x7d' :: z) [] []) from ?_)).trans (bind_ok hmust)
  exact congrArg (fun stream => (Except.ok (), { s with stream := stream })) hskip

/-- **The body of a document** ends at its brace, whether it is read or
passed over. -/
theorem documentBody_on (d : Document) (hopen : Open s)
    (hinStyle : s.inStyle = 0) (hbudget : d.body.length + 2 < s.budget) (start : Token) :
    ∃ (validator : Validator) (events : List Event) (empty : Bool) (l' : List Token),
      Silent events.reverse ∧
      documentBody block start (s.on a (d.body ++ '\x7d' :: z) l []) =
        (.ok ⟨d.close a, empty⟩,
          (reporting s validator events).on (a ++ d.body ++ ['\x7d']) z l' []) := by
  have hoptions : ∀ f : Options → Parser BlockEnd, (do f (← options) : Parser BlockEnd)
      (s.on a (d.body ++ '\x7d' :: z) l []) = f s.options (s.on a (d.body ++ '\x7d' :: z) l []) :=
    fun f => bind_ok (show options _ = (.ok s.options, _) from rfl)
  cases htop : s.options.topDocOnly with
  | true =>
    refine ⟨s.validator, [], false, [d.close a], .nil, (hoptions _).trans ?_⟩
    rw [htop, if_pos rfl]
    exact skip_document d
  | false =>
    obtain ⟨validator, events, empty, l', hsilent, hblock⟩ := block_document (a := a) (z := z)
      (l := l) d hopen hinStyle hbudget start.location
    refine ⟨validator, events, empty, l', hsilent, (hoptions _).trans ?_⟩
    rw [htop, if_neg Bool.false_ne_true]
    exact hblock

theorem Sites.length_functions_le (xs : Sites) : xs.functions.length ≤ xs.chars.length := by
  induction xs with
  | last x =>
    simp only [Sites.functions, Sites.chars, List.length_append, List.length_cons, List.length_nil]
    omega
  | more x xs ih =>
    simp only [Sites.functions, Sites.chars, List.length_append, List.length_cons]
    omega

/-- **A document after its keyword**: it starts, its rules are reported if
its body is read, and it ends at its brace. -/
theorem documentRule_on (d : Document) (hopen : Open s)
    (hinStyle : s.inStyle = 0) (hdepth : s.depth = 0) (hbudget : d.chars.length < s.budget)
    (start : Token) :
    ∃ (validator : Validator) (events : List Event) (empty : Bool) (l' : List Token),
      Silent events.reverse ∧
      documentRule block start
          (s.on a (d.sites.chars ++ (d.body ++ '\x7d' :: z)) l []) =
        (.ok (), (reporting s validator
          (⟨.stop (.document d.sites.functions) empty, (d.close (a ++ d.sites.chars)).location⟩ ::
            (events ++ [⟨.start (.document d.sites.functions), start.location⟩]))).on
          (a ++ d.sites.chars ++ d.body ++ ['\x7d']) z l' []) := by
  have hlength : d.chars.length = d.before.chars.length + (d.keyword.chars.length + 1) +
      (d.sites.chars.length + (d.body.length + 1)) := by
    simp [Document.chars]
    omega
  have hcount := d.sites.length_functions_le
  obtain ⟨l₁, a₁, hrounds⟩ := documentSteps_on (s := s) (a := a) (z := d.body ++ '\x7d' :: z)
    (l := l) d.sites (n := s.budget) (by omega) start []
  rw [List.append_nil] at hrounds
  have hloop : repeating [] (documentStep start)
      (s.on a (d.sites.chars ++ (d.body ++ '\x7d' :: z)) l []) = _ := hrounds
  have hbrace : mustMatchSmart [.lBrace] (s.on (a ++ d.sites.chars)
      (d.body ++ '\x7d' :: z) l₁ [markAt '\x7b' .lBrace a₁]) = _ :=
    mustMatchSmart_of_next [.lBrace] (next_back rfl) (by decide) rfl
  let first : Event := ⟨.start (.document d.sites.functions), start.location⟩
  obtain ⟨validator, events, empty, l', hsilent, hbody⟩ := documentBody_on
    (s := reporting s s.validator [first]) (a := a ++ d.sites.chars) (z := z)
    (l := markAt '\x7b' .lBrace a₁ :: l₁) d (hopen.reporting _ _) hinStyle
    (show _ < s.budget by omega) start
  refine ⟨validator, events, empty, l', hsilent, ?_⟩
  have hstart := fire_apply (s := s.on (a ++ d.sites.chars) (d.body ++ '\x7d' :: z)
    (markAt '\x7b' .lBrace a₁ :: l₁) []) hopen.deferred hopen.store
    (.start (.document d.sites.functions)) start.location
  have hstop := fire_apply (s := (reporting (reporting s s.validator [first]) validator
    events).on (a ++ d.sites.chars ++ d.body ++ ['\x7d']) z l' []) hopen.deferred hopen.store
    (.stop (.document d.sites.functions) empty) (d.close (a ++ d.sites.chars)).location
  unfold documentRule
  refine (bind_ok (show state _ = (.ok _, _) from rfl)).trans ?_
  rw [if_neg (show ¬0 < (s.on a _ l []).depth from Nat.not_lt.mpr (Nat.le_of_eq hdepth))]
  refine (show _ = _ from bind_ok hloop).trans ?_
  rw [List.reverse_reverse]
  refine (show _ = _ from bind_ok (discard_ok hbrace)).trans ?_
  refine (show _ = _ from bind_ok hstart).trans ?_
  refine (show _ = _ from bind_ok hbody).trans ?_
  refine (show _ = _ from hstop).trans ?_
  rw [reporting_reporting]
  rfl

/-! ## Lines -/

@[simp]
theorem isInLine_mark : isInLine ',' = true ∧ isInLine '@' = true ∧ isInLine '\x7b' = true ∧
    isInLine '\x7d' = true := by decide

@[simp]
theorem Sites.all_isInLine (xs : Sites) : xs.chars.all isInLine = true := by
  induction xs with
  | last x => simp [Sites.chars, Site.chars, -List.all_eq_true]
  | more x xs ih => simp [Sites.chars, Site.chars, ih, -List.all_eq_true]

theorem Document.all_isInLine (d : Document) : d.chars.all isInLine = true := by
  have hbody : d.body.all isInLine = true := all_isInLine_statementChars d.statements d.after
  simp [Document.chars, hbody, -List.all_eq_true]

end Core

end Stylesheet
