import Stylesheet.Parse.Block
import Stylesheet.Proofs.Core.Declaration

/-!
# Blocks of the core language

A block is read one item at a time, and every item must start further on
than the one before it. In the core language each round is one declaration
with its semicolon. The last declaration may have none; it takes back the
brace that ends it, and the next round finds the brace in the window.
-/

namespace Stylesheet

open Parse (State)
open Stylesheet.Parser

namespace Core

/-! ## What the text is made of -/

/-- The characters that texts of the core language are made of, other than
braces. -/
def isInk (c : Char) : Bool := isWordChar c || [' ', '\n', '.', '#', ',', ':', ';'].contains c

/-- The characters that can stand in a text of the core language: no
opening bracket, and no line end but a newline. -/
def isWritten (c : Char) : Bool := c != '(' && isInLine c

theorem isWritten_of_isInk {c : Char} (h : isInk c = true) : isWritten c = true := by
  have hne : ∀ d, isInk d = false → c ≠ d := by
    rintro d hd rfl
    cases h.symm.trans hd
  simp [isWritten, isInLine, hne '(' (by decide), hne '\r' (by decide), hne '\x0c' (by decide)]

theorem all_isWritten {cs : List Char} (h : cs.all isInk = true) : cs.all isWritten = true :=
  List.all_eq_true.mpr fun c hc => isWritten_of_isInk (List.all_eq_true.mp h c hc)

@[simp]
theorem Gap.all_isInk (g : Gap) : g.chars.all isInk = true :=
  List.all_eq_true.mpr fun c hc => by obtain rfl | rfl := g.blank c hc <;> rfl

@[simp]
theorem Word.all_isInk (w : Word) : w.chars.all isInk = true := by
  refine List.all_eq_true.mpr fun c hc => Bool.or_eq_true_iff.mpr (.inl ?_)
  rcases List.mem_cons.mp hc with rfl | hc
  · exact isWordChar_of_isLetter w.first_isLetter
  · exact w.rest_isWordChar c hc

@[simp]
theorem Numeral.all_isInk (n : Numeral) : n.chars.all isInk = true :=
  List.all_eq_true.mpr fun c hc => by simp [isInk, isWordChar, n.isDigit c hc]

@[simp]
theorem isInk_mark : isInk '.' = true ∧ isInk '#' = true ∧ isInk ' ' = true ∧ isInk ',' = true ∧
    isInk ':' = true ∧ isInk ';' = true := by decide

@[simp]
theorem Simple.all_isInk (x : Simple) : x.chars.all isInk = true := by
  cases x <;> simp [Simple.chars]

@[simp]
theorem Parts.all_isInk (ps : Parts) : ps.chars.all isInk = true := by
  have hpart : ∀ p : Part, p.chars.all isInk = true := by
    intro p
    cases p <;> simp [Part.chars]
  induction ps with
  | last p => exact hpart p
  | more p ps ih => simp [Parts.chars, hpart p, ih]

@[simp]
theorem Declared.all_isInk_tail (d : Declared) : d.tail.all isInk = true := by
  simp [Declared.tail]

@[simp]
theorem Declared.all_isInk (d : Declared) : d.chars.all isInk = true := by
  simp [Declared.chars]

/-- The text of selectors before their brace. -/
def Heads.ink : Heads → List Char
  | .last before selector after => before.chars ++ (selector.chars ++ after.chars)
  | .more before selector after rest =>
    before.chars ++ (selector.chars ++ (after.chars ++ (',' :: rest.ink)))

/-- The text of a body before its brace. -/
def Body.ink : Body → List Char
  | .done blank => blank.chars
  | .last declared => declared.chars
  | .more declared rest => declared.chars ++ (';' :: rest.ink)

theorem Heads.chars_eq (hs : Heads) : hs.chars = hs.ink ++ ['\x7b'] := by
  induction hs with
  | last g₀ x g => simp [Heads.chars, Heads.ink]
  | more g₀ x g hs ih => simp [Heads.chars, Heads.ink, ih]

theorem Body.chars_eq (b : Body) : b.chars = b.ink ++ ['\x7d'] := by
  induction b with
  | done g => rfl
  | last d => rfl
  | more d b ih => simp [Body.chars, Body.ink, ih]

@[simp]
theorem Heads.all_isInk (hs : Heads) : hs.ink.all isInk = true := by
  induction hs with
  | last g₀ x g => simp [Heads.ink]
  | more g₀ x g hs ih => simp [Heads.ink, ih]

@[simp]
theorem Body.all_isInk (b : Body) : b.ink.all isInk = true := by
  induction b with
  | done g => exact g.all_isInk
  | last d => exact d.all_isInk
  | more d b ih => simp [Body.ink, ih]

@[simp]
theorem Heads.all_isWritten (hs : Heads) : hs.chars.all isWritten = true := by
  rw [hs.chars_eq, List.all_append, Core.all_isWritten hs.all_isInk]
  rfl

@[simp]
theorem Body.all_isWritten (b : Body) : b.chars.all isWritten = true := by
  rw [b.chars_eq, List.all_append, Core.all_isWritten b.all_isInk]
  rfl

theorem bracket_notMem {cs : List Char} (h : cs.all isWritten = true) : '(' ∉ cs := fun hmem =>
  absurd (List.all_eq_true.mp h _ hmem) (by decide)

/-- **No filter function begins** with a name of a body that a text
follows. -/
def Body.NoFilter (b : Body) (z : List Char) : Prop :=
  ∀ d ∈ b.declarations, String.ofList d.name.chars = "progid" → '(' ∉ z

theorem Closes.all_isWritten {w z : List Char} {kind : TokenKind} (h : Closes w z kind) :
    w.all isWritten = true := by
  cases h <;> rfl

theorem Body.noFilter_of_isWritten (b : Body) {z : List Char} (h : z.all isWritten = true) :
    b.NoFilter z := fun _ _ _ => bracket_notMem h

/-! ## Items -/

/-- **A state of a parse that reports what it reads**: not a strict one,
nothing held back, and no store of rules. -/
structure Open (s : State) : Prop where
  /-- The parse goes on after errors. -/
  strict : s.options.strict = false
  /-- No events are held back. -/
  deferred : s.deferred = none
  /-- No rules are remembered. -/
  store : s.store = none

variable {s : State} {a w z : List Char} {l : List Token} {kind : TokenKind} {toEnd : Bool}
  {i : BlockParser} {y : BlockShape} {r : BlockSoFar}

/-- What was read as far as it has been checked and reported. -/
def reporting (s : State) (validator : Validator) (events : List Event) : State :=
  { s with validator := validator, events := events ++ s.events }

theorem Open.reporting (h : Open s) (validator : Validator) (events : List Event) :
    Open (reporting s validator events) := ⟨h.strict, h.deferred, h.store⟩

theorem reporting_reporting (s : State) (v₁ v₂ : Validator) (es₁ es₂ : List Event) :
    reporting (reporting s v₁ es₁) v₂ es₂ = reporting s v₂ (es₂ ++ es₁) := by
  unfold reporting
  rw [List.append_assoc]

/-- A later item of a block starts at another place than the last one. -/
def Ahead (r : BlockSoFar) (a : List Char) : Prop :=
  ∀ key ∈ r.previous, key.1 < Text.byteLength a

theorem Ahead.ne (h : Ahead r a) (g : List Char) (kind : TokenKind) :
    (r.previous == some ((Location.start.advance (a ++ g)).offset, kind)) = false := by
  refine beq_eq_false_iff_ne.mpr fun hsame => ?_
  have hlt := h _ hsame
  rw [Location.offset_advance_start, Text.byteLength_append] at hlt
  omega

/-- **One declaration of a block** with what ends it. -/
theorem blockStep_declared (toEnd : Bool) (d : Declared) (h : Closes w z kind)
    (hrest : String.ofList d.name.chars = "progid" → '(' ∉ z) (hopen : Open s)
    (hinStyle : 0 < s.inStyle) (hscope : y.scope = none)
    (hbudget : d.value.count + 1 < s.budget) (hahead : Ahead r a) :
    ∃ (validator : Validator) (e : Event) (l' : List Token),
      Says [e] [d.gist] [Location.start.advance (a ++ d.before.chars)] ∧
      blockStep i y toEnd r (s.on a (d.chars ++ (w ++ z)) l []) =
        (.ok (.yield ⟨true, some ((Location.start.advance (a ++ d.before.chars)).offset, .ident),
            r.close⟩), (reporting s validator [e]).on (a ++ d.chars ++ w) z
          (if kind = .rBrace then l' else endAt w kind (a ++ d.chars) :: l')
          (if kind = .rBrace then [endAt w kind (a ++ d.chars)] else [])) := by
  have hends : Ends (d.tail ++ (w ++ z)) := by
    have hmark : Ends (':' :: (d.afterColon.chars ++ (d.value.chars ++ d.after.chars) ++ (w ++ z))) :=
      .cons rfl
    have hgap := d.beforeColon.ends hmark
    simpa [Declared.tail] using hgap
  have hfilter : d.name.NoFilter (d.tail ++ (w ++ z)) := by
    intro hname _ hmem
    rcases List.mem_append.mp hmem with hmem | hmem
    · exact bracket_notMem (all_isWritten d.all_isInk_tail) hmem
    · rcases List.mem_append.mp hmem with hmem | hmem
      · exact bracket_notMem h.all_isWritten hmem
      · exact hrest hname hmem
  let t := d.name.lexeme.after (a ++ d.before.chars) d.name.chars
  have hnext : next true false (s.on a (d.chars ++ (w ++ z)) l []) =
      (.ok t, s.on (a ++ d.before.chars ++ d.name.chars) (d.tail ++ (w ++ z))
        (t :: l.take 4) []) := by
    have hcut : next true false (s.on a
      (d.before.chars ++ (d.name.chars ++ (d.tail ++ (w ++ z))))
        l []) = _ := next_on d.before d.name.solid (d.name.significant hends hfilter) rfl
    rw [← List.append_assoc d.name.chars, ← List.append_assoc d.before.chars] at hcut
    exact hcut
  obtain ⟨validator, e, l', hgist, hplace, hdeclared⟩ := declaration_on (s := s) (z := z)
    (a := a ++ d.before.chars ++ d.name.chars) (l := t :: l.take 4) (t := t) d h
    rfl rfl rfl hbudget hopen.strict hopen.deferred hopen.store
  have hbefore : a ++ d.before.chars ++ d.name.chars ++ d.tail = a ++ d.chars := by
    simp [Declared.chars]
  rw [hbefore] at hdeclared
  have hitem : blockItem i y t (s.on (a ++ d.before.chars ++ d.name.chars)
      (d.tail ++ (w ++ z)) (t :: l.take 4) []) =
        (.ok true, (reporting s validator [e]).on (a ++ d.chars ++ w) z
          (if kind = .rBrace then l' else endAt w kind (a ++ d.chars) :: l')
          (if kind = .rBrace then [endAt w kind (a ++ d.chars)] else [])) := by
    have hstarred : (s.options.starHack && t.kind == .star && t.hasStarHack) = false := by
      rw [show (t.kind == .star) = false from rfl, Bool.and_false, Bool.false_and]
    unfold blockItem
    show (do
      let starred := s.options.starHack && t.kind == .star && t.hasStarHack
      let declared ←
        if decide (0 < s.inStyle) && (t.kind == .ident || starred) then
          declaration { scope := y.scope } t
        else pure false
      if declared then return true
      _ : Parser Bool) _ = _
    dsimp only
    rw [hscope, decide_eq_true hinStyle, show (t.kind == .ident) = true from rfl, Bool.true_or,
      Bool.true_and, if_pos rfl]
    exact bind_ok hdeclared
  refine ⟨validator, e, l', ⟨congrArg (fun g => [g]) hgist, ?_⟩, ?_⟩
  · simp [hplace, t, Lexeme.after]
  · refine (show _ = _ from bind_ok hnext).trans ?_
    show blockItemStep i y r t _ = _
    have hkey : (r.previous == some (t.location.offset, t.kind)) = false :=
      hahead.ne d.before.chars .ident
    unfold blockItemStep
    dsimp only
    rw [if_neg (Bool.eq_false_iff.mp hkey)]
    refine (show _ = _ from bind_ok (attempt_ok hitem)).trans ?_
    show (Except.ok (ForInStep.yield (⟨r.child || true, _, _⟩ : BlockSoFar)), _) = _
    rw [Bool.or_true]
    rfl

/-- The brace that ends a block, after blanks. -/
theorem blockStep_brace (g : Gap) :
    blockStep i y false r (s.on a (g.chars ++ '\x7d' :: z) l []) =
      (.ok (.done { r with close := some (markAt '\x7d' .rBrace (a ++ g.chars)) }),
        s.on (a ++ g.chars ++ ['\x7d']) z
          (markAt '\x7d' .rBrace (a ++ g.chars) :: l.take 4) []) :=
  bind_ok (next_mark g (show ('\x7d', TokenKind.rBrace) ∈ marks by decide))

/-- The brace that ends a block, after a declaration that took it back. -/
theorem blockStep_back {cs : List Char} :
    blockStep i y false r
        (s.on a z l [markAt '\x7d' .rBrace cs]) =
      (.ok (.done { r with close := some (markAt '\x7d' .rBrace cs) }),
        s.on a z (markAt '\x7d' .rBrace cs :: l) []) :=
  bind_ok (next_back rfl)

/-- **What ends the items of a block**: its brace, or the end of the text. -/
inductive Stops : Bool → List Char → List Char → TokenKind → Prop where
  /-- The brace. -/
  | brace (z : List Char) : Stops false ['\x7d'] z .rBrace
  /-- The end of the text. -/
  | stop : Stops true [] [] .eof

theorem Stops.closes (h : Stops toEnd w z kind) : Closes w z kind := by
  cases h with
  | brace => exact .brace z
  | stop => exact .stop

/-- **The end of a block**, after blanks. -/
theorem blockStep_stop (g : Gap) (h : Stops toEnd w z kind) :
    blockStep i y toEnd r (s.on a (g.chars ++ (w ++ z)) l []) =
      (.ok (.done { r with close := some (endAt w kind (a ++ g.chars)) }),
        s.on (a ++ g.chars ++ w) z (endAt w kind (a ++ g.chars) :: l.take 4) []) := by
  refine (show _ = _ from bind_ok (next_close g h.closes)).trans ?_
  cases h <;> rfl

/-- **The end of a block** right after a declaration. A brace was taken back,
and the end of the text is found again. -/
theorem blockStep_stopped (h : Stops toEnd w z kind) (b : List Char) :
    ∃ l', blockStep i y toEnd r (s.on (b ++ w) z
        (if kind = .rBrace then l else endAt w kind b :: l)
        (if kind = .rBrace then [endAt w kind b] else [])) =
      (.ok (.done { r with close := some (endAt w kind b) }),
        s.on (b ++ w) z (endAt w kind b :: l') []) := by
  cases h with
  | brace => exact ⟨l, blockStep_back⟩
  | stop =>
    have hstep := blockStep_stop (s := s) (i := i) (y := y) (r := r) (a := b)
      (l := endAt [] .eof b :: l) noGap .stop
    simp only [noGap, List.append_nil] at hstep ⊢
    exact ⟨_, hstep⟩

/-! ## Blocks -/

theorem Parts.count_le (ps : Parts) : ps.count ≤ ps.chars.length := by
  induction ps with
  | last p => cases p <;> simp [Parts.count, Parts.chars, Part.chars, Word.chars, Numeral.chars]
  | more p ps ih =>
    simp only [Parts.count, Parts.chars, List.length_append, List.length_cons]
    omega

theorem Declared.count_lt (d : Declared) : d.value.count + 1 < d.chars.length := by
  have hcount := d.value.count_le
  simp only [Declared.chars, Declared.tail, Word.chars, List.length_append, List.length_cons]
  omega

/-- **The items of a block** up to and including its end: each declaration is
reported, in the order in which they stand. -/
theorem blockSteps_on (b : Body) (hstop : Stops toEnd w z kind) {n : Nat} (hn : b.ink.length < n)
    (hrest : b.NoFilter z) (hopen : Open s) (hinStyle : 0 < s.inStyle) (hscope : y.scope = none)
    (hbudget : b.ink.length ≤ s.budget) (hahead : Ahead r a) :
    ∃ (validator : Validator) (events : List Event) (previous : Option (Nat × TokenKind))
      (close : Token) (l' : List Token),
      Says events (b.declarations.map (·.gist)) (b.places a) ∧
      rounds (blockStep i y toEnd) n r (s.on a (b.ink ++ (w ++ z)) l []) =
        (.ok ⟨r.child || !b.declarations.isEmpty, previous, some close⟩,
          (reporting s validator events).on (a ++ b.ink ++ w) z (close :: l') []) := by
  induction b generalizing s a l r n with
  | done g =>
    obtain ⟨n, rfl⟩ : ∃ k, n = k + 1 := ⟨n - 1, by omega⟩
    refine ⟨s.validator, [], r.previous, endAt w kind (a ++ g.chars), l.take 4, .nil, ?_⟩
    rw [show (Body.done g).ink = g.chars from rfl,
      show (r.child || !(Body.done g).declarations.isEmpty) = r.child from Bool.or_false r.child]
    exact rounds_done (blockStep_stop g hstop)
  | last d =>
    have hcount := d.count_lt
    have hlength : (Body.last d).ink.length = d.chars.length := rfl
    obtain ⟨n, rfl⟩ : ∃ k, n = k + 2 := ⟨n - 2, by omega⟩
    obtain ⟨validator, e, l₁, hsays, hstep⟩ := blockStep_declared (i := i) (l := l) toEnd
      d hstop.closes (hrest d List.mem_cons_self) hopen hinStyle hscope (by omega) hahead
    obtain ⟨l', hstopped⟩ := blockStep_stopped (s := reporting s validator [e]) (i := i) (y := y)
      (l := l₁) (r := ⟨true, some ((Location.start.advance (a ++ d.before.chars)).offset, .ident),
        r.close⟩) hstop (a ++ d.chars)
    refine ⟨validator, [e], some ((Location.start.advance (a ++ d.before.chars)).offset, .ident),
      endAt w kind (a ++ d.chars), l', hsays, ?_⟩
    rw [show (Body.last d).ink = d.chars from rfl,
      show (r.child || !(Body.last d).declarations.isEmpty) = true from Bool.or_true r.child]
    exact (rounds_yield hstep).trans (rounds_done hstopped)
  | more d b ih =>
    have hcount := d.count_lt
    have hlength : (Body.more d b).ink.length = d.chars.length + 1 + b.ink.length := by
      simp [Body.ink]
      omega
    obtain ⟨n, rfl⟩ : ∃ k, n = k + 1 := ⟨n - 1, by omega⟩
    have hafter : String.ofList d.name.chars = "progid" → '(' ∉ b.ink ++ (w ++ z) := by
      intro hname hmem
      rcases List.mem_append.mp hmem with hmem | hmem
      · exact bracket_notMem (all_isWritten b.all_isInk) hmem
      · rcases List.mem_append.mp hmem with hmem | hmem
        · exact bracket_notMem hstop.closes.all_isWritten hmem
        · exact hrest d List.mem_cons_self hname hmem
    have hrest : b.NoFilter z := fun d hd => hrest d (List.mem_cons_of_mem _ hd)
    obtain ⟨validator₁, e, l₁, hsays₁, hstep⟩ := blockStep_declared (i := i) (l := l) toEnd
      d (.semicolon (b.ink ++ (w ++ z))) hafter hopen hinStyle hscope (by omega) hahead
    have hahead₁ : Ahead ⟨true, some ((Location.start.advance (a ++ d.before.chars)).offset,
        .ident), r.close⟩ (a ++ d.chars ++ [';']) := by
      intro key hkey
      obtain rfl := Option.some.inj hkey
      have hsemicolon : Text.byteLength [';'] = 1 := rfl
      rw [Location.offset_advance_start]
      simp only [Declared.chars, Text.byteLength_append]
      omega
    obtain ⟨validator, events, previous, close, l', hsays, hrounds⟩ :=
      ih (s := reporting s validator₁ [e]) (a := a ++ d.chars ++ [';'])
        (l := endAt [';'] .semicolon (a ++ d.chars) :: l₁) (n := n) (by omega) hrest
        (hopen.reporting validator₁ [e]) hinStyle (show _ ≤ s.budget by omega) hahead₁
    refine ⟨validator, events ++ [e], previous, close, l', hsays₁.append hsays, ?_⟩
    rw [show (Body.more d b).ink ++ (w ++ z) = d.chars ++ ([';'] ++ (b.ink ++ (w ++ z))) by
        simp [Body.ink],
      show a ++ (Body.more d b).ink ++ w = a ++ d.chars ++ [';'] ++ b.ink ++ w by
        simp [Body.ink],
      show (r.child || !(Body.more d b).declarations.isEmpty) = true from Bool.or_true r.child]
    refine (rounds_yield hstep).trans ((show _ = _ from hrounds).trans ?_)
    rw [reporting_reporting, Bool.true_or]

/-- **A block of declarations** that is opened, or that is not within braces:
its items, and nothing else is changed by it. -/
theorem blockItems_on (b : Body) (hstop : Stops toEnd w z kind) (hrest : b.NoFilter z)
    (hopen : Open s) (hscope : y.scope = none) (hdeclarations : y.declarations = true)
    (hbudget : b.ink.length < s.budget) :
    ∃ (validator : Validator) (events : List Event) (close : Token) (l' : List Token),
      Says events (b.declarations.map (·.gist)) (b.places a) ∧
      blockItems i y toEnd (s.on a (b.ink ++ (w ++ z)) l []) =
        (.ok ⟨close, b.declarations.isEmpty⟩,
          (reporting s validator events).on (a ++ b.ink ++ w) z (close :: l') []) := by
  obtain ⟨validator, events, previous, close, l', hsays, hrounds⟩ := blockSteps_on
    (s := { s with depth := s.depth + 1, inStyle := s.inStyle + 1 }) (i := i) (y := y)
    (r := ⟨false, none, none⟩) (a := a) (l := l) b hstop (n := s.budget) hbudget hrest
    ⟨hopen.strict, hopen.deferred, hopen.store⟩ (Nat.succ_pos _) hscope (Nat.le_of_lt hbudget) nofun
  refine ⟨validator, events, close, l', hsays, ?_⟩
  have hloop := attempt_ok (show repeating _ (blockStep i y toEnd) (State.on
    { s with depth := s.depth + 1, inStyle := s.inStyle + 1 } a _ l []) = _ from hrounds)
  unfold blockItems
  rw [hdeclarations, if_pos rfl]
  refine (show _ = _ from bind_ok (show update _ _ = (.ok (), _) from rfl)).trans ?_
  refine (show _ = _ from bind_ok hloop).trans ?_
  show (Except.ok (⟨close, !(false || !b.declarations.isEmpty)⟩ : BlockEnd), _) = _
  rw [Bool.false_or, Bool.not_not]
  rfl

/-- **A reader of blocks that goes deep enough** for one block, where the
budget is a given one. -/
def Deep (n : Nat) (block : BlockParser) : Prop :=
  ∃ i, ∀ start y (s : State), s.budget = n → block start y s = blockWith i start y s

theorem deep_blockTo (n k : Nat) : Deep n (blockTo (k + 1)) :=
  ⟨blockTo k, fun _ _ _ _ => rfl⟩

theorem deep_block {n : Nat} (h : 0 < n) : Deep n block := by
  refine ⟨blockTo (n - 1), fun start y s hs => ?_⟩
  show blockTo s.budget start y s = _
  rw [hs, ← Nat.succ_pred_eq_of_pos h]
  rfl

/-- **The body of a rule**: it starts, its declarations follow, and it
ends. -/
theorem block_on {block : BlockParser} (hblock : Deep s.budget block) (b : Body)
    (hrest : b.NoFilter z) (hopen : Open s) (hbudget : b.chars.length ≤ s.budget)
    (start : Location) (selectors : List Selector) :
    ∃ (validator : Validator) (events : List Event) (close : Token) (l' : List Token),
      Says events (.startRule (selectors.map (·.text)) :: (b.declarations.map (·.gist) ++
        [.endRule (selectors.map (·.text)) b.declarations.isEmpty])) (b.places a) ∧
      block start { event := some (.rule selectors), opened := true, declarations := true }
          (s.on a (b.chars ++ z) l []) = (.ok ⟨close, b.declarations.isEmpty⟩,
        (reporting s validator events).on (a ++ b.chars) z (close :: l') []) := by
  obtain ⟨i, hi⟩ := hblock
  let first : Event := ⟨.start (.rule selectors), start⟩
  have hstarted : Open (reporting s s.validator [first]) := hopen.reporting _ _
  rw [b.chars_eq, List.length_append] at hbudget
  obtain ⟨validator, events, close, l', hsays, hitems⟩ := blockItems_on
    (s := reporting s s.validator [first]) (i := i)
    (y := { event := some (.rule selectors), opened := true, declarations := true })
    (a := a) (l := l) b (.brace z) hrest hstarted rfl rfl hbudget
  rw [← List.append_assoc, List.append_assoc a, ← b.chars_eq] at hitems
  let final : Event := ⟨.stop (.rule selectors) b.declarations.isEmpty, close.location⟩
  have hfirst : Says [first] [.startRule (selectors.map (·.text))] [] := ⟨rfl, rfl⟩
  have hfinal : Says [final] [.endRule (selectors.map (·.text)) b.declarations.isEmpty] [] :=
    ⟨rfl, rfl⟩
  refine ⟨validator, final :: (events ++ [first]), close, l', ?_, ?_⟩
  · have hall := (hfirst.append hsays).append hfinal
    rwa [List.append_nil, List.nil_append, List.append_assoc] at hall
  · have hstart := fire_apply (s := s.on a (b.chars ++ z) l []) hopen.deferred
      hopen.store (.start (.rule selectors)) start
    have hstop := fire_apply (s := (reporting (reporting s s.validator [first]) validator
      events).on (a ++ b.chars) z (close :: l') []) hopen.deferred hopen.store
      (.stop (.rule selectors) b.declarations.isEmpty) close.location
    refine (hi _ _ (s.on a (b.chars ++ z) l []) rfl).trans ?_
    refine (show _ = _ from bind_ok hstart).trans ?_
    refine (show _ = _ from bind_ok hitems).trans ?_
    refine (show _ = _ from bind_ok hstop).trans ?_
    rw [reporting_reporting]
    rfl

end Core

end Stylesheet
