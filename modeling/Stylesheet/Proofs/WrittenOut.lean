import Stylesheet.Proofs.Completion
import Stylesheet.Proofs.Excerpt.Value
import Stylesheet.Proofs.HiddenTokens
import Stylesheet.Proofs.Requests

/-!
# Values written out

A value is a tree, and the tokens it was read from are written out by going
through it in order: each part is its token, and what stands inside it comes
after that, with the closing bracket at the end. The closing bracket is not
kept, but its kind follows from the token the part starts with, and where it
stands from where the part stops.

Reading a value takes exactly these tokens from the stream, and then the one
that ends it. What is carried through the loop over the parts, and through the
brackets around them, is `Wrote`: it joins as lists of tokens do.
-/

namespace Stylesheet

open Parse (State)

/-! ## Tokens handed out in turn -/

namespace Stream

variable {s s' s'' : Stream} {t : Token} {ts us : List Token}

/-- **A stream hands out tokens**, placeholders included, and comes to
another. -/
def Yields (s : Stream) (ts : List Token) (s' : Stream) : Prop :=
  s.gets true false ts.length = (ts, s')

theorem Yields.nil (s : Stream) : s.Yields [] s := rfl

theorem Yields.cons (ht : (s.get true false).1 = t) (h : (s.get true false).2.Yields ts s'') :
    s.Yields (t :: ts) s'' := by
  have hgets : s.gets true false (ts.length + 1) =
      ((s.get true false).1 :: ((s.get true false).2.gets true false ts.length).1,
        ((s.get true false).2.gets true false ts.length).2) := rfl
  unfold Yields at h ⊢
  rw [List.length_cons, hgets, h, ht]

/-- Tokens handed out in two turns. -/
theorem Yields.append (h : s.Yields ts s') (h' : s'.Yields us s'') :
    s.Yields (ts ++ us) s'' := by
  induction ts generalizing s with
  | nil =>
    obtain rfl : s = s' := congrArg Prod.snd h
    exact h'
  | cons t ts ih =>
    have hcons := Prod.mk.inj h
    obtain ⟨ht, hts⟩ := List.cons.inj hcons.1
    exact .cons ht (ih (Prod.ext hts hcons.2))

end Stream

/-! ## Closing brackets -/

namespace Token

/-- **The bracket that closes** what a token of a kind opens. -/
def closer? (kind : TokenKind) : Option TokenKind :=
  if kind == .function then some .rParen else Parser.closingKind? kind

/-- **A closing bracket** of a kind that stops at a place. -/
def closing (kind : TokenKind) (stop : Location) : Token where
  kind := kind
  payload := .none
  text := match kind with
    | .rBracket => "]"
    | .rBrace => "\x7d"
    | _ => ")"
  location := ⟨stop.line, stop.column - 1, stop.offset - 1⟩
  stop := stop

/-- What closes something is a bracket. -/
theorem closer?_eq_some {kind close : TokenKind} (h : closer? kind = some close) :
    close = .rParen ∨ close = .rBracket ∨ close = .rBrace := by
  unfold closer? at h
  split_ifs at h
  · exact Or.inl (Option.some.inj h).symm
  · unfold Parser.closingKind? at h
    split at h <;> cases h <;> decide

/-- **A closing bracket is fixed by its kind and where it stops.** -/
theorem IsCut.eq_closing {source : List Char} {t : Token} (h : t.IsCut source)
    (hkind : t.kind = .rParen ∨ t.kind = .rBracket ∨ t.kind = .rBrace) :
    t = closing t.kind t.stop := by
  obtain ⟨before, rest, -, rfl⟩ := h
  generalize Location.start.advance before = loc
  have hfirst : (Lexeme.first rest).kind = .rParen ∨ (Lexeme.first rest).kind = .rBracket ∨
      (Lexeme.first rest).kind = .rBrace := hkind
  have hmark : Lexeme.isMark (Lexeme.first rest).kind = true := by
    rcases hfirst with hfirst | hfirst | hfirst <;> rw [hfirst] <;> rfl
  obtain ⟨c, rest, rfl, hchar, hlexeme⟩ := Lexeme.first_of_isMark hmark
  rw [hlexeme]
  generalize (Lexeme.first (c :: rest)).kind = kind at hfirst hchar
  unfold TokenKind.ofChar? at hchar
  rcases hfirst with rfl | rfl | rfl <;> split at hchar <;> first | rfl | cases hchar

end Token

/-! ## Parts written out -/

mutual
/-- **A part written out**: its token, what stands inside it, and the bracket
that closes it. -/
def ValuePart.writtenOut : ValuePart → List Token
  | ⟨token, _, _, expr, stop, _, _, _, _⟩ =>
    token :: (writtenInside expr ++
      ((Token.closer? token.kind).map fun close => Token.closing close stop).toList)

/-- The inside of a part written out. -/
def ValuePart.writtenInside : Option (ValueOf ValuePart) → List Token
  | none => []
  | some v => writtenValue v

/-- A value written out. -/
def ValuePart.writtenValue : ValueOf ValuePart → List Token
  | ⟨parts, _, _, _, _⟩ => writtenAll parts

/-- Parts written out one after another. -/
def ValuePart.writtenAll : List ValuePart → List Token
  | [] => []
  | p :: ps => ValuePart.writtenOut p ++ writtenAll ps
end

/-- **A value written out** as the tokens it is made of. -/
def ValueOf.writtenOut (v : Value) : List Token := ValuePart.writtenValue v

namespace ValuePart

variable {p q : ValuePart} {ps qs : List ValuePart}

theorem writtenOut_eq (p : ValuePart) : p.writtenOut = p.token :: (writtenAll p.inner ++
    ((Token.closer? p.kind).map fun close => Token.closing close p.stop).toList) := by
  obtain ⟨token, text, type, expr, stop, isCalc, isVar, isAttr, isNone⟩ := p
  rw [writtenOut]
  cases expr with
  | none =>
    rw [writtenInside]
    unfold inner
    rw [Option.map_none, Option.getD_none, writtenAll]
    rfl
  | some v =>
    obtain ⟨parts, vtext, location, vstop, var⟩ := v
    rw [writtenInside, writtenValue]
    rfl

theorem writtenAll_singleton (p : ValuePart) : writtenAll [p] = p.writtenOut := by
  rw [writtenAll, writtenAll, List.append_nil]

theorem writtenAll_append (ps qs : List ValuePart) :
    writtenAll (ps ++ qs) = writtenAll ps ++ writtenAll qs := by
  induction ps with
  | nil =>
    rw [writtenAll]
    rfl
  | cons p ps ih => rw [List.cons_append, writtenAll, writtenAll, ih, List.append_assoc]

/-- **A part stands among others**, or inside one of them at any depth. -/
inductive In (p : ValuePart) : List ValuePart → Prop
  /-- It is one of them. -/
  | here {ps : List ValuePart} (h : p ∈ ps) : In p ps
  /-- It stands inside one of them. -/
  | inside {ps : List ValuePart} {q : ValuePart} (hq : q ∈ ps) (h : In p q.inner) : In p ps

theorem not_in_nil : ¬p.In [] := by
  rintro (h | ⟨hq, -⟩)
  · cases h
  · cases hq

theorem in_singleton : p.In [q] ↔ p = q ∨ p.In q.inner := by
  constructor
  · rintro (h | ⟨hq, h⟩)
    · exact Or.inl (List.mem_singleton.mp h)
    · obtain rfl := List.mem_singleton.mp hq
      exact Or.inr h
  · rintro (rfl | h)
    · exact .here List.mem_cons_self
    · exact .inside List.mem_cons_self h

theorem in_append : p.In (ps ++ qs) ↔ p.In ps ∨ p.In qs := by
  constructor
  · rintro (h | ⟨hq, h⟩)
    · exact (List.mem_append.mp h).imp .here .here
    · exact (List.mem_append.mp hq).imp (.inside · h) (.inside · h)
  · rintro ((h | ⟨hq, h⟩) | (h | ⟨hq, h⟩))
    · exact .here (List.mem_append_left _ h)
    · exact .inside (List.mem_append_left _ hq) h
    · exact .here (List.mem_append_right _ h)
    · exact .inside (List.mem_append_right _ hq) h

/-- **A value that spans its parts**: it starts with the first of them and stops
with the last. -/
structure Spans (v : Value) : Prop where
  /-- There is a first part. -/
  first : ∃ p, v.parts.head? = some p ∧ v.location = p.location
  /-- There is a last part. -/
  last : ∃ p, v.parts.getLast? = some p ∧ v.stop = p.stop

/-- A value made of its parts spans them, if there are any. -/
theorem spans_ofParts {source : List Char} (h : ps ≠ []) :
    Spans (ValueOf.ofParts ps source) := by
  unfold ValueOf.ofParts
  refine ⟨⟨ps.head h, List.head?_eq_some_head h, ?_⟩,
    ⟨ps.getLast h, List.getLast?_eq_some_getLast h, ?_⟩⟩
  · dsimp only
    rw [List.head?_eq_some_head h]
    rfl
  · dsimp only
    rw [List.getLast?_eq_some_getLast h]
    rfl

/-- **A part as it stands in the source**: its text is there, and what stands
inside it starts after it starts and stops before it stops. -/
structure Stands (source : List Char) (p : ValuePart) : Prop where
  /-- It takes some of the source. -/
  location_lt_stop : p.location.offset < p.stop.offset
  /-- Its text is that of the source. -/
  text_eq : p.text.toList = Text.slice source p.location.offset p.stop.offset
  /-- What stands inside it lies strictly inside it. -/
  inside : ∀ q : ValuePart, q.In p.inner →
    p.location.offset < q.location.offset ∧ q.stop.offset < p.stop.offset
  /-- Only functions and blocks have something inside them, and it spans its
  parts. -/
  opens : ∀ v, p.expr = some v → (p.type = .function ∨ p.type = .block) ∧ Spans v

end ValuePart

/-! ## What reading a value takes -/

open ValuePart (writtenAll)

/-- **Parts were read** between two states of a stream: the tokens handed out
are those of the parts written out, and the parts stand in the source between
the places of the states. -/
structure Wrote (s : Stream) (ps : List ValuePart) (s' : Stream) : Prop where
  /-- The tokens handed out are those of the parts. -/
  yields : s.Yields (writtenAll ps) s'
  /-- The stream is still sound. -/
  isSound : s'.IsSound
  /-- The source is the same. -/
  source_eq : s'.source = s.source
  /-- The place has not moved back. -/
  place_le : s.place.offset ≤ s'.place.offset
  /-- The parts lie in between. -/
  within : ∀ p : ValuePart, p.In ps → p.Within s.place.offset s'.place.offset
  /-- They stand in the source. -/
  stands : ∀ p : ValuePart, p.In ps → p.Stands s.source
  /-- Each of them stops before the next one starts. -/
  ordered : ps.Pairwise fun p q => p.stop.offset ≤ q.location.offset

variable {s s₁ s' : Stream} {t : Token} {ps qs : List ValuePart}

theorem Wrote.nil (h : s.IsSound) : Wrote s [] s where
  yields := by
    rw [writtenAll]
    exact .nil s
  isSound := h
  source_eq := rfl
  place_le := Nat.le_refl _
  within _ hp := absurd hp ValuePart.not_in_nil
  stands _ hp := absurd hp ValuePart.not_in_nil
  ordered := .nil

theorem Wrote.append (h : Wrote s ps s₁) (h' : Wrote s₁ qs s') : Wrote s (ps ++ qs) s' where
  yields := by
    rw [ValuePart.writtenAll_append]
    exact h.yields.append h'.yields
  isSound := h'.isSound
  source_eq := h'.source_eq.trans h.source_eq
  place_le := Nat.le_trans h.place_le h'.place_le
  within p hp := by
    rcases ValuePart.in_append.mp hp with hp | hp
    · exact ⟨(h.within p hp).lo_le, Nat.le_trans (h.within p hp).le_hi h'.place_le⟩
    · exact ⟨Nat.le_trans h.place_le (h'.within p hp).lo_le, (h'.within p hp).le_hi⟩
  stands p hp := by
    rcases ValuePart.in_append.mp hp with hp | hp
    · exact h.stands p hp
    · exact h.source_eq ▸ h'.stands p hp
  ordered := List.pairwise_append.mpr ⟨h.ordered, h'.ordered, fun p hp q hq =>
    Nat.le_trans (h.within p (.here hp)).le_hi (h'.within q (.here hq)).lo_le⟩

theorem Wrote.token {part : ValuePart} (hs : s.IsSound) (ht : (s.get true false).1 = t)
    (heof : t.kind ≠ .eof) (hcloser : Token.closer? t.kind = none) (htoken : part.token = t)
    (htext : part.text = t.text) (hexpr : part.expr = none) (hstop : part.stop = t.stop) :
    Wrote s [part] (s.get true false).2 := by
  have hgot := hs.get true false
  rw [ht] at hgot
  have hlocation : part.location = t.location := congrArg Token.location htoken
  have hinner : part.inner = [] := by
    unfold ValuePart.inner
    rw [hexpr]
    rfl
  have hone : ∀ p : ValuePart, p.In [part] → p = part := fun p hp =>
    (ValuePart.in_singleton.mp hp).resolve_right fun h =>
      ValuePart.not_in_nil (hinner ▸ h : p.In [])
  refine ⟨?_, hgot.isSound, hgot.source_eq, hgot.place_le_place, fun p hp => ?_, fun p hp => ?_,
    List.pairwise_singleton _ _⟩
  · have hwritten : writtenAll [part] = [t] := by
      rw [ValuePart.writtenAll_singleton, ValuePart.writtenOut_eq, hinner, htoken, writtenAll,
        show part.kind = t.kind from congrArg Token.kind htoken, hcloser]
      rfl
    rw [hwritten]
    exact .cons ht (.nil _)
  · obtain rfl := hone p hp
    refine ⟨?_, ?_⟩
    · rw [hlocation]
      exact hgot.place_le
    · rw [hstop]
      exact hgot.stop_le
  · obtain rfl := hone p hp
    refine ⟨?_, ?_, fun q hq => absurd (hinner ▸ hq : q.In []) ValuePart.not_in_nil,
      fun v hv => ?_⟩
    · rw [hlocation, hstop]
      exact hgot.isCut.location_lt_stop heof
    · rw [htext, hlocation, hstop]
      exact hgot.isCut.text_eq_slice
    · rw [hexpr] at hv
      cases hv

/-- **A part with its brackets**, given what was read inside them. -/
theorem Wrote.brackets {part : ValuePart} {close : Token} (hs : s.IsSound)
    (ht : (s.get true false).1 = t) (hinside : Wrote (s.get true false).2 ps s₁)
    (hclose : (s₁.get true false).1 = close) (hcloser : Token.closer? t.kind = some close.kind)
    (htoken : part.token = t) (hinner : part.inner = ps) (hstop : part.stop = close.stop)
    (htext : part.text.toList = Text.slice s.source t.location.offset close.stop.offset)
    (hopens : ∀ v, part.expr = some v →
      (part.type = .function ∨ part.type = .block) ∧ ValuePart.Spans v) :
    Wrote s [part] (s₁.get true false).2 := by
  have hgot := hs.get true false
  have hlast := hinside.isSound.get true false
  rw [ht] at hgot
  rw [hclose] at hlast
  have hbracket := Token.closer?_eq_some hcloser
  have hsource : s₁.source = s.source := hinside.source_eq.trans hgot.source_eq
  have hlocation : part.location = t.location := congrArg Token.location htoken
  have hlt : t.location.offset < (s.get true false).2.place.offset :=
    Nat.lt_of_lt_of_le (hgot.isCut.location_lt_stop fun heof => by
      rw [heof] at hcloser
      cases hcloser) hgot.stop_le
  have hlt' : s₁.place.offset < close.stop.offset :=
    Nat.lt_of_le_of_lt hlast.place_le (hlast.isCut.location_lt_stop fun heof => by
      rw [heof] at hbracket
      revert hbracket
      decide)
  refine ⟨?_, hlast.isSound, hlast.source_eq.trans hsource,
    Nat.le_trans hgot.place_le_place (Nat.le_trans hinside.place_le hlast.place_le_place),
    fun p hp => ?_, fun p hp => ?_, List.pairwise_singleton _ _⟩
  · have hwritten : writtenAll [part] = t :: (writtenAll ps ++ [close]) := by
      rw [ValuePart.writtenAll_singleton, ValuePart.writtenOut_eq, hinner, htoken,
        show part.kind = t.kind from congrArg Token.kind htoken, hcloser, hstop]
      show t :: (writtenAll ps ++ [Token.closing close.kind close.stop]) = _
      rw [← hlast.isCut.eq_closing hbracket]
    rw [hwritten]
    exact .cons ht (hinside.yields.append (.cons hclose (.nil _)))
  · rcases ValuePart.in_singleton.mp hp with rfl | hp
    · refine ⟨?_, ?_⟩
      · rw [hlocation]
        exact hgot.place_le
      · rw [hstop]
        exact hlast.stop_le
    · have hwithin := hinside.within p (hinner ▸ hp)
      exact ⟨Nat.le_trans hgot.place_le_place hwithin.lo_le,
        Nat.le_trans hwithin.le_hi hlast.place_le_place⟩
  · rcases ValuePart.in_singleton.mp hp with rfl | hp
    · refine ⟨?_, ?_, fun q hq => ?_, hopens⟩
      · rw [hlocation, hstop]
        exact Nat.lt_of_lt_of_le hlt (Nat.le_trans hinside.place_le (Nat.le_of_lt hlt'))
      · rw [htext, hlocation, hstop]
      · have hwithin := hinside.within q (hinner ▸ hq)
        rw [hlocation, hstop]
        exact ⟨Nat.lt_of_lt_of_le hlt hwithin.lo_le, Nat.lt_of_le_of_lt hwithin.le_hi hlt'⟩
    · exact hgot.source_eq ▸ hinside.stands p (hinner ▸ hp)

namespace Parser

variable {s s' : State} {inner : ExprParser} {t : Token} {raw : Bool} {part : ValuePart}
  {n : Nat}

/-- **A state that values are read in**: a sound stream, and a budget that is
larger than the source. -/
structure Roomy (s : State) : Prop where
  /-- The stream is sound. -/
  isSound : s.stream.IsSound
  /-- The budget is larger than the source. -/
  lt_budget : Text.byteLength s.stream.source < s.budget

/-- A state after parts were read. -/
theorem Roomy.of_wrote {ps : List ValuePart} (h : Roomy s) (hwrote : Wrote s.stream ps s'.stream)
    (hbudget : s'.budget = s.budget) : Roomy s' := by
  refine ⟨hwrote.isSound, ?_⟩
  rw [hwrote.source_eq, hbudget]
  exact h.lt_budget

/-- The next token can be read. -/
theorem Roomy.afterNext (h : Roomy s) : Roomy s.afterNext := by
  refine ⟨(h.isSound.get true false).isSound, ?_⟩
  rw [show s.afterNext.stream.source = s.stream.source from
    (h.isSound.get true false).source_eq]
  exact h.lt_budget

/-- The parts of what was read, if there are any. -/
def partsOf (v : Option Value) : List ValuePart := (v.map (·.parts)).getD []

/-- **What a reader of values has to do**: it takes the tokens of the parts,
and then one that ends the value, which spans its parts. -/
def Writes (inner : ExprParser) : Prop :=
  ∀ (ends : List TokenKind) (raw : Bool) (s s' : State) (v : Option Value), Roomy s →
    inner ends raw s = (.ok v, s') → s'.budget = s.budget ∧ (∀ w, v = some w → ValuePart.Spans w) ∧
      ∃ s₁, Wrote s.stream (partsOf v) s₁ ∧ s'.stream = (s₁.get true false).2 ∧
        endsBefore ends raw (!(partsOf v).isEmpty) (s₁.get true false).1 = true

/-- The token at hand is the one handed out last. -/
theorem current_of_get {s₁ : Stream} (hs : s₁.IsSound) (h : s'.stream = (s₁.get true false).2) :
    s'.stream.current = (s₁.get true false).1 := by
  unfold Stream.current
  rw [h, (hs.get true false).current_eq]
  rfl

/-- The brackets around what a reader of values reads. -/
theorem Writes.brackets (hinner : Writes inner) (hs : Roomy s) (ht : (s.stream.get true false).1 = t)
    {ends : List TokenKind} {v : Option Value} {close : TokenKind}
    (hcloser : Token.closer? t.kind = some close)
    (h : inner ends raw s.afterNext = (.ok v, s')) (hclose : (s'.stream.current.kind == close) = true)
    (htoken : part.token = t) (hexpr : part.expr = v) (hstop : part.stop = s'.stream.current.stop)
    (htext : part.text = textFrom t s') (htype : part.type = .function ∨ part.type = .block) :
    Wrote s.stream [part] s'.stream ∧ s'.budget = s.budget := by
  obtain ⟨hbudget, hspans, s₁, hwrote, hstream, -⟩ := hinner _ _ _ _ _ hs.afterNext h
  have hcurrent := current_of_get hwrote.isSound hstream
  have hlast := hwrote.isSound.get true false
  have hsource : s'.stream.source = s.stream.source := by
    rw [hstream, hlast.source_eq, hwrote.source_eq]
    exact (hs.isSound.get true false).source_eq
  refine ⟨?_, hbudget⟩
  rw [hstream]
  refine .brackets hs.isSound ht hwrote hcurrent.symm ?_ htoken ?_ hstop ?_
    fun w hw => ⟨htype, hspans w (hexpr.symm.trans hw)⟩
  · rw [eq_of_beq hclose]
    exact hcloser
  · unfold ValuePart.inner
    rw [hexpr]
    rfl
  · rw [htext, ← hsource]
    exact String.toList_ofList

/-- A function is read with its arguments, even where it is an old filter. -/
theorem functionPart_of_plainPart (hfunction : (t.kind == .function) = true)
    (h : plainPart inner t raw s = (.ok part, s')) :
    functionPart inner t raw s = (.ok part, s') := by
  unfold plainPart at h
  rw [if_pos hfunction] at h
  obtain ⟨o, s₁, ⟨⟩, h⟩ := bind_eq_ok.mp h
  split_ifs at h
  · exact absurd h failAt_bind_ne_ok
  · exact h

/-- **One part is read.** -/
theorem Writes.onePart (hinner : Writes inner) (hs : Roomy s)
    (ht : (s.stream.get true false).1 = t) (heof : t.kind ≠ .eof)
    (h : partOf inner t raw s.afterNext = (.ok part, s')) :
    Wrote s.stream [part] s'.stream ∧ s'.budget = s.budget := by
  unfold partOf at h
  cases hclosing : closingKind? t.kind with
  | some close =>
    rw [hclosing] at h
    obtain ⟨inside, hinside, hclose, rfl⟩ := blockPart_eq_ok.mp h
    refine hinner.brackets hs ht ?_ hinside hclose rfl rfl rfl rfl (Or.inr rfl)
    unfold Token.closer?
    split_ifs with hfunction
    · rw [eq_of_beq hfunction] at hclosing
      cases hclosing
    · exact hclosing
  | none =>
    rw [hclosing] at h
    by_cases hfunction : (t.kind == .function) = true
    · obtain ⟨args, hargs, hclose, hpart⟩ :=
        functionPart_eq_ok.mp (functionPart_of_plainPart hfunction h)
      have hcloser : Token.closer? t.kind = some .rParen := if_pos hfunction
      obtain ⟨htoken, hexpr, hstop, htext, htype⟩ : part.token = t ∧ part.expr = args ∧
          part.stop = s'.stream.current.stop ∧ part.text = textFrom t s' ∧
          part.type = .ofToken t := by
        rw [hpart]
        cases args <;> exact ⟨rfl, rfl, rfl, rfl, rfl⟩
      have hcall : part.type = .function := by
        rw [htype, PartType.ofToken, eq_of_beq hfunction]
      exact hinner.brackets hs ht hcloser hargs hclose htoken hexpr hstop htext (Or.inl hcall)
    · obtain ⟨s₁, hplain, halike⟩ : ∃ s₁, plainPart inner t raw s.afterNext =
          (.ok (tokenOf t raw), s₁) ∧ s.afterNext.Alike s₁ :=
        plainPart_apply hfunction s.afterNext
      obtain ⟨hpart, rfl⟩ := Prod.mk.inj (hplain.symm.trans h)
      obtain rfl := Except.ok.inj hpart
      have hcloser : Token.closer? t.kind = none := (if_neg hfunction).trans hclosing
      obtain ⟨htoken, htext, hexpr, hstop⟩ : (tokenOf t raw).token = t ∧
          (tokenOf t raw).text = t.text ∧ (tokenOf t raw).expr = none ∧
          (tokenOf t raw).stop = t.stop := by
        unfold tokenOf hashOf wordPart
        dsimp only
        split_ifs <;> exact ⟨rfl, rfl, rfl, rfl⟩
      refine ⟨?_, halike.budget_eq⟩
      rw [halike.stream_eq]
      exact .token hs.isSound ht heof hcloser htoken htext hexpr hstop

/-- **The parts of a value are read.** The rounds are not used up, since each
of them takes a token that is not the end of the source. -/
theorem Writes.rounds (hinner : Writes inner) {ends : List TokenKind}
    {before parts : List ValuePart} (hs : Roomy s)
    (hn : Text.byteLength s.stream.source < s.stream.place.offset + n)
    (h : rounds (exprStep inner ends raw) n before s = (.ok parts, s')) :
    s'.budget = s.budget ∧ ∃ ps s₁, parts.reverse = before.reverse ++ ps ∧
      Wrote s.stream ps s₁ ∧ s'.stream = (s₁.get true false).2 ∧
      endsBefore ends raw (!parts.isEmpty) (s₁.get true false).1 = true := by
  induction n generalizing before s with
  | zero =>
    have hle := hs.isSound.isPlace.offset_le
    omega
  | succ n ih =>
    rcases rounds_eq_ok.mp h with hdone | ⟨parts₁, s₁, hyield, hrest⟩
    · obtain ⟨hends, rfl, rfl⟩ := exprStep_eq_done.mp hdone
      exact ⟨rfl, [], s.stream, (List.append_nil _).symm, .nil hs.isSound, rfl, hends⟩
    · obtain ⟨hends, part, hpart, rfl⟩ := exprStep_eq_yield.mp hyield
      have heof : (s.stream.get true false).1.kind ≠ .eof := fun heof => hends (by
        unfold endsBefore Token.isEof
        rw [heof]
        rfl)
      obtain ⟨hwrote, hbudget⟩ := hinner.onePart hs rfl heof hpart
      have hlt : s.stream.place.offset < s₁.stream.place.offset :=
        Nat.lt_of_le_of_lt (hwrote.within part (.here List.mem_cons_self)).lo_le
          (Nat.lt_of_lt_of_le (hwrote.stands part (.here List.mem_cons_self)).location_lt_stop
            (hwrote.within part (.here List.mem_cons_self)).le_hi)
      obtain ⟨hbudget', ps, s₂, hparts, hwrote', hstream, hdone⟩ :=
        ih (hs.of_wrote hwrote hbudget) (by rw [hwrote.source_eq]; omega) hrest
      refine ⟨hbudget'.trans hbudget, part :: ps, s₂, ?_, hwrote.append hwrote', hstream, hdone⟩
      rw [hparts, List.reverse_cons, List.append_assoc]
      rfl

/-- **Values with brackets nested to any depth.** -/
theorem writes_exprTo (depth : Nat) : Writes (exprTo depth) := by
  induction depth with
  | zero =>
    intro ends raw s s' v hs h
    cases h
  | succ depth ih =>
    intro ends raw s s' v hs h
    rw [exprTo] at h
    obtain ⟨parts, s₁, hrounds, hrest⟩ := bind_eq_ok.mp h
    obtain ⟨hbudget, ps, s₂, hparts, hwrote, hstream, hends⟩ :=
      ih.rounds hs (Nat.lt_add_left _ hs.lt_budget) hrounds
    rw [List.reverse_nil, List.nil_append] at hparts
    have hvalue : s₁ = s' ∧ partsOf v = ps ∧ ∀ w, v = some w → ValuePart.Spans w := by
      rw [← hparts]
      by_cases hempty : parts.isEmpty = true
      · rw [if_pos hempty] at hrest
        obtain rfl := List.isEmpty_iff.mp hempty
        cases hrest
        exact ⟨rfl, rfl, fun _ h => by cases h⟩
      · rw [if_neg hempty] at hrest
        cases hrest
        refine ⟨rfl, rfl, ?_⟩
        rintro _ ⟨⟩
        exact ValuePart.spans_ofParts fun hnil => hempty (by rw [List.reverse_eq_nil_iff.mp hnil]; rfl)
    obtain ⟨rfl, rfl, hspans⟩ := hvalue
    refine ⟨hbudget, hspans, s₂, hwrote, hstream, ?_⟩
    rw [← hparts, List.isEmpty_reverse]
    exact hends

/-- **A value loses no token.** Wherever a stream stands, whatever ends the
value and whether it is raw: the tokens handed out from there on are those of
the value written out, and then the one that is left at hand, which ends the
value. Every part, at any depth, has the text of the source from where its
token starts to where it stops, and what stands inside it lies strictly
inside. -/
theorem gets_of_expr {text : String} {known : List Location} {ends : List TokenKind} {v : Value}
    (hstream : Stream.Reached text known s.stream)
    (hbudget : s.budget = Parse.budgetOf s.stream.source)
    (h : expr ends raw s = (.ok (some v), s')) :
    s.stream.gets true false (v.writtenOut.length + 1) =
        (v.writtenOut ++ [s'.stream.current], s'.stream) ∧
      endsBefore ends raw true s'.stream.current = true ∧
      ∀ p : ValuePart, p.In v.parts →
        p.text.toList = Text.slice s.stream.source p.location.offset p.stop.offset ∧
        ∀ q : ValuePart, q.In p.inner →
          p.location.offset < q.location.offset ∧ q.stop.offset < p.stop.offset := by
  have hroomy : Roomy s := by
    refine ⟨hstream.isSteady.1.isSound, ?_⟩
    have hlength := Text.byteLength_le s.stream.source
    rw [hbudget]
    unfold Parse.budgetOf
    omega
  obtain ⟨-, -, s₁, hwrote, hafter, hends⟩ := writes_exprTo _ _ _ _ _ _ hroomy h
  have hcurrent := current_of_get hwrote.isSound hafter
  have hwritten : v.writtenOut = writtenAll v.parts := by
    obtain ⟨parts, vtext, location, stop, isVar⟩ := v
    unfold ValueOf.writtenOut
    rw [ValuePart.writtenValue]
  refine ⟨?_, ?_, fun p hp => ?_⟩
  · have hyields := hwrote.yields.append (.cons hcurrent.symm (.nil _))
    unfold Stream.Yields at hyields
    rw [List.length_append, ← hafter] at hyields
    rw [hwritten]
    exact hyields
  · rw [hcurrent]
    unfold endsBefore at hends ⊢
    simp only [Bool.or_eq_true, Bool.and_eq_true] at hends ⊢
    exact hends.imp id fun hbrace => ⟨hbrace.1, trivial⟩
  · obtain ⟨-, htext, hinside, -⟩ := hwrote.stands p hp
    exact ⟨htext, hinside⟩

/-- A function with a bracketed block inside it, and a semicolon after it. -/
theorem gets_of_expr_nested :
    let s := State.initial "a(b [c]) /**/d; e" {} .fresh none
    ∃ v s', expr [.semicolon] false s = (.ok (some v), s') ∧
      v.writtenOut.map (·.text) = ["a(", "b", "[", "c", "]", ")", "d"] ∧
      s'.stream.current.text = ";" ∧
      s.stream.gets true false (v.writtenOut.length + 1) =
        (v.writtenOut ++ [s'.stream.current], s'.stream) := by
  intro s
  have htexts : (expr [.semicolon] false s).1.toOption.join.map (·.writtenOut.map (·.text)) =
      some ["a(", "b", "[", "c", "]", ")", "d"] := by decide +kernel
  have hcurrent : (expr [.semicolon] false s).2.stream.current.text = ";" := by decide +kernel
  rcases hrun : expr [.semicolon] false s with ⟨e | v, s'⟩
  · rw [hrun] at htexts
    cases htexts
  · cases v with
    | none =>
      rw [hrun] at htexts
      cases htexts
    | some v =>
      rw [hrun] at htexts hcurrent
      have hreached : Stream.Reached "a(b [c]) /**/d; e" _ s.stream := .start
      have hwritten := gets_of_expr hreached rfl hrun
      exact ⟨v, s', rfl, Option.some.inj htexts, hcurrent, hwritten.1⟩

end Parser

end Stylesheet
