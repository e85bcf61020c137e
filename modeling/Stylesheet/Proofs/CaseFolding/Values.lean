import Stylesheet.Parse.Sheet
import Stylesheet.Proofs.CaseFolding.Tokens
import Stylesheet.Proofs.Reads.Basic

/-!
# Reading values of texts with their capitals made small

A value read from the small text is the value read from the text, part by
part and place by place, up to the case of letters (`Parser.expr_parallel`).
-/

namespace Stylesheet

open Parse (State)
open Text (asciiLower)

/-! ## Parsers side by side

Two parsers run from states that are related, and come to the same: both
fail, or both succeed with answers that are related, in states that are
related again (`Parallel`). What the relations are is left open. Whoever
compares two texts says what their states have in common, proves of the few
parsers that look at the state that they keep it, and has the rest from the
rules here. -/

section Coincide

variable {α β γ δ σ τ : Type} {T : State → State → Prop} {Q : α → β → Prop} {P : γ → δ → Prop}
  {p : Parser α} {q : Parser β} {f : α → Parser γ} {g : β → Parser δ}

/-- **What two runs come to.** -/
inductive Coincide (T : State → State → Prop) (Q : α → β → Prop) :
    Except Diagnostic α × State → Except Diagnostic β × State → Prop where
  /-- Both succeed. -/
  | ok {a : α} {b : β} {s s' : State} : Q a b → T s s' → Coincide T Q (.ok a, s) (.ok b, s')
  /-- Both fail. -/
  | error {e e' : Diagnostic} {s s' : State} : Coincide T Q (.error e, s) (.error e', s')

/-- **Two parsers come to the same** from states that are related. -/
def Parallel (T : State → State → Prop) (Q : α → β → Prop) (p : Parser α) (q : Parser β) : Prop :=
  ∀ s s', T s s' → Coincide T Q (p s) (q s')

/-- Rounds of a repetition that are related. -/
inductive RelateRounds (R : σ → τ → Prop) : ForInStep σ → ForInStep τ → Prop where
  /-- Both are the last. -/
  | done {a : σ} {b : τ} : R a b → RelateRounds R (.done a) (.done b)
  /-- Both go on. -/
  | yield {a : σ} {b : τ} : R a b → RelateRounds R (.yield a) (.yield b)

namespace Parallel

theorem pure {a : α} {b : β} (h : Q a b) : Parallel T Q (Pure.pure a) (Pure.pure b) :=
  fun _ _ hs => .ok h hs

theorem throw (e e' : Diagnostic) : Parallel T Q (MonadExcept.throw e) (MonadExcept.throw e') :=
  fun _ _ _ => .error

theorem throw_bind (e e' : Diagnostic) {f : α → Parser γ} {g : β → Parser δ} :
    Parallel T P ((MonadExcept.throw e : Parser α) >>= f) ((MonadExcept.throw e' : Parser β) >>= g) :=
  fun _ _ _ => .error

theorem bind (h : Parallel T Q p q) (hf : ∀ a b, Q a b → Parallel T P (f a) (g b)) :
    Parallel T P (p >>= f) (q >>= g) := by
  intro s s' hs
  have hfirst := h s s' hs
  rcases hp : p s with ⟨r, s₁⟩
  rcases hq : q s' with ⟨r', s₁'⟩
  rw [hp, hq] at hfirst
  cases hfirst with
  | ok hab hs₁ =>
    rw [Parser.bind_ok hp, Parser.bind_ok hq]
    exact hf _ _ hab _ _ hs₁
  | error =>
    rw [Parser.bind_error hp, Parser.bind_error hq]
    exact .error

theorem ite {c c' : Prop} [Decidable c] [Decidable c'] {p₁ p₂ : Parser α} {q₁ q₂ : Parser β}
    (hc : c ↔ c') (hpos : Parallel T Q p₁ q₁) (hneg : Parallel T Q p₂ q₂) :
    Parallel T Q (if c then p₁ else p₂) (if c' then q₁ else q₂) := by
  by_cases h : c
  · rw [if_pos h, if_pos (hc.mp h)]
    exact hpos
  · rw [if_neg h, if_neg fun h' => h (hc.mpr h')]
    exact hneg

/-- A look at the state. -/
theorem look {f : State → Parser γ} {g : State → Parser δ}
    (h : ∀ s s', T s s' → Parallel T P (f s) (g s')) :
    Parallel T P (Parser.state >>= f) (Parser.state >>= g) := fun s s' hs => h s s' hs s s' hs

theorem ask {m : Stream → α × Stream} {m' : Stream → β × Stream}
    (h : ∀ s s', T s s' → Q (m s.stream).1 (m' s'.stream).1 ∧
      T { s with stream := (m s.stream).2 } { s' with stream := (m' s'.stream).2 }) :
    Parallel T Q (Parser.ask m) (Parser.ask m') :=
  fun s s' hs => .ok (h s s' hs).1 (h s s' hs).2

theorem rounds {R : σ → τ → Prop} {step : σ → Parser (ForInStep σ)}
    {step' : τ → Parser (ForInStep τ)}
    (h : ∀ a b, R a b → Parallel T (RelateRounds R) (step a) (step' b)) (n : Nat) {a : σ} {b : τ}
    (hab : R a b) : Parallel T R (Parser.rounds step n a) (Parser.rounds step' n b) := by
  induction n generalizing a b with
  | zero => exact pure hab
  | succ n ih =>
    refine (h a b hab).bind fun _ _ hround => ?_
    cases hround with
    | done hab => exact pure hab
    | yield hab => exact ih hab

end Parallel

end Coincide

/-! ## Small values -/

/-- Whether a part of a type can begin with a token: what is called must be
a function or an address. -/
def Token.begins (t : Token) (type : PartType) : Bool :=
  (type != .function && type != .uri) || (t.kind == .function || t.kind == .uri)

/-- The token of a part of a type in small letters. One that it cannot begin
with is left alone. -/
def Token.smallIn (t : Token) (type : PartType) : Token := if t.begins type then t.small else t

mutual
/-- **A part in small letters**, with everything inside it. -/
def ValuePart.small : ValuePart → ValuePart
  | ⟨token, text, type, expr, stop, isCalc, isVar, isAttr, isNone⟩ =>
    ⟨token.smallIn type, asciiLower text, type, smallExpr expr, stop, isCalc, isVar, isAttr, isNone⟩

/-- The inside of a part in small letters. -/
def ValuePart.smallExpr : Option (ValueOf ValuePart) → Option (ValueOf ValuePart)
  | none => none
  | some v => some (smallValue v)

/-- A value in small letters. -/
def ValuePart.smallValue : ValueOf ValuePart → ValueOf ValuePart
  | ⟨parts, text, location, stop, isVar⟩ => ⟨smallAll parts, asciiLower text, location, stop, isVar⟩

/-- Parts in small letters. -/
def ValuePart.smallAll : List ValuePart → List ValuePart
  | [] => []
  | p :: ps => ValuePart.small p :: smallAll ps
end

namespace ValuePart

theorem smallAll_eq (ps : List ValuePart) : smallAll ps = ps.map small := by
  induction ps with
  | nil => rfl
  | cons p ps ih => rw [smallAll, ih, List.map_cons]

/-- **Parts that are the same in small letters.** -/
theorem small_inj {p p' : ValuePart} (h : p.small = p'.small) :
    p.token.smallIn p.type = p'.token.smallIn p'.type ∧ asciiLower p.text = asciiLower p'.text ∧ p.type = p'.type ∧
      smallExpr p.expr = smallExpr p'.expr ∧ p.stop = p'.stop ∧ p.isCalc = p'.isCalc ∧
      p.isVar = p'.isVar ∧ p.isAttr = p'.isAttr ∧ p.isNone = p'.isNone := by
  obtain ⟨token, text, type, expr, stop, isCalc, isVar, isAttr, isNone⟩ := p
  obtain ⟨token', text', type', expr', stop', isCalc', isVar', isAttr', isNone'⟩ := p'
  unfold small at h
  exact ValuePart.mk.inj h

/-- Tokens that are the same in small letters make the same parts. -/
theorem smallIn_eq {t t' : Token} (h : t'.small = t.small) {type : PartType}
    (hbegins : t.begins type = true) : t'.smallIn type = t.smallIn type := by
  have hbegins' : t'.begins type = true := by
    unfold Token.begins at hbegins ⊢
    rw [show t'.kind = t.kind from (Token.mk.inj h).1]
    exact hbegins
  unfold Token.smallIn
  rw [if_pos hbegins, if_pos hbegins', h]

section

variable {p p' : ValuePart} (h : p'.small = p.small)

include h

theorem kind_eq : p'.kind = p.kind := by
  have hkind : ∀ p : ValuePart, (p.token.smallIn p.type).kind = p.kind := by
    intro p
    unfold Token.smallIn
    split_ifs <;> rfl
  rw [← hkind, (small_inj h).1, hkind]

theorem location_eq : p'.location = p.location := by
  have hlocation : ∀ p : ValuePart, (p.token.smallIn p.type).location = p.location := by
    intro p
    unfold Token.smallIn
    split_ifs <;> rfl
  rw [← hlocation, (small_inj h).1, hlocation]

end

/-- Values that are the same in small letters. -/
theorem smallValue_inj {v v' : Value} (h : smallValue v = smallValue v') :
    v.parts.map small = v'.parts.map small ∧ asciiLower v.text = asciiLower v'.text ∧
      v.location = v'.location ∧ v.stop = v'.stop ∧ v.isVar = v'.isVar := by
  obtain ⟨parts, text, location, stop, isVar⟩ := v
  obtain ⟨parts', text', location', stop', isVar'⟩ := v'
  unfold smallValue at h
  rw [smallAll_eq, smallAll_eq] at h
  exact ValueOf.mk.inj h

end ValuePart

/-! ## The two parses -/

namespace Parse.State

/-- **A parse of a text beside one of the small text**, both at the same
place with nothing taken back, and no filter to come. -/
structure Twin (s s' : State) : Prop where
  /-- The readers are at the same place. -/
  reader : s.stream.reader.Twin s'.stream.reader
  /-- The tokens handed out are the same in small letters. -/
  behind : s'.stream.behind.map Token.small = s.stream.behind.map Token.small
  /-- Nothing was taken back. -/
  ahead : s.stream.ahead = [] ∧ s'.stream.ahead = []
  /-- The options are the same. -/
  options : s'.options = s.options
  /-- The budget is the same. -/
  budget : s'.budget = s.budget
  /-- There is no filter to come. -/
  plain : ∀ t ∈ tokensOf 0 s.stream.reader.location s.stream.reader.rest,
    t.payload.mayFilter = false

variable {s s' : State}

/-- The token handed out last is the same in small letters. -/
theorem Twin.current (h : s.Twin s') : s'.stream.current.small = s.stream.current.small := by
  have hhead : s'.stream.current?.map Token.small = s.stream.current?.map Token.small := by
    unfold Stream.current?
    rw [← List.head?_map, h.behind, List.head?_map]
  unfold Stream.current
  rw [h.reader.location_eq]
  generalize s'.stream.current? = found', s.stream.current? = found at hhead ⊢
  rcases found' with _ | t' <;> rcases found with _ | t
  · rfl
  · cases hhead
  · cases hhead
  · exact Option.some.inj hhead

end Parse.State

namespace Parser

/-- Parsers that come to the same, up to letters. -/
abbrev Alike {α β : Type} (f : α → β) (p q : Parser α) : Prop :=
  Parallel State.Twin (fun a b => f b = f a) p q

open Parallel

theorem next_alike (placeholders blanks : Bool) :
    Alike Token.small (next placeholders blanks) (next placeholders blanks) := by
  refine Parallel.ask fun s s' hs => ?_
  obtain ⟨hnil, hnil'⟩ := hs.ahead
  have hget : ∀ s : Stream, s.ahead = [] → s.get placeholders blanks =
      ((s.reader.lex ⟨blanks, placeholders, false⟩).1,
        ⟨(s.reader.lex ⟨blanks, placeholders, false⟩).2,
          ((s.reader.lex ⟨blanks, placeholders, false⟩).1 :: s.behind).take Stream.capacity, []⟩) := by
    rintro ⟨reader, behind, ahead⟩ rfl
    rfl
  have hplain : (s.stream.reader.lex ⟨blanks, placeholders, false⟩).1.payload.mayFilter = false := by
    have hcut := s.stream.reader.lex_tokensOf (show (Mode.mk blanks placeholders false).comments =
      false from rfl)
    rcases hcut.1 with hmem | hnone
    · exact hs.plain _ hmem
    · rw [hnone]
      rfl
  obtain ⟨htoken, hreader⟩ := hs.reader.lex hplain
  rw [hget _ hnil, hget _ hnil']
  refine ⟨htoken, hreader, ?_, ⟨rfl, rfl⟩, hs.options, hs.budget, fun t ht => hs.plain t ?_⟩
  · dsimp only
    rw [List.map_take, List.map_take, List.map_cons, List.map_cons, htoken, hs.behind]
  · exact (s.stream.reader.lex_tokensOf rfl).2 t ht

theorem current_alike : Alike Token.small current current := fun _ _ hs => .ok hs.current hs

theorem options_alike : Alike id options options := fun _ _ hs => .ok hs.options hs

theorem budget_alike : Alike id budget budget := fun _ _ hs => .ok hs.budget hs

theorem repeating_alike {σ : Type} {R : σ → σ → Prop} {step : σ → Parser (ForInStep σ)}
    (h : ∀ a b, R a b → Parallel State.Twin (RelateRounds R) (step a) (step b)) {a b : σ}
    (hab : R a b) : Parallel State.Twin R (repeating a step) (repeating b step) :=
  budget_alike.bind fun n n' hn => by
    obtain rfl : n' = n := hn
    exact Parallel.rounds h n' hab

theorem slice_alike (start stop : Nat) : Alike asciiLower (slice start stop) (slice start stop) := by
  refine fun s s' hs => .ok ?_ hs
  unfold Stream.slice Reader.slice
  rw [hs.reader.source_eq, Text.slice_toLower, Text.asciiLower_ofList, Text.asciiLower_ofList,
    List.map_map, Text.toLower_ignoresCase.comp]

/-- Reporting an event changes nothing that is read. -/
theorem fire_keeps (kind : EventKind) (location : Location) (s : State) :
    ∃ after, fire kind location s = (.ok (), after) ∧ after.stream = s.stream ∧
      after.options = s.options ∧ after.budget = s.budget := by
  cases hheld : s.deferred with
  | some held => exact ⟨_, fire_apply_of_held hheld kind location, rfl, rfl, rfl⟩
  | none =>
    have hfire : fire kind location s = dispatch ⟨kind, location⟩ s := by
      unfold fire
      refine (bind_ok (show state s = (.ok s, s) from rfl)).trans ?_
      rw [hheld]
    rw [hfire]
    exact ⟨_, rfl, rfl, rfl, rfl⟩

theorem warn_parallel (message message' : String) (location : Location) :
    Parallel State.Twin (fun _ _ => True) (warn message location) (warn message' location) := by
  intro s s' hs
  obtain ⟨after, hrun, hstream, hoptions, hbudget⟩ := fire_keeps (.warning message) location s
  obtain ⟨after', hrun', hstream', hoptions', hbudget'⟩ := fire_keeps (.warning message') location s'
  unfold warn
  rw [hrun, hrun']
  refine .ok trivial ⟨?_, ?_, ?_, ?_, ?_, ?_⟩
  · rw [hstream, hstream']
    exact hs.reader
  · rw [hstream, hstream']
    exact hs.behind
  · rw [hstream, hstream']
    exact hs.ahead
  · rw [hoptions, hoptions']
    exact hs.options
  · rw [hbudget, hbudget']
    exact hs.budget
  · rw [hstream]
    exact hs.plain

/-! ## Parts -/

section Tokens

variable {t t' : Token} (h : t'.small = t.small)

include h

theorem kind_eq : t'.kind = t.kind := (Token.mk.inj h).1

theorem location_eq : t'.location = t.location := (Token.mk.inj h).2.2.2.1

theorem stop_eq : t'.stop = t.stop := (Token.mk.inj h).2.2.2.2

theorem text_eq : asciiLower t'.text = asciiLower t.text := by
  rw [← t'.small_text, h, t.small_text]

theorem has_eq (set : Keywords) : set.has t'.text = set.has t.text := by
  rw [← Text.has_asciiLower, text_eq h, Text.has_asciiLower]

end Tokens

/-- What stands inside is a variable in small letters if it is one. -/
theorem any_isVar_eq {inside inside' : Option Value}
    (h : ValuePart.smallExpr inside' = ValuePart.smallExpr inside) :
    inside'.any (·.isVar) = inside.any (·.isVar) := by
  rcases inside with _ | v <;> rcases inside' with _ | v'
  · rfl
  · cases h
  · cases h
  · exact (ValuePart.smallValue_inj (Option.some.inj h)).2.2.2.2

/-- The first part is a name in small letters if it is one. -/
theorem smallValue_eq {v v' : Value} (h : ValuePart.smallValue v' = ValuePart.smallValue v) :
    v'.isVar = v.isVar ∧
      (v'.parts.head?.any fun p => p.kind == .ident || p.kind == .uvar) =
        (v.parts.head?.any fun p => p.kind == .ident || p.kind == .uvar) := by
  obtain ⟨hparts, -, -, -, hvar⟩ := ValuePart.smallValue_inj h
  refine ⟨hvar, ?_⟩
  have hhead := congrArg List.head? hparts
  rw [List.head?_map, List.head?_map] at hhead
  generalize v'.parts.head? = found', v.parts.head? = found at hhead ⊢
  rcases found' with _ | p' <;> rcases found with _ | p
  · rfl
  · cases hhead
  · cases hhead
  · have hkind : p'.kind = p.kind :=
      ValuePart.kind_eq (Option.some.inj hhead)
    show (p'.kind == .ident || p'.kind == .uvar) = (p.kind == .ident || p.kind == .uvar)
    rw [hkind]

/-- Every token can begin a part of its type. -/
theorem ofToken_begins (t : Token) : t.begins (PartType.ofToken t) = true := by
  unfold Token.begins PartType.ofToken
  cases hkind : t.kind
  case ident => cases t.isCustomIdent <;> rfl
  all_goals rfl

section Parts

variable {t t' : Token} (h : t'.small = t.small)

include h

theorem ofToken_type_eq : PartType.ofToken t' = PartType.ofToken t := by
  have hcustom : t'.isCustomIdent = t.isCustomIdent := by
    rw [← t'.small_isCustomIdent, h, t.small_isCustomIdent]
  unfold PartType.ofToken
  rw [kind_eq h, hcustom]

theorem ofToken_small : (ValuePart.ofToken t').small = (ValuePart.ofToken t).small := by
  unfold ValuePart.ofToken ValuePart.small
  rw [ofToken_type_eq h, ValuePart.smallIn_eq h (ofToken_begins t), text_eq h, stop_eq h, kind_eq h]

/-- A token as a color. -/
theorem ofToken_color_small : ValuePart.small { ValuePart.ofToken t' with type := .color } =
    ValuePart.small { ValuePart.ofToken t with type := .color } := by
  unfold ValuePart.ofToken ValuePart.small
  rw [ValuePart.smallIn_eq h rfl, text_eq h, stop_eq h, kind_eq h]

theorem wordPart_small : (wordPart t').small = (wordPart t).small := by
  unfold wordPart
  rw [has_eq h, has_eq h, has_eq h]
  split_ifs
  · obtain ⟨htoken, htext, htype, hexpr, hstop, hcalc, hvar, hattr, -⟩ :=
      ValuePart.small_inj (ofToken_small h)
    unfold ValuePart.small
    rw [htoken, htext, htype, hexpr, hstop, hcalc, hvar, hattr]
  · exact ofToken_color_small h
  · exact ofToken_small h

theorem hashPart_alike : Alike ValuePart.small (hashPart t) (hashPart t') := by
  have hcolor : isHexColor t'.text = isHexColor t.text := by
    have hsmall : ∀ s : String, isHexColor (asciiLower s) = isHexColor s := by
      intro s
      unfold isHexColor
      rw [Text.utf8ByteSize_eq, Text.utf8ByteSize_eq, Text.toList_asciiLower,
        Text.byteLength_toLower, ← List.map_drop, Text.all_toLower Text.isHexDigit_ignoresCase]
    rw [← hsmall, text_eq h, hsmall]
  unfold hashPart
  refine Parallel.ite (by rw [hcolor]) (Parallel.pure (ofToken_color_small h)) ?_
  rw [location_eq h]
  exact (warn_parallel _ _ _).bind fun _ _ _ => Parallel.pure (ofToken_small h)

end Parts

section Inner

variable {inner : ExprParser}
  (hinner : ∀ ends raw, Alike ValuePart.smallExpr (inner ends raw) (inner ends raw))
  {t t' : Token} (h : t'.small = t.small)

include hinner h

theorem blockPart_alike (close : TokenKind) (raw : Bool) :
    Alike ValuePart.small (blockPart inner t close raw) (blockPart inner t' close raw) := by
  unfold blockPart
  refine (hinner [close] raw).bind fun inside inside' hinside => ?_
  refine current_alike.bind fun last last' hlast => ?_
  refine Parallel.ite (by rw [kind_eq hlast]) ?_ (Parallel.throw_bind _ _)
  rw [location_eq h, stop_eq hlast]
  refine (slice_alike _ _).bind fun text text' htext => Parallel.pure ?_
  obtain ⟨-, -, -, -, -, hcalc, -, hattr, hnone⟩ := ValuePart.small_inj (ofToken_small h)
  have htoken : (ValuePart.ofToken t').token.smallIn .block =
      (ValuePart.ofToken t).token.smallIn .block := ValuePart.smallIn_eq h rfl
  unfold ValuePart.small
  rw [htoken, htext, hinside, any_isVar_eq hinside, hcalc, hattr, hnone]

theorem functionPart_alike (hfunction : t.kind = .function) (raw : Bool) :
    Alike ValuePart.small (functionPart inner t raw) (functionPart inner t' raw) := by
  have hname : t'.name = t.name := by
    rw [← t'.small_name (.inl ((kind_eq h).trans hfunction)), h, t.small_name (.inl hfunction)]
  obtain ⟨htoken, -, htype, -, -, hcalc, hvar, hattr, hnone⟩ := ValuePart.small_inj (ofToken_small h)
  unfold functionPart
  refine (hinner [.rParen] raw).bind fun args args' hargs => ?_
  refine current_alike.bind fun close close' hclose => ?_
  refine Parallel.ite (by rw [kind_eq hclose]) ?_ (Parallel.throw_bind _ _)
  rw [location_eq h, stop_eq hclose]
  refine (slice_alike _ _).bind fun text text' htext => ?_
  rcases args with _ | args <;> rcases args' with _ | args'
  · refine Parallel.pure ?_
    unfold ValuePart.small
    rw [htoken, htext, htype, hcalc, hvar, hattr, hnone]
  · cases hargs
  · cases hargs
  · refine Parallel.pure ?_
    obtain ⟨hisVar, hhead⟩ := smallValue_eq (Option.some.inj hargs)
    unfold ValuePart.small
    dsimp only
    rw [htoken, htext, htype, hargs, hname, hisVar, hhead, hnone]

theorem plainPart_alike (raw : Bool) :
    Alike ValuePart.small (plainPart inner t raw) (plainPart inner t' raw) := by
  have hfilter : t'.isFilterFunction = t.isFilterFunction := by
    rw [← t'.small_isFilterFunction, h, t.small_isFilterFunction]
  have hcustom : t'.isCustomIdent = t.isCustomIdent := by
    rw [← t'.small_isCustomIdent, h, t.small_isCustomIdent]
  unfold plainPart
  rw [kind_eq h, hcustom, hfilter]
  by_cases hfunction : (t.kind == .function) = true
  · rw [if_pos hfunction, if_pos hfunction]
    refine options_alike.bind fun o o' ho => ?_
    obtain rfl : o' = o := ho
    exact Parallel.ite Iff.rfl (Parallel.throw_bind _ _)
      (functionPart_alike hinner h (beq_iff_eq.mp hfunction) raw)
  · rw [if_neg hfunction, if_neg hfunction]
    refine Parallel.ite Iff.rfl (Parallel.pure (ofToken_small h)) ?_
    refine Parallel.ite Iff.rfl (hashPart_alike h) ?_
    exact Parallel.ite Iff.rfl (Parallel.pure (wordPart_small h)) (Parallel.pure (ofToken_small h))

omit h in
theorem exprStep_alike (ends : List TokenKind) (raw : Bool) {parts parts' : List ValuePart}
    (hparts : parts'.map ValuePart.small = parts.map ValuePart.small) :
    Parallel State.Twin (RelateRounds fun ps ps' => ps'.map ValuePart.small = ps.map ValuePart.small)
      (exprStep inner ends raw parts) (exprStep inner ends raw parts') := by
  have hempty : parts'.isEmpty = parts.isEmpty := by
    rw [← List.isEmpty_map (f := ValuePart.small), hparts, List.isEmpty_map]
  have hcons : ∀ part part', part'.small = part.small →
      RelateRounds (fun ps ps' => ps'.map ValuePart.small = ps.map ValuePart.small)
        (.yield (part :: parts)) (.yield (part' :: parts')) := fun part part' hpart => by
    refine .yield ?_
    rw [List.map_cons, List.map_cons, hpart, hparts]
  unfold exprStep
  refine (next_alike true false).bind fun t t' ht => ?_
  have hkind := kind_eq ht
  unfold Token.isEof
  rw [hkind]
  refine Parallel.ite Iff.rfl (Parallel.pure (.done hparts)) ?_
  cases closingKind? t.kind with
  | some close =>
    rw [hempty]
    refine Parallel.ite Iff.rfl (Parallel.pure (.done hparts)) ?_
    exact (blockPart_alike hinner ht close raw).bind fun part part' hpart =>
      Parallel.pure (hcons part part' hpart)
  | none =>
    exact (plainPart_alike hinner ht raw).bind fun part part' hpart =>
      Parallel.pure (hcons part part' hpart)

end Inner

/-- Parts with their source make values that are the same in small letters. -/
theorem ofParts_small {ps ps' : List ValuePart}
    (h : ps'.map ValuePart.small = ps.map ValuePart.small) (source : List Char) :
    ValuePart.smallValue (.ofParts ps' (source.map Char.toLower)) =
      ValuePart.smallValue (.ofParts ps source) := by
  have hlocation : ps'.head?.map (·.location) = ps.head?.map (·.location) := by
    have hhead := congrArg List.head? h
    rw [List.head?_map, List.head?_map] at hhead
    generalize ps'.head? = found', ps.head? = found at hhead ⊢
    rcases found' with _ | p' <;> rcases found with _ | p
    · rfl
    · cases hhead
    · cases hhead
    · exact congrArg some (ValuePart.location_eq (Option.some.inj hhead))
  have hstop : ps'.getLast?.map (·.stop) = ps.getLast?.map (·.stop) := by
    have hlast := congrArg List.getLast? h
    rw [List.getLast?_map, List.getLast?_map] at hlast
    generalize ps'.getLast? = found', ps.getLast? = found at hlast ⊢
    rcases found' with _ | p' <;> rcases found with _ | p
    · rfl
    · cases hlast
    · cases hlast
    · exact congrArg some (ValuePart.small_inj (Option.some.inj hlast)).2.2.2.2.1
  have hvar : ps'.any (·.isVar) = ps.any (·.isVar) := by
    have hsmall : ∀ ps : List ValuePart, ps.any (·.isVar) = (ps.map ValuePart.small).any (·.isVar) := by
      intro ps
      rw [List.any_map]
      refine List.any_congr rfl fun p => ?_
      cases p
      rfl
    rw [hsmall, h, ← hsmall]
  unfold ValueOf.ofParts ValuePart.smallValue
  rw [hlocation, hstop, hvar, ValuePart.smallAll_eq, ValuePart.smallAll_eq, h, Text.slice_toLower,
    Text.asciiLower_ofList, Text.asciiLower_ofList, List.map_map, Text.toLower_ignoresCase.comp]

theorem exprTo_alike (depth : Nat) (ends : List TokenKind) (raw : Bool) :
    Alike ValuePart.smallExpr (exprTo depth ends raw) (exprTo depth ends raw) := by
  induction depth generalizing ends raw with
  | zero => exact Parallel.throw _ _
  | succ depth ih =>
    unfold exprTo
    refine (repeating_alike (fun _ _ h => exprStep_alike ih ends raw h) rfl).bind
      fun parts parts' hparts => ?_
    have hempty : parts'.isEmpty = parts.isEmpty := by
      rw [← List.isEmpty_map (f := ValuePart.small), hparts, List.isEmpty_map]
    rw [hempty]
    refine Parallel.ite Iff.rfl (Parallel.pure rfl) (Parallel.look fun s s' hs => Parallel.pure ?_)
    have hreverse : parts'.reverse.map ValuePart.small = parts.reverse.map ValuePart.small := by
      rw [List.map_reverse, hparts, List.map_reverse]
    unfold ValuePart.smallExpr Stream.source
    rw [hs.reader.source_eq, ofParts_small hreverse]

theorem expr_alike (ends : List TokenKind) (raw : Bool) :
    Alike ValuePart.smallExpr (expr ends raw) (expr ends raw) :=
  budget_alike.bind fun depth depth' hdepth => by
    obtain rfl : depth' = depth := hdepth
    exact exprTo_alike depth' ends raw

/-! ## Whole values -/

theorem expectEnd_parallel : Parallel State.Twin (fun _ _ => True) expectEnd expectEnd := by
  have hend : ∀ t t' : Token, t'.small = t.small → Parallel State.Twin (fun _ _ => True)
      (if t.isEof then Pure.pure PUnit.unit else failAt "end of input" t)
      (if t'.isEof then Pure.pure PUnit.unit else failAt "end of input" t') := by
    intro t t' ht
    unfold Token.isEof
    rw [kind_eq ht]
    exact Parallel.ite Iff.rfl (Parallel.pure trivial) (Parallel.throw _ _)
  unfold expectEnd
  refine current_alike.bind fun t t' ht => ?_
  rw [kind_eq ht]
  exact Parallel.ite Iff.rfl ((next_alike false false).bind hend) (hend t t' ht)

theorem singleValue_alike : Alike ValuePart.smallValue singleValue singleValue := by
  unfold singleValue
  refine (expr_alike _ _).bind fun v v' hv => ?_
  rcases v with _ | v <;> rcases v' with _ | v'
  · exact current_alike.bind fun _ _ _ => Parallel.throw _ _
  · cases hv
  · cases hv
  · exact expectEnd_parallel.bind fun _ _ _ => Parallel.pure (Option.some.inj hv)

end Parser

/-- The states that the two parses start from. -/
theorem Parse.State.initial_twin {text : String} (options : Options) (validator : Validator)
    (store : Option BlockStore)
    (hplain : ∀ t ∈ (Stream.ofString text).allTokens.1, t.payload.mayFilter = false) :
    (State.initial text options validator store).Twin
      (State.initial (asciiLower text) options validator store) := by
  have hsource : normalizeNewlines (asciiLower text).toList =
      (normalizeNewlines text.toList).map Char.toLower := by
    rw [Text.toList_asciiLower, Text.normalizeNewlines_toLower]
  refine ⟨⟨hsource, rfl⟩, rfl, ⟨rfl, rfl⟩, rfl, ?_, hplain⟩
  show budgetOf (normalizeNewlines (asciiLower text).toList) = budgetOf (normalizeNewlines text.toList)
  unfold budgetOf
  rw [hsource, List.length_map]

/-- **The value of the small text** is that of the text, up to the case of
letters, if the text names no filter. -/
theorem parseValue_asciiLower {text : String}
    (hplain : ∀ t ∈ (Stream.ofString text).allTokens.1, t.payload.mayFilter = false) :
    (parseValue (asciiLower text)).toOption.map ValuePart.smallValue =
      (parseValue text).toOption.map ValuePart.smallValue := by
  have hrun := Parser.singleValue_alike _ _ (State.initial_twin {} .fresh none hplain)
  unfold parseValue Parser.runAlone Parser.run
  rcases hp : Parser.singleValue (State.initial text {} .fresh none) with ⟨r, s⟩
  rcases hp' : Parser.singleValue (State.initial (asciiLower text) {} .fresh none) with ⟨r', s'⟩
  rw [hp, hp'] at hrun
  cases hrun with
  | ok hv _ => exact congrArg some hv
  | error => rfl

end Stylesheet
