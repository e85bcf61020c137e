import Stylesheet.Proofs.Excerpt.Parts

/-!
# Reading a value from an excerpt

A value is read with nothing ahead, token by token, and never goes back. So
it reads whole tokens, and as long as it stays within an excerpt of the text
the same value is read from the excerpt, moved to its start (`Echoes`). What
stands in brackets ends with the closing bracket, and lies within the excerpt
if the bracket does.

Old filter functions are the exception. Whether a name begins one shows only
at the end of the line, and so they must not be asked for.
-/

namespace Stylesheet

open Parse (State)
open Parse.State (Onward Beside Level Poised)
open Reader (toStart)
open Lexeme (Fenced)

/-! ## Values that are moved -/

/-- An offset in an excerpt is one in the text without what leads up to it. -/
theorem offset_shift_toStart (lead : List Char) (loc : Location) :
    (shift (toStart lead) loc).offset = loc.offset - Text.byteLength lead := by
  have hlead := Location.offset_advance_start lead
  show moveCount loc.offset (((Location.start).offset : Int) -
    ((Location.start.advance lead).offset : Int)) = _
  rw [hlead]
  unfold moveCount
  rw [show Location.start.offset = 0 from rfl]
  omega

namespace ValuePart

variable {δ : Delta}

theorem moveAll_eq_shift (δ : Delta) (parts : List ValuePart) :
    moveAll δ parts = shift δ parts := by
  induction parts with
  | nil =>
    unfold moveAll
    rfl
  | cons part parts ih =>
    unfold moveAll
    rw [ih]
    rfl

theorem moveExpr_eq_shift (δ : Delta) (expr : Option Value) : moveExpr δ expr = shift δ expr := by
  cases expr <;>
  · unfold moveExpr
    rfl

/-- **What is moved of a part**: its token, what stands inside it, and the
place after it. -/
theorem shift_eq (p : ValuePart) : shift δ p =
    { p with token := shift δ p.token, expr := shift δ p.expr, stop := shift δ p.stop } := by
  show move δ p = _
  cases p
  unfold move
  rw [moveExpr_eq_shift]

end ValuePart

/-- **What is moved of a value.** -/
theorem ValueOf.shift_eq {δ : Delta} (v : Value) : shift δ v =
    ⟨shift δ v.parts, v.text, shift δ v.location, shift δ v.stop, v.isVar⟩ := by
  show ValuePart.moveValue δ v = _
  cases v
  unfold ValuePart.moveValue
  rw [ValuePart.moveAll_eq_shift]

namespace ValuePart

/-- **A part that lies between two offsets.** -/
structure Within (lo hi : Nat) (p : ValuePart) : Prop where
  /-- It does not start before the first. -/
  lo_le : lo ≤ p.location.offset
  /-- It does not stop after the second. -/
  le_hi : p.stop.offset ≤ hi

end ValuePart

/-- **A value in an excerpt**, made of the parts there. -/
theorem ValueOf.ofParts_shift {lead cs : List Char} (after : List Char) {parts : List ValuePart}
    (hne : parts ≠ []) (hparts : ∀ p ∈ parts, p.Within (Text.byteLength lead)
      (Text.byteLength lead + Text.byteLength cs)) :
    ofParts (shift (toStart lead) parts) cs =
      shift (toStart lead) (ofParts parts (lead ++ (cs ++ after))) := by
  obtain ⟨first, rest, rfl⟩ := List.exists_cons_of_ne_nil hne
  obtain ⟨last, hlast⟩ : ∃ last, (first :: rest).getLast? = some last :=
    Option.isSome_iff_exists.mp (by simp)
  have hmem : last ∈ first :: rest := List.mem_of_getLast? hlast
  have hmap : shift (toStart lead) (first :: rest) =
      (first :: rest).map (shift (toStart lead)) := rfl
  have hstop : (shift (toStart lead) (first :: rest)).getLast? =
      some (shift (toStart lead) last) := by
    rw [hmap, List.getLast?_map, hlast]
    rfl
  have hvar : (shift (toStart lead) (first :: rest)).any (·.isVar) =
      (first :: rest).any (·.isVar) := by
    rw [hmap, List.any_map]
    refine List.any_congr rfl fun p => ?_
    show (shift (toStart lead) p).isVar = p.isVar
    rw [ValuePart.shift_eq]
  have htext := Text.slice_within after (hparts first List.mem_cons_self).lo_le
    (hparts last hmem).le_hi
  have hhead : (shift (toStart lead) first).location = shift (toStart lead) first.location := by
    rw [ValuePart.shift_eq]
    rfl
  have hend : (shift (toStart lead) last).stop = shift (toStart lead) last.stop := by
    rw [ValuePart.shift_eq]
  unfold ofParts
  rw [shift_eq, hstop, hlast, hvar]
  rw [show (shift (toStart lead) (first :: rest)).head? =
    some (shift (toStart lead) first) from rfl]
  simp only [Option.map_some, Option.getD_some, List.head?_cons, hhead, hend,
    offset_shift_toStart, htext]

namespace Parser

variable {s s' u : State} {inner : ExprParser} {t : Token} {raw : Bool} {part : ValuePart}
  {lead after : List Char} {δ : Delta}

theorem blockOf_shift (inside : Option Value) (text : String) (last : Token) :
    blockOf (shift δ t) (shift δ inside) text (shift δ last) =
      shift δ (blockOf t inside text last) := by
  rw [ValuePart.shift_eq]
  cases inside with
  | none => rfl
  | some v =>
    have hvar : (shift δ v).isVar = v.isVar := by rw [ValueOf.shift_eq]
    show ({ ValuePart.ofToken (shift δ t) with
      text := text, type := .block, isVar := (shift δ v).isVar
      stop := shift δ last.stop, expr := shift δ (some v) } : ValuePart) = _
    rw [hvar]
    rfl

theorem functionOf_shift (args : Option Value) (text : String) (close : Token) :
    functionOf (shift δ t) (shift δ args) text (shift δ close) =
      shift δ (functionOf t args text close) := by
  rw [ValuePart.shift_eq]
  cases args with
  | none => rfl
  | some v =>
    have hvar : (shift δ v).isVar = v.isVar := by rw [ValueOf.shift_eq]
    have hhead : ((shift δ v).parts.head?.any fun p => p.kind == .ident || p.kind == .uvar) =
        v.parts.head?.any fun p => p.kind == .ident || p.kind == .uvar := by
      rw [ValueOf.shift_eq]
      cases v.parts with
      | nil => rfl
      | cons p parts =>
        have hkind : (shift δ p).kind = p.kind := by
          rw [ValuePart.shift_eq]
          rfl
        show ((shift δ p).kind == .ident || (shift δ p).kind == .uvar) = _
        rw [hkind]
        rfl
    show ({ ValuePart.ofToken (shift δ t) with
      text := text, stop := shift δ close.stop, expr := shift δ (some v)
      isCalc := calcFunctions.contains t.name
      isVar := (shift δ v).isVar || t.name == "var" || t.name == "env"
      isAttr := t.name == "attr" && (shift δ v).parts.head?.any fun p =>
        p.kind == .ident || p.kind == .uvar } : ValuePart) = _
    rw [hvar, hhead]
    rfl

theorem ofToken_shift : ValuePart.ofToken (shift δ t) = shift δ (ValuePart.ofToken t) := by
  rw [ValuePart.shift_eq]
  rfl

theorem hashOf_shift : hashOf (shift δ t) = shift δ (hashOf t) := by
  rw [ValuePart.shift_eq]
  unfold hashOf
  rw [show (shift δ t).text = t.text from rfl]
  split_ifs <;> rfl

theorem wordPart_shift : wordPart (shift δ t) = shift δ (wordPart t) := by
  rw [ValuePart.shift_eq]
  unfold wordPart
  rw [show (shift δ t).text = t.text from rfl]
  dsimp only
  split_ifs <;> rfl

theorem tokenOf_shift : tokenOf (shift δ t) raw = shift δ (tokenOf t raw) := by
  unfold tokenOf
  rw [show (shift δ t).kind = t.kind from rfl,
    show (shift δ t).isCustomIdent = t.isCustomIdent from rfl]
  split_ifs
  · exact ofToken_shift
  · exact hashOf_shift
  · exact wordPart_shift
  · exact ofToken_shift

theorem tokenOf_place (t : Token) (raw : Bool) :
    (tokenOf t raw).location = t.location ∧ (tokenOf t raw).stop = t.stop := by
  unfold tokenOf hashOf wordPart
  dsimp only
  split_ifs <;> exact ⟨rfl, rfl⟩

/-- The text from a token on in an excerpt is that in the text. -/
theorem textFrom_shift (h : Level lead after s u)
    (ht : Text.byteLength lead ≤ t.location.offset) :
    textFrom (shift (toStart lead) t) u = textFrom t s := by
  unfold textFrom Stream.slice Reader.slice
  rw [h.current, h.reader.source_eq]
  show String.ofList (Text.slice u.stream.source (shift (toStart lead) t.location).offset
    (shift (toStart lead) s.stream.current.stop).offset) = _
  rw [offset_shift_toStart, offset_shift_toStart]
  exact congrArg String.ofList (Text.slice_within after ht h.within.le_hi)

/-! ## Parts -/

/-- **A reader of values that reads an excerpt as it reads the text.** It reads
whole tokens, and where it stays in the excerpt the same value is read
there. -/
structure Echoes (inner : ExprParser) : Prop where
  /-- Whole tokens are read. -/
  onward : ∀ (ends : List TokenKind) (raw : Bool) {s s' : State} {v : Option Value}, s.Poised →
    s.options.ieFilters = false → inner ends raw s = (.ok v, s') → Onward s s'
  /-- The value is read in the excerpt, too. -/
  echo : ∀ (ends : List TokenKind) (raw : Bool) {lead after : List Char} {s s' u : State}
    {v : Option Value}, Fenced after → s.Poised → Level lead after s u →
    inner ends raw s = (.ok v, s') → after.length ≤ s'.stream.reader.rest.length →
    ∃ u', inner ends raw u = (.ok (shift (toStart lead) v), u') ∧ Level lead after s' u'

/-- **A part** reads whole tokens, and stops where the reader does. -/
theorem partOf_onward (hinner : Echoes inner) (hs : s.Poised)
    (hfilters : s.options.ieFilters = false) (ht : s.stream.current = t) (h : partOf inner t raw s = (.ok part, s')) :
    Onward s s' ∧ part.location = t.location ∧ part.stop = s'.stream.reader.location := by
  unfold partOf at h
  cases hclose : closingKind? t.kind with
  | some close =>
    rw [hclose] at h
    obtain ⟨inside, hrun, -, rfl⟩ := blockPart_eq_ok.mp h
    have honward := hinner.onward _ _ hs hfilters hrun
    exact ⟨honward, rfl, honward.poised.flush.symm⟩
  | none =>
    rw [hclose] at h
    by_cases hfunction : (t.kind == .function) = true
    · obtain ⟨-, h⟩ := (plainPart_eq_ok hfunction hfilters).mp h
      obtain ⟨args, hrun, -, rfl⟩ := functionPart_eq_ok.mp h
      have honward := hinner.onward _ _ hs hfilters hrun
      refine ⟨honward, ?_, ?_⟩
      · cases args <;> rfl
      · cases args <;> exact honward.poised.flush.symm
    · obtain ⟨s₁, hrun, halike⟩ := @plainPart_apply inner t raw hfunction s
      cases hrun.symm.trans h
      obtain ⟨hlocation, hstop⟩ := tokenOf_place t raw
      refine ⟨halike.onward hs, hlocation, ?_⟩
      rw [halike.stream_eq, hstop, hs.flush, ht]

/-- **A part of an excerpt** is the part of the text. -/
theorem partOf_echo (hinner : Echoes inner) (ha : Fenced after) (hs : s.Poised)
    (hu : Level lead after s u) (ht : s.stream.current = t)
    (h : partOf inner t raw s = (.ok part, s'))
    (hin : after.length ≤ s'.stream.reader.rest.length) :
    ∃ u', partOf inner (shift (toStart lead) t) raw u = (.ok (shift (toStart lead) part), u') ∧
      Level lead after s' u' := by
  have hlo : Text.byteLength lead ≤ t.location.offset := ht ▸ hu.within.lo_le
  have hkind_eq : (shift (toStart lead) t).kind = t.kind := rfl
  unfold partOf at h ⊢
  rw [hkind_eq]
  cases hclose : closingKind? t.kind with
  | some close =>
    rw [hclose] at h
    obtain ⟨inside, hrun, hkind, rfl⟩ := blockPart_eq_ok.mp h
    obtain ⟨u', hrun', hu'⟩ := hinner.echo _ _ ha hs hu hrun hin
    refine ⟨u', blockPart_eq_ok.mpr ⟨_, hrun', ?_, ?_⟩, hu'⟩
    · rw [hu'.current]
      exact hkind
    · rw [textFrom_shift hu' hlo, hu'.current, blockOf_shift]
  | none =>
    rw [hclose] at h
    by_cases hfunction : (t.kind == .function) = true
    · obtain ⟨hfilter, h⟩ := (plainPart_eq_ok hfunction hu.filters).mp h
      obtain ⟨args, hrun, hkind, rfl⟩ := functionPart_eq_ok.mp h
      obtain ⟨u', hrun', hu'⟩ := hinner.echo _ _ ha hs hu hrun hin
      have hfunction' : ((shift (toStart lead) t).kind == .function) = true := by rwa [hkind_eq]
      have hfilter' : (shift (toStart lead) t).isFilterFunction = false := hfilter
      refine ⟨u', (plainPart_eq_ok hfunction' hu.filters').mpr
        ⟨hfilter', functionPart_eq_ok.mpr ⟨_, hrun', ?_, ?_⟩⟩, hu'⟩
      · rw [hu'.current]
        exact hkind
      · rw [textFrom_shift hu' hlo, hu'.current, functionOf_shift]
    · obtain ⟨s₁, hrun, halike⟩ := @plainPart_apply inner t raw hfunction s
      cases hrun.symm.trans h
      have hfunction' : ¬((shift (toStart lead) t).kind == .function) = true := by rwa [hkind_eq]
      obtain ⟨u', hrun', halike'⟩ :=
        @plainPart_apply inner (shift (toStart lead) t) raw hfunction' u
      rw [tokenOf_shift] at hrun'
      exact ⟨u', hrun', hu.of_alike halike halike'⟩

/-! ## Rounds -/

section

variable {ends : List TokenKind} {parts v : List ValuePart}

/-- **A round** reads whole tokens. -/
theorem exprStep_onward (hinner : Echoes inner) (hbare : s.stream.ahead = [])
    (hfilters : s.options.ieFilters = false) {r : ForInStep (List ValuePart)}
    (h : exprStep inner ends raw parts s = (.ok r, s')) : Onward s s' := by
  obtain ⟨hnext, hcurrent⟩ := State.onward_afterGet hbare true false
  cases r with
  | done v =>
    obtain ⟨-, -, rfl⟩ := exprStep_eq_done.mp h
    exact hnext
  | yield v =>
    obtain ⟨-, part, hpart, -⟩ := exprStep_eq_yield.mp h
    exact hnext.trans (partOf_onward hinner hnext.poised hfilters hcurrent hpart).1

/-- **The last round** in an excerpt. -/
theorem exprStep_done_echo (ha : Fenced after) (hu : Beside lead after s u)
    (h : exprStep inner ends raw parts s = (.ok (.done v), s'))
    (hin : after.length ≤ s'.stream.reader.rest.length) :
    exprStep inner ends raw (shift (toStart lead) parts) u =
      (.ok (.done (shift (toStart lead) v)), u.afterNext) ∧ Level lead after s' u.afterNext := by
  obtain ⟨hends, rfl, rfl⟩ := exprStep_eq_done.mp h
  obtain ⟨hget, hlevel⟩ := hu.afterGet ha true false hin
  refine ⟨exprStep_eq_done.mpr ⟨?_, rfl, rfl⟩, hlevel⟩
  rw [hget]
  cases v <;> exact hends

/-- **A round that goes on** in an excerpt, in which less may end the value. -/
theorem exprStep_yield_echo (hinner : Echoes inner) {ends' : List TokenKind} (hsub : ends' ⊆ ends)
    (ha : Fenced after) (hu : Beside lead after s u)
    (h : exprStep inner ends raw parts s = (.ok (.yield v), s'))
    (hin : after.length ≤ s'.stream.reader.rest.length) :
    ∃ u' part, exprStep inner ends' raw (shift (toStart lead) parts) u =
        (.ok (.yield (shift (toStart lead) v)), u') ∧ Level lead after s' u' ∧
      v = part :: parts ∧ part.stop = s'.stream.reader.location ∧
      part.Within (Text.byteLength lead)
        (Text.byteLength lead + Text.byteLength u.stream.source) := by
  obtain ⟨hends, part, hpart, rfl⟩ := exprStep_eq_yield.mp h
  obtain ⟨hnext, hcurrent⟩ := State.onward_afterGet hu.bare true false
  obtain ⟨honward, hlocation, hstop⟩ :=
    partOf_onward hinner hnext.poised hu.filters hcurrent hpart
  obtain ⟨hget, hlevel⟩ := hu.afterGet ha true false (Nat.le_trans hin honward.length_le)
  obtain ⟨u', hrun, hu'⟩ := partOf_echo hinner ha hnext.poised hlevel hcurrent hpart hin
  have hsource := hu.source_eq_of_onward (hnext.trans honward) hu'.toBeside
  refine ⟨u', part, exprStep_eq_yield.mpr ⟨fun hends' => hends ?_, shift (toStart lead) part, ?_,
    rfl⟩, hu', rfl, hstop, ?_, ?_⟩
  · rw [hget] at hends'
    have hempty : (shift (toStart lead) parts).isEmpty = parts.isEmpty := by cases parts <;> rfl
    rw [hempty] at hends'
    unfold endsBefore at hends' ⊢
    simp only [Bool.or_eq_true, List.contains_iff_mem] at hends' ⊢
    exact hends'.imp_left (Or.imp_right fun hmem => hsub hmem)
  · rw [hget]
    exact hrun
  · rw [hlocation, ← hcurrent]
    exact hlevel.within.lo_le
  · rw [hstop, ← hsource]
    exact hu'.reader.offset_le.2

/-- **A loop** reads whole tokens. -/
theorem rounds_onward (hinner : Echoes inner) {n : Nat} (hs : s.Poised)
    (hfilters : s.options.ieFilters = false)
    (h : rounds (exprStep inner ends raw) n parts s = (.ok v, s')) : Onward s s' := by
  induction n generalizing parts s with
  | zero =>
    cases h
    exact .refl hs
  | succ n ih =>
    rcases rounds_eq_ok.mp h with hdone | ⟨parts', s₁, hyield, hrest⟩
    · exact exprStep_onward hinner hs.bare hfilters hdone
    · have honward := exprStep_onward hinner hs.bare hfilters hyield
      exact honward.trans (ih honward.poised (honward.options_eq ▸ hfilters) hrest)

/-- **A loop** in an excerpt. -/
theorem rounds_echo (hinner : Echoes inner) {n : Nat} (ha : Fenced after) (hs : s.Poised)
    (hu : Level lead after s u)
    (hparts : ∀ p ∈ parts, p.Within (Text.byteLength lead)
      (Text.byteLength lead + Text.byteLength u.stream.source))
    (h : rounds (exprStep inner ends raw) n parts s = (.ok v, s'))
    (hin : after.length ≤ s'.stream.reader.rest.length) :
    ∃ u', rounds (exprStep inner ends raw) n (shift (toStart lead) parts) u =
        (.ok (shift (toStart lead) v), u') ∧ Level lead after s' u' ∧
      ∀ p ∈ v, p.Within (Text.byteLength lead)
        (Text.byteLength lead + Text.byteLength u.stream.source) := by
  induction n generalizing parts s u with
  | zero =>
    cases h
    exact ⟨u, rfl, hu, hparts⟩
  | succ n ih =>
    rcases rounds_eq_ok.mp h with hdone | ⟨parts', s₁, hyield, hrest⟩
    · obtain ⟨hdone', hu'⟩ := exprStep_done_echo ha hu.toBeside hdone hin
      obtain ⟨-, rfl, -⟩ := exprStep_eq_done.mp hdone
      exact ⟨u.afterNext, rounds_eq_ok.mpr (Or.inl hdone'), hu', hparts⟩
    · have honward := exprStep_onward hinner hs.bare hu.filters hyield
      have hmore := rounds_onward hinner honward.poised (honward.options_eq ▸ hu.filters) hrest
      obtain ⟨u₁, part, hyield', hu₁, rfl, -, hpart⟩ := exprStep_yield_echo hinner
        (List.Subset.refl ends) ha hu.toBeside hyield (Nat.le_trans hin hmore.length_le)
      have hsource := hu.toBeside.source_eq_of_onward honward hu₁.toBeside
      obtain ⟨u', hrest', hu', hv⟩ := ih honward.poised hu₁ (by
        rw [hsource]
        exact List.forall_mem_cons.mpr ⟨hpart, hparts⟩) hrest
      rw [hsource] at hv
      exact ⟨u', rounds_eq_ok.mpr (Or.inr ⟨_, u₁, hyield', hrest'⟩), hu', hv⟩

end

/-! ## Values -/

/-- The value of some parts, the latest first, if there are any. -/
def valueOf (parts : List ValuePart) (source : List Char) : Option Value :=
  if parts.isEmpty then none else some (.ofParts parts.reverse source)

/-- **What a value comes to**, as far as it is read at all. -/
theorem exprTo_eq_ok {depth : Nat} {ends : List TokenKind} {v : Option Value} :
    exprTo (depth + 1) ends raw s = (.ok v, s') ↔
      ∃ parts, rounds (exprStep (exprTo depth) ends raw) s.budget [] s = (.ok parts, s') ∧
        v = valueOf parts s'.stream.source := by
  unfold valueOf
  rw [exprTo, bind_eq_ok]
  constructor
  · rintro ⟨parts, s₁, hrounds, hrest⟩
    refine ⟨parts, ?_⟩
    by_cases hempty : parts.isEmpty = true
    · rw [if_pos hempty] at hrest ⊢
      cases hrest
      exact ⟨hrounds, rfl⟩
    · rw [if_neg hempty] at hrest ⊢
      cases hrest
      exact ⟨hrounds, rfl⟩
  · rintro ⟨parts, hrounds, rfl⟩
    refine ⟨parts, s', hrounds, ?_⟩
    by_cases hempty : parts.isEmpty = true
    · rw [if_pos hempty, if_pos hempty]
      rfl
    · rw [if_neg hempty, if_neg hempty]
      rfl

/-- **The value of some parts** in an excerpt is that in the text. -/
theorem valueOf_shift {cs : List Char} (after : List Char) {parts : List ValuePart}
    (hparts : ∀ p ∈ parts, p.Within (Text.byteLength lead)
      (Text.byteLength lead + Text.byteLength cs)) :
    valueOf (shift (toStart lead) parts) cs =
      shift (toStart lead) (valueOf parts (lead ++ (cs ++ after))) := by
  unfold valueOf
  cases parts with
  | nil => rfl
  | cons part parts =>
    have hreverse : (shift (toStart lead) (part :: parts)).reverse =
        shift (toStart lead) (part :: parts).reverse := List.map_reverse.symm
    have hne : (part :: parts).reverse ≠ [] := by simp
    rw [if_neg (by exact Bool.false_ne_true), if_neg (by exact Bool.false_ne_true), hreverse,
      ValueOf.ofParts_shift after hne fun p hp => hparts p (List.mem_reverse.mp hp)]
    rfl

/-- **Reading a value from an excerpt** gives the value of the text, however
deep its brackets nest. -/
theorem exprTo_echoes (depth : Nat) : Echoes (exprTo depth) := by
  induction depth with
  | zero =>
    constructor
    · rintro ends raw s s' v - - ⟨⟩
    · rintro ends raw lead after s s' u v - - - ⟨⟩
  | succ depth ih =>
    constructor
    · intro ends raw s s' v hs hfilters h
      obtain ⟨parts, hrounds, -⟩ := exprTo_eq_ok.mp h
      exact rounds_onward ih hs hfilters hrounds
    · intro ends raw lead after s s' u v ha hs hu h hin
      obtain ⟨parts, hrounds, rfl⟩ := exprTo_eq_ok.mp h
      obtain ⟨u', hrounds', hu', hwithin⟩ :=
        rounds_echo ih ha hs hu (fun p hp => absurd hp List.not_mem_nil) hrounds hin
      refine ⟨u', exprTo_eq_ok.mpr ⟨shift (toStart lead) parts, ?_, ?_⟩, hu'⟩
      · rw [hu.budget_eq]
        exact hrounds'
      · have honward := rounds_onward ih hs hu.filters hrounds
        have hsource : s'.stream.source = lead ++ (u'.stream.source ++ after) :=
          hu'.reader.source_eq
        rw [hsource, hu.source_eq_of_onward honward hu'.toBeside]
        exact (valueOf_shift after hwithin).symm

end Parser

end Stylesheet
