import Stylesheet.Proofs.Excerpt.Modifiers
import Stylesheet.Proofs.Lookahead.Declaration

/-!
# Reading compounds from an excerpt

A compound is read one token too far. The place where it ends is that before
the token, and a run on an excerpt that ends there comes to the same compound:
it finds the end of the excerpt instead of the token, and neither belongs to a
compound.
-/

namespace Stylesheet

open Parse (State)
open Parse.State (Onward Inside Steady Meets Faces Trails get_eq onward_afterGet)
open Reader (toStart)
open Lexeme (Fenced)

namespace Parse.State

variable {s : State}

/-- Something is read with every token but the end. -/
theorem afterGet_rest_lt (hbare : s.stream.ahead = []) (placeholders blanks : Bool)
    (h : (s.stream.get placeholders blanks).1.kind ≠ .eof) :
    (s.afterGet placeholders blanks).stream.reader.rest.length <
      s.stream.reader.rest.length := by
  obtain ⟨htoken, hreader⟩ := get_eq hbare placeholders blanks
  rw [htoken] at h
  rw [hreader]
  exact s.stream.reader.lex_rest_lt rfl fun hnil => h (Reader.lex_of_nil hnil)

end Parse.State

open Parse.State (afterGet_rest_lt Sees Carries Arrives)

instance : Shift Parser.CompoundSoFar where
  shift δ c := ⟨c.modifiers.map (Selector.moveModifier δ), shift δ c.stop, shift δ c.pending⟩

namespace Parser

variable {group : GroupParser} {m s s' : State} {n : Nat}

variable {c : CompoundSoFar} {r : CompoundSoFar × Token} {t start : Token} {stop : Location}
  {el : ElementName} {ns : String}

/-! ## Modifiers -/

/-- **One more modifier**, or the end. -/
theorem modifierStep_apply (group : GroupParser) (c : CompoundSoFar) (hc : c.pending = none)
    (s : State) : modifierStep group c s =
      (modifier? group (s.stream.get false true).1 >>= fun found => match found with
        | some (m, stop) => return .yield ⟨m :: c.modifiers, stop, none⟩
        | none => return .done { c with pending := none }) (s.afterGet false true) := by
  obtain ⟨modifiers, stop, pending⟩ := c
  obtain rfl : pending = none := hc
  rfl

theorem modifierStep_of_pending (group : GroupParser) (modifiers : List (Modifier Selector))
    (stop : Location) (t : Token) : modifierStep group ⟨modifiers, stop, some t⟩ =
      modifier? group t >>= fun found => match found with
        | some (m, stop) => return .yield ⟨m :: modifiers, stop, none⟩
        | none => return .done ⟨modifiers, stop, none⟩ := rfl

/-- The next token, where it is of none of some kinds, is so in the excerpt, if
the end is of none, either. -/
theorem get_of_other {kinds : List TokenKind} (hkinds : kinds.contains .eof = false)
    {lead x after : List Char} {u : State} (ha : Fenced after) (hu : Meets lead x after s u)
    (hin : s.Inside after) (placeholders blanks : Bool)
    (h : kinds.contains (s.stream.get placeholders blanks).1.kind = false) :
    kinds.contains (u.stream.get placeholders blanks).1.kind = false := by
  obtain ⟨-, hsame, hend⟩ := hu.afterGet ha hin placeholders blanks
  by_cases hin₁ : (s.afterGet placeholders blanks).Inside after
  · rw [hsame hin₁]
    exact h
  · rw [hend hin₁]
    exact hkinds

/-- As `get_of_other`, of one kind. -/
theorem get_of_kind (kind : TokenKind) (hkind : kind ≠ .eof) {lead x after : List Char} {u : State}
    (ha : Fenced after) (hu : Meets lead x after s u) (hin : s.Inside after)
    (placeholders blanks : Bool) (h : ¬((s.stream.get placeholders blanks).1.kind == kind) = true) :
    ¬((u.stream.get placeholders blanks).1.kind == kind) = true := by
  have hother := @get_of_other s [kind] (by simpa using hkind.symm) lead x after u ha hu hin
    placeholders blanks (by simpa using h)
  simpa using hother

/-- **The modifiers of a compound.** The induction is on the rounds, and each of
them reads a token at least. -/
theorem modifiers_run (hgroup : Echoing group) {c' : CompoundSoFar} (hm : m.Steady)
    (hstop : m.stream.reader.location = c.stop) (hc : c.pending = none)
    (hn : m.stream.reader.rest.length < n) (h : rounds (modifierStep group) n c m = (.ok c', s')) :
    ∃ e, s' = e.afterGet false true ∧ Arrives Meets m e c'.stop fun lead _ u w =>
      rounds (modifierStep group) n (shift (toStart lead) c) u =
        (.ok (shift (toStart lead) c'), w.afterGet false true) := by
  induction n generalizing m c with
  | zero => exact absurd hn (Nat.not_lt_zero _)
  | succ n ih =>
    have hshift : ∀ δ, (shift δ c).pending = none := fun δ => congrArg (shift δ) hc
    rcases rounds_eq_ok.mp h with hdone | ⟨c₁, s₁, hyield, hrest⟩
    · -- the next token starts no modifier
      rw [modifierStep_apply group c hc] at hdone
      obtain ⟨found, s₁, hfound, hdone⟩ := bind_eq_ok.mp hdone
      cases found with
      | some found => cases hdone
      | none =>
        obtain ⟨hother, rfl⟩ := modifier?_eq_none hfound
        cases hdone
        refine ⟨m, rfl, ⟨.refl hm.toPoised, fun {lead x after u} ha hu hin => ?_⟩, hstop⟩
        have hother' := get_of_other rfl ha hu hin false true hother
        refine ⟨u, hu, rounds_eq_ok.mpr (Or.inl ?_)⟩
        rw [modifierStep_apply group _ (hshift _), modifier?_of_other hother']
        rfl
    · -- the next token starts one, and it is read
      rw [modifierStep_apply group c hc] at hyield
      obtain ⟨found, s₂, hfound, hyield⟩ := bind_eq_ok.mp hyield
      rcases found with _ | ⟨modifier, stop⟩
      · cases hyield
      cases hyield
      have hnext := onward_afterGet hm.bare false true
      have hread := modifier?_run hgroup (hnext.1.steady hm) (hnext.1.poised.flush.trans
        (congrArg Token.stop hnext.2)) hfound
      have hlt : s₁.stream.reader.rest.length < n := by
        have hget := afterGet_rest_lt hm.bare false true fun heof => by
          rw [modifier?_of_other (by rw [heof]; rfl)] at hfound
          cases hfound
        have := hread.onward.length_le
        omega
      have hstep := (Carries.next_sees hm false true).arrives hread
      obtain ⟨e, rfl, he⟩ := @ih s₁ ⟨modifier :: c.modifiers, stop, none⟩
        (hstep.onward.steady hm) hread.stop_eq rfl hlt hrest
      refine ⟨e, rfl, (hstep.toCarries.arrives he).weaken
        fun lead x u w ⟨u₁, ⟨v, ⟨hv, htoken⟩, hfound'⟩, hrest'⟩ =>
          rounds_eq_ok.mpr (Or.inr ⟨_, u₁, ?_, hrest'⟩)⟩
      rw [modifierStep_apply group _ (hshift _), htoken, ← hv]
      exact bind_eq_ok.mpr ⟨_, u₁, hfound', rfl⟩

/-- **A state with a token that was read too far** is as good as the one before
it. -/
def Awaits (pending : Option Token) (s m : State) : Prop :=
  (pending = none ∧ s = m) ∨
    (pending = some (m.stream.get false true).1 ∧ s = m.afterGet false true)

/-- The modifiers go on from there. -/
theorem Awaits.rounds_eq (h : Awaits c.pending s m) (n : Nat) :
    rounds (modifierStep group) (n + 1) c s =
      rounds (modifierStep group) (n + 1) { c with pending := none } m := by
  obtain ⟨modifiers, stop, pending⟩ := c
  rcases h with ⟨rfl, rfl⟩ | ⟨rfl, rfl⟩ <;> rfl

/-! ## Element names -/

/-- **A name after a bar.** -/
theorem nameInNamespace_eq_some :
    nameInNamespace ns t s = (.ok (some el), s') ↔
      [TokenKind.ident, .star].contains (s.stream.get false true).1.kind = true ∧
        el = ⟨some ns, some (s.stream.get false true).1.text, (s.stream.get false true).1.stop,
          none⟩ ∧ s' = s.afterGet false true := by
  have hasked := matchKinds_apply [.ident, .star] s
  unfold nameInNamespace
  by_cases hkind : [TokenKind.ident, .star].contains (s.stream.get false true).1.kind = true
  · rw [if_pos hkind] at hasked
    rw [bind_ok hasked]
    constructor
    · rintro ⟨⟩
      exact ⟨hkind, rfl, rfl⟩
    · rintro ⟨-, rfl, rfl⟩
      rfl
  · rw [if_neg hkind] at hasked
    rw [bind_ok hasked]
    constructor
    · intro h
      dsimp only at h
      split_ifs at h
      · cases h
      · obtain ⟨_, s₁, -, hnone⟩ := bind_eq_ok.mp h
        cases hnone
    · rintro ⟨h, -⟩
      exact absurd h hkind

/-- The tokens an element name can start with. -/
def nameStart : List TokenKind := [.pipe, .star, .ident]

/-- A token of another kind is left to the modifiers. -/
theorem elementName_of_other (h : nameStart.contains t.kind = false) (stop : Location) :
    elementName t stop = pure (some ⟨none, none, stop, some t⟩) := by
  have hne : ∀ kind ∈ nameStart, (t.kind == kind) = false := by
    intro kind hkind
    refine Bool.eq_false_iff.mpr fun heq => ?_
    rw [eq_of_beq heq, List.contains_iff_mem.mpr hkind] at h
    cases h
  unfold elementName
  rw [if_neg (by rw [hne .pipe (by decide)]; exact Bool.false_ne_true),
    if_neg (by rw [hne .star (by decide), hne .ident (by decide)]; exact Bool.false_ne_true)]

/-- **An element name as it is read from an excerpt**, moved to the start. -/
structure ElementName.Echoed (lead : List Char) (el el' : ElementName) : Prop where
  /-- The namespace is the same. -/
  ns_eq : el'.ns = el.ns
  /-- The name is the same. -/
  name_eq : el'.name = el.name
  /-- The place after it is moved. -/
  stop_eq : el'.stop = shift (toStart lead) el.stop

/-- A name after the bar that stands at hand. -/
theorem nameInNamespace_run (hs : s.Steady) (h : nameInNamespace ns t s = (.ok (some el), s')) :
    Awaits el.pending s' s' ∧ Arrives Meets s s' el.stop fun lead _ u w => ∃ el',
      (∀ t', nameInNamespace ns t' u = (.ok (some el'), w)) ∧ el.Echoed lead el' ∧
        Awaits el'.pending w w := by
  obtain ⟨hkind, rfl, rfl⟩ := nameInNamespace_eq_some.mp h
  obtain ⟨honward, hcurrent⟩ := onward_afterGet hs.bare false true
  refine ⟨Or.inl ⟨rfl, rfl⟩, (Carries.next hs false true).meets.weaken
    fun lead x u w ⟨hw, htoken, _⟩ => ?_, honward.poised.flush.trans (congrArg Token.stop hcurrent)⟩
  refine ⟨⟨some ns, some (s.stream.get false true).1.text,
    shift (toStart lead) (s.stream.get false true).1.stop, none⟩, fun t' => ?_, ⟨rfl, rfl, rfl⟩,
    Or.inl ⟨rfl, rfl⟩⟩
  refine nameInNamespace_eq_some.mpr ⟨?_, ?_, hw⟩ <;> rw [htoken]
  · exact hkind
  · rfl

/-- **The element name of a compound**, or what starts as one. -/
theorem elementName_run (hs : s.Steady) (hstop : s.stream.reader.location = t.stop)
    (hname : nameStart.contains t.kind = true) (h : elementName t stop s = (.ok (some el), s')) :
    ∃ m, Awaits el.pending s' m ∧ Arrives Meets s m el.stop fun lead _ u w => ∃ el' u',
      (∀ stop, elementName (shift (toStart lead) t) stop u = (.ok (some el'), u')) ∧
        el.Echoed lead el' ∧ Awaits el'.pending u' w := by
  have hkind : ∀ lead, (shift (toStart lead) t).kind = t.kind := fun _ => rfl
  unfold elementName at h ⊢
  simp only [hkind]
  by_cases hpipe : (t.kind == .pipe) = true
  · rw [if_pos hpipe] at h
    obtain ⟨hawaits, hread⟩ := nameInNamespace_run hs h
    simp only [if_pos hpipe]
    exact ⟨s', hawaits, hread.weaken fun lead x u w ⟨el', hel', hechoed, hawaits'⟩ =>
      ⟨el', w, fun _ => hel' _, hechoed, hawaits'⟩⟩
  · have hword : (t.kind == .star || t.kind == .ident) = true := by
      revert hname hpipe
      cases t.kind <;> decide
    rw [if_neg hpipe, if_pos hword] at h
    simp only [if_neg hpipe, if_pos hword]
    rw [bind_ok (next_apply false true s)] at h
    by_cases hbar : ((s.stream.get false true).1.kind == .pipe) = true
    · -- the name was that of a namespace
      rw [if_pos hbar] at h
      have hnext := Carries.next hs false true
      obtain ⟨hawaits, hread⟩ := nameInNamespace_run (hnext.onward.steady hs) h
      refine ⟨s', hawaits, (hnext.meets.arrives hread).weaken
        fun lead x u w ⟨v, ⟨hv, htoken, _⟩, el', hel', hechoed, hawaits'⟩ =>
          ⟨el', w, fun stop => (bind_ok (next_apply false true u)).trans ?_, hechoed, hawaits'⟩⟩
      rw [htoken, ← hv]
      exact (congrFun (if_pos hbar) _).trans (hel' _)
    · rw [if_neg hbar] at h
      cases h
      refine ⟨s, Or.inr ⟨rfl, rfl⟩, ⟨.refl hs.toPoised, fun {lead x after u} ha hu hin => ?_⟩, hstop⟩
      have hbar' := get_of_kind .pipe TokenKind.noConfusion ha hu hin false true hbar
      refine ⟨u, hu, ⟨none, some t.text, shift (toStart lead) t.stop,
        some (u.stream.get false true).1⟩, u.afterGet false true,
        fun stop => (bind_ok (next_apply false true u)).trans ?_, ⟨rfl, rfl, rfl⟩,
        Or.inr ⟨rfl, rfl⟩⟩
      rw [if_neg hbar']
      rfl

/-! ## Nesting marks -/

/-- A compound with one more nesting mark. -/
def CompoundSoFar.amp (c : CompoundSoFar) (t : Token) : CompoundSoFar :=
  { c with modifiers := ⟨.amp, t.text, t.location⟩ :: c.modifiers, stop := t.stop }

theorem ampStep_of_amp (h : (t.kind == .amp) = true) (s : State) :
    ampStep (c, t) s = (.ok (.yield (c.amp t, (s.stream.get false true).1)),
      s.afterGet false true) := by
  unfold ampStep
  dsimp only
  rw [if_pos h]
  rfl

theorem ampStep_of_other (h : ¬(t.kind == .amp) = true) (s : State) :
    ampStep (c, t) s = (.ok (.done (c, t)), s) := by
  unfold ampStep
  dsimp only
  rw [if_neg h]
  rfl

/-- **The nesting marks that follow one.** -/
theorem amps_run (hm : m.Steady) (hstop : m.stream.reader.location = c.stop)
    (hn : m.stream.reader.rest.length < n)
    (h : rounds ampStep n (c, (m.stream.get false true).1) (m.afterGet false true) = (.ok r, s')) :
    ∃ e, s' = e.afterGet false true ∧ r.2 = (e.stream.get false true).1 ∧
      Arrives Meets m e r.1.stop fun lead _ u w =>
        rounds ampStep n (shift (toStart lead) c, (u.stream.get false true).1)
          (u.afterGet false true) = (.ok (shift (toStart lead) r.1, (w.stream.get false true).1),
            w.afterGet false true) := by
  induction n generalizing m c with
  | zero => exact absurd hn (Nat.not_lt_zero _)
  | succ n ih =>
    by_cases hamp : ((m.stream.get false true).1.kind == .amp) = true
    · rw [rounds_yield (ampStep_of_amp hamp _)] at h
      obtain ⟨honward, hcurrent⟩ := onward_afterGet hm.bare false true
      have hlt := afterGet_rest_lt hm.bare false true (by
        rw [eq_of_beq hamp]
        exact TokenKind.noConfusion)
      obtain ⟨e, rfl, htoken, he⟩ := ih (honward.steady hm)
        (honward.poised.flush.trans (congrArg Token.stop hcurrent)) (by omega) h
      refine ⟨e, rfl, htoken, ((Carries.next hm false true).meets.arrives he).weaken
        fun lead x u w ⟨v, ⟨hv, hsame, _⟩, hrest⟩ => ?_⟩
      rw [hsame, ← hv, rounds_yield (@ampStep_of_amp _ (shift (toStart lead) _) hamp _)]
      exact hrest
    · rw [rounds_done (ampStep_of_other hamp _)] at h
      cases h
      refine ⟨m, rfl, rfl, ⟨.refl hm.toPoised, fun ha hu hin => ⟨_, hu, ?_⟩⟩, hstop⟩
      have hother := get_of_kind .amp TokenKind.noConfusion ha hu hin false true hamp
      exact rounds_done (ampStep_of_other hother _)

/-! ## Compounds -/

/-- A compound whose modifiers have been read. -/
def compoundEnd (start : Token) (ns name : Option String) (sofar : CompoundSoFar) :
    Parser (Option (Compound Selector × Location)) := do
  let c : Compound Selector :=
    { ns, elementName := name
      modifiers := sofar.modifiers.reverse
      text := ← slice start.location.offset sofar.stop.offset
      location := start.location }
  return some (c, sofar.stop)

/-- A compound whose element name has been read. -/
def compoundTail (group : GroupParser) (start : Token) (modifiers : List (Modifier Selector))
    (el : ElementName) : Parser (Option (Compound Selector × Location)) := do
  let sofar ← repeating ⟨modifiers, el.stop, el.pending⟩ (modifierStep group)
  compoundEnd start el.ns el.name sofar

/-- A compound after its nesting marks. -/
def compoundNamed (group : GroupParser) (start : Token) (r : CompoundSoFar × Token) :
    Parser (Option (Compound Selector × Location)) := do
  match ← elementName r.2 r.1.stop with
  | none => return none
  | some el => compoundTail group start r.1.modifiers el

/-- Whether a token starts no compound. -/
def startsNone (t : Token) : Bool := t.isCustomIdent || !selectorStart.contains t.kind

theorem compound_eq (group : GroupParser) (start : Token) : compound group (some start) =
    if startsNone start = true then pure none
    else repeating (⟨[], start.stop, none⟩, start) ampStep >>= compoundNamed group start := rfl

theorem Awaits.budget_eq {pending : Option Token} (h : Awaits pending s m) :
    s.budget = m.budget := by
  rcases h with ⟨-, rfl⟩ | ⟨-, rfl⟩ <;> rfl

/-- **The modifiers of a compound**, and its text. -/
theorem compoundEnd_run (hgroup : Echoing group) {ns name : Option String} {sofar : CompoundSoFar}
    {c : Compound Selector} (hm : m.Steady) (hstop : m.stream.reader.location = sofar.stop)
    (hpending : sofar.pending = none) (hn : m.stream.reader.rest.length < n)
    (h : (rounds (modifierStep group) n sofar >>= compoundEnd start ns name) m =
      (.ok (some (c, stop)), s')) :
    ∃ e, s' = e.afterGet false true ∧ Arrives Meets m e stop fun lead _ u w =>
      Text.byteLength lead ≤ start.location.offset →
        (rounds (modifierStep group) n (shift (toStart lead) sofar) >>=
          compoundEnd (shift (toStart lead) start) ns name) u =
            (.ok (some (Selector.moveCompound (toStart lead) c, shift (toStart lead) stop)),
              w.afterGet false true) := by
  obtain ⟨sofar', s₁, hrounds, hend⟩ := bind_eq_ok.mp h
  obtain ⟨e, rfl, he⟩ := modifiers_run hgroup hm hstop hpending hn hrounds
  cases hend
  refine ⟨e, rfl, he.imp fun {lead x after u w} _ _ hw hin hrounds' hlo =>
    bind_eq_ok.mpr ⟨_, w.afterGet false true, hrounds', ?_⟩⟩
  have hwithin := (hw.beside hin).reader.offset_le.2
  rw [he.stop_eq] at hwithin
  have htext := hw.slice_eq hin hlo (by
    rw [← hw.source_eq hin]
    exact hwithin)
  rw [← w.stream.get_source false true, ← e.stream.get_source false true] at htext
  have hmodifiers := Selector.moveModifiers_eq_map (toStart lead) sofar'.modifiers.reverse
  rw [List.map_reverse] at hmodifiers
  exact congrArg₂ (fun text modifiers => ((Except.ok (some ((⟨ns, name, modifiers, text,
    shift (toStart lead) start.location⟩ : Compound Selector), shift (toStart lead) sofar'.stop)) :
      Except Diagnostic _), w.afterGet false true)) (congrArg String.ofList htext)
    hmodifiers.symm

/-- **A compound after its element name.** -/
theorem compoundTail_run (hgroup : Echoing group) {modifiers : List (Modifier Selector)}
    {c : Compound Selector} (hawaits : Awaits el.pending s m) (hm : m.Steady)
    (hstop : m.stream.reader.location = el.stop)
    (h : compoundTail group start modifiers el s = (.ok (some (c, stop)), s')) :
    ∃ e, s' = e.afterGet false true ∧ Arrives Meets m e stop fun lead _ u w =>
      Text.byteLength lead ≤ start.location.offset → ∀ (el' : ElementName) (u' : State),
        el.Echoed lead el' → Awaits el'.pending u' u →
          compoundTail group (shift (toStart lead) start)
            (modifiers.map (Selector.moveModifier (toStart lead))) el' u' =
              (.ok (some (Selector.moveCompound (toStart lead) c, shift (toStart lead) stop)),
                w.afterGet false true) := by
  have hroomy := hm.roomy
  obtain ⟨n, hn⟩ : ∃ n, m.budget = n + 1 := ⟨m.budget - 1, by omega⟩
  -- the token that was read too far is the first one that the modifiers ask for
  have htail : ∀ {group : GroupParser} {start : Token} {modifiers : List (Modifier Selector)}
      {el : ElementName} {s m : State}, Awaits el.pending s m → m.budget = n + 1 →
      compoundTail group start modifiers el s = (rounds (modifierStep group) (n + 1)
        ⟨modifiers, el.stop, none⟩ >>= compoundEnd start el.ns el.name) m := by
    intro group start modifiers el s m hawaits hn
    refine bind_eq ?_
    rw [repeating_apply, hawaits.budget_eq, hn]
    exact hawaits.rounds_eq (c := ⟨modifiers, el.stop, el.pending⟩) n
  rw [htail hawaits hn] at h
  obtain ⟨e, rfl, he⟩ := compoundEnd_run hgroup hm hstop rfl (by omega) h
  refine ⟨e, rfl, he.imp fun {lead x after u w} _ hu _ hin hend hlo el' u' hel hawaits' => ?_⟩
  rw [htail hawaits' ((hu.beside (he.onward.inside hin)).budget_eq.trans hn), hel.ns_eq,
    hel.name_eq, hel.stop_eq]
  exact hend hlo

/-- A compound with an element name, after its nesting marks. -/
theorem compoundNamed_run (hgroup : Echoing group) {c : Compound Selector} (hs : s.Steady)
    (hstop : s.stream.reader.location = r.2.stop) (hword : nameStart.contains r.2.kind = true)
    (h : compoundNamed group start r s = (.ok (some (c, stop)), s')) :
    ∃ e, s' = e.afterGet false true ∧ Arrives Meets s e stop fun lead _ u w =>
      Text.byteLength lead ≤ start.location.offset →
        compoundNamed group (shift (toStart lead) start)
          (shift (toStart lead) r.1, shift (toStart lead) r.2) u =
            (.ok (some (Selector.moveCompound (toStart lead) c, shift (toStart lead) stop)),
              w.afterGet false true) := by
  obtain ⟨found, s₁, hname, htail⟩ := bind_eq_ok.mp h
  cases found with
  | none => cases htail
  | some el =>
    obtain ⟨m, hawaits, hm⟩ := elementName_run hs hstop hword hname
    obtain ⟨e, rfl, he⟩ := compoundTail_run hgroup hawaits (hm.onward.steady hs) hm.stop_eq htail
    exact ⟨e, rfl, (hm.toCarries.arrives he).weaken
      fun lead x u w ⟨v, ⟨el', u', hel', hechoed, hawaits'⟩, htail'⟩ hlo =>
        bind_eq_ok.mpr ⟨some el', u', hel' _, htail' hlo el' u' hechoed hawaits'⟩⟩

/-- A compound that starts with a nesting mark. Behind the marks there may be a
name, or the modifiers. -/
theorem compound_run_of_amp (hgroup : Echoing group) {c : Compound Selector} (hs : s.Steady)
    (hstop : s.stream.reader.location = start.stop) (hamp : (start.kind == .amp) = true)
    (hstart : ¬startsNone start = true)
    (h : compound group (some start) s = (.ok (some (c, stop)), s')) :
    ∃ e, s' = e.afterGet false true ∧ Arrives (Sees start) s e stop fun lead _ u w =>
      compound group (some (shift (toStart lead) start)) u =
        (.ok (some (Selector.moveCompound (toStart lead) c, shift (toStart lead) stop)),
          w.afterGet false true) := by
  have hroomy := hs.roomy
  obtain ⟨n, hn⟩ : ∃ n, s.budget = n + 1 := ⟨s.budget - 1, by omega⟩
  rw [compound_eq, if_neg hstart] at h
  obtain ⟨⟨marks, t⟩, s₁, hmarks, hnamed⟩ := bind_eq_ok.mp h
  rw [repeating_apply, hn, rounds_yield (ampStep_of_amp hamp _)] at hmarks
  obtain ⟨m, rfl, rfl, hm⟩ := amps_run hs hstop (by omega) hmarks
  have hsteady := hm.onward.steady hs
  -- the marks of the excerpt, and what comes after them
  have hecho : Carries Meets Meets s m fun lead _ u v =>
      ∀ {r : Option (Compound Selector × Location)} {u' : State},
        compoundNamed group (shift (toStart lead) start)
          (shift (toStart lead) marks, (v.stream.get false true).1) (v.afterGet false true) =
            (.ok r, u') → compound group (some (shift (toStart lead) start)) u = (.ok r, u') := by
    refine hm.toCarries.imp fun {lead x after u v} _ hu _ hin hmarks' r u' hnamed' => ?_
    rw [compound_eq, if_neg (show ¬startsNone (shift (toStart lead) start) = true from hstart)]
    refine bind_eq_ok.mpr ⟨_, v.afterGet false true, ?_, hnamed'⟩
    rw [repeating_apply, (hu.beside (hm.onward.inside hin)).budget_eq.trans hn,
      rounds_yield (@ampStep_of_amp _ (shift (toStart lead) start) hamp _)]
    exact hmarks'
  by_cases hword : nameStart.contains (m.stream.get false true).1.kind = true
  · have hnext := onward_afterGet hsteady.bare false true
    obtain ⟨e, rfl, he⟩ := compoundNamed_run hgroup (hnext.1.steady hsteady)
      (hnext.1.poised.flush.trans (congrArg Token.stop hnext.2)) hword hnamed
    refine ⟨e, rfl, ((hecho.trans (.next hsteady false true)).meets.arrives he).weaken
      (fun lead x u w ⟨v', ⟨v, hrun, hv', hsame, _⟩, hnamed'⟩ hlo => hrun ?_) |>.sees⟩
    rw [hsame, ← hv']
    exact hnamed' hlo
  · have hother := Bool.eq_false_iff.mpr hword
    unfold compoundNamed at hnamed
    rw [elementName_of_other hother] at hnamed
    obtain ⟨e, rfl, he⟩ := compoundTail_run hgroup (Or.inr ⟨rfl, rfl⟩) hsteady hm.stop_eq hnamed
    have hecho' := hecho.imp fun ha _ hv hin hrun =>
      And.intro (get_of_other rfl ha hv hin false true hother) @hrun
    refine ⟨e, rfl, (hecho'.arrives he).weaken
      (fun lead x u w ⟨v, ⟨hother', hrun⟩, htail'⟩ hlo => hrun ?_) |>.sees⟩
    unfold compoundNamed
    rw [elementName_of_other hother']
    exact htail' hlo _ _ ⟨rfl, rfl, rfl⟩ (Or.inr ⟨rfl, rfl⟩)

/-- **A compound after its first token**: whole tokens are read, up to where it
stops, and one more; and an excerpt that holds them gives the same compound. -/
theorem compound_run (hgroup : Echoing group) {c : Compound Selector} (hs : s.Steady)
    (hstop : s.stream.reader.location = start.stop)
    (h : compound group (some start) s = (.ok (some (c, stop)), s')) :
    ∃ e, s' = e.afterGet false true ∧ Arrives (Sees start) s e stop fun lead _ u w =>
      compound group (some (shift (toStart lead) start)) u =
        (.ok (some (Selector.moveCompound (toStart lead) c, shift (toStart lead) stop)),
          w.afterGet false true) := by
  have hstart : ¬startsNone start = true := by
    intro hnone
    rw [compound_eq, if_pos hnone] at h
    cases h
  by_cases hamp : (start.kind == .amp) = true
  · exact compound_run_of_amp hgroup hs hstop hamp hstart h
  have hroomy := hs.roomy
  obtain ⟨n, hn⟩ : ∃ n, s.budget = n + 1 := ⟨s.budget - 1, by omega⟩
  -- without marks the first token starts the name, or a modifier
  have hnamed : ∀ (start : Token) {s : State}, ¬(start.kind == .amp) = true →
      ¬startsNone start = true → s.budget = n + 1 → compound group (some start) s =
        compoundNamed group start (⟨[], start.stop, none⟩, start) s := by
    intro start s hamp hstart hn
    rw [compound_eq, if_neg hstart]
    refine bind_ok ?_
    rw [repeating_apply, hn]
    exact rounds_done (ampStep_of_other hamp s)
  have hbudget : ∀ {lead x after : List Char} {u e : State}, Meets lead x after s u →
      Onward s e → e.Inside after → u.budget = n + 1 := fun hu honward hin =>
    (hu.beside (honward.inside hin)).budget_eq.trans hn
  rw [hnamed start hamp hstart hn] at h
  by_cases hword : nameStart.contains start.kind = true
  · obtain ⟨e, rfl, he⟩ := compoundNamed_run hgroup hs hstop hword h
    refine ⟨e, rfl, he.sees.imp fun {lead x after u w} _ hu _ hin hrun => ?_⟩
    rw [hnamed (shift (toStart lead) start) hamp hstart (hbudget hu.1 he.onward hin)]
    exact hrun
  · -- the first token starts a modifier
    have hother := Bool.eq_false_iff.mpr hword
    have hfirst : ∀ (start : Token) {s : State}, nameStart.contains start.kind = false →
        s.budget = n + 1 → compoundNamed group start (⟨[], start.stop, none⟩, start) s =
          (rounds (modifierStep group) (n + 1) ⟨[], start.stop, some start⟩ >>=
            compoundEnd start none none) s := by
      intro start s hother hn
      unfold compoundNamed
      rw [elementName_of_other hother]
      show compoundTail group start [] ⟨none, none, start.stop, some start⟩ s = _
      refine bind_eq ?_
      rw [repeating_apply, hn]
    rw [hfirst start hother hn] at h
    obtain ⟨sofar, s₁, hrounds, hend⟩ := bind_eq_ok.mp h
    rcases rounds_eq_ok.mp hrounds with hdone | ⟨c₁, s₂, hyield, hrest⟩
    · rw [modifierStep_of_pending] at hdone
      obtain ⟨found, s₂, hfound, hdone⟩ := bind_eq_ok.mp hdone
      cases found with
      | some found => cases hdone
      | none =>
        have hkinds : ∀ kind ∈ selectorStart,
            nameStart.contains kind = true ∨ modifierStart.contains kind = true := by decide
        refine absurd hstart (not_not.mpr ?_)
        unfold startsNone
        rw [show selectorStart.contains start.kind = false from Bool.eq_false_iff.mpr
          fun hcontains => ?_, Bool.not_false, Bool.or_true]
        rcases hkinds _ (List.contains_iff_mem.mp hcontains) with hname | hmodifier
        · exact hword hname
        · exact Bool.false_ne_true ((modifier?_eq_none hfound).1.symm.trans hmodifier)
    · rw [modifierStep_of_pending] at hyield
      obtain ⟨found, s₃, hfound, hyield⟩ := bind_eq_ok.mp hyield
      rcases found with _ | ⟨modifier, stop₁⟩
      · cases hyield
      cases hyield
      have hread := modifier?_run hgroup hs hstop hfound
      have hle := hread.onward.length_le
      obtain ⟨e, rfl, he⟩ := @compoundEnd_run _ _ _ _ start _ hgroup none none
        ⟨[modifier], stop₁, none⟩ _ (hread.onward.steady hs) hread.stop_eq rfl (by omega)
        (bind_eq_ok.mpr ⟨sofar, s₁, hrest, hend⟩)
      refine ⟨e, rfl, (hread.toCarries.arrives he).imp
        fun {lead x after u w} _ hu _ hin ⟨u₁, hfound', hend'⟩ => ?_⟩
      have hn' := hbudget hu.1 (hread.onward.trans he.onward) hin
      rw [hnamed (shift (toStart lead) start) hamp hstart hn',
        hfirst (shift (toStart lead) start) hother hn']
      obtain ⟨sofar', s₄, hrest', hend''⟩ := bind_eq_ok.mp (hend' hu.2)
      refine bind_eq_ok.mpr ⟨sofar', s₄, rounds_eq_ok.mpr (Or.inr ⟨_, u₁, ?_, hrest'⟩), hend''⟩
      rw [modifierStep_of_pending]
      exact bind_eq_ok.mpr ⟨_, u₁, hfound', rfl⟩

/-! ## Where there is no compound -/

/-- **A state that has strayed** from what a selector can go on with: a name or
a bar is at hand. -/
def Strays (s : State) : Prop := nameStart.contains s.stream.current.kind = true

theorem strays_of_hand (hhand : s.stream.behind.head? = some t)
    (h : nameStart.contains t.kind = true) : Strays s := by
  have hcurrent : s.stream.current = t := by
    unfold Stream.current Stream.current?
    rw [hhand]
    rfl
  unfold Strays
  rwa [hcurrent]

/-- The token that is handed out is the latest one behind, and the one at hand
before it is behind it. -/
theorem afterGet_behind (hbare : s.stream.ahead = []) (hhand : s.stream.behind.head? = some t)
    (placeholders blanks : Bool) :
    ∃ behind, (s.afterGet placeholders blanks).stream.behind =
      (s.stream.get placeholders blanks).1 :: t :: behind := by
  unfold State.afterGet
  rcases hstream : s.stream with ⟨r, _ | ⟨u, behind⟩, ahead⟩ <;> rw [hstream] at hbare hhand
  · cases hhand
  · obtain rfl : ahead = [] := hbare
    obtain rfl : u = t := Option.some.inj hhand
    exact ⟨behind.take 3, rfl⟩

/-- **A bar that no name follows** is left at hand, or the name before it is. -/
theorem nameInNamespace_strays (hbare : s.stream.ahead = [])
    (hname : nameStart.contains t.kind = true)
    (hhand : (t.kind == .pipe) = true → s.stream.behind.head? = some t)
    (hbehind : ¬(t.kind == .pipe) = true → ∃ bar behind, s.stream.behind = bar :: t :: behind)
    (h : nameInNamespace ns t s = (.ok none, s')) : Strays s' := by
  have hback : (s.stream.get false true).2.back.behind = s.stream.behind.take 4 := by
    rcases hstream : s.stream with ⟨r, behind, ahead⟩
    rw [hstream] at hbare
    obtain rfl : ahead = [] := hbare
    rfl
  have hasked := matchKinds_apply [.ident, .star] s
  unfold nameInNamespace at h
  split_ifs at hasked with hkind
  · rw [bind_ok hasked] at h
    cases h
  · rw [bind_ok hasked] at h
    dsimp only at h
    by_cases hpipe : (t.kind == .pipe) = true
    · rw [if_pos hpipe] at h
      cases h
      refine strays_of_hand (t := t) ?_ hname
      have hhead := hhand hpipe
      rw [hback]
      cases hnil : s.stream.behind with
      | nil =>
        rw [hnil] at hhead
        cases hhead
      | cons u behind =>
        rw [hnil] at hhead
        exact hhead
    · rw [if_neg hpipe] at h
      obtain ⟨bar, behind, hstream⟩ := hbehind hpipe
      obtain ⟨_, s₁, hunget, hnone⟩ := bind_eq_ok.mp h
      cases hnone
      rw [hstream] at hback
      -- the bar is taken back, and what comes before it is the name
      have hunget' := hunget.symm.trans (unget_apply (s := { s with
        stream := (s.stream.get false true).2.back }) fun hnil => by
          rw [hback] at hnil
          cases hnil)
      obtain ⟨-, rfl⟩ := Prod.mk.inj hunget'
      refine strays_of_hand (t := t) ?_ hname
      show (s.stream.get false true).2.back.back.behind.head? = some t
      rw [Stream.behind_back, hback]
      rfl

/-- No element name comes of a bar without a name after it. -/
theorem elementName_strays (hbare : s.stream.ahead = []) (hhand : s.stream.behind.head? = some t)
    (h : elementName t stop s = (.ok none, s')) : Strays s' := by
  unfold elementName at h
  split_ifs at h with hpipe hword
  · exact nameInNamespace_strays hbare (by rw [eq_of_beq hpipe]; rfl) (fun _ => hhand)
      (fun h => absurd hpipe h) h
  · rw [bind_ok (next_apply false true s)] at h
    have hname : nameStart.contains t.kind = true := by
      revert hword
      cases t.kind <;> decide
    split_ifs at h with hbar
    · obtain ⟨behind, hbehind⟩ := afterGet_behind hbare hhand false true
      exact nameInNamespace_strays (onward_afterGet hbare false true).1.poised.bare hname
        (fun h => absurd h hpipe) (fun _ => ⟨_, behind, hbehind⟩) h
    · cases h
  · cases h

/-- After nesting marks the token that follows them is at hand. -/
theorem amps_hand (hbare : s.stream.ahead = []) (hhand : s.stream.behind.head? = some t)
    (h : rounds ampStep n (c, t) s = (.ok r, s')) :
    s'.stream.ahead = [] ∧ s'.stream.behind.head? = some r.2 := by
  induction n generalizing s c t with
  | zero =>
    cases h
    exact ⟨hbare, hhand⟩
  | succ n ih =>
    by_cases hamp : (t.kind == .amp) = true
    · rw [rounds_yield (ampStep_of_amp hamp s)] at h
      obtain ⟨behind, hbehind⟩ := afterGet_behind hbare hhand false true
      refine ih (onward_afterGet hbare false true).1.poised.bare ?_ h
      rw [hbehind]
      rfl
    · rw [rounds_done (ampStep_of_other hamp s)] at h
      cases h
      exact ⟨hbare, hhand⟩

/-- **Without a compound** nothing was read, or what was read is not what a
selector can go on with. -/
theorem compound_eq_none (hbare : s.stream.ahead = [])
    (hhand : s.stream.behind.head? = some start)
    (h : compound group (some start) s = (.ok none, s')) :
    startsNone start = true ∧ s' = s ∨ Strays s' := by
  rw [compound_eq] at h
  split_ifs at h with hstart
  · cases h
    exact Or.inl ⟨hstart, rfl⟩
  · obtain ⟨r, s₁, hmarks, hnamed⟩ := bind_eq_ok.mp h
    obtain ⟨hbare₁, hhand₁⟩ := amps_hand hbare hhand hmarks
    obtain ⟨_ | el, s₂, hname, htail⟩ := bind_eq_ok.mp hnamed
    · cases htail
      exact Or.inr (elementName_strays hbare₁ hhand₁ hname)
    · obtain ⟨sofar, s₃, -, hend⟩ := bind_eq_ok.mp htail
      cases hend

end Parser

end Stylesheet
