import Stylesheet.Proofs.WellFormed.Basic

/-!
# Compounds are read well formed

A compound is the text from its first token to the end of its last
modifier. That it is not empty rests on one thing: a token that starts a
compound is a name, stands before one, or starts a modifier. The loop over
the modifiers may have the first one in hand already, and leaves the token
after the last one there (`CompoundInv`).
-/

namespace Stylesheet

open Parse (State)
open Parse.State (Keeps stands_false stands_true)
open Stylesheet.Stream (Got Stays)
open Stylesheet.Parser

/-! ## The token in hand -/

/-- **A token is in hand** that starts at an offset or after it. -/
def Parse.State.HasRead (n : Nat) (s : State) : Prop :=
  ∃ t, s.stream.current? = some t ∧ n ≤ t.location.offset

namespace Parse.State.HasRead

variable {n : Nat} {s s' : State} {t : Token}

theorem of_got (hgot : Got s.stream t s'.stream) (hn : n ≤ s.offset) : s'.HasRead n :=
  ⟨t, hgot.current_eq, Nat.le_trans hn hgot.place_le⟩

theorem mono {m : Nat} (h : s.HasRead n) (hle : m ≤ n) : s.HasRead m := by
  obtain ⟨t, ht, hn⟩ := h
  exact ⟨t, ht, Nat.le_trans hle hn⟩

theorem of_stream (h : s.HasRead n) (hstream : s'.stream = s.stream) : s'.HasRead n := by
  unfold HasRead
  rw [hstream]
  exact h

/-- A token in hand that is not the end of the source was handed out. -/
theorem of_kind (hheld : s.stream.HeldFrom n) (hkind : s.stream.current.kind ≠ .eof) :
    s.HasRead n := by
  unfold Stream.current at hkind
  cases hcurrent : s.stream.current? with
  | none =>
    rw [hcurrent] at hkind
    exact absurd rfl hkind
  | some t => exact ⟨t, hcurrent, hheld t hcurrent⟩

/-- **The place after the token in hand.** -/
theorem stop (h : s.HasRead n) (hs : s.IsSound) :
    IsPlace s.stream.source s.stream.current.stop ∧ n ≤ s.stream.current.stop.offset ∧
      s.stream.current.stop.offset ≤ s.offset := by
  obtain ⟨t, ht, hn⟩ := h
  have hmem : t ∈ s.stream.behind := List.mem_of_mem_head? ht
  have hcut : t.IsCut s.stream.source := hs.stream.isCut t (by simp [Stream.window, hmem])
  have hcurrent : s.stream.current = t := by
    unfold Stream.current
    rw [ht]
    rfl
  rw [hcurrent]
  exact ⟨hcut.stop_isPlace, Nat.le_trans hn hcut.location_le_stop, hs.stream.stop_le_place hmem⟩

theorem le_offset (h : s.HasRead n) (hs : s.IsSound) : n ≤ s.offset :=
  Nat.le_trans (h.stop hs).2.1 (h.stop hs).2.2

end Parse.State.HasRead

/-- **How a list of selectors can start**: at an offset or after it, with a
first token that was just read. -/
def StartsList (source : List Char) (n : Nat) (first : Option Token) (s : State) : Prop :=
  n ≤ s.offset ∧ ∀ t, first = some t → t.IsCut source ∧ n ≤ t.location.offset ∧
    t.stop.offset ≤ s.offset ∧ s.stream.HeldFrom n

/-- **A reader of lists of well-formed selectors**, which stand one after the
other. -/
def EnsuresGroup (source : List Char) (group : GroupParser) : Prop :=
  ∀ (first : Option Token) (relative lax : Bool) (s : State) (n : Nat), s.IsSound →
    s.stream.source = source → StartsList source n first s →
    Ensures (group first relative lax) s fun r s' => Poised n n s' ∧
      ∀ list, r = some list → list ≠ [] ∧
        (list.Pairwise fun x y => x.stop.offset ≤ y.location.offset) ∧
        ∃ m, n ≤ m ∧ Poised m m s' ∧ ∀ x ∈ list, x.Lies source relative n m

namespace Ensures

variable {source : List Char} {n : Nat} {s : State} {t start : Token} {group : GroupParser}

/-! ## Attribute tests -/

/-- A token of some kinds that is demanded. -/
theorem mustMatch_bind {β : Type} {f : Token → Parser β} {Q : β → State → Prop} (hs : s.IsSound)
    (hn : n ≤ s.offset) (kinds : List TokenKind)
    (hf : ∀ u s₁, Keeps s s₁ → s₁.HasRead n → Ensures (f u) s₁ Q) :
    Ensures (mustMatch kinds >>= f) s Q :=
  (Reads.mustMatch (n := 0) hs (Nat.zero_le _) kinds).ensures.bind fun u s₁ h₁ hgot =>
    hf u s₁ h₁ (.of_got hgot.1 hn)

theorem mustMatchSmart_bind {β : Type} {f : Token → Parser β} {Q : β → State → Prop}
    (hs : s.IsSound) (hn : n ≤ s.offset) (kinds : List TokenKind)
    (hf : ∀ u s₁, Keeps s s₁ → s₁.HasRead n → Ensures (f u) s₁ Q) :
    Ensures (mustMatchSmart kinds >>= f) s Q :=
  (Reads.mustMatchSmart (n := 0) hs (Nat.zero_le _) kinds).ensures.bind fun u s₁ h₁ hgot =>
    hf u s₁ h₁ (.of_got hgot.1 hn)

theorem setPair_bind {β : Type} {pair : Option TokenKind} {f : Unit → Parser β}
    {Q : β → State → Prop} (hs : s.IsSound)
    (hf : ∀ s₁, Keeps s s₁ → s₁.stream = s.stream → Ensures (f ()) s₁ Q) :
    Ensures (update (fun s => { s with pair := pair }) >>= f) s Q :=
  (Reads.setPair (n := 0) hs pair).ensures.bind fun _ s₁ h₁ hstream => hf s₁ h₁ hstream

/-- What the start of an attribute test leaves: its end only if that is in
hand. -/
def AttributeEnd (n : Nat) (close : Option Token) (s : State) : Prop :=
  n ≤ s.offset ∧ (close.isSome = true → s.HasRead n)

theorem attributeEnd_of_none (hn : n ≤ s.offset) : AttributeEnd n none s :=
  ⟨hn, fun h => by cases h⟩

theorem attributeEnd_of_read (hs : s.IsSound) (h : s.HasRead n) (close : Option Token) :
    AttributeEnd n close s := ⟨h.le_offset hs, fun _ => h⟩

theorem attributeHead (hs : s.IsSound) (hn : n ≤ s.offset) (t : Token) :
    Ensures (Parser.attributeHead t) s fun head => AttributeEnd n head.close := by
  unfold Parser.attributeHead
  split
  · exact pure hs (attributeEnd_of_none hn)
  · exact bind (Q := fun _ s' => n ≤ s'.offset)
      (mustMatch_bind hs hn _ fun u s₁ h₁ hread => pure h₁.isSound (hread.le_offset h₁.isSound))
      fun _ s₁ h₁ hn₁ => pure h₁.isSound (attributeEnd_of_none hn₁)
  · refine (Reads.next (n := 0) hs false true).ensures.bind fun after s₁ h₁ hgot => ?_
    have hread : s₁.HasRead n := .of_got hgot hn
    split <;> first
      | exact pure h₁.isSound (attributeEnd_of_read h₁.isSound hread _)
      | exact failAt _ _

theorem attributeOp (hs : s.IsSound) {head : AttributeHead}
    (hhead : AttributeEnd n head.close s) :
    Ensures (Parser.attributeOp head) s fun head => AttributeEnd n head.close := by
  unfold Parser.attributeOp
  refine ite (fun _ => ?_) fun _ => pure hs hhead
  refine mustMatchSmart_bind hs hhead.1 _ fun u s₁ h₁ hread => ?_
  exact ite (fun _ => pure h₁.isSound (attributeEnd_of_read h₁.isSound hread _))
    fun _ => pure h₁.isSound (attributeEnd_of_read h₁.isSound hread _)

theorem attributeValue (hs : s.IsSound) (hn : n ≤ s.offset) :
    Ensures Parser.attributeValue s fun r => AttributeEnd n r.2.2 := by
  unfold Parser.attributeValue
  refine mustMatchSmart_bind hs hn _ fun value s₁ h₁ hread => ?_
  refine (Reads.grab (n := 0) h₁.isSound).ensures.bind fun u s₂ h₂ hgot => ?_
  have hread₂ : s₂.HasRead n := .of_got hgot (hread.le_offset h₁.isSound)
  exact ite (fun _ => pure h₂.isSound (attributeEnd_of_read h₂.isSound hread₂ _)) fun _ =>
    ite (fun _ => pure h₂.isSound (attributeEnd_of_read h₂.isSound hread₂ _)) fun _ => failAt _ _

/-- What is read of a modifier: it fits, and its last token is in hand. -/
def ModifierEnd (source : List Char) (n : Nat) (m : Modifier Selector) (s : State) : Prop :=
  m.IsFit source n s.stream.current.stop.offset ∧ s.HasRead n

theorem attributeTest (hs : s.IsSound) (hn : n ≤ s.offset) (start : Token) :
    Ensures (Parser.attributeTest start) s (ModifierEnd source n) := by
  unfold Parser.attributeTest
  refine mustMatchSmart_bind hs hn _ fun first s₁ h₁ hread₁ => ?_
  refine setPair_bind h₁.isSound fun s₂ h₂ hstream₂ => ?_
  have hn₂ : n ≤ s₂.offset := (hread₁.of_stream hstream₂).le_offset h₂.isSound
  refine (attributeHead h₂.isSound hn₂ first).bind fun head s₃ h₃ hhead => ?_
  extract_lets afterName
  have hclosed : ∀ {test : AttributeTest} {close : Token} {s' : State}, s'.IsSound → s'.HasRead n →
      Ensures (do
        update fun s => { s with pair := none }
        return (⟨.attribute test, ← slice start.location.offset close.stop.offset,
          start.location⟩ : Modifier Selector)) s' (ModifierEnd source n) := by
    intro test close s' hs' hread'
    refine setPair_bind hs' fun s'' h'' hstream'' => slice_bind (pure h''.isSound ⟨?_, ?_⟩)
    · intro name colons args hkind
      cases hkind
    · exact hread'.of_stream hstream''
  have hafterName : ∀ (name : String) {s' : State}, s'.IsSound → AttributeEnd n head.close s' →
      Ensures (afterName name) s' (ModifierEnd source n) := by
    intro name s' hs' hhead'
    refine (attributeOp hs' hhead').bind fun head s₄ h₄ hhead₄ => ?_
    extract_lets afterValue
    have hafterValue : ∀ (found : Option String × Option String × Option Token) {s' : State},
        s'.IsSound → AttributeEnd n found.2.2 s' →
        Ensures (afterValue found) s' (ModifierEnd source n) := by
      rintro ⟨value, flag, close⟩ s' hs' hend
      cases close with
      | some t => exact pure_bind (hclosed hs' (hend.2 rfl))
      | none =>
        exact mustMatchSmart_bind hs' hend.1 _ fun u s₅ h₅ hread₅ => hclosed h₅.isSound hread₅
    refine ite (fun _ => ?_) fun _ =>
      pure_bind (hafterValue (none, none, head.close) h₄.isSound hhead₄)
    exact (attributeValue h₄.isSound hhead₄.1).bind fun found s₅ h₅ hfound =>
      pure_bind (hafterValue (some found.1, found.2) h₅.isSound hfound)
  cases head.name with
  | some name => exact pure_bind (hafterName name h₃.isSound hhead)
  | none =>
    exact mustMatch_bind h₃.isSound hhead.1 _ fun u s₄ h₄ hread₄ =>
      pure_bind (hafterName u.text h₄.isSound (attributeEnd_of_read h₄.isSound hread₄ _))

/-! ## Pseudo-classes -/

section Modifiers

variable (hgroup : EnsuresGroup source group)

include hgroup

/-- **The list of selectors in an argument**, whose closing bracket is in
hand. -/
theorem selectorArgs (hs : s.IsSound) (hsource : s.stream.source = source) (hn : n ≤ s.offset)
    (name : String) :
    Ensures (Parser.selectorArgs group name) s fun list s' => s'.HasRead n ∧ list ≠ [] ∧
      ∀ x ∈ list, x.Lies source (name == "has") n s'.stream.current.stop.offset := by
  unfold Parser.selectorArgs
  refine (hgroup none (name == "has") (laxFunctions.contains name) s n hs hsource
    ⟨hn, fun _ h => by cases h⟩).bind fun r s₁ h₁ hr => ?_
  cases r with
  | none => exact failHere _
  | some list =>
    obtain ⟨hne, -, m, hnm, hpoised, hall⟩ := hr.2 list rfl
    refine bind (Q := fun _ s' => s'.HasRead m) ?_ fun _ s₂ h₂ hread =>
      pure h₂.isSound ⟨hread.mono hnm, hne, fun x hx =>
        (hall x hx).mono (Nat.le_refl n) (hread.stop h₂.isSound).2.1⟩
    refine (Reads.mustReuse (n := m) h₁.isSound (stands_true hpoised.1 hpoised.2) _).ensures.bind
      fun u s₂ h₂ hreuse => pure h₂.isSound ?_
    obtain ⟨hstream, rfl, hkind⟩ := hreuse
    refine Parse.State.HasRead.of_stream ?_ hstream
    refine .of_kind hpoised.2 fun heof => ?_
    rw [heof] at hkind
    cases hkind

theorem countArgs (hs : s.IsSound) (hsource : s.stream.source = source) (hn : n ≤ s.offset)
    {name : String} (hname : countFunctions.contains name = true) :
    Ensures (Parser.countArgs group name) s fun args s' => s'.HasRead n ∧
      args.IsFit source n s'.stream.current.stop.offset name := by
  have hhas : (name == "has") = false := by
    refine Bool.eq_false_iff.mpr fun hhas => ?_
    rw [eq_of_beq hhas] at hname
    exact absurd hname (by decide)
  have hother : selectorFunctions.contains name = false := by
    have hall : ∀ name ∈ countFunctions, selectorFunctions.contains name = false := by
      decide
    exact hall name (List.contains_iff_mem.mp hname)
  unfold Parser.countArgs
  have hcount : Ensures (ask (·.readNth)) s fun _ s' => n ≤ s'.offset :=
    (Runs.readNth (d := Text.byteLength s.stream.source + 1) s n hs (by omega)
      (stands_false hn)).ensures.weaken fun _ _ _ hstands => hstands.1
  refine hcount.bind fun count s₁ h₁ hn₁ => ?_
  refine (Reads.next (n := 0) h₁.isSound false true).ensures.bind fun first s₂ h₂ hgot => ?_
  have hread₂ : s₂.HasRead n := .of_got hgot hn₁
  have hsource₂ : s₂.stream.source = source :=
    h₂.source_eq.trans (h₁.source_eq.trans hsource)
  extract_lets rest
  have hrest : ∀ (t : Token) {s' : State}, s'.IsSound → s'.stream.source = source → s'.HasRead n →
      Ensures (rest t) s' fun args s' => s'.HasRead n ∧
        args.IsFit source n s'.stream.current.stop.offset name := by
    intro t s' hs' hsource' hread'
    cases count with
    | some count =>
      refine ite (fun _ => ?_) fun _ => ite (fun _ => ?_) fun _ => failAt _ _
      · refine (selectorArgs hgroup hs' hsource' (hread'.le_offset hs') name).bind
          fun list s'' h'' hlist => pure h''.isSound ⟨hlist.1, .nth hname (fun x hx => ?_)
            fun x hx => hhas ▸ (hlist.2.2 x hx).isWellFormed⟩
        exact ⟨(hlist.2.2 x hx).start_le, (hlist.2.2 x hx).le_stop⟩
      · exact pure hs' ⟨hread', .nth hname (fun _ h => absurd h List.not_mem_nil)
          fun _ h => absurd h List.not_mem_nil⟩
    | none =>
      exact ite (fun _ => pure hs' ⟨hread', .value hother⟩) fun _ => failAt _ _
  refine ite (fun _ => ?_) fun _ => pure_bind (hrest first h₂.isSound hsource₂ hread₂)
  exact (Reads.grab (n := 0) h₂.isSound).ensures.bind fun t s₃ h₃ hgot₃ =>
    hrest t h₃.isSound (h₃.source_eq.trans hsource₂) (.of_got hgot₃ (hread₂.le_offset h₂.isSound))

theorem pseudoArgs (hs : s.IsSound) (hsource : s.stream.source = source) (hn : n ≤ s.offset)
    (name : String) :
    Ensures (Parser.pseudoArgs group name) s fun args s' => s'.HasRead n ∧
      args.IsFit source n s'.stream.current.stop.offset name := by
  unfold Parser.pseudoArgs
  refine ite (fun hcount => countArgs hgroup hs hsource hn hcount) fun _ =>
    ite (fun hselectors => ?_) fun hother => ?_
  · exact (selectorArgs hgroup hs hsource hn name).bind fun list s₁ h₁ hlist =>
      pure h₁.isSound ⟨hlist.1, .selectors hselectors hlist.2.1
        (fun x hx => ⟨(hlist.2.2 x hx).start_le, (hlist.2.2 x hx).le_stop⟩)
        fun x hx => (hlist.2.2 x hx).isWellFormed⟩
  · have hvalue : Ensures (expr [.rParen] true) s fun _ s' => s'.stream.HeldFrom n :=
      (Runs.expr (d := Text.byteLength s.stream.source + 1) _ _ s n hs (by omega)
        (stands_false hn)).ensures.weaken fun _ _ _ hstands => hstands.2 rfl
    refine hvalue.bind fun value s₁ h₁ hheld => current_bind (ite (fun hclose => ?_) fun _ =>
      failAt_bind _ _)
    refine pure_bind (pure h₁.isSound ⟨.of_kind hheld ?_, .value (by simpa using hother)⟩)
    rw [eq_of_beq hclose]
    decide

theorem pseudo (hs : s.IsSound) (hsource : s.stream.source = source) (hn : n ≤ s.offset)
    (colon : Token) : Ensures (Parser.pseudo group colon) s (ModifierEnd source n) := by
  unfold Parser.pseudo
  have hcolons : Ensures (matchKinds [.colon]) s fun _ s' => n ≤ s'.offset := by
    refine (Reads.matchKinds (n := 0) hs _).ensures.weaken fun r s' _ hfound => ?_
    cases r with
    | some u => exact Nat.le_trans hn hfound.1.place_le_place
    | none => exact Nat.le_trans hn hfound.place_le
  refine hcolons.bind fun colons s₁ h₁ hn₁ => mustMatch_bind h₁.isSound hn₁ _
    fun t s₂ h₂ hread₂ => ?_
  have hsource₂ : s₂.stream.source = source :=
    h₂.source_eq.trans (h₁.source_eq.trans hsource)
  extract_lets rest
  have hrest : ∀ (name : String) (args : Option (PseudoArgs Selector)) {s' : State}, s'.IsSound →
      s'.HasRead n →
      (∀ x, args = some x → x.IsFit source n s'.stream.current.stop.offset name) →
      Ensures (rest (name, args)) s' (ModifierEnd source n) := by
    intro name args s' hs' hread' hfit
    refine current_bind (slice_bind (pure hs' ⟨?_, hread'⟩))
    rintro name' colons' args' ⟨⟩
    exact hfit args' rfl
  refine ite (fun _ => pure_bind (hrest _ none h₂.isSound hread₂ fun _ h => by cases h)) fun _ => ?_
  refine setPair_bind h₂.isSound fun s₃ h₃ hstream₃ => ?_
  have hn₃ : n ≤ s₃.offset := (hread₂.of_stream hstream₃).le_offset h₃.isSound
  refine (pseudoArgs hgroup h₃.isSound (h₃.source_eq.trans hsource₂) hn₃ t.name).bind
    fun args s₄ h₄ hargs => setPair_bind h₄.isSound fun s₅ h₅ hstream₅ => ?_
  refine pure_bind (hrest t.name (some args) h₅.isSound (hargs.1.of_stream hstream₅) ?_)
  rintro x ⟨⟩
  rw [hstream₅]
  exact hargs.2

/-! ## Modifiers -/

/-- **What the reading of a modifier leaves.** When a token starts none,
nothing is read; otherwise the modifier ends behind the token. -/
def ModifierRead (source : List Char) (t : Token) (s : State) :
    Option (Modifier Selector × Location) → State → Prop
  | none, s' => s'.stream = s.stream ∧ Reads.startsModifier t = false
  | some (m, stop), s' => m.IsFit source s.offset stop.offset ∧ IsPlace source stop ∧
      t.stop.offset ≤ stop.offset ∧
      stop.offset ≤ s'.offset ∧ s.offset ≤ s'.offset ∧ t.kind ≠ .eof

theorem modifier? (hs : s.IsSound) (hsource : s.stream.source = source) (ht : t.IsCut source)
    (hstop : t.stop.offset ≤ s.offset) :
    Ensures (Parser.modifier? group t) s (ModifierRead source t s) := by
  have hplain : ∀ {kind : ModifierKind Selector} {text : String},
      (∀ name colons args, kind ≠ .pseudo name colons args) →
      ∀ start stop, (⟨kind, text, t.location⟩ : Modifier Selector).IsFit source start stop := by
    intro kind text hkind start stop name colons args h
    exact absurd h (hkind name colons _)
  -- whatever was read of a modifier, its end is that of the token in hand
  have hlast : ∀ {m : Modifier Selector} {s' : State}, Keeps s s' →
      ModifierEnd source s.offset m s' → t.kind ≠ .eof →
      ModifierRead source t s (some (m, s'.stream.current.stop)) s' := by
    rintro m s' hkeeps ⟨hfit, hread⟩ hkind
    obtain ⟨hplace, hle, hle'⟩ := hread.stop hkeeps.isSound
    rw [hkeeps.source_eq, hsource] at hplace
    exact ⟨hfit, hplace, Nat.le_trans hstop hle, hle', Nat.le_trans hle hle', hkind⟩
  have hself : ∀ {m : Modifier Selector}, m.IsFit source s.offset t.stop.offset → t.kind ≠ .eof →
      ModifierRead source t s (some (m, t.stop)) s := fun hfit hkind =>
    ⟨hfit, ht.stop_isPlace, Nat.le_refl _, hstop, Nat.le_refl _, hkind⟩
  unfold Parser.modifier?
  split
  · next hkind => exact pure hs (hself (hplain (by simp) _ _) (by rw [hkind]; decide))
  · next hkind => exact pure hs (hself (hplain (by simp) _ _) (by rw [hkind]; decide))
  · next hkind =>
    refine mustMatch_bind hs (Nat.le_refl _) _ fun name s₁ h₁ hread => current_bind ?_
    exact pure h₁.isSound (hlast h₁ ⟨hplain (by simp) _ _, hread⟩ (by rw [hkind]; decide))
  · next hkind =>
    have htest : Ensures (Parser.attributeTest t) s (ModifierEnd source s.offset) :=
      attributeTest hs (Nat.le_refl _) t
    refine htest.bind fun m s₁ h₁ hm => current_bind ?_
    exact pure h₁.isSound (hlast h₁ hm (by rw [hkind]; decide))
  · next hkind =>
    refine (pseudo hgroup hs hsource (Nat.le_refl _) t).bind fun m s₁ h₁ hm => current_bind ?_
    exact pure h₁.isSound (hlast h₁ hm (by rw [hkind]; decide))
  · next hamp hhash hdot hbracket hcolon =>
    refine pure hs ⟨rfl, ?_⟩
    simp only [Reads.startsModifier, List.contains_eq_mem, List.mem_cons, List.not_mem_nil,
      or_false, decide_eq_false_iff_not, not_or]
    exact ⟨hamp, hhash, hdot, hbracket, hcolon⟩

end Modifiers

/-! ## Compounds -/

/-- **What was read of a compound** from its first token on is in its
place. -/
structure InPlace (source : List Char) (start : Token) (c : CompoundSoFar) : Prop where
  /-- The compound ends at a place. -/
  isPlace : IsPlace source c.stop
  /-- It ends behind its first token. -/
  start_le : start.stop.offset ≤ c.stop.offset
  /-- The modifiers fit. -/
  isFit : ∀ m ∈ c.modifiers, m.IsFit source start.stop.offset c.stop.offset

/-- More of a compound leaves its modifiers in their places. -/
theorem InPlace.extend {source : List Char} {start : Token} {c : CompoundSoFar} {stop : Location}
    {pending : Option Token} (h : InPlace source start c) (hplace : IsPlace source stop)
    (hle : c.stop.offset ≤ stop.offset) : InPlace source start ⟨c.modifiers, stop, pending⟩ :=
  ⟨hplace, Nat.le_trans h.start_le hle, fun m hm => (h.isFit m hm).mono (Nat.le_refl _) hle⟩

/-- **A compound as far as it is read** from a first token. It has a name, a
modifier, or a token in hand that starts one; and unless it does that, the
token in hand is the one after what is read. -/
structure CompoundInv (source : List Char) (start : Token) (named : Bool)
    (c : CompoundSoFar) (s : State) : Prop extends InPlace source start c where
  /-- There is something of it. -/
  inhabited : named = true ∨ c.modifiers ≠ [] ∨
    ∃ t, c.pending = some t ∧ Reads.startsModifier t = true
  /-- Without a token in hand, the end was reached. -/
  reached : c.pending = none → c.stop.offset ≤ s.offset
  /-- A token in hand follows the compound, or is a modifier. -/
  pending : ∀ t, c.pending = some t → t.IsCut source ∧ c.stop.offset ≤ t.stop.offset ∧
    t.stop.offset ≤ s.offset ∧
      (Poised c.stop.offset c.stop.offset s ∨ Reads.startsModifier t = true)

/-- **What is left when a compound is read**: the token after it in hand. -/
structure CompoundEnd (source : List Char) (start : Token) (named : Bool)
    (c : CompoundSoFar) (s : State) : Prop extends InPlace source start c where
  /-- There is something of it. -/
  inhabited : named = true ∨ c.modifiers ≠ []
  /-- The token in hand follows it. -/
  poised : Poised c.stop.offset c.stop.offset s

/-- What bounds the rounds in which modifiers are read. -/
def modifierMeasure (c : CompoundSoFar) (s : State) : Nat :=
  s.left + if c.pending = none then 0 else 1

/-- What a round in which a modifier is read leaves. -/
abbrev ModifierTurn (source : List Char) (start : Token) (named : Bool) (bound : Nat) :
    ForInStep CompoundSoFar → State → Prop :=
  Reads.Turn (CompoundInv source start named) modifierMeasure bound (CompoundEnd source start named)

section Compounds

variable (hgroup : EnsuresGroup source group)

include hgroup

/-- **One more modifier**, once its first token is read. -/
theorem modifierStep_of_token (hs : s.IsSound) (hsource : s.stream.source = source) {named : Bool}
    {c : CompoundSoFar} (hset : InPlace source start c) (ht : t.IsCut source)
    (hle : c.stop.offset ≤ t.stop.offset) (hstop : t.stop.offset ≤ s.offset)
    (hnext : Poised c.stop.offset c.stop.offset s ∨ Reads.startsModifier t = true)
    (hinhabited : named = true ∨ c.modifiers ≠ [] ∨ Reads.startsModifier t = true) {bound : Nat}
    (hbound : t.kind ≠ .eof → s.left < bound) :
    Ensures (do
      match ← Parser.modifier? group t with
      | some (m, stop) => return .yield ⟨m :: c.modifiers, stop, none⟩
      | none => return .done { c with pending := none }) s
      (ModifierTurn source start named bound) := by
  refine (modifier? hgroup hs hsource ht hstop).bind fun r s₁ h₁ hr => ?_
  rcases r with _ | ⟨m, stop⟩
  · obtain ⟨hstream, hstarts⟩ := hr
    rw [hstarts] at hnext hinhabited
    refine pure h₁.isSound ⟨hset.extend hset.isPlace (Nat.le_refl _), ?_, ?_⟩
    · simpa using hinhabited
    · have hpoised : Poised c.stop.offset c.stop.offset s := by simpa using hnext
      exact ⟨(Parse.State.offset_of_stream hstream).symm ▸ hpoised.1, hstream.symm ▸ hpoised.2⟩
  · obtain ⟨hm, hplace₁, hle₁, hstop₁, hon, hkind⟩ := hr
    have hon₁ := Nat.le_trans hle hle₁
    refine pure h₁.isSound ⟨⟨⟨hplace₁, Nat.le_trans hset.start_le hon₁, fun x hx => ?_⟩,
      .inr (.inl ?_), fun _ => hstop₁, fun _ h => by cases h⟩, ?_⟩
    · rcases List.mem_cons.mp hx with rfl | hx
      · exact hm.mono (Nat.le_trans hset.start_le (Nat.le_trans hle hstop)) (Nat.le_refl _)
      · exact (hset.isFit x hx).mono (Nat.le_refl _) hon₁
    · exact List.cons_ne_nil _ _
    · exact Nat.lt_of_le_of_lt (h₁.left_le hon) (hbound hkind)

theorem modifierStep (hs : s.IsSound) (hsource : s.stream.source = source) {named : Bool}
    {c : CompoundSoFar} (hc : CompoundInv source start named c s) :
    Ensures (Parser.modifierStep group c) s
      (ModifierTurn source start named (modifierMeasure c s)) := by
  unfold Parser.modifierStep
  have hinhabited : ∀ {u : Token}, (∀ t, c.pending = some t → t = u) →
      named = true ∨ c.modifiers ≠ [] ∨ Reads.startsModifier u = true := fun hu =>
    hc.inhabited.imp id fun h => h.imp id fun ⟨t, ht, hstarts⟩ => hu t ht ▸ hstarts
  cases hpending : c.pending with
  | some u =>
    obtain ⟨hcut, hle, hstop, hnext⟩ := hc.pending u hpending
    refine pure_bind (modifierStep_of_token hgroup hs hsource hc.toInPlace hcut hle hstop hnext
      (hinhabited fun t ht => ?_) fun _ => ?_)
    · exact Option.some.inj (ht.symm.trans hpending)
    · simp [modifierMeasure, hpending]
  | none =>
    have hreached := hc.reached hpending
    refine (Reads.next (n := 0) hs false true).ensures.bind fun u s₁ h₁ hgot => ?_
    have hplace : c.stop.offset ≤ u.location.offset := Nat.le_trans hreached hgot.place_le
    have hcut : u.IsCut source := hsource ▸ hgot.isCut
    refine modifierStep_of_token hgroup h₁.isSound (h₁.source_eq.trans hsource) hc.toInPlace hcut
      (Nat.le_trans hplace hcut.location_le_stop) hgot.stop_le
      (.inl (Poised.of_got hgot (Nat.le_refl _) hreached)) (hinhabited fun t ht => ?_)
      fun hkind => ?_
    · rw [hpending] at ht
      cases ht
    · rw [modifierMeasure, if_pos hpending]
      exact h₁.left_lt (hgot.place_lt_place hkind)

end Compounds

/-- **A compound as far as its first marks `&` are read**, and the token
after them. -/
structure AmpsRead (source : List Char) (start : Token) (r : CompoundSoFar × Token)
    (s : State) : Prop extends InPlace source start r.1 where
  /-- The token is cut from the source. -/
  isCut : r.2.IsCut source
  /-- It is the first one, or comes after what is read. -/
  le_stop : r.1.stop.offset ≤ r.2.stop.offset
  /-- It was read. -/
  reached : r.2.stop.offset ≤ s.offset
  /-- Nothing was read yet, or the token follows a mark. -/
  follows : r.1.stop = start.stop ∧ r.2 = start ∨
    r.1.modifiers ≠ [] ∧ Poised r.1.stop.offset r.1.stop.offset s

theorem ampStep (hs : s.IsSound) (hsource : s.stream.source = source)
    {r : CompoundSoFar × Token} (hr : AmpsRead source start r s) :
    Ensures (Parser.ampStep r) s (Round (AmpsRead source start)) := by
  obtain ⟨c, t⟩ := r
  unfold Parser.ampStep
  refine ite (fun _ => ?_) fun _ => pure hs hr
  refine (Reads.next (n := 0) hs false true).ensures.bind fun u s₁ h₁ hgot => ?_
  have hcut : u.IsCut source := hsource ▸ hgot.isCut
  have hle : t.stop.offset ≤ u.location.offset := Nat.le_trans hr.reached hgot.place_le
  refine pure h₁.isSound ⟨⟨hr.isCut.stop_isPlace, Nat.le_trans hr.start_le hr.le_stop,
    fun m hm => ?_⟩, hcut, Nat.le_trans hle hcut.location_le_stop, hgot.stop_le,
    .inr ⟨List.cons_ne_nil _ _, Poised.of_got hgot (Nat.le_refl _) hr.reached⟩⟩
  rcases List.mem_cons.mp hm with rfl | hm
  · exact fun _ _ _ h => by cases h
  · exact (hr.isFit m hm).mono (Nat.le_refl _) hr.le_stop

/-- **The run of `&` before an element name.** -/
theorem ampLoop (hs : s.IsSound) (hsource : s.stream.source = source) (ht : start.IsCut source)
    (hstop : start.stop.offset ≤ s.offset) :
    Ensures (Parser.repeating (⟨[], start.stop, none⟩, start) Parser.ampStep) s
      (AmpsRead source start) := by
  have hbegin : AmpsRead source start (⟨[], start.stop, none⟩, start) s :=
    ⟨⟨ht.stop_isPlace, Nat.le_refl _, fun _ h => absurd h List.not_mem_nil⟩, ht, Nat.le_refl _,
      hstop, .inl ⟨rfl, rfl⟩⟩
  exact repeating_first _ hs (ampStep hs hsource hbegin) fun r s₁ h₁ hr =>
    ampStep h₁.isSound (h₁.source_eq.trans hsource) hr

theorem nameInNamespace (hs : s.IsSound) (hsource : s.stream.source = source) {ns : String}
    {c : CompoundSoFar} (hset : InPlace source start c) (hreached : c.stop.offset ≤ s.offset) :
    Ensures (Parser.nameInNamespace ns t) s fun r s' => ∀ element, r = some element →
      CompoundInv source start element.name.isSome
        ⟨c.modifiers, element.stop, element.pending⟩ s' := by
  unfold Parser.nameInNamespace
  refine (Reads.matchKinds (n := 0) hs _).ensures.bind fun found s₁ h₁ hfound => ?_
  cases found with
  | some name =>
    have hgot := hfound.1
    have hcut : name.IsCut source := hsource ▸ hgot.isCut
    refine pure h₁.isSound ?_
    rintro _ ⟨⟩
    have hon : c.stop.offset ≤ name.stop.offset :=
      Nat.le_trans hreached (Nat.le_trans hgot.place_le hcut.location_le_stop)
    exact ⟨hset.extend hcut.stop_isPlace hon, .inl rfl, fun _ => hgot.stop_le,
      fun _ h => by cases h⟩
  | none =>
    have hnone : ∀ {s₂ : State}, s₂.IsSound →
        Ensures (Pure.pure none : Parser (Option ElementName)) s₂ fun r s' =>
          ∀ element, r = some element → CompoundInv source start element.name.isSome
            ⟨c.modifiers, element.stop, element.pending⟩ s' :=
      fun hs₂ => pure hs₂ fun _ h => by cases h
    refine ite (fun _ => hnone h₁.isSound) fun _ => ?_
    exact (unget h₁.isSound).bind fun _ s₂ h₂ _ => hnone h₂.isSound

/-- **The element name of a compound**, if there is one, and the token after
it. -/
theorem elementName (hs : s.IsSound) (hsource : s.stream.source = source)
    {r : CompoundSoFar × Token} (hr : AmpsRead source start r s)
    (hkind : selectorStart.contains start.kind = true) :
    Ensures (Parser.elementName r.2 r.1.stop) s fun e s' => ∀ element, e = some element →
      CompoundInv source start element.name.isSome
        ⟨r.1.modifiers, element.stop, element.pending⟩ s' := by
  have hreached : r.1.stop.offset ≤ s.offset := Nat.le_trans hr.le_stop hr.reached
  unfold Parser.elementName
  refine ite (fun _ => nameInNamespace hs hsource hr.toInPlace hreached) fun hpipe =>
    ite (fun _ => ?_) fun hname => ?_
  · refine (Reads.next (n := 0) hs false true).ensures.bind fun after s₁ h₁ hgot => ?_
    have hcut : after.IsCut source := hsource ▸ hgot.isCut
    refine ite (fun _ => nameInNamespace h₁.isSound (h₁.source_eq.trans hsource) hr.toInPlace
      (Nat.le_trans hreached hgot.place_le_place)) fun _ => pure h₁.isSound ?_
    rintro _ ⟨⟩
    refine ⟨hr.toInPlace.extend hr.isCut.stop_isPlace hr.le_stop, .inl rfl, fun h => (by cases h),
      ?_⟩
    rintro _ ⟨⟩
    refine ⟨hcut, Nat.le_trans hr.reached ?_, hgot.stop_le,
      .inl (Poised.of_got hgot (Nat.le_refl _) hr.reached)⟩
    exact Nat.le_trans hgot.place_le hcut.location_le_stop
  · -- the token starts no name: it is a modifier if it is the first one
    have hmodifier : r.2 = start → Reads.startsModifier r.2 = true := by
      intro hsame
      simp only [beq_iff_eq, Bool.or_eq_true, not_or] at hpipe hname
      exact Reads.startsModifier_of_selectorStart (hsame ▸ hkind) hpipe hname.1 hname.2
    refine pure hs ?_
    rintro _ ⟨⟩
    refine ⟨hr.toInPlace.extend hr.isPlace (Nat.le_refl _), .inr ?_, fun h => (by cases h), ?_⟩
    · exact hr.follows.elim (fun h => .inr ⟨r.2, rfl, hmodifier h.2⟩) fun h => .inl h.1
    · rintro _ ⟨⟩
      exact ⟨hr.isCut, hr.le_stop, hr.reached,
        hr.follows.elim (fun h => .inr (hmodifier h.2)) fun h => .inl h.2⟩

/-- **A compound that was read** from a first token: it stands in the source
from there on, and the token after it is in hand. -/
structure CompoundRead (source : List Char) (start : Token) (c : Compound Selector)
    (stop : Location) (s : State) : Prop where
  /-- Its text stands in the source. -/
  spans : Spans source c.text c.location stop
  /-- It starts where the token does. -/
  location_eq : c.location = start.location
  /-- There is something of it. -/
  inhabited : c.IsInhabited
  /-- Its modifiers fit. -/
  isFit : ∀ m ∈ c.modifiers, m.IsFit source start.location.offset stop.offset
  /-- The token in hand follows it. -/
  poised : Poised stop.offset stop.offset s

/-- **What the reading of a compound leaves.** Where there is none, nothing
was lost. -/
def CompoundFound (source : List Char) (n : Nat) (start : Token) :
    Option (Compound Selector × Location) → State → Prop
  | none, s => Poised n n s
  | some (c, stop), s => CompoundRead source start c stop s

/-- **A compound that a token starts.** -/
theorem compound_some (hgroup : EnsuresGroup source group) (hs : s.IsSound)
    (hsource : s.stream.source = source) (ht : start.IsCut source)
    (hstop : start.stop.offset ≤ s.offset) (hpoised : Poised n n s) :
    Ensures (compound group (some start)) s (CompoundFound source n start) := by
  unfold compound
  refine pure_bind (ite (fun _ => pure hs hpoised) fun hstart => ?_)
  have hkind : selectorStart.contains start.kind = true := by
    simp only [Bool.or_eq_true, Bool.not_eq_true', not_or] at hstart
    simpa using hstart.2
  refine ((Reads.ampLoop hs (Nat.le_refl n) hpoised ⟨[], start.stop, none⟩ start).ensures.and
    (ampLoop hs hsource ht hstop)).bind fun r s₁ h₁ hr => ?_
  have hsource₁ := h₁.source_eq.trans hsource
  refine ((Reads.elementName h₁.isSound (Nat.le_refl n) hr.1.1 r.2 r.1.stop).ensures.and
    (elementName h₁.isSound hsource₁ hr.2 hkind)).bind fun element s₂ h₂ helement => ?_
  cases element with
  | none => exact pure h₂.isSound helement.1.1
  | some element =>
    have hc := helement.2 element rfl
    have hsource₂ := h₂.source_eq.trans hsource₁
    refine (repeating (Q := CompoundEnd source start element.name.isSome) _ modifierMeasure
      h₂.isSound hc (by unfold modifierMeasure; split <;> omega) fun c s₃ h₃ hc₃ =>
      modifierStep hgroup h₃.isSound (h₃.source_eq.trans hsource₂) hc₃).bind fun c s₃ h₃ hc₃ => ?_
    refine slice_bind (pure h₃.isSound ⟨?_, rfl, ?_, ?_, hc₃.poised⟩)
    · have hspans := Spans.of_slice ht.location_isPlace hc₃.isPlace
        (Nat.le_trans ht.location_le_stop hc₃.start_le)
      rwa [← h₃.source_eq.trans hsource₂] at hspans ⊢
    · exact hc₃.inhabited.imp id fun h => by simpa using h
    · exact fun m hm => (hc₃.isFit m (List.mem_reverse.mp hm)).mono ht.location_le_stop
        (Nat.le_refl _)

/-- **A compound from the next token on.** -/
theorem compound_none (hgroup : EnsuresGroup source group) (hs : s.IsSound)
    (hsource : s.stream.source = source) (hn : n ≤ s.offset) :
    Ensures (compound group none) s fun r s' => ∃ start : Token,
      n ≤ start.location.offset ∧ CompoundFound source n start r s' := by
  show Ensures (grab >>= fun t => compound group (some t)) s _
  refine (Reads.grab (n := 0) hs).ensures.bind fun start s₁ h₁ hgot => ?_
  have hcut : start.IsCut source := hsource ▸ hgot.isCut
  exact (compound_some hgroup h₁.isSound (h₁.source_eq.trans hsource) hcut hgot.stop_le
    (Poised.of_got hgot (Nat.le_refl n) hn)).weaken fun r s' _ hr =>
      ⟨start, Nat.le_trans hn hgot.place_le, hr⟩

end Ensures

end Stylesheet
