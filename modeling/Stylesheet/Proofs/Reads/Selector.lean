import Stylesheet.Parse.Selector
import Stylesheet.Proofs.Reads.Value

/-!
# Reading selectors reads on

A reader of selectors looks one token too far, so what it leaves in hand
may be the token it was given. `Poised` keeps the two offsets apart: the
one that is not gone back before, and the one from which the token in
hand starts.

The loops here do not read in every round. The first `&`, the first
modifier, the first combinator and the first token of a list may have
been read before, and a selector looks at the end of the source once
more before it stops. Each of these costs one round more than there are
tokens. Lists of selectors nest in the arguments of pseudo-classes,
which start after a name.
-/

namespace Stylesheet

open Parse (State)
open Parse.State (Keeps Stands stands_false stands_true)
open Stylesheet.Parser

/-- **Where a reader of selectors stands**: it has come to an offset, and
the token it looked at last starts at an offset or after it. -/
def Poised (m n : Nat) (s : State) : Prop := n ≤ s.offset ∧ s.stream.HeldFrom m

namespace Poised

variable {m n : Nat} {s s' : State} {t : Token}

theorem mono {m' n' : Nat} (h : Poised m n s) (hm : m' ≤ m) (hn : n' ≤ n) : Poised m' n' s :=
  ⟨Nat.le_trans hn h.1, h.2.mono hm⟩

theorem of_got (hgot : Stream.Got s.stream t s'.stream) (hmn : m ≤ n) (hn : n ≤ s.offset) :
    Poised m n s' :=
  ⟨Nat.le_trans hn hgot.place_le_place, hgot.heldFrom (Nat.le_trans hmn hn)⟩

theorem of_stays (h : Poised m n s) (hmn : m ≤ n) (hstays : Stream.Stays s.stream s'.stream) :
    Poised m n s' :=
  ⟨Nat.le_trans h.1 hstays.place_le, hstays.heldFrom (Nat.le_trans hmn h.1) h.2⟩

end Poised

/-- **What a reader of selectors leaves**: when it found something, the
token in hand is one that it read. -/
def Leaves {α : Type} (m n : Nat) (r : Option α) (s : State) : Prop :=
  Poised m n s ∧ (r ≠ none → s.stream.HeldFrom n)

/-- **A reader of lists of selectors that reads on** wherever less than a
bound is left. -/
def RunsGroup (d : Nat) (group group' : GroupParser) : Prop :=
  ∀ (first : Option Token) (relative lax : Bool) (s : State) (m n : Nat),
    s.IsSound → Text.byteLength s.stream.source < n + d → m ≤ n → n ≤ s.offset →
      (first ≠ none → s.stream.HeldFrom m) →
      Reads n (group first relative lax) (group' first relative lax) s (Leaves m n)

/-- Without a first token, a list of selectors is read from anywhere. -/
theorem RunsGroup.withoutFirst {d : Nat} {group group' : GroupParser} (h : RunsGroup d group group')
    (relative lax : Bool) :
    Runs d false true (group none relative lax) (group' none relative lax) :=
  fun s n hs hd hstands => (h none relative lax s n n hs hd (Nat.le_refl n) hstands.1
    fun hne => absurd rfl hne).weaken fun _ _ _ hleaves => stands_true hleaves.1.1 hleaves.1.2

namespace Runs

variable {d : Nat} {a : Bool} {group group' : GroupParser}

/-! ## Modifiers -/

theorem attributeHead (t : Token) :
    Runs d false false (Parser.attributeHead t) (Parser.attributeHead t) := by
  unfold Parser.attributeHead
  split
  · exact pure _
  · exact (mustMatch _).release.discard.bind fun _ => pure _
  · refine (next false true).release.bind fun after => ?_
    split <;> first | exact pure _ | exact failAt _ _

theorem attributeOp (head : AttributeHead) :
    Runs d false false (Parser.attributeOp head) (Parser.attributeOp head) := by
  unfold Parser.attributeOp
  refine ite (fun _ => ?_) fun _ => pure _
  exact (mustMatchSmart _).release.bind fun t => ite (fun _ => pure _) fun _ => pure _

theorem attributeValue : Runs d false false Parser.attributeValue Parser.attributeValue := by
  unfold Parser.attributeValue
  refine (mustMatchSmart _).bind fun value => grab.release.bind fun t => ?_
  exact ite (fun _ => pure _) fun _ => ite (fun _ => pure _) fun _ => failAt _ _

theorem attributeTest (start : Token) :
    Runs d false false (Parser.attributeTest start) (Parser.attributeTest start) := by
  unfold Parser.attributeTest
  refine (mustMatchSmart _).release.bind fun first => (setPair _).bind fun _ => ?_
  refine (attributeHead first).bind fun head => ?_
  extract_lets afterName
  have hafterName : ∀ name, Runs d false false (afterName name) (afterName name) := by
    intro name
    refine (attributeOp head).bind fun head => ?_
    extract_lets afterValue
    have hafterValue : ∀ found, Runs d false false (afterValue found) (afterValue found) := by
      rintro ⟨value, flag, close⟩
      cases close with
      | some t => exact pure_bind ((setPair _).bind fun _ => (slice _ _).bind fun _ => pure _)
      | none =>
        exact (mustMatchSmart _).release.bind fun _ =>
          (setPair _).bind fun _ => (slice _ _).bind fun _ => pure _
    exact ite (fun _ => attributeValue.bind fun _ => (hafterValue _).pure_bind) fun _ =>
      (hafterValue _).pure_bind
  cases head.name with
  | some name => exact (hafterName name).pure_bind
  | none => exact (mustMatch _).release.bind fun _ => (hafterName _).pure_bind

theorem selectorArgs (hgroup : RunsGroup d group group') (name : String) :
    Runs d false false (Parser.selectorArgs group name) (Parser.selectorArgs group' name) := by
  unfold Parser.selectorArgs
  refine (hgroup.withoutFirst _ _).bind fun list => ?_
  cases list with
  | none => exact failHere _
  | some list => exact (mustReuse _).discard.release.bind fun _ => pure _

theorem countArgs (hgroup : RunsGroup d group group') (name : String) :
    Runs d false false (Parser.countArgs group name) (Parser.countArgs group' name) := by
  unfold Parser.countArgs
  refine readNth.bind fun count => (next false true).release.bind fun first => ?_
  extract_lets rest rest'
  have hrest : ∀ t, Runs d false false (rest t) (rest' t) := by
    intro t
    cases count with
    | some count =>
      exact ite (fun _ => (selectorArgs hgroup name).bind fun _ => pure _) fun _ =>
        ite (fun _ => pure _) fun _ => failAt _ _
    | none => exact ite (fun _ => pure _) fun _ => failAt _ _
  exact ite (fun _ => grab.release.bind hrest) fun _ => (hrest _).pure_bind

theorem pseudoArgs (hgroup : RunsGroup d group group') (name : String) :
    Runs d false false (Parser.pseudoArgs group name) (Parser.pseudoArgs group' name) := by
  unfold Parser.pseudoArgs
  refine ite (fun _ => countArgs hgroup name) fun _ => ite (fun _ => ?_) fun _ => ?_
  · exact (selectorArgs hgroup name).bind fun _ => pure _
  · refine (expr _ _).release.bind fun value => current.bind fun close => ?_
    exact ite (fun _ => pure _) fun _ => failAt_bind _ _

/-- **A pseudo-class or pseudo-element**: the argument starts after the
name. -/
theorem pseudo (hgroup : RunsGroup d group group') (colon : Token) :
    Runs (d + 1) false false (Parser.pseudo group colon) (Parser.pseudo group' colon) := by
  unfold Parser.pseudo
  refine (matchKinds _).bind fun colons => ?_
  refine mustMatch_bind (by decide) fun t => ?_
  extract_lets rest
  have hrest : ∀ found, Runs d false false (rest found) (rest found) := by
    rintro ⟨name, args⟩
    exact current.bind fun _ => (slice _ _).bind fun _ => pure _
  refine ite (fun _ => (hrest _).pure_bind) fun _ => ?_
  refine (setPair _).bind fun _ => (pseudoArgs hgroup _).bind fun args => ?_
  exact (setPair _).bind fun _ => (hrest _).pure_bind

end Runs

/-! ## Compounds -/

namespace Reads

variable {d m n : Nat} {s : State} {group group' : GroupParser}

/-- Whether a token starts a modifier. -/
def startsModifier (t : Token) : Bool :=
  [.amp, .hash, .dot, .lBracket, .colon].contains t.kind

/-- What the reading of a modifier leaves: when a token starts none,
nothing is read, and the end of the source starts none. -/
def AfterModifier (n : Nat) (s : State) (t : Token) (r : Option (Modifier Selector × Location))
    (s' : State) : Prop :=
  n ≤ s'.offset ∧ (r = none → s'.stream = s.stream ∧ startsModifier t = false) ∧
    (r ≠ none → t.kind ≠ .eof)

theorem modifier? (hgroup : RunsGroup d group group') (hs : s.IsSound)
    (hd : Text.byteLength s.stream.source < n + (d + 1)) (hn : n ≤ s.offset) (t : Token) :
    Reads n (Parser.modifier? group t) (Parser.modifier? group' t) s (AfterModifier n s t) := by
  have hmade : ∀ {s'} r, n ≤ s'.offset → t.kind ≠ .eof → AfterModifier n s t (some r) s' :=
    fun r hn hkind => ⟨hn, fun h => (by cases h), fun _ => hkind⟩
  have hsome : ∀ {α : Type} {p p' : Parser α} (g : α → Token → Modifier Selector × Location),
      Runs (d + 1) false false p p' → t.kind ≠ .eof →
      Reads n (do let x ← p; let last ← Parser.current; return some (g x last))
        (do let x ← p'; let last ← Parser.current; return some (g x last)) s
        (AfterModifier n s t) := fun g hp hkind =>
    (hp s n hs hd (stands_false hn)).bind fun x s₁ h₁ hstands =>
      current (pure h₁.isSound (hmade _ hstands.1 hkind))
  unfold Parser.modifier?
  split
  · next hkind => exact pure hs (hmade _ hn (by rw [hkind]; decide))
  · next hkind => exact pure hs (hmade _ hn (by rw [hkind]; decide))
  · next hkind =>
    exact hsome (fun name last => (⟨.className, "." ++ name.text, t.location⟩, last.stop))
      (Runs.mustMatch _).release (by rw [hkind]; decide)
  · next hkind =>
    exact hsome (fun m last => (m, last.stop)) (Runs.attributeTest t) (by rw [hkind]; decide)
  · next hkind =>
    exact hsome (fun m last => (m, last.stop)) (Runs.pseudo hgroup t) (by rw [hkind]; decide)
  · next hamp hhash hdot hbracket hcolon =>
    refine pure hs ⟨hn, fun _ => ⟨rfl, ?_⟩, fun h => absurd rfl h⟩
    simp only [startsModifier, List.contains_eq_mem, List.mem_cons, List.not_mem_nil, or_false,
      decide_eq_false_iff_not, not_or]
    exact ⟨hamp, hhash, hdot, hbracket, hcolon⟩

/-- **The run of `&` before an element name.** A token is read only
after another `&`. -/
theorem ampLoop (hs : s.IsSound) (hmn : m ≤ n) (h : Poised m n s) (c : CompoundSoFar)
    (start : Token) :
    Reads n (Parser.repeating (c, start) ampStep)
      (Parser.repeating (c, start) ampStep) s
      fun r s' => Poised m n s' ∧ (s'.stream.HeldFrom n ∨ r.2 = start ∧ start.kind ≠ .amp) := by
  refine repeating (fun r s => Poised m n s ∧ (s.stream.HeldFrom n ∨ r.2 = start))
    (fun r s => s.left + if r.2.kind = .amp then 1 else 0) hs ⟨h, Or.inr rfl⟩
    (by split <;> omega) fun sofar s₁ h₁ hI => ?_
  obtain ⟨c, t⟩ := sofar
  obtain ⟨hpoised, hread⟩ := hI
  unfold ampStep
  refine ite (fun hamp => ?_) fun hamp => ?_
  · refine (next h₁.isSound false true).bind fun t' s₂ h₂ hgot => ?_
    have hamp' : t.kind = .amp := beq_iff_eq.mp hamp
    refine pure h₂.isSound ⟨⟨Poised.of_got hgot hmn hpoised.1,
      Or.inl (hgot.heldFrom hpoised.1)⟩, ?_⟩
    show s₂.left + (if t'.kind = .amp then 1 else 0) < s₁.left + if t.kind = .amp then 1 else 0
    rw [if_pos hamp']
    split_ifs with hagain
    · have hlt := h₂.left_lt (hgot.place_lt_place (by rw [hagain]; decide))
      omega
    · have hle := h₂.left_le hgot.place_le_place
      omega
  · refine pure h₁.isSound ⟨hpoised, hread.imp id fun heq => ⟨heq, ?_⟩⟩
    rw [← show t = start from heq]
    simpa using hamp

/-- The name after a namespace. When there is none, the bar is taken back
if it was read after the namespace. -/
theorem nameInNamespace (hs : s.IsSound) (hmn : m ≤ n) (h : Poised m n s) (ns : String) (t : Token)
    (hbar : t.kind ≠ .pipe → ∃ (before : Stream) (bar : Token),
      Stream.Got before bar s.stream ∧ n ≤ before.place.offset ∧ before.HeldFrom m) :
    Reads n (Parser.nameInNamespace ns t) (Parser.nameInNamespace ns t) s (Leaves m n) := by
  unfold Parser.nameInNamespace
  refine (matchKinds hs _).bind fun found s₁ h₁ hfound => ?_
  cases found with
  | some name =>
    exact pure h₁.isSound ⟨Poised.of_got hfound.1 hmn h.1, fun _ => hfound.1.heldFrom h.1⟩
  | none =>
    have hpoised : Poised m n s₁ := h.of_stays hmn hfound
    refine ite (fun _ => pure h₁.isSound ⟨hpoised, fun h => absurd rfl h⟩) fun hpipe => ?_
    obtain ⟨before, bar, hgot, hplace, hheld⟩ := hbar (by simpa using hpipe)
    -- the bar was read from the offset on, and what is before it is what was held
    have hheld₁ : s₁.stream.HeldFrom n := hfound.heldFrom h.1 (hgot.heldFrom hplace)
    refine (unget h₁.isSound hpoised.1 hpoised.1 hheld₁).bind fun _ s₂ h₂ hback => ?_
    refine pure h₂.isSound ⟨⟨hback.1, ?_⟩, fun h => absurd rfl h⟩
    rw [hback.2]
    exact hgot.heldFrom_back hfound (Nat.le_trans hmn hplace) hheld

/-- **The element name of a compound.** When there is one, something was
read, or the token it was looked for at is left to the modifiers. -/
theorem elementName (hs : s.IsSound) (hmn : m ≤ n) (h : Poised m n s) (t : Token)
    (stop : Location) :
    Reads n (Parser.elementName t stop) (Parser.elementName t stop) s fun r s' =>
      Poised m n s' ∧ ∀ element, r = some element → s'.stream.HeldFrom n ∨
        s'.stream = s.stream ∧ element.pending = some t ∧ t.kind ≠ .pipe ∧ t.kind ≠ .star ∧
          t.kind ≠ .ident := by
  unfold Parser.elementName
  refine ite (fun hpipe => ?_) fun hpipe => ite (fun _ => ?_) fun hname => ?_
  · refine (nameInNamespace hs hmn h "" t fun hne => absurd (beq_iff_eq.mp hpipe) hne).weaken
      fun r s₁ _ hleaves => ⟨hleaves.1, ?_⟩
    rintro element rfl
    exact Or.inl (hleaves.2 (by simp))
  · refine (next hs false true).bind fun after s₁ h₁ hgot => ?_
    have hpoised : Poised m n s₁ := Poised.of_got hgot hmn h.1
    refine ite (fun _ => ?_) fun _ =>
      pure h₁.isSound ⟨hpoised, fun _ _ => Or.inl (hgot.heldFrom h.1)⟩
    refine (nameInNamespace h₁.isSound hmn hpoised t.text t fun _ =>
      ⟨s.stream, after, hgot, h.1, h.2⟩).weaken fun r s₂ _ hleaves => ⟨hleaves.1, ?_⟩
    rintro element rfl
    exact Or.inl (hleaves.2 (by simp))
  · refine pure hs ⟨h, ?_⟩
    rintro element ⟨⟩
    exact Or.inr ⟨rfl, rfl, by simpa using hpipe, by simp_all, by simp_all⟩

/-- **The modifiers of a compound.** A token is read for each but the
first, which may have been read before. -/
theorem modifierLoop (hgroup : RunsGroup d group group') (hs : s.IsSound)
    (hd : Text.byteLength s.stream.source < n + (d + 1)) (hn : n ≤ s.offset)
    (sofar : CompoundSoFar)
    (hfirst : s.stream.HeldFrom n ∨ ∃ t, sofar.pending = some t ∧ startsModifier t = true) :
    Reads n (Parser.repeating sofar (modifierStep group))
      (Parser.repeating sofar (modifierStep group')) s fun _ => Poised n n := by
  refine repeating
    (fun c s => n ≤ s.offset ∧ (c.pending ≠ none → s.stream.HeldFrom n ∨
      ∃ t, c.pending = some t ∧ startsModifier t = true))
    (fun c s => s.left + if c.pending = none then 0 else 1) hs ⟨hn, fun _ => hfirst⟩
    (by split <;> omega) fun c s₁ h₁ hI => ?_
  obtain ⟨hn₁, hheld⟩ := hI
  have hd₁ : Text.byteLength s₁.stream.source < s₁.offset + (d + 1) := by
    rw [h₁.source_eq]
    omega
  unfold modifierStep
  cases hpending : c.pending with
  | some t =>
    refine pure_bind (((modifier? hgroup h₁.isSound hd₁ (Nat.le_refl _) t).lower hn₁).bind
      fun r s₂ h₂ hr => ?_)
    obtain ⟨hoffset, hnone, -⟩ := hr
    cases r with
    | none =>
      obtain ⟨hstream, hstarts⟩ := hnone rfl
      refine pure h₂.isSound ⟨Nat.le_trans hn₁ hoffset, ?_⟩
      rw [hstream]
      rcases hheld (by rw [hpending]; simp) with hheld | ⟨t', ht', hstarts'⟩
      · exact hheld
      · rw [hpending] at ht'
        obtain rfl := Option.some.inj ht'
        rw [hstarts] at hstarts'
        exact absurd hstarts' (by simp)
    | some r =>
      refine pure h₂.isSound ⟨⟨Nat.le_trans hn₁ hoffset, fun h => absurd rfl h⟩, ?_⟩
      have hle := h₂.left_le hoffset
      simp only [if_true, reduceCtorEq, if_false]
      omega
  | none =>
    refine (next h₁.isSound false true).bind fun t s₂ h₂ hgot => ?_
    have hle : s₁.offset ≤ s₂.offset := hgot.place_le_place
    have hd₂ : Text.byteLength s₂.stream.source < s₂.offset + (d + 1) := by
      rw [h₂.source_eq]
      omega
    refine ((modifier? hgroup h₂.isSound hd₂ (Nat.le_refl _) t).lower
      (Nat.le_trans hn₁ hle)).bind fun r s₃ h₃ hr => ?_
    obtain ⟨hoffset, hnone, hsome⟩ := hr
    have hn₃ : n ≤ s₃.offset := Nat.le_trans hn₁ (Nat.le_trans hle hoffset)
    cases r with
    | none =>
      refine pure h₃.isSound ⟨hn₃, ?_⟩
      rw [(hnone rfl).1]
      exact hgot.heldFrom hn₁
    | some r =>
      refine pure h₃.isSound ⟨⟨hn₃, fun h => absurd rfl h⟩, ?_⟩
      have hlt := h₂.left_lt (hgot.place_lt_place (hsome (by simp)))
      have hle₃ := h₃.left_le hoffset
      simp only [if_true]
      omega

/-- A token that starts a compound but no element name starts a
modifier. -/
theorem startsModifier_of_selectorStart {t : Token} (hstart : selectorStart.contains t.kind = true)
    (hpipe : t.kind ≠ .pipe) (hstar : t.kind ≠ .star) (hident : t.kind ≠ .ident) :
    startsModifier t = true := by
  unfold selectorStart at hstart
  unfold startsModifier
  simp only [List.contains_eq_mem, List.mem_cons, List.not_mem_nil, or_false,
    decide_eq_true_eq] at hstart ⊢
  rcases hstart with h | h | h | h | h | h | h | h
  · exact Or.inl h
  · exact absurd h hpipe
  · exact absurd h hident
  · exact absurd h hstar
  · exact Or.inr (Or.inl h)
  · exact Or.inr (Or.inr (Or.inl h))
  · exact Or.inr (Or.inr (Or.inr (Or.inl h)))
  · exact Or.inr (Or.inr (Or.inr (Or.inr h)))

/-- **A compound that a token starts.** -/
theorem compound_some (hgroup : RunsGroup d group group') (hs : s.IsSound)
    (hd : Text.byteLength s.stream.source < n + (d + 1)) (hmn : m ≤ n) (h : Poised m n s)
    (start : Token) :
    Reads n (compound group (some start)) (compound group' (some start)) s
      (Leaves m n) := by
  unfold compound
  refine pure_bind (ite (fun _ => pure hs ⟨h, fun h => absurd rfl h⟩) fun hstart => ?_)
  have hstart' : selectorStart.contains start.kind = true := by
    simp only [Bool.or_eq_true, Bool.not_eq_true', not_or] at hstart
    simpa using hstart.2
  refine (ampLoop hs hmn h _ start).bind fun amps s₁ h₁ hamps => ?_
  refine (elementName h₁.isSound hmn hamps.1 _ _).bind fun element s₂ h₂ helement => ?_
  cases element with
  | none => exact pure h₂.isSound ⟨helement.1, fun h => absurd rfl h⟩
  | some element =>
    have hd₂ : Text.byteLength s₂.stream.source < n + (d + 1) := by
      rw [h₂.source_eq, h₁.source_eq]
      exact hd
    -- either something was read by now, or the token itself starts the first modifier
    have hfirst : s₂.stream.HeldFrom n ∨
        ∃ t, element.pending = some t ∧ startsModifier t = true := by
      rcases helement.2 element rfl with hheld | ⟨hstream, hpending, hpipe, hstar, hident⟩
      · exact Or.inl hheld
      · rcases hamps.2 with hheld | ⟨hsame, -⟩
        · rw [hstream]
          exact Or.inl hheld
        · rw [hsame] at hpending hpipe hstar hident
          exact Or.inr ⟨start, hpending,
            startsModifier_of_selectorStart hstart' hpipe hstar hident⟩
    refine (modifierLoop hgroup h₂.isSound hd₂ helement.1.1 _ hfirst).bind
      fun sofar s₃ h₃ hpoised₃ => ?_
    exact slice (pure h₃.isSound ⟨hpoised₃.mono hmn (Nat.le_refl n), fun _ => hpoised₃.2⟩)

/-- The end of the source starts no compound. -/
theorem compound_eof {t : Token} (ht : t.kind = .eof) :
    compound group (some t) = Pure.pure none := by
  have hstart : selectorStart.contains t.kind = false := by
    rw [ht]
    rfl
  unfold compound
  show (if (t.isCustomIdent || !selectorStart.contains t.kind) = true then _ else _) = _
  rw [hstart, Bool.not_false, Bool.or_true, if_pos rfl]

/-- **A compound from the next token on**; if there is one, something was
read. -/
theorem compound_none (hgroup : RunsGroup d group group') (hs : s.IsSound)
    (hd : Text.byteLength s.stream.source < n + (d + 1)) (hn : n ≤ s.offset) :
    Reads n (compound group none) (compound group' none) s
      fun r s' => Poised n n s' ∧ (r ≠ none → n < s'.offset) := by
  show Reads n (Parser.grab >>= fun t => compound group (some t))
    (Parser.grab >>= fun t => compound group' (some t)) s _
  refine (grab hs).bind fun t s₁ h₁ hgot => ?_
  by_cases heof : t.kind = .eof
  · rw [compound_eof heof, compound_eof heof]
    exact pure h₁.isSound ⟨Poised.of_got hgot (Nat.le_refl n) hn, fun h => absurd rfl h⟩
  · have hlt : s.offset < s₁.offset := hgot.place_lt_place heof
    have hd₁ : Text.byteLength s₁.stream.source < n + 1 + (d + 1) := by
      rw [h₁.source_eq]
      omega
    have hpoised : Poised n (n + 1) s₁ := ⟨by omega, hgot.heldFrom hn⟩
    refine ((compound_some hgroup h₁.isSound hd₁ (Nat.le_succ n) hpoised t).lower
      (Nat.le_succ n)).weaken fun r s₂ _ hleaves => ?_
    exact ⟨hleaves.1.mono (Nat.le_refl n) (Nat.le_succ n), fun _ => hleaves.1.1⟩

/-! ## Selectors -/

/-- Whether a selector can go on after a token. -/
def goesOn (t : Token) : Bool :=
  combinatorKinds.contains t.kind || t.kind == .uvar || t.kind == .whitespace

/-- What bounds the rounds in which a selector is read: what is left, and
one more while the token looked at lets it go on. -/
def selectorMeasure (sofar : SelectorSoFar) (s : State) : Nat :=
  s.left + if goesOn (sofar.pending.getD s.stream.current) then 1 else 0

theorem selectorMeasure_le (sofar : SelectorSoFar) (s : State) :
    selectorMeasure sofar s ≤ s.left + 1 := by
  unfold selectorMeasure
  split <;> omega

/-- **Between two rounds of a selector**: something was read by now, or
the combinator it starts with is still to be used. -/
def SelectorInv (n : Nat) (sofar : SelectorSoFar) (s : State) : Prop :=
  n ≤ s.offset ∧ (s.stream.HeldFrom n ∨
    ∃ t, sofar.pending = some t ∧ combinatorKinds.contains t.kind = true)

theorem Poised.selectorInv (h : Poised n n s) (sofar : SelectorSoFar) :
    SelectorInv n sofar s :=
  ⟨h.1, Or.inl h.2⟩

/-- What a round in which a selector is read leaves. -/
abbrev SelectorTurn (n bound : Nat) : ForInStep SelectorSoFar → State → Prop :=
  Turn (SelectorInv n) selectorMeasure bound fun _ => Poised n n

/-- A combinator and the compound after it. -/
theorem afterCombinator (hgroup : RunsGroup d group group') (hs : s.IsSound)
    (hd : Text.byteLength s.stream.source < n + (d + 1)) (hn : n ≤ s.offset) (t : Token)
    (sofar : SelectorSoFar) :
    Reads n
      (do
        match ← compound group none with
        | some (c, stop) =>
          return ForInStep.yield (sofar.push (combinatorOf t) c stop)
        | none => Parser.failHere "")
      (do
        match ← compound group' none with
        | some (c, stop) =>
          return ForInStep.yield (sofar.push (combinatorOf t) c stop)
        | none => Parser.failHere "") s (SelectorTurn n (s.left + 1)) := by
  have hd' : Text.byteLength s.stream.source < s.offset + (d + 1) := by omega
  refine ((compound_none hgroup hs hd' (Nat.le_refl _)).lower hn).bind fun r s₁ h₁ hr => ?_
  obtain ⟨hpoised, hsome⟩ := hr
  cases r with
  | none => exact failHere h₁.isSound (Nat.le_trans hn hpoised.1)
  | some r =>
    refine pure h₁.isSound ⟨Poised.selectorInv (hpoised.mono hn hn) _, ?_⟩
    have hlt := h₁.left_lt (hsome (by simp))
    have hle := selectorMeasure_le (sofar.push (combinatorOf t) r.1 r.2) s₁
    show selectorMeasure (sofar.push (combinatorOf t) r.1 r.2) s₁ < s.left + 1
    omega

/-- A round may be bounded by more. -/
theorem SelectorTurn.mono {bound bound' : Nat} {r : ForInStep SelectorSoFar}
    (h : SelectorTurn n bound r s) (hle : bound ≤ bound') : SelectorTurn n bound' r s := by
  cases r with
  | done x => exact h
  | yield x => exact ⟨h.1, Nat.lt_of_lt_of_le h.2 hle⟩

theorem afterBlank (hgroup : RunsGroup d group group') (hs : s.IsSound)
    (hd : Text.byteLength s.stream.source < n + (d + 1)) (hn : n ≤ s.offset)
    (blank : Token) (sofar : SelectorSoFar) (hpending : sofar.pending = none) :
    Reads n (Parser.afterBlank group blank sofar) (Parser.afterBlank group' blank sofar) s
      (SelectorTurn n (s.left + 1)) := by
  unfold Parser.afterBlank
  refine (grab hs).bind fun t s₁ h₁ hgot => ?_
  have hle : s.offset ≤ s₁.offset := hgot.place_le_place
  have hleft : s₁.left ≤ s.left := h₁.left_le hle
  have hpoised : Poised n n s₁ := Poised.of_got hgot (Nat.le_refl n) hn
  have hd₁ : Text.byteLength s₁.stream.source < n + (d + 1) := by
    rw [h₁.source_eq]
    exact hd
  refine ite (fun _ => pure h₁.isSound hpoised) fun _ => ite (fun _ => ?_) fun _ => ?_
  · exact (afterCombinator hgroup h₁.isSound hd₁ hpoised.1 t sofar).weaken
      fun r s₂ h₂ hturn => hturn.mono (Nat.succ_le_succ hleft)
  · by_cases heof : t.kind = .eof
    · -- the end of the source is looked at next, and ends the selector
      rw [compound_eof heof, compound_eof heof]
      refine pure_bind (pure h₁.isSound ⟨Poised.selectorInv hpoised sofar, ?_⟩)
      have hcurrent : s₁.stream.current = t := by
        unfold Stream.current
        rw [hgot.current_eq]
        rfl
      unfold selectorMeasure
      rw [hpending, Option.getD_none, hcurrent, if_neg (by simp [goesOn, heof, combinatorKinds])]
      omega
    · have hleft₁ := h₁.left_lt (hgot.place_lt_place heof)
      have hd₁' : Text.byteLength s₁.stream.source < s₁.offset + (d + 1) := by omega
      have hpoised₁ : Poised s.offset s₁.offset s₁ := ⟨Nat.le_refl _, hgot.heldFrom (Nat.le_refl _)⟩
      refine ((compound_some hgroup h₁.isSound hd₁' hle hpoised₁ t).lower hpoised.1).bind
        fun r s₂ h₂ hleaves => ?_
      have hleft₂ := h₂.left_le hleaves.1.1
      have hpoised₂ : Poised n n s₂ := hleaves.1.mono hn hpoised.1
      have hmeasure : ∀ sofar, selectorMeasure sofar s₂ < s.left + 1 := fun sofar => by
        have := selectorMeasure_le sofar s₂
        omega
      cases r with
      | none => exact pure h₂.isSound ⟨Poised.selectorInv hpoised₂ sofar, hmeasure sofar⟩
      | some r => exact pure h₂.isSound ⟨Poised.selectorInv hpoised₂ _, hmeasure _⟩

theorem selectorStep (hgroup : RunsGroup d group group') (hs : s.IsSound)
    (hd : Text.byteLength s.stream.source < n + (d + 1)) (sofar : SelectorSoFar)
    (h : SelectorInv n sofar s) :
    Reads n (Parser.selectorStep group sofar) (Parser.selectorStep group' sofar) s
      (SelectorTurn n (selectorMeasure sofar s)) := by
  obtain ⟨hn, hread⟩ := h
  -- only a token that lets the selector go on leads to another round
  have hlooked : ∀ t, sofar.pending.getD s.stream.current = t → goesOn t = true →
      selectorMeasure sofar s = s.left + 1 := by
    rintro t rfl hgoes
    unfold selectorMeasure
    rw [if_pos hgoes]
  -- and a combinator that is still to be used is such a token
  have hheld : ∀ t, sofar.pending.getD s.stream.current = t →
      combinatorKinds.contains t.kind = false → s.stream.HeldFrom n := by
    rintro t rfl hkind
    rcases hread with hheld | ⟨t, ht, hcombinator⟩
    · exact hheld
    · rw [ht, Option.getD_some, hcombinator] at hkind
      exact absurd hkind (by simp)
  unfold Parser.selectorStep
  extract_lets bare ends rest ends' rest'
  have hrest : ∀ t, sofar.pending.getD s.stream.current = t →
      Reads n (rest t) (rest' t) s (SelectorTurn n (selectorMeasure sofar s)) := by
    intro t ht
    refine ite (fun hcombinator => ?_) fun hcombinator => ?_
    · rw [hlooked t ht (by unfold goesOn; rw [hcombinator]; rfl)]
      exact afterCombinator hgroup hs hd hn t _
    · refine ite (fun huvar => ?_) fun _ => pure_bind (ite (fun hblank => ?_) fun _ => ?_)
      · rw [hlooked t ht (by unfold goesOn; rw [huvar, Bool.or_true, Bool.true_or])]
        refine (Reads.next hs false true).bind fun t' s₁ h₁ hgot => ?_
        have hpoised : Poised n n s₁ := Poised.of_got hgot (Nat.le_refl n) hn
        have hd₁ : Text.byteLength s₁.stream.source < n + (d + 1) := by
          rw [h₁.source_eq]
          exact hd
        refine ite (fun _ => ?_) fun _ => pure h₁.isSound hpoised
        exact (afterBlank hgroup h₁.isSound hd₁ hpoised.1 t' _ rfl).weaken
          fun r s₂ h₂ hturn => hturn.mono (Nat.succ_le_succ (h₁.left_le hgot.place_le_place))
      · rw [hlooked t ht (by unfold goesOn; rw [hblank, Bool.or_true])]
        exact afterBlank hgroup hs hd hn t _ rfl
      · exact pure hs ⟨hn, hheld t ht (by simpa using hcombinator)⟩
  cases hpending : sofar.pending with
  | some t => exact pure_bind (hrest t (by rw [hpending]; rfl))
  | none => exact current (hrest _ (by rw [hpending]; rfl))

/-- **The rest of a selector.** -/
theorem selectorLoop (hgroup : RunsGroup d group group') (hs : s.IsSound)
    (hd : Text.byteLength s.stream.source < n + (d + 1)) (head : SelectorSoFar)
    (h : SelectorInv n head s) :
    Reads n (Parser.repeating head (Parser.selectorStep group))
      (Parser.repeating head (Parser.selectorStep group')) s fun _ => Poised n n := by
  have hmeasure := selectorMeasure_le head s
  refine repeating (SelectorInv n) selectorMeasure hs h (by omega) fun sofar s₁ h₁ hinv => ?_
  exact selectorStep hgroup h₁.isSound (by rw [h₁.source_eq]; exact hd) sofar hinv

/-- What the reading of a selector leaves. Without a first token
something was read, or the end of the source was met at once. -/
def AfterSelector (m n : Nat) (first : Option Token) (r : Option Selector) (s : State) : Prop :=
  Leaves m n r s ∧ (first = none → n < s.offset ∨ r = none ∧ s.stream.current.kind = .eof)

theorem selectorWith (hgroup : RunsGroup d group group') (hs : s.IsSound)
    (hd : Text.byteLength s.stream.source < n + (d + 1)) (hmn : m ≤ n) (hn : n ≤ s.offset)
    (first : Option Token) (hfirst : first ≠ none → s.stream.HeldFrom m) (relative : Bool) :
    Reads n (Parser.selectorWith group first relative) (Parser.selectorWith group' first relative) s
      (AfterSelector m n first) := by
  unfold Parser.selectorWith
  extract_lets selector selector'
  have hselector : ∀ (t : Token) {s₁ : State} {m n : Nat}, s₁.IsSound →
      Text.byteLength s₁.stream.source < n + (d + 1) → m ≤ n → Poised m n s₁ →
      Reads n (selector t) (selector' t) s₁ (Leaves m n) := by
    intro t s₁ m n hs₁ hd₁ hmn hpoised
    unfold selector selector'
    extract_lets rest rest'
    have hrest : ∀ head {s₂ : State}, Keeps s₁ s₂ → SelectorInv n head s₂ →
        Reads n (rest (some head)) (rest' (some head)) s₂ (Leaves m n) := by
      intro head s₂ h₂ hinv
      refine (selectorLoop hgroup h₂.isSound (by rw [h₂.source_eq]; exact hd₁) head hinv).bind
        fun sofar s₃ h₃ hpoised₃ => ?_
      exact slice (pure h₃.isSound ⟨hpoised₃.mono hmn (Nat.le_refl n), fun _ => hpoised₃.2⟩)
    refine ite (fun hcombinator => ?_) fun _ => ?_
    · refine pure_bind (hrest _ (Keeps.refl hs₁) ⟨hpoised.1, Or.inr ⟨t, rfl, ?_⟩⟩)
      exact (Bool.and_eq_true_iff.mp hcombinator).2
    · refine (compound_some hgroup hs₁ hd₁ hmn hpoised t).bind fun r s₂ h₂ hleaves => ?_
      cases r with
      | none => exact pure_bind (pure h₂.isSound ⟨hleaves.1, fun h => absurd rfl h⟩)
      | some r => exact pure_bind (hrest _ h₂ ⟨hleaves.1.1, Or.inl (hleaves.2 (by simp))⟩)
  cases first with
  | some t =>
    have hpoised : Poised m n s := ⟨hn, hfirst (by simp)⟩
    refine ite (fun _ => ?_) fun _ => pure_bind ?_
    · refine (grab hs).bind fun t s₁ h₁ hgot => ?_
      refine (hselector t h₁.isSound (by rw [h₁.source_eq]; exact hd) hmn
        (Poised.of_got hgot hmn hn)).weaken fun _ _ _ hleaves => ?_
      exact ⟨hleaves, fun h => by cases h⟩
    · exact (hselector t hs hd hmn hpoised).weaken fun _ _ _ hleaves =>
        ⟨hleaves, fun h => by cases h⟩
  | none =>
    refine (grab hs).bind fun t s₁ h₁ hgot => ?_
    by_cases heof : t.kind = .eof
    · have hcombinator : ¬(relative && combinatorKinds.contains t.kind) = true := by
        simp [heof, combinatorKinds]
      have hnone : selector t = Pure.pure none ∧ selector' t = Pure.pure none := by
        unfold selector selector'
        dsimp only
        rw [if_neg hcombinator, if_neg hcombinator, compound_eof heof, compound_eof heof]
        exact ⟨rfl, rfl⟩
      rw [hnone.1, hnone.2]
      have hcurrent : s₁.stream.current = t := by
        unfold Stream.current
        rw [hgot.current_eq]
        rfl
      exact pure h₁.isSound ⟨⟨Poised.of_got hgot hmn hn, fun h => absurd rfl h⟩, fun _ =>
        Or.inr ⟨rfl, by rw [hcurrent]; exact heof⟩⟩
    · have hlt : s.offset < s₁.offset := hgot.place_lt_place heof
      have hd₁ : Text.byteLength s₁.stream.source < n + 1 + (d + 1) := by
        rw [h₁.source_eq]
        omega
      have hpoised : Poised n (n + 1) s₁ := ⟨by omega, hgot.heldFrom hn⟩
      refine ((hselector t h₁.isSound hd₁ (Nat.le_succ n) hpoised).lower
        (Nat.le_succ n)).weaken fun _ s₂ _ hleaves => ?_
      exact ⟨⟨hleaves.1.mono hmn (Nat.le_succ n), fun _ => hleaves.1.2⟩,
        fun _ => Or.inl hleaves.1.1⟩

/-! ## Lists of selectors -/

/-- **Between two selectors of a list**: only the first can have a token
that was read before. -/
def GroupInv (m n : Nat) (sofar : GroupSoFar) (s : State) : Prop :=
  n ≤ s.offset ∧ (sofar.first ≠ none → s.stream.HeldFrom m ∧ sofar.selectors = [])

/-- What bounds the rounds in which a list is read. -/
def groupMeasure (sofar : GroupSoFar) (s : State) : Nat :=
  s.left + if sofar.first = none then 0 else 1

/-- What a round in which a list is read leaves. -/
abbrev GroupTurn (m n bound : Nat) : ForInStep GroupSoFar → State → Prop :=
  Turn (GroupInv m n) groupMeasure bound
    fun sofar s => Poised m n s ∧ (sofar.selectors ≠ [] → s.stream.HeldFrom n)

/-- **One more selector of a list.** A token is read for each but the
first, whose first token may have been read before. -/
theorem groupStep (hgroup : RunsGroup d group group') (hs : s.IsSound)
    (hd : Text.byteLength s.stream.source < n + (d + 1)) (hmn : m ≤ n) (relative lax : Bool)
    (sofar : GroupSoFar) (h : GroupInv m n sofar s) :
    Reads n (Parser.groupStep group relative lax sofar) (Parser.groupStep group' relative lax sofar)
      s (GroupTurn m n (groupMeasure sofar s)) := by
  obtain ⟨hn, hfirst⟩ := h
  have hd' : Text.byteLength s.stream.source < s.offset + (d + 1) := by omega
  have hselector : Reads n (Parser.selectorWith group sofar.first relative)
      (Parser.selectorWith group' sofar.first relative) s fun r s₁ =>
        Poised m s.offset s₁ ∧ (r.toList ++ sofar.selectors ≠ [] → s₁.stream.HeldFrom n) ∧
          (sofar.first = none → s.offset < s₁.offset ∨
            r = none ∧ s₁.stream.current.kind = .eof) := by
    cases hcase : sofar.first with
    | none =>
      refine ((selectorWith hgroup hs hd' (Nat.le_refl _) (Nat.le_refl _) none
        (fun h => absurd rfl h) relative).lower hn).weaken fun r s₁ _ hafter => ?_
      obtain ⟨⟨hpoised, -⟩, hread⟩ := hafter
      exact ⟨hpoised.mono (Nat.le_trans hmn hn) (Nat.le_refl _), fun _ => hpoised.2.mono hn, hread⟩
    | some t =>
      obtain ⟨hheld, hempty⟩ := hfirst (by rw [hcase]; simp)
      refine ((selectorWith hgroup hs hd' (Nat.le_trans hmn hn) (Nat.le_refl _) (some t)
        (fun _ => hheld) relative).lower hn).weaken fun r s₁ _ hafter => ?_
      obtain ⟨⟨hpoised, hfound⟩, -⟩ := hafter
      refine ⟨hpoised, fun hne => (hfound ?_).mono hn, fun h => by cases h⟩
      rintro rfl
      rw [hempty] at hne
      exact hne rfl
  unfold Parser.groupStep
  refine hselector.bind fun r s₁ h₁ hafter => ?_
  obtain ⟨hpoised, hfound, hread⟩ := hafter
  have hpoised₁ : Poised m n s₁ := hpoised.mono (Nat.le_refl m) hn
  refine ite (fun hnone => ?_) fun _ => current ?_
  · refine pure h₁.isSound ⟨hpoised₁, fun hne => hfound fun hnil => ?_⟩
    exact hne (List.append_eq_nil_iff.mp hnil).2
  extract_lets rest
  -- after the end of the source there is no comma, so a next round comes after something was read
  have hleft : s₁.stream.current.kind ≠ .eof → s₁.left < groupMeasure sofar s := by
    intro heof
    unfold groupMeasure
    split_ifs with hnone
    · rcases hread hnone with hlt | ⟨-, hcurrent⟩
      · exact h₁.left_lt hlt
      · exact absurd hcurrent heof
    · have hle := h₁.left_le hpoised.1
      omega
  refine ite (fun huvar => ?_) fun _ => pure_bind (ite (fun hcomma => ?_) fun _ => ?_)
  · refine (grab h₁.isSound).bind fun t s₂ h₂ hgot => ?_
    have hpoised₂ : Poised m n s₂ := Poised.of_got hgot hmn hpoised₁.1
    refine ite (fun _ => ?_) fun _ =>
      pure h₂.isSound ⟨hpoised₂, fun _ => hgot.heldFrom hpoised₁.1⟩
    refine pure h₂.isSound ⟨⟨hpoised₂.1, fun h => absurd rfl h⟩, ?_⟩
    have hlt := hleft (by rw [beq_iff_eq.mp huvar]; decide)
    exact Nat.lt_of_le_of_lt (h₂.left_le hgot.place_le_place) hlt
  · refine pure h₁.isSound ⟨⟨hpoised₁.1, fun h => absurd rfl h⟩, ?_⟩
    exact hleft (by rw [beq_iff_eq.mp hcomma]; decide)
  · exact pure h₁.isSound ⟨hpoised₁, hfound⟩

theorem groupTo {k d d' : Nat} (hd : k ≤ d) (hd' : k ≤ d') :
    RunsGroup k (Parser.groupTo d) (Parser.groupTo d') := by
  induction k generalizing d d' with
  | zero =>
    intro first relative lax s m n hs hd hmn hn hfirst
    have hle := hs.offset_le
    omega
  | succ k ih =>
    obtain ⟨d, rfl⟩ : ∃ i, d = i + 1 := ⟨d - 1, by omega⟩
    obtain ⟨d', rfl⟩ : ∃ i, d' = i + 1 := ⟨d' - 1, by omega⟩
    have hinner := ih (Nat.le_of_succ_le_succ hd) (Nat.le_of_succ_le_succ hd')
    intro first relative lax s m n hs hd hmn hn hfirst
    unfold Parser.groupTo
    refine (repeating (GroupInv m n) groupMeasure hs ⟨hn, fun h => ⟨hfirst h, rfl⟩⟩
      (by unfold groupMeasure; split <;> omega) fun c s₁ h₁ hI => groupStep hinner h₁.isSound
        (by rw [h₁.source_eq]; exact hd) hmn relative lax c hI).bind
      fun sofar s₁ h₁ hlist => ?_
    refine ite (fun _ => ?_) fun _ => pure h₁.isSound ⟨hlist.1, fun hsome => hlist.2 ?_⟩
    · exact (failHere (Q := fun _ _ => False) h₁.isSound hlist.1.1).bind fun _ _ _ h => h.elim
    · intro hempty
      rw [hempty] at hsome
      exact hsome rfl

theorem selectorGroup : RunsGroup d Parser.selectorGroup Parser.selectorGroup := by
  intro first relative lax s m n hs _ hmn hn hfirst
  refine budget (fun b hb => ?_) hs
  have hbound : Text.byteLength s.stream.source < n + s.bound := by
    unfold Parse.State.bound
    omega
  exact groupTo hs.budget hb first relative lax s m n hs hbound hmn hn hfirst

end Reads

/-- **A selector from the next token on.** -/
theorem Runs.selector {d : Nat} (relative : Bool) :
    Runs d false true (Parser.selector none relative) (Parser.selector none relative) := by
  intro s n hs _ hstands
  refine Reads.budget (fun b hb => ?_) hs
  have hbound : Text.byteLength s.stream.source < n + (s.bound + 1) := by
    unfold Parse.State.bound
    omega
  refine (Reads.selectorWith (Reads.groupTo hs.budget hb) hs hbound (Nat.le_refl n) hstands.1 none
    (fun h => absurd rfl h) relative).weaken fun _ _ _ hselector => ?_
  exact stands_true hselector.1.1.1 hselector.1.1.2

end Stylesheet
