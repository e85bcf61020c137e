import Stylesheet.Parse.Block
import Stylesheet.Proofs.Reads.AtRule

/-!
# Reading blocks reads on

An item of a block is read from its first token, which was handed out
before. It may turn out that there is no item, and then the token is
taken back and comes up again. The loop remembers the token for that
case: a token that starts at the same offset is the same token, and then
the block is given up. So of any two rounds of the loop one reads on.
-/

/-!
## Reading style rules reads on

A style rule is read from its first token, which was handed out before.
If there turns out to be no rule, that token is the one that is taken
back, so that reading goes on no earlier than where it starts. In every
other case something was read, and reading goes on after it.
-/

namespace Stylesheet

open Parse (State)
open Parse.State (Keeps Stands stands_false stands_true)

namespace Reads

variable {d n : Nat} {s : State} {t : Token} {block block' : BlockParser}

/-! ## The store -/

theorem remembered (hs : s.IsSound) (loc : Location) :
    Reads n (Parser.remembered loc) (Parser.remembered loc) s
      fun r s' => r = none ∧ s' = s := by
  unfold Parser.remembered
  have hstore := hs.store
  refine modifyGet (Q := fun r s' => r = none ∧ s' = s) (?_ : _ = (none, s)) (fun b => ?_)
    (Keeps.refl hs) ⟨rfl, rfl⟩
  · rw [hstore]
  · dsimp only [Parse.State.withBudget]
    rw [hstore]

theorem openInStore (hs : s.IsSound) (start : Location) :
    Reads n (Parser.openInStore start) (Parser.openInStore start) s
      fun r s' => r = none ∧ s' = s := by
  unfold Parser.openInStore
  have hstore := hs.store
  refine modifyGet (Q := fun r s' => r = none ∧ s' = s) (?_ : _ = (none, s)) (fun b => ?_)
    (Keeps.refl hs) ⟨rfl, rfl⟩
  · rw [hstore]
  · dsimp only [Parse.State.withBudget]
    rw [hstore]

/-! ## The parts of a rule -/

/-- **What the selectors of a rule leave.** If there are none, the token
after them was taken back. -/
def Headed (t : Token) (r : Option (List Selector)) (s : State) : Prop :=
  t.location.offset ≤ s.offset ∧ (r ≠ none → Stands true t.stop.offset s)

theorem ruleHead (hs : s.IsSound) (ht : t.IsCut s.stream.source) (hstop : t.stop.offset ≤ s.offset)
    (hheld : s.stream.HeldFrom t.location.offset) :
    Reads t.stop.offset (Parser.ruleHead t) (Parser.ruleHead t) s (Headed t) := by
  unfold Parser.ruleHead
  refine (selectorGroup (d := Text.byteLength s.stream.source + 1) (some t) true false s
    t.location.offset t.stop.offset hs (by omega) ht.location_le_stop hstop fun _ => hheld).bind
    fun r s₁ h₁ hleaves => ?_
  have hlocation : t.location.offset ≤ s₁.offset :=
    Nat.le_trans ht.location_le_stop hleaves.1.1
  cases r with
  | some selectors =>
    exact pure h₁.isSound ⟨hlocation, fun hne => stands_true hleaves.1.1 (hleaves.2 (by simp))⟩
  | none =>
    refine (unget h₁.isSound hleaves.1.1 hlocation hleaves.1.2).bind fun _ s₂ h₂ hback => ?_
    exact pure h₂.isSound ⟨hback.1, fun hne => absurd rfl hne⟩

end Reads

namespace Runs

variable {d : Nat} {a : Bool} {block block' : BlockParser}

theorem checkNesting (selectors : List Selector) (loc : Location) :
    Runs d a a (Parser.checkNesting selectors loc) (Parser.checkNesting selectors loc) := by
  intro s n hs hd hstands
  refine Reads.state fun _ => Reads.ite (fun _ => ?_) fun _ => Reads.pure hs hstands
  exact fire ⟨EventKind.noConfusion, EventKind.noConfusion⟩ s n hs hd hstands

theorem ruleFailed (e : Diagnostic) (braceSeen : Bool) :
    Runs d a false (Parser.ruleFailed e braceSeen) (Parser.ruleFailed e braceSeen) := by
  unfold Parser.ruleFailed
  refine options.bind fun _ => ite (fun _ => throw_bind e) fun _ => ?_
  exact (recover e braceSeen).bind fun _ => pure _

end Runs

namespace Reads

variable {d n : Nat} {s : State} {t : Token} {block block' : BlockParser}

/-- **What a style rule leaves**: unless there was none, something was
read. -/
def Ruled (m n : Nat) (outcome : RuleOutcome) (s : State) : Prop :=
  m ≤ s.offset ∧ (outcome ≠ .notRule → n ≤ s.offset)

theorem ruleBody (hblock : RunsBlock d block block') (hs : s.IsSound)
    (hd : Text.byteLength s.stream.source < n + d) (hstands : Stands true n s) (t : Token)
    (storable : Bool) (selectors : List Selector) :
    Reads n (Parser.ruleBody block t storable selectors)
      (Parser.ruleBody block' t storable selectors) s fun _ => Stands false n := by
  unfold Parser.ruleBody
  extract_lets start shape filed rest rest'
  have hrest : ∀ {s₁ : State}, Keeps s s₁ → Stands true n s₁ →
      Reads n (rest none) (rest' none) s₁ fun _ => Stands false n := by
    intro s₁ h₁ hstands₁
    have hd₁ : Text.byteLength s₁.stream.source < n + d := by
      rw [h₁.source_eq]
      exact hd
    refine (Runs.checkNesting selectors t.location).bind (fun _ => ?_) s₁ n h₁.isSound hd₁ hstands₁
    refine (Runs.mustReuse _).attempt.bind fun brace => ?_
    cases brace with
    | error e => exact Runs.pure_bind (Runs.ruleFailed e false)
    | ok brace =>
      refine (hblock start _).attempt.bind fun stop => ?_
      cases stop with
      | error e => exact Runs.pure_bind (Runs.ruleFailed e true)
      | ok stop =>
        exact Runs.ite (fun _ => Runs.pure_bind (Runs.pure _)) fun _ =>
          Runs.pure_bind (Runs.pure _)
  refine ite (fun _ => ?_) fun _ => pure_bind (hrest (Keeps.refl hs) hstands)
  refine (openInStore hs start).bind fun id s₁ h₁ hid => ?_
  obtain ⟨rfl, rfl⟩ := hid
  exact hrest h₁ hstands

theorem styleRule (hblock : RunsBlock d block block') (hs : s.IsSound)
    (ht : t.IsCut s.stream.source) (hstop : t.stop.offset ≤ s.offset)
    (hheld : s.stream.HeldFrom t.location.offset)
    (hd : Text.byteLength s.stream.source < t.stop.offset + d) :
    Reads t.stop.offset (Parser.styleRule block t) (Parser.styleRule block' t) s
      (Ruled t.location.offset t.stop.offset) := by
  have hread : ∀ {p p' : Parser RuleOutcome} {s₁ : State},
      Reads t.stop.offset p p' s₁ (fun _ => Stands false t.stop.offset) →
      Reads t.stop.offset p p' s₁ (Ruled t.location.offset t.stop.offset) := fun hp =>
    hp.weaken fun _ _ _ hstands =>
      ⟨Nat.le_trans ht.location_le_stop hstands.1, fun _ => hstands.1⟩
  unfold Parser.styleRule
  refine state fun _ => ?_
  extract_lets storable rest storable' rest'
  -- the rule is not found, and is read from its selectors on
  have hrest : Reads t.stop.offset (rest none) (rest' none) s
      (Ruled t.location.offset t.stop.offset) := by
    refine (attempt (Q := fun r s' => ∃ head, Headed t head s' ∧
        (r = .ok head ∨ t.stop.offset ≤ s'.offset ∧ ∃ e, r = .error e))
      ((ruleHead hs ht hstop hheld).weaken fun r s' _ hhead => ⟨r, hhead, Or.inl rfl⟩)
      fun e s' _ hn => ⟨none, ⟨Nat.le_trans ht.location_le_stop hn, fun h => absurd rfl h⟩,
        Or.inr ⟨hn, e, rfl⟩⟩).bind fun r s₁ h₁ hhead => ?_
    obtain ⟨head, hhead, rfl | ⟨hn, e, rfl⟩⟩ := hhead
    · cases head with
      | none => exact pure h₁.isSound ⟨hhead.1, fun hne => absurd rfl hne⟩
      | some selectors =>
        exact hread (ruleBody hblock h₁.isSound (by rw [h₁.source_eq]; exact hd)
          (hhead.2 (by simp)) t storable selectors)
    · exact hread (Runs.reads (fun _ => Runs.ruleFailed e false) h₁.isSound (stands_false hn))
  refine ite (fun _ => ?_) fun _ => pure_bind hrest
  refine (remembered hs t.location).bind fun r s₁ h₁ hr => ?_
  obtain ⟨rfl, rfl⟩ := hr
  exact hrest

end Reads

/-- **A kind of token that an item can start with**: the others are dealt
with by the loop. -/
def TokenKind.StartsItem (kind : TokenKind) : Prop :=
  kind ≠ .eof ∧ kind ≠ .semicolon ∧ kind ≠ .uvar

/-- What the loop remembers of the token that an item starts with. -/
def Token.itemKey (t : Token) : Nat × TokenKind := (t.location.offset, t.kind)

namespace Reads

variable {d n : Nat} {s : State} {t : Token} {block block' : BlockParser}

theorem blockItem (hblock : RunsBlock d block block') (hs : s.IsSound)
    (ht : t.IsCut s.stream.source) (hstop : t.stop.offset ≤ s.offset)
    (hheld : s.stream.HeldFrom t.location.offset)
    (hd : Text.byteLength s.stream.source < t.stop.offset + d) (shape : BlockShape) :
    Reads t.stop.offset (Parser.blockItem block shape t) (Parser.blockItem block' shape t) s
      fun _ s' => t.location.offset ≤ s'.offset := by
  unfold Parser.blockItem
  refine state fun _ => ?_
  extract_lets inStyle found rest inStyle' rest'
  have hrest : ∀ (declared : Bool) {s₁ : State}, Keeps s s₁ →
      Declared { scope := shape.scope } t t.stop.offset declared s₁ →
      Reads t.stop.offset (rest declared) (rest' declared) s₁
        fun _ s' => t.location.offset ≤ s'.offset := by
    rintro declared s₁ h₁ ⟨hstands, hback⟩
    refine ite (fun _ => ?_) fun hnot => ite (fun _ => ?_) fun _ => failAt h₁.isSound hstands.1
    · exact pure h₁.isSound (Nat.le_trans ht.location_le_stop hstands.1)
    · have hrule := styleRule hblock h₁.isSound (by rw [h₁.source_eq]; exact ht) hstands.1
        (hback (by simpa using hnot)) (by rw [h₁.source_eq]; exact hd)
      exact hrule.bind fun _ s₂ h₂ hruled => pure h₂.isSound hruled.1
  have hitem : ∀ {p p' : Parser Unit},
      Reads t.stop.offset p p' s (fun _ => Stands false t.stop.offset) →
      Reads t.stop.offset (p >>= found) (p' >>= found) s
        fun _ s' => t.location.offset ≤ s'.offset := fun hp =>
    hp.bind fun _ _ h₁ hstands =>
      pure h₁.isSound (Nat.le_trans ht.location_le_stop hstands.1)
  refine ite (fun _ => ite (fun _ => hitem ?_) fun _ => hitem ?_) fun _ => options ?_
  · exact Runs.marginRule hblock t s _ hs hd (stands_false hstop)
  · exact atRule hblock hs hd hstop ht (Nat.le_refl _) false
  · refine ite (fun _ => ?_) fun _ => ?_
    · exact (declaration hs hstop _ ht (Nat.le_refl _)).bind fun declared s₁ h₁ hdeclared =>
        hrest declared h₁ hdeclared
    · exact pure_bind (hrest false (Keeps.refl hs) ⟨stands_false hstop, fun _ => hheld⟩)

/-! ## The loop -/

/-- **What a round of the loop leaves** that starts with a token: either
the token starts no item and was read, or it starts one, which is not the
one before, and is remembered. -/
def BlockRound (sofar : Parser.BlockSoFar) (t : Token) (n : Nat) :
    ForInStep Parser.BlockSoFar → State → Prop
  | .done _, s => n ≤ s.offset
  | .yield sofar', s =>
    t.kind ≠ .eof ∧ t.location.offset ≤ s.offset ∧
      (¬t.kind.StartsItem ∧ t.stop.offset ≤ s.offset ∧ sofar'.previous = sofar.previous ∨
        t.kind.StartsItem ∧ sofar.previous ≠ some t.itemKey ∧ sofar'.previous = some t.itemKey)

theorem blockItemStep (hblock : RunsBlock d block block') (hs : s.IsSound)
    (ht : t.IsCut s.stream.source) (hstop : t.stop.offset ≤ s.offset)
    (hheld : s.stream.HeldFrom t.location.offset)
    (hd : Text.byteLength s.stream.source < t.stop.offset + d) (hn : n ≤ t.location.offset)
    (hkind : t.kind.StartsItem) (shape : BlockShape) (sofar : Parser.BlockSoFar) :
    Reads n (Parser.blockItemStep block shape sofar t) (Parser.blockItemStep block' shape sofar t) s
      (BlockRound sofar t n) := by
  have hlocation := ht.location_le_stop
  unfold Parser.blockItemStep
  extract_lets key rest rest'
  refine ite (fun _ => failAt_bind hs (by omega)) fun hkey => ?_
  have hfresh : sofar.previous ≠ some t.itemKey := by
    intro hsame
    exact hkey (beq_iff_eq.mpr hsame)
  refine (attempt (Q := fun _ s' => t.location.offset ≤ s'.offset)
    (blockItem hblock hs ht hstop hheld hd shape) fun _ _ _ hn' => Nat.le_trans hlocation hn').bind
    fun r s₁ h₁ hle => ?_
  cases r with
  | ok content => exact pure h₁.isSound ⟨hkind.1, hle, Or.inr ⟨hkind, hfresh, rfl⟩⟩
  | error e =>
    refine options (ite (fun _ => ?_) fun _ => ?_)
    · exact (throw (Q := fun _ _ => False) h₁.isSound (Nat.le_trans hn hle)).bind
        fun _ _ _ h => h.elim
    · refine ((Runs.reads (fun _ => Runs.recover e false) h₁.isSound
        (stands_false hle)).lower hn).bind fun _ s₂ h₂ hstands => ?_
      exact pure h₂.isSound ⟨hkind.1, hstands.1, Or.inr ⟨hkind, hfresh, rfl⟩⟩

theorem blockStep (hblock : RunsBlock d block block') (hs : s.IsSound)
    (hd : Text.byteLength s.stream.source < n + (d + 1)) (hn : n ≤ s.offset) (shape : BlockShape)
    (toEnd : Bool) (sofar : Parser.BlockSoFar) :
    Reads n (Parser.blockStep block shape toEnd sofar) (Parser.blockStep block' shape toEnd sofar) s
      (BlockRound sofar (s.stream.get true false).1 n) := by
  set t := (s.stream.get true false).1
  unfold Parser.blockStep
  have hgot := hs.stream.get true false
  refine (ask (Q := fun u s' => u = t ∧ Stream.Got s.stream t s'.stream) hs hgot.isSound
    hgot.source_eq ⟨rfl, hgot⟩).bind fun u s₁ h₁ hu => ?_
  obtain ⟨rfl, hgot₁⟩ := hu
  have hlocation : n ≤ t.location.offset := Nat.le_trans hn hgot₁.place_le
  have hstop : t.stop.offset ≤ s₁.offset := hgot₁.stop_le
  have hle := hgot₁.isCut.location_le_stop
  have hn₁ : n ≤ s₁.offset := by omega
  -- a token that the loop deals with by itself
  have hloop : ∀ {sofar' : Parser.BlockSoFar}, t.kind = .semicolon ∨ t.kind = .uvar →
      sofar'.previous = sofar.previous →
      Reads n (return .yield sofar') (return .yield sofar') s₁ (BlockRound sofar t n) := by
    intro sofar' hkind hprevious
    have heof : t.kind ≠ .eof := by rcases hkind with hkind | hkind <;> rw [hkind] <;> decide
    have hnone : ¬t.kind.StartsItem := fun hitem => hkind.elim hitem.2.1 hitem.2.2
    exact pure h₁.isSound ⟨heof, by omega, Or.inl ⟨hnone, hstop, hprevious⟩⟩
  split
  · exact ite (fun _ => pure h₁.isSound hn₁) fun _ => failAt h₁.isSound hn₁
  · next hkind => exact hloop (Or.inl hkind) rfl
  · next hkind => exact hloop (Or.inr hkind) rfl
  · next heof hsemicolon huvar =>
    refine ite (fun _ => pure h₁.isSound hn₁) fun _ => ?_
    have hlt := hgot₁.isCut.location_lt_stop heof
    exact blockItemStep hblock h₁.isSound (by rw [h₁.source_eq]; exact hgot₁.isCut) hstop
      hgot₁.heldFrom_location (by rw [h₁.source_eq]; omega) hlocation ⟨heof, hsemicolon, huvar⟩
      shape sofar

/-- **Between two rounds**: what is remembered is the start of an item,
and reading has not gone back before it. -/
def BlockInv (n : Nat) (sofar : Parser.BlockSoFar) (s : State) : Prop :=
  n ≤ s.offset ∧ ∀ key, sofar.previous = some key →
    ∃ t : Token, t.IsCut s.stream.source ∧ t.kind.StartsItem ∧ key = t.itemKey ∧
      t.location.offset ≤ s.offset

/-- What bounds the rounds of the loop. -/
def blockMeasure (sofar : Parser.BlockSoFar) (s : State) : Nat :=
  s.left + if sofar.previous.map (·.1) = some s.offset then 0 else 1

/-- **A round that leads to another one starts with a new token**: one
that starts where the last item does is the same token again. -/
theorem BlockRound.place_lt {sofar sofar' : Parser.BlockSoFar} {st : Stream} {s' : State}
    (hgot : Stream.Got s.stream t st) (hI : BlockInv n sofar s)
    (hround : BlockRound sofar t n (.yield sofar') s')
    (hsame : sofar.previous.map (·.1) = some s.offset) : s.offset < t.location.offset := by
  obtain ⟨key, hkey, hoffset⟩ := Option.map_eq_some_iff.mp hsame
  obtain ⟨u, hcut, hitem, rfl, -⟩ := hI.2 key hkey
  refine Nat.lt_of_le_of_ne hgot.place_le fun heq => ?_
  obtain rfl := hcut.eq_of_offset hgot.isCut (hoffset.trans heq)
  rcases hround.2.2 with ⟨hnone, -, -⟩ | ⟨-, hfresh, -⟩
  · exact hnone hitem
  · exact hfresh hkey

/-- **A round leads to another one at most as often as there is something
to read.** -/
theorem BlockRound.turn {sofar sofar' : Parser.BlockSoFar} {st : Stream} {s' : State}
    (hsource : s'.stream.source = s.stream.source)
    (hend : s'.offset ≤ Text.byteLength s'.stream.source) (hgot : Stream.Got s.stream t st)
    (hI : BlockInv n sofar s) (hround : BlockRound sofar t n (.yield sofar') s') :
    BlockInv n sofar' s' ∧ blockMeasure sofar' s' < blockMeasure sofar s := by
  have hplace : s.offset ≤ t.location.offset := hgot.place_le
  have hgap : s.offset + 1 ≤ t.location.offset +
      if sofar.previous.map (·.1) = some s.offset then 0 else 1 := by
    split_ifs with hsame
    · exact BlockRound.place_lt hgot hI hround hsame
    · omega
  obtain ⟨hn, hprevious⟩ := hI
  obtain ⟨heof, hle, hcase⟩ := hround
  have hstop := hgot.isCut.location_lt_stop heof
  rw [hsource] at hend
  unfold BlockInv blockMeasure Parse.State.left
  rw [hsource]
  rcases hcase with ⟨-, hread, heq⟩ | ⟨hitem, -, heq⟩
  · refine ⟨⟨by omega, fun key hkey => ?_⟩, ?_⟩
    · obtain ⟨u, hcut, hu, hkey, hoffset⟩ := hprevious key (heq ▸ hkey)
      exact ⟨u, hcut, hu, hkey, by omega⟩
    · split_ifs at hgap ⊢ <;> omega
  · refine ⟨⟨by omega, fun key hkey => ?_⟩, ?_⟩
    · rw [heq] at hkey
      exact ⟨t, hgot.isCut, hitem, (Option.some.inj hkey).symm, hle⟩
    · -- unless the token was taken back, reading has moved on beyond its start
      have hmoved : t.location.offset +
          (if sofar'.previous.map (·.1) = some s'.offset then 0 else 1) ≤ s'.offset := by
        split_ifs with hback
        · exact hle
        · refine Nat.lt_of_le_of_ne hle fun hsame => hback ?_
          rw [heq, ← hsame]
          rfl
      omega

/-- **The loop over the items of a block** is never cut short: it ends
with its last round, and what holds after that holds after the loop. -/
theorem blockLoop (hblock : RunsBlock d block block') (hs : s.IsSound)
    (hd : Text.byteLength s.stream.source < n + (d + 1)) (hn : n ≤ s.offset) (shape : BlockShape)
    (toEnd : Bool) {Q : Parser.BlockSoFar → State → Prop}
    (hdone : ∀ sofar sofar' s₁ s₂, Keeps s s₁ →
      Parser.blockStep block shape toEnd sofar s₁ = (.ok (.done sofar'), s₂) → n ≤ s₂.offset →
      Q sofar' s₂) :
    Reads n (Parser.repeating ⟨false, none, none⟩ (Parser.blockStep block shape toEnd))
      (Parser.repeating ⟨false, none, none⟩ (Parser.blockStep block' shape toEnd)) s Q := by
  refine repeating (BlockInv n) blockMeasure hs ⟨hn, fun _ hkey => by cases hkey⟩
    (by unfold blockMeasure; split <;> omega) fun sofar s₁ h₁ hI => ?_
  have hstep := blockStep hblock h₁.isSound (by rw [h₁.source_eq]; exact hd) hI.1 shape toEnd sofar
  refine ⟨hstep.alike, hstep.keeps, hstep.error, fun r hr => ?_⟩
  have hround := hstep.ok r hr
  cases r with
  | done sofar' => exact hdone sofar sofar' s₁ _ h₁ (Prod.ext hr rfl) hround
  | yield sofar' =>
    exact BlockRound.turn hstep.keeps.source_eq hstep.keeps.isSound.offset_le
      (h₁.isSound.stream.get true false) hI hround

end Reads

/-! ## Blocks -/

namespace Runs

variable {d : Nat} {block block' : BlockParser}

theorem blockItems (hblock : RunsBlock d block block') (shape : BlockShape) (toEnd : Bool) :
    Runs (d + 1) false false (Parser.blockItems block shape toEnd)
      (Parser.blockItems block' shape toEnd) := by
  have hloop : Runs (d + 1) false false
      (Parser.repeating ⟨false, none, none⟩ (Parser.blockStep block shape toEnd))
      (Parser.repeating ⟨false, none, none⟩ (Parser.blockStep block' shape toEnd)) :=
    fun s n hs hd hstands => Reads.blockLoop hblock hs hd hstands.1 shape toEnd
      fun _ _ _ _ _ _ hn => stands_false hn
  unfold Parser.blockItems
  extract_lets styles
  have hdepth : ∀ g : Nat → Nat → Nat, Runs (d + 1) false false
      (Parser.update fun s => { s with depth := g s.depth 1, inStyle := g s.inStyle styles })
      (Parser.update fun s => { s with depth := g s.depth 1, inStyle := g s.inStyle styles }) :=
    fun _ => adjust (fun _ _ => rfl) fun _ => ⟨rfl, rfl, rfl, rfl, rfl, rfl⟩
  refine (hdepth (· + ·)).bind fun _ => hloop.attempt.bind fun result => ?_
  refine (hdepth (· - ·)).bind fun _ => (ofExcept result).bind fun sofar => ?_
  exact current.bind fun _ => pure _

theorem blockWith (hblock : RunsBlock d block block') :
    RunsBlock (d + 1) (Parser.blockWith block) (Parser.blockWith block') := by
  intro start shape
  unfold Parser.blockWith
  extract_lets items started items' started'
  have hitems : Runs (d + 1) false false (items ()) (items' ()) := by
    refine (blockItems hblock shape false).bind fun stop => ?_
    extract_lets done
    cases shape.event with
    | none => exact pure stop
    | some kind =>
      exact (fire ⟨EventKind.noConfusion, EventKind.noConfusion⟩).bind fun _ => pure stop
  have hstarted : Runs (d + 1) false false (started ()) (started' ()) := by
    unfold started started'
    cases shape.event with
    | none => exact hitems
    | some kind =>
      exact (fire ⟨EventKind.noConfusion, EventKind.noConfusion⟩).bind fun _ => hitems
  refine ite (fun _ => hstarted) fun _ => ?_
  exact (mustMatchSmart _).discard.release.bind fun _ => hstarted

theorem blockTo {k d d' : Nat} (hd : k ≤ d) (hd' : k ≤ d') :
    RunsBlock k (Parser.blockTo d) (Parser.blockTo d') := by
  induction k generalizing d d' with
  | zero =>
    intro start shape s n hs hd hstands
    have hle := hs.offset_le
    have hn := hstands.1
    omega
  | succ k ih =>
    obtain ⟨d, rfl⟩ : ∃ i, d = i + 1 := ⟨d - 1, by omega⟩
    obtain ⟨d', rfl⟩ : ∃ i, d' = i + 1 := ⟨d' - 1, by omega⟩
    exact blockWith (ih (Nat.le_of_succ_le_succ hd) (Nat.le_of_succ_le_succ hd'))

/-- **Blocks nested to any depth** read on, though they may be cut
short. -/
theorem blockTo_self (d depth : Nat) :
    RunsBlock d (Parser.blockTo depth) (Parser.blockTo depth) := by
  induction depth with
  | zero => exact fun _ _ => throw _
  | succ depth ih => exact fun start shape => (blockWith ih start shape).mono (Nat.le_succ d)

end Runs

theorem Runs.block {d : Nat} : RunsBlock d Parser.block Parser.block := by
  intro start shape s n hs _ hstands
  refine Reads.budget (fun b hb => ?_) hs
  have hbound : Text.byteLength s.stream.source < n + s.bound := by
    unfold Parse.State.bound
    omega
  exact blockTo hs.budget hb start shape s n hs hbound hstands

end Stylesheet
