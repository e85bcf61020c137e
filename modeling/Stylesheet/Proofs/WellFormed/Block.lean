import Stylesheet.Proofs.WellFormed.AtRule

/-!
# Rules and blocks keep a state laid

A style rule that stands in no other one is taken from an earlier parse, if
there is one with its text, and what is reported then was moved to where the
rule starts. Otherwise the rule is open in the store while it is read: it
starts with its first selector, so all that is reported in it lies behind
that, and when it is filed, its text goes from there to its last brace.

The loop over the items of a block ends with the token that closes the
block, and what was reported lies before the end of that token.
-/

namespace Stylesheet

open Parse (State)
open Parse.State (Stands stands_false stands_true)

variable {source : List Char} {starts : List Location} {s : State}

/-- **How a rule was opened in the store**, where some blocks were open
before: without a store it was not. -/
inductive Opens (starts : List Location) (loc : Location) : Option Nat → List Location → Prop
  /-- Nothing was opened. -/
  | nothing : Opens starts loc none starts
  /-- The rule is the innermost open block. -/
  | innermost : Opens starts loc (some (starts.length + 1)) (loc :: starts)

/-- The blocks that are open start no later than the rule. -/
theorem Opens.start_le {starts' : List Location} {loc : Location} {id : Option Nat}
    (h : Opens starts loc id starts') (hle : ∀ x ∈ starts, x.offset ≤ loc.offset) :
    ∀ x ∈ starts', x.offset ≤ loc.offset := by
  cases h with
  | nothing => exact hle
  | innermost => exact List.forall_mem_cons.mpr ⟨Nat.le_refl _, hle⟩

/-- **Another store** that is laid with some blocks open. -/
theorem Parse.State.IsLaid.withStore {starts' : List Location} {m : Nat}
    {store : Option BlockStore} (h : s.IsLaid source starts m)
    (hstarts : ∀ x ∈ starts', x.offset ≤ m)
    (hstore : ∀ x, store = some x → x.IsLaid source starts' m) :
    { s with store := store }.IsLaid source starts' m :=
  ⟨h.isSound, h.source_eq, hstarts, h.deferred, ⟨h.holds.events, hstore⟩⟩

namespace Lays

variable {source : List Char} {starts starts' : List Location} {m n : Nat} {s : State}
  {loc stop : Location} {id : Option Nat}

/-! ## The store -/

/-- **What is remembered lies where it is asked for.** -/
theorem remembered (hs : s.IsLaid source starts m) (hloc : IsPlace source loc) :
    Lays source starts n (Parser.remembered loc) s fun r s' =>
      s'.IsLaid source starts m ∧ s'.stream = s.stream ∧ ∀ events stop, r = some (events, stop) →
        IsPlace source stop ∧ loc.offset ≤ stop.offset ∧
          ∀ e ∈ events, e.Lies source loc.offset stop.offset := by
  unfold Parser.remembered
  refine modifyGet ?_
  cases hstore : s.store with
  | none => exact ⟨hs, rfl, fun _ _ h => (by cases h)⟩
  | some store =>
    have hfound := (hs.holds.store store hstore).findBlock hloc
    rw [← hs.source_eq] at hfound
    rw [← hs.source_eq]
    refine ⟨hs.source_eq ▸ hs.withStore hs.start_le fun x hx => ?_, rfl, hfound.2⟩
    obtain rfl := Option.some.inj hx
    exact hs.source_eq ▸ hfound.1

/-- **A rule is opened** at a place that reading has come to. -/
theorem openInStore (hs : s.IsLaid source starts m) (hloc : IsPlace source loc)
    (hle : loc.offset ≤ m) :
    Lays source starts n (Parser.openInStore loc) s fun id s' =>
      (∃ starts', Opens starts loc id starts' ∧ s'.IsLaid source starts' m) ∧
        s'.stream = s.stream := by
  unfold Parser.openInStore
  refine modifyGet ?_
  cases hstore : s.store with
  | none => exact ⟨⟨starts, .nothing, hs⟩, rfl⟩
  | some store =>
    have hlaid := hs.holds.store store hstore
    have hid : (store.openBlock loc).1 = starts.length + 1 := by
      rw [← hlaid.starts_eq, List.length_map]
      rfl
    refine ⟨⟨loc :: starts, ?_, hs.withStore (List.forall_mem_cons.mpr ⟨hle, hs.start_le⟩)
      fun x hx => ?_⟩, rfl⟩
    · dsimp only
      rw [hid]
      exact .innermost
    · obtain rfl := Option.some.inj hx
      exact hlaid.openBlock hloc hle

/-- **A change to the store that takes the rule out of it.** -/
theorem leaveStore {f : BlockStore → BlockStore} (hs : s.IsLaid source (loc :: starts) m)
    (hf : ∀ store : BlockStore, store.IsLaid source (loc :: starts) m →
      (f store).IsLaid source starts m) :
    { s with store := s.store.map f }.IsLaid source starts m := by
  refine hs.withStore (fun x hx => hs.start_le x (List.mem_cons_of_mem _ hx)) fun x hx => ?_
  obtain ⟨store, hstore, rfl⟩ := Option.map_eq_some_iff.mp hx
  exact hf store (hs.holds.store store hstore)

theorem dropFromStore (hopens : Opens starts loc id starts') (hs : s.IsLaid source starts' m) :
    Lays source starts n (Parser.dropFromStore id) s fun _ s' =>
      s'.IsLaid source starts m ∧ s'.stream = s.stream := by
  cases hopens with
  | nothing => exact pure ⟨hs, rfl⟩
  | innermost => exact modifyGet ⟨leaveStore hs fun _ h => h.cancelBlock, rfl⟩

/-- **A rule is filed** with the text up to a place. -/
theorem fileInStore (hopens : Opens starts loc id starts') (hs : s.IsLaid source starts' m)
    (hstop : IsPlace source stop) (hle : m ≤ stop.offset) :
    Lays source starts n (Parser.fileInStore stop id) s fun _ s' =>
      s'.IsLaid source starts m ∧ s'.stream = s.stream := by
  cases hopens with
  | nothing => exact pure ⟨hs, rfl⟩
  | innermost =>
    refine modifyGet ⟨leaveStore hs fun _ h => ?_, rfl⟩
    rw [hs.source_eq]
    exact h.closeBlock hstop hle

/-- **The events of an earlier parse** are reported again. -/
theorem replay {events : List Event} (hs : s.IsLaid source starts m)
    (he : ∀ e ∈ events, e.IsWellFormed source) :
    Lays source starts n (Parser.replay events) s fun _ s' =>
      s'.IsLaid source starts m ∧ s'.stream = s.stream := by
  refine modifyGet ⟨⟨⟨hs.isSound.stream, hs.isSound.budget, rfl, hs.isSound.deferred⟩, hs.source_eq,
    hs.start_le, hs.deferred, fun e hmem => ?_, hs.holds.store⟩, rfl⟩
  rcases List.mem_append.mp hmem with hmem | hmem
  · exact he e (List.mem_reverse.mp hmem)
  · exact hs.holds.events e hmem

end Lays

/-! ## Style rules -/

/-- **The selectors of a rule** stand one after the other in what was read. -/
def HeadRead (source : List Char) (n : Nat) (r : Option (List Selector)) (s : State) : Prop :=
  ∀ list, r = some list → list ≠ [] ∧
    (list.Pairwise fun x y => x.stop.offset ≤ y.location.offset) ∧
    ∃ m, n ≤ m ∧ Stands true m s ∧ ∀ x ∈ list, x.Lies source true n m

theorem Ensures.ruleHead (hs : s.IsSound) (hsource : s.stream.source = source) {t : Token}
    (ht : t.IsCut source) (hstop : t.stop.offset ≤ s.offset)
    (hheld : s.stream.HeldFrom t.location.offset) :
    Ensures (Parser.ruleHead t) s (HeadRead source t.location.offset) := by
  unfold Parser.ruleHead
  have hstarts : StartsList source t.location.offset (some t) s := by
    refine ⟨Nat.le_trans ht.location_le_stop hstop, ?_⟩
    rintro _ ⟨⟩
    exact ⟨ht, Nat.le_refl _, hstop, hheld⟩
  refine (selectorGroup (some t) true false s _ hs hsource hstarts).bind fun r s₁ h₁ hr => ?_
  cases r with
  | none =>
    exact (unget h₁.isSound).bind fun _ s₂ h₂ _ => pure h₂.isSound fun _ h => (by cases h)
  | some selectors =>
    refine pure h₁.isSound ?_
    rintro _ ⟨⟩
    obtain ⟨hne, hordered, m, hm, hpoised, hall⟩ := hr.2 selectors rfl
    exact ⟨hne, hordered, m, hm, stands_true hpoised.1 hpoised.2, hall⟩

namespace Lays

variable {source : List Char} {starts : List Location} {m n k : Nat} {s : State} {t : Token}
  {block : BlockParser}

theorem ruleBody (hblock : LaysBlock source block) (hs : s.IsLaid source starts k)
    (hstands : Stands true k s) (hstarts : ∀ x ∈ starts, x.offset ≤ n) {selectors : List Selector}
    (hne : selectors ≠ []) (hordered : selectors.Pairwise fun x y => x.stop.offset ≤ y.location.offset)
    (hall : ∀ x ∈ selectors, x.Lies source true n k) (t : Token) (storable : Bool) :
    Lays source starts k (Parser.ruleBody block t storable selectors) s
      fun _ s' => s'.Reaches source starts false k := by
  obtain ⟨first, others, rfl⟩ := List.exists_cons_of_ne_nil hne
  have hfirst := hall first List.mem_cons_self
  have hspans : Spans source first.text first.location first.stop := by
    cases hfirst.isWellFormed with
    | intro _ _ hspans => exact hspans
  unfold Parser.ruleBody
  extract_lets start shape filed rest
  have hstart : start = first.location := rfl
  have hle : start.offset ≤ k := hstart ▸ Nat.le_trans hspans.start_le_stop hfirst.le_stop
  have hbefore : ∀ x ∈ starts, x.offset ≤ start.offset := fun x hx =>
    Nat.le_trans (hstarts x hx) hfirst.start_le
  -- the first selector comes first
  have hlies : ∀ loc, Event.Lies source start.offset k ⟨.start (.rule (first :: others)), loc⟩ := by
    intro loc x hx
    have hx : x ∈ first :: others := hx
    refine ⟨(hall x hx).isWellFormed, ?_, (hall x hx).le_stop⟩
    rcases List.mem_cons.mp hx with rfl | hx
    · exact Nat.le_refl _
    · exact Nat.le_trans hspans.start_le_stop ((List.pairwise_cons.mp hordered).1 x hx)
  have hrest : ∀ {id starts'} {s₁ : State}, Opens starts start id starts' →
      s₁.IsLaid source starts' k → Stands true k s₁ →
      Lays source starts k (rest id) s₁ fun _ s' => s'.Reaches source starts false k := by
    intro id starts' s₁ hopens hs₁ hstands₁
    have hfail : ∀ (e : Diagnostic) (braceSeen : Bool) {s₂ : State},
        s₂.Reaches source starts' false k → Lays source starts k (do
          Parser.dropFromStore id
          Parser.ruleFailed e braceSeen) s₂ fun _ s' => s'.Reaches source starts false k := by
      intro e braceSeen s₂ ⟨k', hk', hs₂, hstands₂⟩
      refine (dropFromStore hopens hs₂).bind fun _ s₃ ⟨hs₃, hstream⟩ => ?_
      exact (Walks.of_runs (Quiet.ruleFailed e braceSeen) fun _ =>
        Runs.ruleFailed e braceSeen).lays (hs₃.reaches (hstands₂.of_stream hstream) hk')
    have hchecked : Lays source starts k (Parser.checkNesting (first :: others) t.location) s₁
        fun _ s' => s'.Reaches source starts' true k := by
      refine state_bind (ite (fun _ => ?_) fun _ => pure (hs₁.reaches hstands₁ (Nat.le_refl k)))
      exact (fire hs₁ (Event.isBehind_of_nil rfl)).weaken fun _ _ hs₂ =>
        hs₂.1.reaches (hstands₁.of_stream hs₂.2) (Nat.le_refl k)
    refine hchecked.bind fun _ s₂ hs₂ => ?_
    refine ((Walks.mustReuse _).lays hs₂).attempt.bind fun brace s₃ hs₃ => ?_
    cases brace with
    | error e => exact hfail e false (hs₃.2 e rfl)
    | ok brace =>
      obtain ⟨k', hk', hs₃, hstands₃⟩ := hs₃.1 brace rfl
      have hbehind : shape.IsBehind source starts' k' := by
        rintro _ ⟨⟩ loc
        exact ((hlies loc).isBehind (hopens.start_le hbefore)).mono hk'
      refine (hblock start shape starts' s₃ k' hs₃ hstands₃.release hbehind).attempt.bind
        fun r s₄ hs₄ => ?_
      cases r with
      | error e => exact hfail e true ((hs₄.2 e rfl).lower hk')
      | ok stop =>
        obtain ⟨k₂, hk₂, hs₄, hstands₄, hplace, hclose⟩ := hs₄.1 stop rfl
        have hend : ∀ {p : Parser Unit}, Lays source starts k p s₄ (fun _ s' =>
            s'.IsLaid source starts k₂ ∧ s'.stream = s₄.stream) →
            Lays source starts k (p >>= fun _ => Pure.pure RuleOutcome.parsed) s₄
              fun _ s' => s'.Reaches source starts false k := fun hp =>
          hp.bind fun _ s₅ ⟨hs₅, hstream⟩ =>
            pure (hs₅.reaches (hstands₄.of_stream hstream) (Nat.le_trans hk' hk₂))
        exact ite (fun _ => hend (dropFromStore hopens hs₄)) fun _ =>
          hend (fileInStore hopens hs₄ hplace hclose)
  refine ite (fun _ => ?_) fun _ => pure_bind (hrest .nothing hs hstands)
  refine (openInStore hs (hstart ▸ hspans.start_isPlace) hle).bind
    fun id s₁ ⟨⟨starts', hopens, hs₁⟩, hstream⟩ => ?_
  exact hrest hopens hs₁ (hstands.of_stream hstream)

theorem styleRule (hblock : LaysBlock source block)
    (hs : s.IsLaid source starts t.location.offset) (ht : t.IsCut source)
    (hstop : t.stop.offset ≤ s.offset) (hheld : s.stream.HeldFrom t.location.offset) :
    Lays source starts t.location.offset (Parser.styleRule block t) s
      fun _ s' => s'.Reaches source starts false t.location.offset := by
  have hle := ht.location_le_stop
  unfold Parser.styleRule
  refine state_bind ?_
  extract_lets storable rest
  have hrest : ∀ {s₁ : State}, s₁.IsLaid source starts t.location.offset → s₁.stream = s.stream →
      Lays source starts t.location.offset (rest none) s₁
        fun _ s' => s'.Reaches source starts false t.location.offset := by
    intro s₁ hs₁ hstream
    have ht₁ : t.IsCut s₁.alone.stream.source := by
      rw [show s₁.alone.stream.source = source from hs₁.source_eq]
      exact ht
    have hstop₁ : t.stop.offset ≤ s₁.alone.offset := by
      rw [show s₁.alone.offset = s.offset from Parse.State.offset_of_stream hstream]
      exact hstop
    have hheld₁ : s₁.alone.stream.HeldFrom t.location.offset := by
      rw [show s₁.alone.stream = s.stream from hstream]
      exact hheld
    have hread := ((Reads.ruleHead hs₁.isSound ht₁ hstop₁ hheld₁).lower hle).and_ensures
      (Ensures.ruleHead hs₁.isSound hs₁.source_eq ht hstop₁ hheld₁)
    refine (of_quiet (Quiet.composes.ruleHead t).attempt hs₁ (Reads.attempt
      (Q := fun r s' => t.location.offset ≤ s'.offset ∧ ∀ x, r = .ok x →
        HeadRead source t.location.offset x s')
      (hread.weaken fun x _ _ hx => ⟨hx.1.1, fun y hy => Except.ok.inj hy ▸ hx.2⟩)
      fun _ _ _ hle => ⟨hle, fun _ h => by cases h⟩)).bind fun r s₂ ⟨hs₂, hle₂, hhead⟩ => ?_
    have hreaches := hs₂.reaches (stands_false hle₂) (Nat.le_refl t.location.offset)
    cases r with
    | error e =>
      exact (Walks.of_runs (Quiet.ruleFailed e false) fun _ =>
        Runs.ruleFailed e false).lays hreaches
    | ok head =>
      cases head with
      | none => exact pure hreaches
      | some selectors =>
        obtain ⟨hne, hordered, k, hk, hstands, hall⟩ := hhead _ rfl selectors rfl
        exact ((ruleBody hblock (hs₂.mono hk) hstands hs₂.start_le hne hordered hall t
          storable).lower hk).weaken fun _ _ hs₃ => hs₃.lower hk
  refine ite (fun _ => ?_) fun _ => pure_bind (hrest hs rfl)
  refine (remembered hs ht.location_isPlace).bind fun r s₁ ⟨hs₁, hstream, hfound⟩ => ?_
  cases r with
  | none => exact hrest hs₁ hstream
  | some found =>
    obtain ⟨events, stop⟩ := found
    obtain ⟨hplace, hstart, hlies⟩ := hfound events stop rfl
    refine (replay (hs₁.mono hstart) fun e he => (hlies e he).isWellFormed).bind
      fun _ s₂ ⟨hs₂, _⟩ => ?_
    have hplace₂ : IsPlace s₂.alone.stream.source stop := by
      rw [show s₂.alone.stream.source = source from hs₂.source_eq]
      exact hplace
    refine ((of_quiet (Quiet.composes.seek stop) hs₂
      (Reads.seek hs₂.isSound hplace₂)).lower hstart).bind fun _ s₃ ⟨hs₃, hsought⟩ => ?_
    exact pure (hs₃.reaches (stands_false (Nat.le_of_eq hsought.1.symm)) hstart)

/-! ## Items -/

theorem blockItem (hblock : LaysBlock source block)
    (hs : s.IsLaid source starts t.location.offset) (ht : t.IsCut source)
    (hstop : t.stop.offset ≤ s.offset) (hheld : s.stream.HeldFrom t.location.offset)
    (shape : BlockShape) :
    Lays source starts t.location.offset (Parser.blockItem block shape t) s
      fun _ s' => s'.Reaches source starts false t.location.offset := by
  have hle := ht.location_le_stop
  have hm : t.location.offset ≤ s.offset := Nat.le_trans hle hstop
  unfold Parser.blockItem
  refine state_bind ?_
  extract_lets inStyle found rest
  have hrest : ∀ (declared : Bool) {s₁ : State}, s₁.IsLaid source starts t.location.offset →
      t.stop.offset ≤ s₁.offset → (declared = false → s₁.stream.HeldFrom t.location.offset) →
      Lays source starts t.location.offset (rest declared) s₁
        fun _ s' => s'.Reaches source starts false t.location.offset := by
    intro declared s₁ hs₁ hstop₁ hback
    have hreaches := hs₁.reaches (stands_false (Nat.le_trans hle hstop₁))
      (Nat.le_refl t.location.offset)
    refine ite (fun _ => pure hreaches) fun hnot => ite (fun _ => ?_) fun _ => throw hreaches
    exact (styleRule hblock hs₁ ht hstop₁ (hback (by simpa using hnot))).bind
      fun _ _ hs₂ => pure hs₂
  have hitem : ∀ {p : Parser Unit}, Lays source starts t.location.offset p s
      (fun _ s' => s'.Reaches source starts false t.location.offset) →
      Lays source starts t.location.offset (p >>= found) s
        fun _ s' => s'.Reaches source starts false t.location.offset := fun hp =>
    hp.bind fun _ _ hs₁ => pure hs₁
  refine ite (fun _ => ite (fun _ => hitem ?_) fun _ => hitem ?_) fun _ => options_bind ?_
  · exact Walks.marginRule hblock t starts s _ hs (stands_false hm)
  · exact atRule hblock hs hm ht hle false
  · refine ite (fun _ => ?_) fun _ => pure_bind (hrest false hs hstop fun _ => hheld)
    have ht' : t.IsCut s.alone.stream.source := by
      rw [show s.alone.stream.source = source from hs.source_eq]
      exact ht
    exact (of_quiet (Quiet.declaration _ t) hs ((Reads.declaration hs.isSound hstop _ ht'
      (Nat.le_refl _)).lower hle)).bind fun declared s₁ ⟨hs₁, hstands, hback⟩ =>
        hrest declared hs₁ hstands.1 hback

/-- **What a round of the loop leaves**: the end of the block, or another
round. -/
def BlockTurn (source : List Char) (starts : List Location) (n : Nat) (sofar : Parser.BlockSoFar)
    (t : Token) : ForInStep Parser.BlockSoFar → State → Prop
  | .done sofar', s => ∃ close, sofar'.close = some close ∧ s.Closes source starts n close
  | .yield sofar', s =>
    s.Reaches source starts false n ∧ Reads.BlockRound sofar t n (.yield sofar') s

theorem blockItemStep (hblock : LaysBlock source block)
    (hs : s.IsLaid source starts t.location.offset) (ht : t.IsCut source)
    (hstop : t.stop.offset ≤ s.offset) (hheld : s.stream.HeldFrom t.location.offset)
    (hn : n ≤ t.location.offset) (hkind : t.kind.StartsItem) (shape : BlockShape)
    (sofar : Parser.BlockSoFar) :
    Lays source starts n (Parser.blockItemStep block shape sofar t) s
      (BlockTurn source starts n sofar t) := by
  have hreaches := hs.reaches (stands_false (Nat.le_trans ht.location_le_stop hstop)) hn
  unfold Parser.blockItemStep
  extract_lets key rest
  refine ite (fun _ => throw_bind hreaches) fun hkey => ?_
  have hfresh : sofar.previous ≠ some t.itemKey := fun hsame => hkey (beq_iff_eq.mpr hsame)
  have hyield : ∀ {sofar' : Parser.BlockSoFar} {s' : State}, sofar'.previous = some t.itemKey →
      s'.Reaches source starts false t.location.offset →
      BlockTurn source starts n sofar t (.yield sofar') s' := fun hprevious hs' =>
    ⟨hs'.lower hn, hkind.1, hs'.at_offset.1, Or.inr ⟨hkind, hfresh, hprevious⟩⟩
  refine (blockItem hblock hs ht hstop hheld shape).attempt.bind fun r s₁ hs₁ => ?_
  cases r with
  | ok content => exact pure (hyield rfl (hs₁.1 content rfl))
  | error e =>
    have hs₁ := hs₁.2 e rfl
    refine options_bind (ite (fun _ => throw_bind (hs₁.lower hn)) fun _ => ?_)
    exact ((Walks.of_runs (Quiet.recover e false) fun _ => Runs.recover e false).lays hs₁).lower hn
      |>.bind fun _ _ hs₂ => pure (hyield rfl hs₂)

/-- **One more item of a block**, or its end. -/
theorem blockStep (hblock : LaysBlock source block) (hs : s.IsLaid source starts m)
    (hn : n ≤ m) (hm : m ≤ s.offset) (shape : BlockShape) (toEnd : Bool)
    (sofar : Parser.BlockSoFar) :
    Lays source starts n (Parser.blockStep block shape toEnd sofar) s
      (BlockTurn source starts n sofar (s.stream.get true false).1) := by
  set t := (s.stream.get true false).1
  unfold Parser.blockStep
  have hgot := hs.isSound.stream.get true false
  refine ((of_quiet (Quiet.composes.next true false) hs (Reads.ask
    (Q := fun u s' => u = t ∧ Stream.Got s.stream t s'.stream) hs.isSound hgot.isSound
    hgot.source_eq ⟨rfl, hgot⟩)).lower hn).bind fun u s₁ ⟨hs₁, hu⟩ => ?_
  obtain ⟨rfl, hgot₁⟩ := hu
  have hlocation : m ≤ t.location.offset := Nat.le_trans hm hgot₁.place_le
  have hstop : t.stop.offset ≤ s₁.offset := hgot₁.stop_le
  have hcut : t.IsCut source := hs.source_eq ▸ hgot₁.isCut
  have hle := hcut.location_le_stop
  have hm₁ : m ≤ s₁.offset := by omega
  have hreaches := hs₁.reaches (stands_false hm₁) hn
  have hdone : ∀ {sofar' : Parser.BlockSoFar}, sofar'.close = some t →
      Lays source starts n (return .done sofar') s₁ (BlockTurn source starts n sofar t) :=
    fun hclose => pure ⟨t, hclose, m, hn, hs₁, stands_false hm₁, hcut.stop_isPlace, by omega⟩
  -- a token that the loop deals with by itself
  have hloop : ∀ {sofar' : Parser.BlockSoFar}, t.kind = .semicolon ∨ t.kind = .uvar →
      sofar'.previous = sofar.previous →
      Lays source starts n (return .yield sofar') s₁ (BlockTurn source starts n sofar t) := by
    intro sofar' hkind hprevious
    have heof : t.kind ≠ .eof := by rcases hkind with hkind | hkind <;> rw [hkind] <;> decide
    have hnone : ¬t.kind.StartsItem := fun hitem => hkind.elim hitem.2.1 hitem.2.2
    exact pure ⟨hreaches, heof, Nat.le_trans hle hstop, Or.inl ⟨hnone, hstop, hprevious⟩⟩
  split
  · exact ite (fun _ => hdone rfl) fun _ => throw hreaches
  · next hkind => exact hloop (Or.inl hkind) rfl
  · next hkind => exact hloop (Or.inr hkind) rfl
  · next heof hsemicolon huvar =>
    refine ite (fun _ => hdone rfl) fun _ => ?_
    exact blockItemStep hblock (hs₁.mono hlocation) hcut hstop hgot₁.heldFrom_location
      (Nat.le_trans hn hlocation) ⟨heof, hsemicolon, huvar⟩ shape sofar

theorem blockItems (hblock : LaysBlock source block) (hs : s.IsLaid source starts m)
    (hm : m ≤ s.offset) (shape : BlockShape) (toEnd : Bool) :
    Lays source starts m (Parser.blockItems block shape toEnd) s
      fun stop s' => s'.Closes source starts m stop.close := by
  unfold Parser.blockItems
  extract_lets styles
  have hdepth : ∀ g : Nat → Nat → Nat, Walks source false false
      (Parser.update fun s => { s with depth := g s.depth 1, inStyle := g s.inStyle styles }) :=
    fun _ => Walks.adjust (fun _ _ => rfl) (fun _ _ => rfl) fun _ => ⟨rfl, rfl, rfl, rfl, rfl, rfl⟩
  refine ((hdepth (· + ·)).lays (hs.reaches (stands_false hm) (Nat.le_refl m))).bind
    fun _ s₁ hs₁ => ?_
  -- every round starts with a token of its own, so the loop is not cut short
  have hloop : Lays source starts m
      (Parser.repeating ⟨false, none, none⟩ (Parser.blockStep block shape toEnd)) s₁
      fun sofar s' => ∃ close, sofar.close = some close ∧ s'.Closes source starts m close := by
    refine repeating (fun sofar s' => s'.Reaches source starts false m ∧ Reads.BlockInv m sofar s')
      Reads.blockMeasure hs₁.at_offset.2
      ⟨hs₁, hs₁.at_offset.1, fun _ hkey => by cases hkey⟩
      (by unfold Reads.blockMeasure; split <;> omega) fun sofar s₂ ⟨hs₂, hI⟩ => ?_
    obtain ⟨hm₂, hs₂⟩ := hs₂.at_offset
    refine (blockStep hblock hs₂ hm₂ (Nat.le_refl _) shape toEnd sofar).weaken fun r s₃ hr => ?_
    cases r with
    | done sofar' => exact hr
    | yield sofar' =>
      have hs₃ := hr.1.at_offset.2
      have hturn := Reads.BlockRound.turn (hs₃.source_eq.trans hs₂.source_eq.symm)
        hs₃.isSound.offset_le (hs₂.isSound.stream.get true false) hI hr.2
      exact ⟨⟨hr.1, hturn.1⟩, hturn.2⟩
  refine hloop.attempt.bind fun r s₂ hs₂ => ?_
  cases r with
  | error e => exact ((hdepth (· - ·)).lays (hs₂.2 e rfl)).bind fun _ _ hs₃ => throw_bind hs₃
  | ok sofar =>
    obtain ⟨close, hclose, k, hk, hs₂, hstands, hend⟩ := hs₂.1 sofar rfl
    have hafter : Lays source starts m (Parser.update fun s =>
        { s with depth := s.depth - 1, inStyle := s.inStyle - styles }) s₂
        fun _ s' => s'.IsLaid source starts k ∧ s'.stream = s₂.stream :=
      adjust (fun _ _ => rfl) (fun _ _ => rfl) (fun _ => ⟨rfl, rfl, rfl, rfl, rfl, rfl⟩) hs₂ hk
    refine hafter.bind fun _ s₃ ⟨hs₃, hstream⟩ => pure_bind (current_bind (pure ?_))
    have hcloses : s₃.Closes source starts m close := ⟨k, hk, hs₃, hstands.of_stream hstream, hend⟩
    rw [hclose]
    exact hcloses

end Lays

/-! ## Blocks -/

theorem LaysBlock.blockWith {block : BlockParser} (hblock : LaysBlock source block) :
    LaysBlock source (Parser.blockWith block) := by
  intro start shape starts s m hs hstands hbehind
  unfold Parser.blockWith
  extract_lets items started
  have hitems : ∀ {s₁ : State}, s₁.Reaches source starts false m →
      Lays source starts m (items ()) s₁ fun stop s' => s'.Closes source starts m stop.close := by
    intro s₁ ⟨k, hk, hs₁, hstands₁⟩
    refine ((Lays.blockItems hblock hs₁ hstands₁.1 shape false).lower hk).bind
      fun stop s₂ ⟨k', hk', hs₂, hstands₂, hend⟩ => ?_
    have hk₂ := Nat.le_trans hk hk'
    extract_lets done
    cases hevent : shape.event with
    | none => exact Lays.pure ⟨k', hk₂, hs₂, hstands₂, hend⟩
    | some kind =>
      have hstop : Event.IsBehind source starts k' ⟨.stop kind stop.empty, stop.close.location⟩ :=
        (hbehind kind hevent stop.close.location).mono hk₂
      exact (Lays.fire hs₂ hstop).bind fun _ s₃ ⟨hs₃, hstream⟩ =>
        Lays.pure ⟨k', hk₂, hs₃, hstands₂.of_stream hstream, hend⟩
  have hstarted : ∀ {s₁ : State}, s₁.Reaches source starts false m →
      Lays source starts m (started ()) s₁ fun stop s' => s'.Closes source starts m stop.close := by
    intro s₁ hs₁
    unfold started
    cases hevent : shape.event with
    | none => exact hitems hs₁
    | some kind =>
      obtain ⟨k, hk, hs₁, hstands₁⟩ := hs₁
      exact (Lays.fire hs₁ ((hbehind kind hevent start).mono hk)).bind fun _ s₂ ⟨hs₂, hstream⟩ =>
        hitems (hs₂.reaches (hstands₁.of_stream hstream) hk)
  have hreaches := hs.reaches hstands (Nat.le_refl m)
  refine Lays.ite (fun _ => hstarted hreaches) fun _ => ?_
  exact ((Walks.mustMatchSmart _).discard.lays hreaches).bind fun _ _ hs₁ => hstarted hs₁.release

theorem LaysBlock.blockTo (depth : Nat) : LaysBlock source (Parser.blockTo depth) := by
  induction depth with
  | zero => exact fun _ _ _ _ m hs hstands _ => Lays.throw (hs.reaches hstands (Nat.le_refl m))
  | succ depth ih => exact ih.blockWith

theorem LaysBlock.block : LaysBlock source Parser.block :=
  fun start shape starts s m hs hstands hbehind =>
    Lays.budget_bind (blockTo s.budget start shape starts s m hs hstands hbehind)

/-! ## Whole texts -/

theorem Lays.topRule {t : Token} (hs : s.IsLaid source starts t.location.offset)
    (ht : t.IsCut source) (hstop : t.stop.offset ≤ s.offset)
    (hheld : s.stream.HeldFrom t.location.offset) :
    Lays source starts t.location.offset (Parser.topRule t) s
      fun _ s' => s'.Reaches source starts false t.location.offset := by
  have hm := Nat.le_trans ht.location_le_stop hstop
  have hreaches := hs.reaches (stands_false hm) (Nat.le_refl t.location.offset)
  unfold Parser.topRule
  split
  · exact atRule LaysBlock.block hs hm ht ht.location_le_stop true
  · exact pure hreaches
  · refine (styleRule LaysBlock.block hs ht hstop hheld).bind fun outcome s₁ hs₁ => ?_
    cases outcome with
    | notRule =>
      exact (Walks.grab.release.bind fun t =>
        Walks.ite (fun _ => Walks.pure _) fun _ => Walks.throw _).lays hs₁
    | parsed => exact pure hs₁
    | failed => exact pure hs₁

namespace Walks

variable {source : List Char}

theorem sheetStep : Walks source false false (Parser.sheetStep ()) := by
  intro starts s m hs hstands
  unfold Parser.sheetStep
  refine (Lays.of_quiet Quiet.composes.grab hs (Reads.grab hs.isSound)).bind
    fun t s₁ ⟨hs₁, hgot⟩ => ?_
  have hcut : t.IsCut source := hs.source_eq ▸ hgot.isCut
  have hm : m ≤ t.location.offset := Nat.le_trans hstands.1 hgot.place_le
  have hs₁ := hs₁.mono hm
  have hstop : t.stop.offset ≤ s₁.offset := hgot.stop_le
  refine Lays.ite (fun _ => Lays.pure (hs₁.reaches
    (stands_false (Nat.le_trans hcut.location_le_stop hstop)) hm)) fun _ => ?_
  refine (Lays.topRule hs₁ hcut hstop hgot.heldFrom_location).attempt.bind fun r s₂ hs₂ => ?_
  cases r with
  | ok _ => exact Lays.pure ((hs₂.1 () rfl).lower hm)
  | error e =>
    refine (options_bind fun _ => ite (fun _ => throw_bind e) fun _ => ?_).lays
      ((hs₂.2 e rfl).lower hm)
    exact (of_runs (Quiet.report e) fun _ => Runs.report e).bind fun _ => pure _

end Walks

end Stylesheet
