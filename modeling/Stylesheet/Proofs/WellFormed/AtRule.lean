import Stylesheet.Proofs.WellFormed.Laid

/-!
# At-rules keep a state laid

Selectors are reported in two places outside of style rules: a test of
`@supports` reports the one that it reads, and the body of `@scope` is a
block with the selectors of its prelude. The rest of an at-rule reports
blocks and names.

The readers take the reader of blocks as an argument. It has to keep a
state laid whenever the selectors of the block may be reported
(`LaysBlock`), and the token that closes the block comes after what was
reported in it.
-/

namespace Stylesheet

open Parse (State)
open Parse.State (Stands stands_false stands_true)

/-! ## Conditions -/

/-- **A reader of tests that keeps states laid.** -/
def WalksTest (source : List Char) (test : Parser.TestParser) : Prop :=
  ∀ (kind : ConditionKind) (first : Option Token), Walks source false true (test kind first)

/-- A test of `@container` in brackets is quiet. -/
theorem Quiet.ownTest_some (test : Parser.TestParser) (kind : ConditionKind) (t bracket : Token) :
    Quiet (Parser.ownTest test kind t (some bracket)) := by
  unfold Parser.ownTest
  cases kind with
  | plain => exact pure _
  | supports => exact pure _
  | container =>
    refine Reading.ite (composes.unget.bind fun _ => ?_) (pure _)
    exact (composes.discard (composes.mediaFeature _)).bind fun _ =>
      composes.unget.bind fun _ => pure _

theorem Quiet.nameTest (t : Token) : Quiet (Parser.nameTest t) := by
  unfold Parser.nameTest
  refine (composes.matchSmart _).bind fun found => ?_
  cases found with
  | none => exact composes.closeTest
  | some after =>
    exact Reading.ite (composes.discard (declaration _ t)) <|
      (composes.discard (composes.expr _ _)).bind fun _ => composes.discard (composes.mustReuse _)

namespace Walks

variable {source : List Char} {a : Bool} {kind : ConditionKind} {test : Parser.TestParser}

theorem closeTest : Walks source a true Parser.closeTest := (mustMatchSmart _).discard

theorem function (t : Token) (raw : Bool) : Walks source false true (Parser.function t raw) :=
  of_runs (Quiet.composes.function t raw) fun _ => Runs.function t raw

theorem joinedStep (htest : WalksTest source test) (kind : ConditionKind)
    (sofar : Option Token × Keywords × Bool) :
    Walks source false true (Parser.joinedStep test kind sofar) := by
  unfold Parser.joinedStep
  exact (htest _ _).bind fun _ => matchKeyword_bind (fun _ => pure _) (pure _)

theorem conditionWith (htest : WalksTest source test) (kind : ConditionKind)
    (first : Option Token) : Walks source false true (Parser.conditionWith test kind first) := by
  unfold Parser.conditionWith
  extract_lets rest
  have hrest : ∀ t, Walks source false true (rest t) := fun t =>
    ite (fun _ => htest _ _) fun _ => (repeating fun sofar => joinedStep htest kind sofar).discard
  cases first with
  | some t => exact (hrest t).pure_bind
  | none => exact grab.bind fun t => (hrest t).of_false

/-- **The selector that is tested** is reported where it was read. -/
theorem selectorTest : Walks source false false (do
    match ← Parser.selector none false with
    | none => Parser.failHere "a selector"
    | some x =>
      Parser.unget
      Parser.fire (.supportsSelector x) x.location
      return true) := by
  intro starts s m hs hstands
  have hread := (Runs.reads (fun _ => Runs.selector false) hs.isSound hstands).and_ensures
    (Ensures.selector hs.isSound hs.source_eq ⟨hstands.1, fun _ h => (by cases h)⟩ false)
  refine (Lays.of_quiet (Quiet.composes.selector none false) hs hread).bind
    fun found s₁ ⟨hs₁, hstands₁, _, hfound⟩ => ?_
  cases found with
  | none => exact current_bind (fun _ => throw _) starts s₁ m hs₁ hstands₁
  | some x =>
    obtain ⟨hformed, hstart, hstop, hpoised⟩ := hfound x rfl
    have hreaches : s₁.Reaches source starts true x.stop.offset :=
      (hs₁.mono hstop).reaches (stands_true hpoised.1 hpoised.2) (Nat.le_refl _)
    refine ((unget.lays hreaches).lower hstop).bind fun _ s₂ hs₂ => ?_
    obtain ⟨k, hk, hs₂, hstands₂⟩ := hs₂
    have hlies : Event.Lies source m x.stop.offset ⟨.supportsSelector x, x.location⟩ := by
      intro y hy
      obtain rfl := List.mem_singleton.mp hy
      exact ⟨hformed, hstart, Nat.le_refl _⟩
    refine (Lays.fire hs₂ ((hlies.isBehind hs.start_le).mono hk)).bind fun _ s₃ hs₃ => ?_
    exact Lays.pure (hs₃.1.reaches (hstands₂.of_stream hs₃.2) (Nat.le_trans hstop hk))

theorem ownTest_none (htest : WalksTest source test) (kind : ConditionKind) (t : Token) :
    Walks source false false (Parser.ownTest test kind t none) := by
  unfold Parser.ownTest
  cases kind with
  | plain => exact pure _
  | supports => exact ite (fun _ => selectorTest) fun _ => pure _
  | container =>
    refine ite (fun _ => ?_) fun _ => pure _
    exact (conditionWith htest _ _).bind fun _ => unget.bind fun _ => pure _

theorem bracketTest (htest : WalksTest source test) (kind : ConditionKind) (bracket : Token) :
    Walks source false true (Parser.bracketTest test kind bracket) := by
  intro starts s m hs hstands
  unfold Parser.bracketTest
  refine (Lays.of_quiet (Quiet.composes.matchSmart _) hs
    (Reads.matchSmart hs.isSound _)).bind fun found s₁ ⟨hs₁, hfound⟩ => ?_
  cases found with
  | none => exact closeTest starts s₁ m hs₁ (Runs.stands_of_stays hstands hfound)
  | some t =>
    have hgot := hfound.1
    refine (Lays.of_quiet (Quiet.ownTest_some test kind t bracket) hs₁
      (Reads.ownTest_some hs₁.isSound (Runs.stands_of_got hstands.1 hgot) t bracket)).bind
      fun own s₂ ⟨hs₂, hown⟩ => ?_
    have hstands₂ : Stands false m s₂ := stands_false hown.1
    refine Lays.ite (fun _ => closeTest starts s₂ m hs₂ hstands₂) fun _ =>
      Lays.ite (fun _ => ?_) fun _ => Lays.ite (fun _ => ?_) fun _ => ?_
    · exact ((conditionWith htest _ _).bind fun _ => closeTest) starts s₂ m hs₂ hstands₂
    · exact ((htest _ _).bind fun _ => closeTest) starts s₂ m hs₂ hstands₂
    · have ht : t.IsCut s₂.stream.source := by
        rw [hs₂.source_eq, ← hs.source_eq]
        exact hgot.isCut
      have hstop : m ≤ t.stop.offset :=
        Nat.le_trans hstands.1 (Nat.le_trans hgot.place_le ht.location_le_stop)
      exact (Lays.of_quiet (Quiet.nameTest t) hs₂
        (Reads.nameTest hs₂.isSound hown.1 ht hstop)).weaken
        fun _ _ hs₃ => hs₃.1.reaches hs₃.2 (Nat.le_refl m)

theorem testTo (depth : Nat) : WalksTest source (Parser.testTo depth) := by
  induction depth with
  | zero => exact fun _ _ => throw _
  | succ depth ih =>
    intro kind first
    unfold Parser.testTo
    extract_lets rest
    have hrest : ∀ t, Walks source false true (rest t) := by
      intro t
      refine (ownTest_none ih kind t).bind fun own => ite (fun _ => closeTest) fun _ => ?_
      exact ite (fun _ => (function t false).discard) fun _ =>
        ite (fun _ => bracketTest ih kind t) fun _ => closeTest
    cases first with
    | some t => exact (hrest t).pure_bind
    | none => exact (mustMatchSmart _).bind fun t => (hrest t).of_false

theorem conditionInParens : WalksTest source Parser.conditionInParens := fun kind first =>
  budget_bind fun depth => testTo depth kind first

theorem condition (kind : ConditionKind) : Walks source false true (Parser.condition kind) :=
  budget_bind fun depth => conditionWith (testTo depth) kind none

end Walks

/-! ## Blocks -/

/-- **A block whose selectors may be reported** up to an offset while some
blocks are open. -/
def BlockShape.IsBehind (source : List Char) (starts : List Location) (m : Nat)
    (shape : BlockShape) : Prop :=
  ∀ kind, shape.event = some kind → ∀ loc, Event.IsBehind source starts m ⟨.start kind, loc⟩

/-- **Where a block was closed**: what was reported in it lies before the end
of the token that closes it. -/
def Parse.State.Closes (source : List Char) (starts : List Location) (n : Nat) (close : Token)
    (s : State) : Prop :=
  ∃ m, n ≤ m ∧ s.IsLaid source starts m ∧ Stands false m s ∧ IsPlace source close.stop ∧
    m ≤ close.stop.offset

theorem Parse.State.Closes.reaches {source : List Char} {starts : List Location} {n : Nat}
    {close : Token} {s : State} (h : s.Closes source starts n close) :
    s.Reaches source starts false n := by
  obtain ⟨m, hle, hs, hstands, -⟩ := h
  exact hs.reaches hstands hle

/-- **A reader of blocks that keeps states laid.** -/
def LaysBlock (source : List Char) (block : BlockParser) : Prop :=
  ∀ (start : Location) (shape : BlockShape) (starts : List Location) (s : State) (m : Nat),
    s.IsLaid source starts m → Stands false m s → shape.IsBehind source starts m →
    Lays source starts m (block start shape) s fun stop s' => s'.Closes source starts m stop.close

namespace Walks

variable {source : List Char} {a : Bool} {block : BlockParser}

/-- A block without selectors of its own. -/
theorem of_block (hblock : LaysBlock source block) (start : Location) {shape : BlockShape}
    (hnone : ∀ kind, shape.event = some kind → kind.selectors = []) :
    Walks source false false (block start shape) := fun starts s m hs hstands =>
  (hblock start shape starts s m hs hstands fun kind hkind _ =>
    Event.isBehind_of_nil (hnone kind hkind)).weaken fun _ _ hs' => hs'.reaches

/-- A block with an event that has no selectors. -/
theorem of_kind (hblock : LaysBlock source block) (start : Location) {kind : BlockKind}
    (hnone : kind.selectors = []) {shape : BlockShape} (hshape : shape.event = some kind) :
    Walks source false false (block start shape) :=
  of_block hblock start fun kind' hkind' => by
    obtain rfl := Option.some.inj (hshape.symm.trans hkind')
    exact hnone

theorem descriptorBlock (hblock : LaysBlock source block) (start : Token) (scope : String)
    {kind : BlockKind} (hnone : kind.selectors = []) (margins : Bool) :
    Walks source false false (Parser.descriptorBlock block start scope kind margins) :=
  (of_kind hblock _ hnone rfl).discard

theorem ruleBlock (hblock : LaysBlock source block) (start : Token) {kind : BlockKind}
    (hnone : kind.selectors = []) : Walks source false false (Parser.ruleBlock block start kind) :=
  (of_kind hblock _ hnone rfl).discard

theorem marginRule (hblock : LaysBlock source block) (start : Token) :
    Walks source false false (Parser.marginRule block start) :=
  descriptorBlock hblock start _ rfl _

/-! ## Statements -/

theorem ruleName : Walks source a true Parser.ruleName :=
  (mustMatchSmart _).bind fun _ => pure _

theorem mediaQueries (reuse : Bool) : Walks source reuse false (Parser.mediaQueries reuse) :=
  of_runs (Quiet.composes.mediaQueries _) fun _ => Runs.mediaQueries reuse

theorem charsetRule (start : Token) : Walks source a true (Parser.charsetRule start) := by
  unfold Parser.charsetRule
  refine (mustMatchSmart _).bind fun charset => (mustMatchSmart _).discard.bind fun _ => ?_
  exact fire rfl ⟨EventKind.noConfusion, EventKind.noConfusion⟩

theorem namespaceRule (start : Token) : Walks source a true (Parser.namespaceRule start) := by
  unfold Parser.namespaceRule
  refine (matchSmart _).bind fun name => (mustMatchSmart _).bind fun uri => ?_
  exact (mustMatchSmart _).discard.bind fun _ =>
    fire rfl ⟨EventKind.noConfusion, EventKind.noConfusion⟩

theorem importRule (start : Token) : Walks source false true (Parser.importRule start) := by
  unfold Parser.importRule
  refine (mustMatchSmart _).bind fun uri => (of_runs (a := true) Quiet.composes.importLayer
    fun _ => Runs.importLayer.of_false).bind fun found => ?_
  rcases found with ⟨layer, t⟩
  dsimp only
  generalize (t.kind == .function && t.name == "supports") = conditional
  have hend : ∀ queries : List MediaQuery, Walks source false true (do
      Functor.discard (Parser.mustMatchSmart [.semicolon])
      Parser.fire (.import_ (Parser.addressOf uri) layer queries) start.location) := fun _ =>
    (mustMatchSmart _).discard.bind fun _ =>
      fire rfl ⟨EventKind.noConfusion, EventKind.noConfusion⟩
  cases conditional with
  | true =>
    exact (conditionInParens _ _).of_false.bind fun _ => (mediaQueries false).of_false.bind hend
  | false => exact (mediaQueries true).bind hend

/-! ## Layers -/

/-- One more name of a list of layers. Without a block the token after the
list is in hand. -/
theorem layerStep (hblock : LaysBlock source block) (start : Token) (sofar : List String × Bool)
    {starts : List Location} {n : Nat} {s : State} (hs : s.Reaches source starts false n) :
    Lays source starts n (Parser.layerStep block start sofar) s
      (Ensures.Round fun r s' => s'.Reaches source starts (!r.2) n) := by
  unfold Parser.layerStep
  refine (grab.lays hs).bind fun t s₁ hs₁ => ?_
  extract_lets rest
  have hrest : ∀ (ids : List String) (t : Token) {s₂ : State}, s₂.Reaches source starts true n →
      Lays source starts n (rest (ids, t)) s₂
        (Ensures.Round fun r s' => s'.Reaches source starts (!r.2) n) := by
    intro ids t s₂ hs₂
    refine Lays.ite (fun _ => ?_) fun _ => Lays.ite (fun _ => Lays.pure hs₂) fun _ => Lays.pure hs₂
    extract_lets body
    have hbody : ∀ {s₃ : State}, s₃.Reaches source starts true n →
        Lays source starts n (body ()) s₃
          (Ensures.Round fun r s' => s'.Reaches source starts (!r.2) n) := fun hs₃ =>
      ((of_kind hblock start.location rfl rfl).discard.lays hs₃.release).bind
        fun _ _ hs₄ => Lays.pure hs₄
    exact Lays.ite (fun _ => ((warn _ _).lays hs₂).bind fun _ _ hs₃ => hbody hs₃) fun _ => hbody hs₂
  refine Lays.ite (fun _ => ?_) fun _ => Lays.pure_bind (hrest _ _ hs₁)
  refine ((of_runs (a := false) (Quiet.composes.layerName _) fun _ =>
    Runs.layerName (some t)).lays hs₁.release).bind fun name s₂ hs₂ => ?_
  exact (grab.lays hs₂).bind fun t' s₃ hs₃ => Lays.pure_bind (hrest _ _ hs₃)

theorem layerRule (hblock : LaysBlock source block) (start : Token) :
    Walks source false false (Parser.layerRule block start) := by
  intro starts s m hs hstands
  unfold Parser.layerRule
  refine (Lays.repeating_first _ hs
    (layerStep hblock start _ (hs.reaches hstands (Nat.le_refl m)))
    fun sofar s₁ hs₁ => layerStep hblock start sofar hs₁.release).bind fun r s₁ hs₁ => ?_
  rcases r with ⟨ids, blockSeen⟩
  cases blockSeen with
  | true => exact Lays.pure hs₁
  | false =>
    exact ((mustReuse _).discard.release.bind fun _ =>
      fire rfl ⟨EventKind.noConfusion, EventKind.noConfusion⟩).lays hs₁

end Walks

/-! ## Scopes -/

/-- **The selectors of a scope** lie in what was read. -/
def ScopeRead (source : List Char) (n : Nat) (list : List Selector) (s : State) : Prop :=
  ∃ m, n ≤ m ∧ m ≤ s.offset ∧ ∀ x ∈ list, x.Lies source false n m

namespace Ensures

variable {source : List Char} {n : Nat} {s : State}

/-- Demanding that the token in hand is of some kinds reads nothing. -/
theorem mustReuse (hs : s.IsSound) (kinds : List TokenKind) :
    Ensures (Parser.mustReuse kinds) s fun _ s' => s'.stream = s.stream :=
  (Reads.mustReuse (n := 0) hs (stands_true (Nat.zero_le _) fun _ _ => Nat.zero_le _)
    kinds).ensures.weaken fun _ _ _ h => h.1

theorem scopeSelectors (hs : s.IsSound) (hsource : s.stream.source = source) (hn : n ≤ s.offset) :
    Ensures Parser.scopeSelectors s fun r s' => ScopeRead source n (r.getD []) s' := by
  unfold Parser.scopeSelectors
  refine (selectorGroup none false true s n hs hsource ⟨hn, fun _ h => (by cases h)⟩).bind
    fun r s₁ h₁ ⟨hpoised, hr⟩ => ?_
  refine (discard (Q := fun _ s' => s'.stream = s₁.stream) (mustReuse h₁.isSound _)).bind
    fun _ s₂ h₂ hstream => pure h₂.isSound ?_
  have hoffset := Parse.State.offset_of_stream hstream
  cases r with
  | none => exact ⟨n, Nat.le_refl n, hoffset ▸ hpoised.1, fun _ h => absurd h List.not_mem_nil⟩
  | some list =>
    obtain ⟨-, -, m, hnm, hpoised, hall⟩ := hr list rfl
    exact ⟨m, hnm, hoffset ▸ hpoised.1, hall⟩

theorem scopePrelude (hs : s.IsSound) (hsource : s.stream.source = source) (hn : n ≤ s.offset) :
    Ensures Parser.scopePrelude s fun r => ScopeRead source n (r.1.getD [] ++ r.2.getD []) := by
  have hgrab : ∀ {s₁ : State}, s₁.IsSound →
      Ensures Parser.grab s₁ fun _ s₂ => s₁.offset ≤ s₂.offset := fun hs₁ =>
    (Reads.grab (n := 0) hs₁).ensures.weaken fun _ _ _ hgot => hgot.place_le_place
  have hend : ∀ {first last : Option (List Selector)} {s₁ : State}, s₁.IsSound →
      ScopeRead source n (first.getD [] ++ last.getD []) s₁ →
      Ensures (do Functor.discard (Parser.mustReuse [.lBrace]); return (first, last)) s₁
        fun r => ScopeRead source n (r.1.getD [] ++ r.2.getD []) := by
    intro first last s₁ hs₁ ⟨m, hnm, hm, hall⟩
    refine (discard (Q := fun _ s' => s'.stream = s₁.stream) (mustReuse hs₁ _)).bind
      fun _ s₂ h₂ hstream => pure h₂.isSound ⟨m, hnm, ?_, hall⟩
    exact (Parse.State.offset_of_stream hstream).symm ▸ hm
  unfold Parser.scopePrelude
  refine (hgrab hs).bind fun t s₁ h₁ hle₁ => ?_
  extract_lets rest
  have hrest : ∀ (first : Option (List Selector)) (t : Token) {s₂ : State}, s₂.IsSound →
      s₂.stream.source = source → ScopeRead source n (first.getD []) s₂ →
      Ensures (rest (first, t)) s₂ fun r => ScopeRead source n (r.1.getD [] ++ r.2.getD []) := by
    intro first t s₂ hs₂ hsource₂ ⟨m, hnm, hm, hall⟩
    refine ite (fun _ => ?_) fun _ => pure_bind (hend hs₂ ⟨m, hnm, hm, by simpa using hall⟩)
    refine (discard (Q := fun _ s' => s₂.offset ≤ s'.offset)
      ((Reads.mustMatchSmart (n := 0) hs₂ (Nat.zero_le _) _).ensures.weaken
        fun _ _ _ hgot => hgot.1.place_le_place)).bind fun _ s₃ h₃ hle₃ => ?_
    refine (scopeSelectors h₃.isSound (h₃.source_eq.trans hsource₂) (Nat.le_trans hm hle₃)).bind
      fun last s₄ h₄ ⟨m', hmm', hm', hall'⟩ => ?_
    refine (discard (Q := fun _ s' => s₄.offset ≤ s'.offset) (hgrab h₄.isSound)).bind
      fun _ s₅ h₅ hle₅ => pure_bind (hend h₅.isSound
        ⟨m', Nat.le_trans hnm hmm', Nat.le_trans hm' hle₅, fun x hx => ?_⟩)
    rcases List.mem_append.mp hx with hx | hx
    · exact (hall x hx).mono (Nat.le_refl n) hmm'
    · exact (hall' x hx).mono hnm (Nat.le_refl m')
  have hn₁ : n ≤ s₁.offset := Nat.le_trans hn hle₁
  have hsource₁ := h₁.source_eq.trans hsource
  refine ite (fun _ => ?_) fun _ => pure_bind (hrest none t h₁.isSound hsource₁
    ⟨n, Nat.le_refl n, hn₁, fun _ h => absurd h List.not_mem_nil⟩)
  refine (scopeSelectors h₁.isSound hsource₁ hn₁).bind fun first s₂ h₂ ⟨m, hnm, hm, hall⟩ => ?_
  exact (hgrab h₂.isSound).bind fun t' s₃ h₃ hle₃ => pure_bind (hrest first t' h₃.isSound
    (h₃.source_eq.trans (h₂.source_eq.trans hsource₁)) ⟨m, hnm, Nat.le_trans hm hle₃, hall⟩)

end Ensures

section Counters

variable {source : List Char} {starts : List Location} {m n : Nat} {s : State} {a : Bool}
  {g : State → State}

/-- **Changing a counter.** -/
theorem Lays.adjust (hsame : ∀ s x, g (s.within x) = (g s).within x)
    (hbudget : ∀ s b, g (s.withBudget b) = (g s).withBudget b)
    (hrest : ∀ s, (g s).stream = s.stream ∧ (g s).options = s.options ∧
      (g s).budget = s.budget ∧ (g s).store = s.store ∧ (g s).deferred = s.deferred ∧
      (g s).events = s.events) (hs : s.IsLaid source starts m) (hn : n ≤ m) :
    Lays source starts n (Parser.update g) s
      fun _ s' => s'.IsLaid source starts m ∧ s'.stream = s.stream :=
  (of_quiet (Quiet.composes.adjust hsame fun s => (hrest s).2.1) hs
    (Reads.adjust hs.isSound (hbudget s.alone) (hrest s.alone))).lower hn

theorem Walks.adjust (hsame : ∀ s x, g (s.within x) = (g s).within x)
    (hbudget : ∀ s b, g (s.withBudget b) = (g s).withBudget b)
    (hrest : ∀ s, (g s).stream = s.stream ∧ (g s).options = s.options ∧
      (g s).budget = s.budget ∧ (g s).store = s.store ∧ (g s).deferred = s.deferred ∧
      (g s).events = s.events) : Walks source a a (Parser.update g) := fun _ _ m hs hstands =>
  (Lays.adjust hsame hbudget hrest hs (Nat.le_refl m)).weaken fun _ _ hs' =>
    hs'.1.reaches (hstands.of_stream hs'.2) (Nat.le_refl m)

end Counters

/-- **The at-rule `@scope`** reports the selectors of its prelude in front of
its body. When the prelude is broken, reading goes on after the name of the
rule, and no selector was reported. -/
theorem Lays.scopeRule {source : List Char} {starts : List Location} {m : Nat} {s : State}
    {block : BlockParser} (hblock : LaysBlock source block) (hs : s.IsLaid source starts m)
    (hm : m ≤ s.offset) {start : Token} (hstart : start.IsCut source)
    (hstop : m ≤ start.stop.offset) :
    Lays source starts m (Parser.scopeRule block start) s
      fun _ s' => s'.Reaches source starts false m := by
  unfold Parser.scopeRule
  have hprelude := (Runs.reads (fun _ => Runs.scopePrelude) hs.isSound (stands_false hm)).and_ensures
    (Ensures.scopePrelude hs.isSound hs.source_eq hm)
  refine (Lays.of_quiet Quiet.composes.scopePrelude.attempt hs (Reads.attempt
    (Q := fun r s' => m ≤ s'.offset ∧ ∀ x, r = .ok x →
      ScopeRead source m (x.1.getD [] ++ x.2.getD []) s')
    (hprelude.weaken fun x _ _ hx => ⟨hx.1.1, fun y hy => Except.ok.inj hy ▸ hx.2⟩)
    fun _ _ _ hle => ⟨hle, fun _ h => by cases h⟩)).bind fun prelude s₁ ⟨hs₁, hle₁, hread⟩ => ?_
  cases prelude with
  | error e =>
    have hplace : IsPlace s₁.alone.stream.source start.stop := by
      rw [show s₁.alone.stream.source = source from hs₁.source_eq]
      exact hstart.stop_isPlace
    refine (Lays.of_quiet (Quiet.composes.seek _) hs₁ (Reads.seek hs₁.isSound hplace)).bind
      fun _ s₂ ⟨hs₂, hsought⟩ => ?_
    have hstands₂ : Stands false m s₂ := stands_false (hsought.1.symm ▸ hstop)
    refine ((Walks.of_runs (Quiet.composes.setPair none) fun _ => Runs.setPair none).bind
      fun _ => Walks.options_bind fun _ => ?_) starts s₂ m hs₂ hstands₂
    exact Walks.ite (fun _ => Walks.throw_bind e) fun _ =>
      Walks.of_runs (Quiet.recover e false) fun _ => Runs.recover e false
  | ok found =>
    obtain ⟨k, hk, hoffset, hall⟩ := hread found rfl
    have hdepth : ∀ g : Nat → Nat, Walks source false false
        (Parser.update fun s => { s with inScope := g s.inScope }) := fun _ =>
      Walks.adjust (fun _ _ => rfl) (fun _ _ => rfl) fun _ => ⟨rfl, rfl, rfl, rfl, rfl, rfl⟩
    have hlies : ∀ loc, Event.Lies source m k ⟨.start (.scope found.1 found.2), loc⟩ :=
      fun _ x hx => hall x hx
    refine (((hdepth (· + 1)).lays ((hs₁.mono hk).reaches (stands_false hoffset)
      (Nat.le_refl k))).lower hk).bind fun _ s₂ ⟨k', hk', hs₂, hstands₂⟩ => ?_
    have hbehind : BlockShape.IsBehind source starts k'
        { event := some (.scope found.1 found.2), opened := true } := by
      rintro _ ⟨⟩ loc
      exact ((hlies loc).isBehind hs.start_le).mono hk'
    refine (hblock start.location _ starts s₂ k' hs₂ hstands₂ hbehind).attempt.bind
      fun r s₃ hs₃ => ?_
    have hreaches : s₃.Reaches source starts false m := by
      refine Parse.State.Reaches.lower ?_ (Nat.le_trans hk hk')
      cases r with
      | ok stop => exact (hs₃.1 stop rfl).reaches
      | error e => exact hs₃.2 e rfl
    exact ((hdepth (· - 1)).bind fun _ => (Walks.ofExcept r).discard).lays hreaches

namespace Walks

variable {source : List Char} {a : Bool} {block : BlockParser}

/-! ## Documents -/

theorem documentBody (hblock : LaysBlock source block) (start : Token) :
    Walks source false false (Parser.documentBody block start) := by
  unfold Parser.documentBody
  refine options_bind fun _ => ite (fun _ => ?_) fun _ => of_block hblock _ fun _ h => (by cases h)
  refine (of_runs (Quiet.composes.moveStream _) fun _ => Runs.skipBroken true).bind fun _ => ?_
  exact (mustMatchSmart _).release.bind fun _ => pure _

theorem documentRule (hblock : LaysBlock source block) (start : Token) :
    Walks source false false (Parser.documentRule block start) := by
  intro starts s m hs hstands
  unfold Parser.documentRule
  refine Lays.state_bind ?_
  extract_lets rest
  have hrest : Walks source false false (rest ()) := by
    refine (of_runs (Quiet.composes.repeating (Quiet.composes.documentStep start) _)
      fun _ => Runs.repeating (Runs.documentStep start)).bind fun functions => ?_
    refine (mustMatchSmart _).discard.release.bind fun _ => ?_
    refine (fire rfl ⟨EventKind.noConfusion, EventKind.noConfusion⟩).bind fun _ => ?_
    exact (documentBody hblock start).bind fun _ =>
      fire rfl ⟨EventKind.noConfusion, EventKind.noConfusion⟩
  exact Lays.ite (fun _ => ((warn _ _).bind fun _ => hrest) starts s m hs hstands)
    fun _ => hrest starts s m hs hstands

/-! ## Keyframes -/

theorem keyframeStep (hblock : LaysBlock source block) (sofar : Bool × Token) :
    Walks source false false (Parser.keyframeStep block sofar) := by
  intro starts s m hs hstands
  unfold Parser.keyframeStep
  refine (Lays.of_quiet (Quiet.composes.repeating Quiet.composes.keyStep _) hs
    (Reads.keyLoop hs.isSound hstands.1 sofar.2)).bind fun head s₁ ⟨hs₁, hkeys⟩ => ?_
  have hblock' : ∀ {loc : Location} {shape : BlockShape} (x : Bool × Token),
      shape.event = some (.keyframeRule head.keys.reverse) → Walks source false false (do
        Functor.discard (block loc shape)
        return ForInStep.yield x) := fun _ hshape =>
    (of_kind hblock _ rfl hshape).discard.bind fun _ => pure _
  cases head.first with
  | none => exact Lays.pure (hs₁.reaches hkeys.1.release (Nat.le_refl m))
  | some loc =>
    exact ite (fun _ => (hblock' _ rfl).of_false) (fun _ => unget.bind fun _ => hblock' _ rfl)
      starts s₁ m hs₁ hkeys.1

theorem keyframesRule (hblock : LaysBlock source block) (start : Token) :
    Walks source false false (Parser.keyframesRule block start) := by
  unfold Parser.keyframesRule
  refine (mustMatchSmart _).bind fun name => (mustMatchSmart _).discard.release.bind fun _ => ?_
  refine (fire rfl ⟨EventKind.noConfusion, EventKind.noConfusion⟩).bind fun _ => ?_
  refine (repeating fun sofar => keyframeStep hblock sofar).bind fun r => ?_
  refine ite (fun _ => pure_bind ?_) fun _ => (mustMatchSmart _).release.bind fun _ => ?_
  · exact fire rfl ⟨EventKind.noConfusion, EventKind.noConfusion⟩
  · exact fire rfl ⟨EventKind.noConfusion, EventKind.noConfusion⟩

/-! ## The other at-rules -/

theorem containerRule (hblock : LaysBlock source block) (start : Token) :
    Walks source false false (Parser.containerRule block start) := by
  unfold Parser.containerRule
  extract_lets rest
  have hrest : ∀ name, Walks source false false (rest name) := fun name =>
    (condition _).release.bind fun _ => ruleBlock hblock start rfl
  refine matchSmart_bind (fun t => ?_) (hrest _).pure_bind
  exact ite (fun _ => unget.bind fun _ => (hrest _).pure_bind) fun _ => (hrest _).of_false.pure_bind

theorem pageRule (hblock : LaysBlock source block) (start : Token) :
    Walks source false false (Parser.pageRule block start) := by
  unfold Parser.pageRule
  refine (matchSmart _).bind fun id => ?_
  extract_lets body page
  have hpage : Walks source false false (page ()) := by
    refine (matchKinds _).bind fun colon => ite (fun _ => ?_) fun _ => ?_
    · exact (mustMatch _).release.bind fun _ => pure_bind (descriptorBlock hblock _ _ rfl _)
    · exact pure_bind (descriptorBlock hblock _ _ rfl _)
  cases id with
  | none => exact hpage
  | some t => exact ite (fun _ => throw_bind _) fun _ => hpage

end Walks

namespace Lays

variable {source : List Char} {starts : List Location} {m : Nat} {s : State} {block : BlockParser}

theorem namedRule (hblock : LaysBlock source block) (hs : s.IsLaid source starts m)
    (hm : m ≤ s.offset) {start : Token} (hstart : start.IsCut source)
    (hstop : m ≤ start.stop.offset) :
    Lays source starts m (Parser.namedRule block start) s
      fun _ s' => s'.Reaches source starts false m := by
  have hwalks : ∀ {p : Parser Unit}, Walks source false false p →
      Lays source starts m p s fun _ s' => s'.Reaches source starts false m := fun hp =>
    hp starts s m hs (stands_false hm)
  unfold Parser.namedRule
  split
  · exact hwalks (Walks.charsetRule start).release
  · exact hwalks (Walks.containerRule hblock start)
  · exact hwalks (Walks.ruleName.release.bind fun _ => Walks.descriptorBlock hblock _ _ rfl _)
  · exact hwalks (Walks.documentRule hblock start)
  · exact hwalks (Walks.descriptorBlock hblock _ _ rfl _)
  · exact hwalks (Walks.ruleName.release.bind fun _ => Walks.descriptorBlock hblock _ _ rfl _)
  · exact hwalks (Walks.importRule start).release
  · exact hwalks (Walks.keyframesRule hblock start)
  · exact hwalks (Walks.layerRule hblock start)
  · exact hwalks ((Walks.mediaQueries false).bind fun _ => Walks.ruleBlock hblock _ rfl)
  · exact hwalks (Walks.namespaceRule start).release
  · exact hwalks (Walks.pageRule hblock start)
  · exact hwalks (Walks.ruleName.release.bind fun _ => Walks.descriptorBlock hblock _ _ rfl _)
  · exact scopeRule hblock hs hm hstart hstop
  · exact hwalks (Walks.descriptorBlock hblock _ _ rfl _)
  · exact hwalks ((Walks.condition _).release.bind fun _ => Walks.ruleBlock hblock _ rfl)
  · exact hwalks (Walks.of_runs (Quiet.unknownRule start) fun _ => Runs.unknownRule start)

theorem atRule (hblock : LaysBlock source block) (hs : s.IsLaid source starts m)
    (hm : m ≤ s.offset) {start : Token} (hstart : start.IsCut source)
    (hstop : m ≤ start.stop.offset) (top : Bool) :
    Lays source starts m (Parser.atRule block start top) s
      fun _ s' => s'.Reaches source starts false m := by
  unfold Parser.atRule
  refine options_bind (ite (fun _ => ?_) fun _ => namedRule hblock hs hm hstart hstop)
  exact Walks.of_runs (a := false) (Quiet.composes.moveStream _) (fun _ => Runs.skipBroken false)
    starts s m hs (stands_false hm)

end Lays

end Stylesheet
