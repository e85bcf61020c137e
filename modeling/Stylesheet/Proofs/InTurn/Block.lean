import Stylesheet.Proofs.InTurn.AtRule

/-!
# Complaints in rules, blocks and stylesheets

Whatever an item of a block complains of, it points no further back than where
the item starts, and so does what comes after it. An item that turns out to be
no declaration was not complained of, and is read again as a rule, from where
it starts.

In a whole stylesheet that is not read strictly every complaint has a place,
and each comes after all those before it; only the complaint about the prelude
of an `@scope` may stray.
-/

namespace Stylesheet

open Parse (State)
open Parse.State (Keeps)
open Stylesheet.Stream (Anyhow At Beyond Enters Front Grasps Has HeadEnd IsElementName Near)

namespace InTurn

variable {d n : Nat} {s : State} {t : Token} {block : BlockParser}

/-! ## Style rules -/

/-- **Where a rule can start** a selector can. -/
theorem enters_of_opening (h : Opening t s.stream)
    (hcustom : t.isCustomIdent = false ∨ Front t s.stream) :
    s.stream.Enters t t.location.offset := by
  have hhas : s.stream.behind.head? = some t → s.stream.Enters t t.location.offset :=
    fun hhead => Or.inl ⟨t, hhead, Nat.le_refl _⟩
  rcases hcustom with hcustom | hfront
  · obtain ⟨st, hstream⟩ : ∃ st, s.stream = st := ⟨_, rfl⟩
    rw [hstream] at h hhas ⊢
    cases h with
    | front h => exact hhas h.head
    | sought _ hname hbar _ => exact Or.inr ⟨hname, hcustom, hbar⟩
    | rewound _ _ _ h => cases h <;> exact hhas rfl
    | starred => exact hhas rfl
  · exact hhas hfront.head

/-- Selectors that need a rule around them are complained of where the rule
starts. -/
theorem checkNesting (hs : s.IsSound) (hn : s.Complained t.location.offset)
    (selectors : List Selector) :
    InTurn t.location.offset (Parser.checkNesting selectors t.location) s fun _ m s' =>
      m = t.location.offset ∧ s'.stream = s.stream := by
  unfold Parser.checkNesting
  refine state_bind (ite (fun _ => ?_) fun _ => pure hs hn ⟨rfl, rfl⟩)
  exact fire_complaint hs ⟨EventKind.noConfusion, EventKind.noConfusion⟩ hn rfl rfl
    (Nat.le_refl _) (Nat.le_refl _) hn.le (Or.inl (Nat.le_refl _))

theorem ruleFailed {e : Diagnostic} {loc : Location} (hs : s.IsSound)
    (hloc : e.location = some loc) (hn : s.Complained loc.offset) (braceSeen : Bool) :
    InTurn loc.offset (Parser.ruleFailed e braceSeen) s fun _ _ _ => True := by
  unfold Parser.ruleFailed
  refine options_bind hn fun hlax => ite (fun hstrict => ?_) fun _ => ?_
  · exact absurd (hlax.symm.trans hstrict) Bool.false_ne_true
  · exact (recover hs hn hloc (Nat.le_refl _) (Nat.le_refl _) hn.le (Or.inl (Nat.le_refl _))
      braceSeen).bind fun _ _ s₁ h₁ _ hn₁ _ => pure h₁.isSound hn₁ trivial

theorem ruleBody (hblock : InTurnBlock d block) (hs : s.InOrder) (hend : s.stream.HeadEnd)
    (hgrasps : s.stream.Grasps t.location.offset) {selectors : List Selector}
    (hread : s.stream.current.kind = .lBrace →
      ∀ selector ∈ selectors, selector.IsRead s.options s.stream.source)
    (hd : Text.byteLength s.stream.source < t.location.offset + d)
    (hn : s.Complained t.location.offset) (storable : Bool) :
    InTurn t.location.offset (Parser.ruleBody block t storable selectors) s fun _ _ _ => True := by
  unfold Parser.ruleBody
  extract_lets start shape filed rest
  have hrest : InTurn t.location.offset (rest none) s fun _ _ _ => True := by
    refine ((checkNesting hs.isSound hn selectors).and_orderly
      (Orderly.checkNesting (E := fun _ => True) hs selectors t.location)).bind
      fun _ m s₁ h₁ _ hn₁ ⟨⟨hm, hstream⟩, hs₁, _⟩ => ?_
    obtain rfl := hm
    rw [← hstream] at hgrasps hend hread
    refine ((read h₁.isSound hn₁ hgrasps
      (fun _ => Points.beyond (by decide) (Points.mustReuse_kind [.lBrace]))
      (Mute.compositional.mustReuse _)).and_orderly
      (Orderly.mustReuse (E := fun _ => True) hs₁ [.lBrace] fun _ => trivial)).attempt_bind
      (fun brace k s₂ _ h₂ _ hn₂ ⟨⟨hk, _, hbeyond⟩, hs₂, hsame, hbrace, hkind⟩ => ?_)
      fun e loc s₂ _ h₂ hloc _ hn₂ => pure_bind (ruleFailed h₂.isSound hloc hn₂ false)
    obtain rfl := hk
    -- the brace is at hand, and nothing is ahead
    have hcurrent : s₁.stream.current.kind = .lBrace := by
      rw [← hbrace]
      simpa using hkind
    have hnear : s₂.stream.Near := by
      unfold Stream.Near
      rw [hsame, hend.brace hcurrent]
      exact Nat.zero_le 1
    have hselectors : ∀ others, shape.event = some (.rule others) →
        ∀ selector ∈ others, selector.IsRead s₂.options s₂.stream.source := by
      rintro _ ⟨⟩ selector hmem
      rw [h₂.options_eq, h₂.source_eq, h₁.options_eq]
      exact hread hcurrent selector hmem
    have hd₂ : Text.byteLength s₂.stream.source < t.location.offset + d := by
      rw [h₂.source_eq, h₁.source_eq]
      exact hd
    refine (hblock.inTurn start shape hs₂ hnear hselectors hd₂ hn₂
      fun _ => hbeyond).attempt_bind (fun stop m s₃ _ h₃ _ hn₃ _ => ?_)
      fun e loc s₃ _ h₃ hloc _ hn₃ => pure_bind (ruleFailed h₃.isSound hloc hn₃ true)
    exact ite (fun _ => pure_bind (pure h₃.isSound hn₃ trivial)) fun _ =>
      pure_bind (pure h₃.isSound hn₃ trivial)
  refine ite (fun _ => ?_) fun _ => pure_bind hrest
  exact of_ran (show Parser.openInStore start s = (.ok none, s) by
    show (Except.ok _, _) = _
    rw [hs.isSound.store]) (Keeps.refl hs.isSound) hrest

theorem styleRule (hblock : InTurnBlock d block) (hs : s.InOrder) (h : Opening t s.stream)
    (ht : t.IsCut s.stream.source) (hcustom : t.isCustomIdent = false ∨ Front t s.stream)
    (hd : Text.byteLength s.stream.source < t.location.offset + d)
    (hn : s.Complained t.location.offset) :
    InTurn t.location.offset (Parser.styleRule block t) s fun _ _ _ => True := by
  unfold Parser.styleRule
  refine state_bind ?_
  extract_lets storable rest
  have hrest : InTurn t.location.offset (rest none) s fun _ _ _ => True := by
    refine ((read hs.isSound hn (enters_of_opening h hcustom) (fun _ => Points.ruleHead t)
      (Mute.compositional.ruleHead t)).and_orderly (Orderly.ruleHead hs h ht hcustom)).attempt_bind
      (fun r m s₁ _ h₁ _ hn₁ ⟨⟨hm, hgrasps⟩, hs₁, _, hsome⟩ => ?_)
      fun e loc s₁ _ h₁ hloc _ hn₁ => ruleFailed h₁.isSound hloc hn₁ false
    obtain rfl := hm
    cases r with
    | none => exact pure h₁.isSound hn₁ trivial
    | some selectors =>
      obtain ⟨hend, hread⟩ := hsome selectors rfl
      rw [← h₁.options_eq, ← h₁.source_eq] at hread
      exact ruleBody hblock hs₁ hend (hgrasps (Option.some_ne_none _)) hread
        (by rw [h₁.source_eq]; exact hd) hn₁ storable
  refine ite (fun _ => ?_) fun _ => pure_bind hrest
  exact of_ran (show Parser.remembered t.location s = (.ok none, s) by
    show (Except.ok _, _) = _
    rw [hs.isSound.store]) (Keeps.refl hs.isSound) hrest

/-! ## Items -/

theorem blockItem (hblock : InTurnBlock d block) (hs : s.InOrder) (h : Front t s.stream)
    (ht : t.IsCut s.stream.source) (hd : Text.byteLength s.stream.source < t.location.offset + d)
    (hn : s.Complained t.location.offset) (shape : BlockShape) :
    InTurn t.location.offset (Parser.blockItem block shape t) s fun _ _ _ => True := by
  unfold Parser.blockItem
  refine state_bind ?_
  extract_lets inStyle found rest
  have hrest : ∀ (declared : Bool) {m : Nat} {s₁ : State}, Keeps s s₁ → s₁.InOrder →
      s₁.Complained m → (declared = false → m = t.location.offset ∧ Opening t s₁.stream) →
      InTurn m (rest declared) s₁ fun _ _ _ => True := by
    intro declared m s₁ h₁ hs₁ hn₁ hnone
    refine ite (fun _ => pure hs₁.isSound hn₁ trivial) fun hfalse => ?_
    obtain ⟨rfl, hopening⟩ := hnone (Bool.eq_false_iff.mpr hfalse)
    refine ite (fun hrule => ?_) fun _ => throw hs₁.isSound rfl (Nat.le_refl _) hn₁
    have hcustom : t.isCustomIdent = false := by
      revert hrule
      cases t.isCustomIdent <;> simp
    refine (styleRule hblock hs₁ hopening (h₁.source_eq ▸ ht) (Or.inl hcustom)
      (by rw [h₁.source_eq]; exact hd) hn₁).bind fun _ _ s₂ h₂ _ hn₂ _ =>
        pure h₂.isSound hn₂ trivial
  have hitem : ∀ {p : Parser Unit}, InTurn t.location.offset p s (fun _ _ _ => True) →
      InTurn t.location.offset (p >>= found) s fun _ _ _ => True :=
    fun hp => hp.bind fun _ _ s₁ h₁ _ hn₁ _ => pure h₁.isSound hn₁ trivial
  refine ite (fun hat => ?_) fun _ => options_bind hn fun _ => ?_
  · have hhand : s.stream.At t := h.at_of_kind (by rw [eq_of_beq hat]; rfl)
    refine ite (fun _ => hitem ?_) fun _ =>
      hitem (atRule hblock hs hhand (eq_of_beq hat) hd hn false)
    exact (Queues.descriptorBlock hblock t "page" false (fun _ => BlockKind.noConfusion) s _ hs hd
      hn hhand.near).weaken fun _ _ _ _ _ _ _ => trivial
  · refine ite (fun hdeclaration => ?_) fun _ => pure_bind (hrest false (Keeps.refl hs.isSound) hs
      hn fun _ => ⟨rfl, .front h⟩)
    have hname : IsElementName t := by
      have hkind : (t.kind == .ident) = true ∨ (t.kind == .star) = true := by
        revert hdeclaration
        cases t.kind == .ident <;> cases t.kind == .star <;> simp
      exact hkind.imp eq_of_beq eq_of_beq
    have hcustom : t.isCustomIdent = true → t.kind = .ident := fun htrue =>
      Classical.byContradiction fun hkind => by
        rw [ht.isCustomIdent_eq hkind] at htrue
        cases htrue
    exact ((declaration_item hs h hname hcustom ht hn shape.scope).and_orderly
      (Orderly.declaration hs h hname ht shape.scope)).bind
      fun declared m s₁ h₁ _ hn₁ ⟨hm, hs₁, _, hopening⟩ =>
        hrest declared h₁ hs₁ hn₁ fun hfalse => ⟨hm hfalse, hopening hfalse⟩

theorem blockItemStep (hblock : InTurnBlock d block) (hs : s.InOrder) (h : Front t s.stream)
    (ht : t.IsCut s.stream.source) (hd : Text.byteLength s.stream.source < t.location.offset + d)
    (hn : s.Complained t.location.offset) (shape : BlockShape) (sofar : Parser.BlockSoFar) :
    InTurn t.location.offset (Parser.blockItemStep block shape sofar t) s fun _ _ _ => True := by
  unfold Parser.blockItemStep
  extract_lets key rest
  refine ite (fun _ => ?_) fun _ => ?_
  · exact (throw (Q := fun _ _ _ => False) hs.isSound rfl (Nat.le_refl _) hn).bind
      fun _ _ _ _ _ _ h => h.elim
  refine (blockItem hblock hs h ht hd hn shape).attempt_bind
    (fun content m s₁ _ h₁ _ hn₁ _ => pure h₁.isSound hn₁ trivial)
    fun e loc s₁ _ h₁ hloc _ hn₁ => options_bind hn₁ fun hlax => ite (fun hstrict => ?_) fun _ => ?_
  · exact absurd (hlax.symm.trans hstrict) Bool.false_ne_true
  · exact (recover h₁.isSound hn₁ hloc (Nat.le_refl _) (Nat.le_refl _) hn₁.le
      (Or.inl (Nat.le_refl _)) false).bind fun _ _ s₂ h₂ _ hn₂ _ => pure h₂.isSound hn₂ trivial

/-! ## Blocks -/

/-- **The first token of the next item.** What was complained of so far is past
where it starts. -/
theorem item_bind {β : Type} {Q : β → Nat → State → Prop} {f : Token → Parser β}
    (placeholders : Bool) (hs : s.InOrder) (hready : s.stream.Ready) (hn : s.Complained n)
    (h : ∀ t s₁, Keeps s s₁ → s₁.InOrder → Front t s₁.stream → t.IsCut s₁.stream.source →
      n ≤ t.location.offset → s₁.Complained t.location.offset →
      InTurn t.location.offset (f t) s₁ Q) :
    InTurn n (Parser.next placeholders false >>= f) s Q := by
  have hgot := hs.isSound.stream.get placeholders false
  have h₁ := hs.isSound.withStream hgot.isSound hgot.source_eq
  have hle : n ≤ (s.stream.get placeholders false).1.location.offset :=
    Nat.le_trans hn.le hgot.place_le
  have hplace : (s.stream.get placeholders false).1.location.offset ≤
      (s.stream.get placeholders false).2.place.offset :=
    ((hgot.has hn.le).passed hgot.isSound).2
  have hn₁ := (hn.of_keeps h₁ rfl (Nat.le_trans hle hplace)).raise hle hplace
  exact of_ran rfl h₁ ((h _ _ h₁ (hs.withStream hgot.isSound (hs.flush.get _ _) hgot.source_eq)
    (hready placeholders) (h₁.source_eq ▸ hgot.isCut) hle hn₁).lower hle)

theorem blockStep (hblock : InTurnBlock d block) (hs : s.InOrder) (shape : BlockShape)
    (toEnd : Bool) {sofar : Parser.BlockSoFar} (hI : Orderly.BlockInv sofar s)
    (hd : Text.byteLength s.stream.source < n + d) (hn : s.Complained n) :
    InTurn n (Parser.blockStep block shape toEnd sofar) s
      (Turn (fun sofar _ s' => s'.InOrder ∧ Orderly.BlockInv sofar s') fun _ _ _ => True) := by
  have hstep : InTurn n (Parser.blockStep block shape toEnd sofar) s fun _ _ _ => True := by
    unfold Parser.blockStep
    refine item_bind true hs hI.1 hn fun t s₁ h₁ hs₁ hfront hcut hle hn₁ => ?_
    split
    · exact ite (fun _ => pure h₁.isSound hn₁ trivial) fun _ =>
        throw h₁.isSound rfl (Nat.le_refl _) hn₁
    · exact pure h₁.isSound hn₁ trivial
    · exact pure h₁.isSound hn₁ trivial
    · exact ite (fun _ => pure h₁.isSound hn₁ trivial) fun _ =>
        blockItemStep hblock hs₁ hfront hcut (by rw [h₁.source_eq]; omega) hn₁ shape sofar
  refine (hstep.and_orderly (Orderly.blockStep hblock.orderly hs shape toEnd hI)).weaken ?_
  rintro (_ | sofar) m s' _ _ _ ⟨_, hs', hturn⟩
  · trivial
  · exact ⟨hs', hturn⟩

theorem blockItems (hblock : InTurnBlock d block) (hs : s.InOrder) (hready : s.stream.Ready)
    (shape : BlockShape) (toEnd : Bool) (hd : Text.byteLength s.stream.source < n + d)
    (hn : s.Complained n) :
    InTurn n (Parser.blockItems block shape toEnd) s fun _ _ _ => True := by
  unfold Parser.blockItems
  extract_lets styles
  refine adjust_bind hs.isSound ⟨rfl, rfl, rfl, rfl, rfl, rfl⟩ hn fun h₁ hn₁ => ?_
  have hs₁ := hs.of_eq h₁.isSound rfl rfl rfl rfl
  refine (repeating (I := fun sofar _ s' => s'.InOrder ∧ Orderly.BlockInv sofar s')
    (Q := fun _ _ _ => True) h₁.isSound hn₁ ⟨hs₁, hready, rfl⟩ (fun sofar m s₂ h₂ hnm hn₂ h => ?_)
    fun _ _ _ _ => trivial).attempt_bind (fun sofar m s₂ _ h₂ _ hn₂ _ => ?_)
    fun e loc s₂ _ h₂ hloc _ hn₂ => ?_
  · refine blockStep hblock h.1 shape toEnd h.2 ?_ hn₂
    rw [h₂.source_eq, h₁.source_eq]
    omega
  · exact adjust_bind h₂.isSound ⟨rfl, rfl, rfl, rfl, rfl, rfl⟩ hn₂ fun h₃ hn₃ =>
      pure_bind (current_bind (pure h₃.isSound hn₃ trivial))
  · exact adjust_bind h₂.isSound ⟨rfl, rfl, rfl, rfl, rfl, rfl⟩ hn₂ fun h₃ hn₃ =>
      (throw (Q := fun _ _ _ => False) h₃.isSound hloc (Nat.le_refl _) hn₃).bind
        fun _ _ _ _ _ _ h => h.elim

/-- **A block and its events.** What it holds comes after its brace. -/
theorem blockWith (hblock : InTurnBlock d block) (hruns : ∀ d, RunsBlock d block block) :
    InTurnBlock (d + 1) (Parser.blockWith block) := by
  refine ⟨Orderly.blockWith hblock.orderly hruns,
    fun start shape {s n} hs hnear hselectors hd hn hopened => ?_⟩
  unfold Parser.blockWith
  extract_lets items started
  have hitems : ∀ {s₁ : State}, Keeps s s₁ → s₁.InOrder → s₁.stream.Near → s₁.Complained (n + 1) →
      InTurn (n + 1) (items ()) s₁ fun _ _ _ => True := by
    intro s₁ h₁ hs₁ hnear₁ hn₁
    refine (blockItems hblock hs₁ hnear₁.ready shape false (by rw [h₁.source_eq]; omega) hn₁).bind
      fun stop m s₂ h₂ _ hn₂ _ => ?_
    extract_lets done
    cases shape.event with
    | none => exact pure h₂.isSound hn₂ trivial
    | some kind =>
      exact (fire h₂.isSound hn₂ ⟨EventKind.noConfusion, EventKind.noConfusion⟩ rfl).bind
        fun _ _ s₃ h₃ _ hn₃ _ => pure h₃.isSound hn₃ trivial
  have hstarted : ∀ {s₁ : State}, Keeps s s₁ → s₁.InOrder → s₁.stream.Near →
      s₁.Complained (n + 1) → InTurn (n + 1) (started ()) s₁ fun _ _ _ => True := by
    intro s₁ h₁ hs₁ hnear₁ hn₁
    unfold started
    cases hevent : shape.event with
    | none => exact hitems h₁ hs₁ hnear₁ hn₁
    | some kind =>
      have hkind : ∀ selectors, kind = .rule selectors →
          ∀ selector ∈ selectors, selector.IsRead s₁.options s₁.stream.source := by
        intro selectors hkind
        rw [h₁.options_eq, h₁.source_eq]
        exact hselectors selectors (hkind ▸ hevent)
      have hfired : Orderly (Parser.fire (.start kind) start) s₁
          (fun _ s' => s'.stream = s₁.stream) fun _ => True := Orderly.fireStart hs₁ hkind
      refine ((fire h₁.isSound hn₁ ⟨EventKind.noConfusion, EventKind.noConfusion⟩ rfl).and_orderly
        hfired).bind fun _ m s₂ h₂ _ hn₂ ⟨⟨hm, hstream⟩, hs₂, _⟩ => ?_
      obtain rfl := hm
      exact hitems (h₁.trans h₂) hs₂ (hstream ▸ hnear₁) hn₂
  refine ite (fun htrue => ?_) fun _ => ?_
  · exact (hstarted (Keeps.refl hs.isSound) hs hnear
      (hn.raise (Nat.le_succ n) (hopened htrue))).lower (Nat.le_succ n)
  · have hbrace : ∀ d, Points d Anyhow (Functor.discard (Parser.mustMatchSmart [.lBrace]))
        fun _ => Beyond := fun _ =>
      ((Points.beyond (by decide) (Points.mustMatchSmart_kind _)).weaken fun _ _ _ _ h => h.2).discard
    have hleads : Orderly (Functor.discard (Parser.mustMatchSmart [.lBrace])) s
        fun _ s' => s'.stream.Near :=
      Orderly.discard ((Orderly.mustMatchSmart hs hnear _).weaken fun _ _ _ h => h.1.near)
    refine (part hs hn trivial hbrace (Mute.compositional.discard
      (Mute.compositional.mustMatchSmart _)) hleads).bind
      fun _ m s₁ h₁ _ hn₁ ⟨hm, hbeyond, hs₁, hnear₁⟩ => ?_
    obtain rfl := hm
    exact (hstarted h₁ hs₁ hnear₁ (hn₁.raise (Nat.le_succ m) hbeyond)).lower (Nat.le_succ m)

theorem blockTo {depth : Nat} (hd : d ≤ depth) : InTurnBlock d (Parser.blockTo depth) := by
  induction d generalizing depth with
  | zero =>
    refine ⟨Orderly.blockTo depth, fun _ _ {s n} hs _ _ hd hn _ => ?_⟩
    have hle := hs.isSound.offset_le
    have hn := hn.le
    omega
  | succ d ih =>
    obtain ⟨depth, rfl⟩ : ∃ l, depth = l + 1 := ⟨depth - 1, by omega⟩
    exact blockWith (ih (Nat.le_of_succ_le_succ hd)) fun d => Runs.blockTo_self d depth

end InTurn

theorem InTurn.block {d : Nat} : InTurnBlock d Parser.block := by
  refine ⟨Orderly.block, fun start shape {s n} hs hnear hselectors hd hn hopened =>
    budget_bind ?_⟩
  have hbudget : Text.byteLength s.stream.source + 64 ≤ s.budget := hs.isSound.budget
  exact (blockTo (d := s.budget) (Nat.le_refl _)).inTurn start shape hs hnear hselectors
    (by omega) hn hopened

namespace InTurn

variable {n : Nat} {s : State} {t : Token}

/-! ## Stylesheets -/

theorem topRule (hs : s.InOrder) (h : Front t s.stream) (ht : t.IsCut s.stream.source)
    (hn : s.Complained t.location.offset) :
    InTurn t.location.offset (Parser.topRule t) s fun _ _ _ => True := by
  have hd : Text.byteLength s.stream.source <
      t.location.offset + (Text.byteLength s.stream.source + 1) := by omega
  unfold Parser.topRule
  split
  · next hkind =>
    have hhand : s.stream.At t := h.at_of_kind (by rw [hkind]; rfl)
    exact atRule block hs hhand hkind hd hn true
  · exact pure hs.isSound hn trivial
  · refine ((styleRule block hs (.front h) ht (Or.inr h) hd hn).and_orderly
      (Orderly.styleRule Orderly.block hs (.front h) ht (Or.inr h))).bind
      fun outcome m s₁ h₁ _ hn₁ ⟨_, hs₁, hready⟩ => ?_
    split
    · exact item_bind false hs₁ hready hn₁ fun u s₂ h₂ _ _ _ _ hn₂ =>
        ite (fun _ => pure h₂.isSound hn₂ trivial) fun _ => throw h₂.isSound rfl (Nat.le_refl _) hn₂
    · exact pure h₁.isSound hn₁ trivial

theorem sheetStep (hs : s.InOrder) (hready : s.stream.Ready) (hn : s.Complained n) :
    InTurn n (Parser.sheetStep ()) s
      (Turn (fun _ _ s' => s'.InOrder ∧ s'.stream.Ready) fun _ _ _ => True) := by
  have hstep : InTurn n (Parser.sheetStep ()) s fun _ _ _ => True := by
    unfold Parser.sheetStep
    refine item_bind false hs hready hn fun t s₁ h₁ hs₁ hfront hcut _ hn₁ => ?_
    refine ite (fun _ => pure h₁.isSound hn₁ trivial) fun _ => ?_
    refine (topRule hs₁ hfront hcut hn₁).attempt_bind
      (fun _ m s₂ _ h₂ _ hn₂ _ => pure h₂.isSound hn₂ trivial)
      fun e loc s₂ _ h₂ hloc _ hn₂ => options_bind hn₂ fun hlax => ite (fun hstrict => ?_)
        fun _ => ?_
    · exact absurd (hlax.symm.trans hstrict) Bool.false_ne_true
    · exact (report h₂.isSound hn₂ hloc (Nat.le_refl _) (Nat.le_refl _) hn₂.le
        (Or.inl (Nat.le_refl _))).bind fun _ _ s₃ h₃ _ hn₃ _ => pure h₃.isSound hn₃ trivial
  refine (hstep.and_orderly (Orderly.sheetStep hs hready)).weaken ?_
  rintro (_ | _) m s' _ _ _ ⟨_, hs', hturn⟩
  · trivial
  · exact ⟨hs', hturn⟩

theorem sheetLoop (hs : s.InOrder) (hready : s.stream.Ready) (hn : s.Complained n) :
    InTurn n (Parser.repeating () Parser.sheetStep) s fun _ _ _ => True :=
  repeating (I := fun _ _ s' => s'.InOrder ∧ s'.stream.Ready) hs.isSound hn ⟨hs, hready⟩
    (fun _ _ _ _ _ hn₁ h => sheetStep h.1 h.2 hn₁) fun _ _ _ _ => trivial

theorem sheet (text : String) (options : Options) (hlax : options.strict = false) :
    ∃ n, (Parser.sheet (State.initial text options .fresh none)).2.Complained n ∧
      (Parser.sheet (State.initial text options .fresh none)).2.stream.source =
        normalizeNewlines text.toList := by
  set s := State.initial text options .fresh none
  have hs : s.InOrder := State.inOrder_initial text options .fresh
  have hstarted : s.started.InOrder := by
    refine ⟨⟨hs.isSound.stream, hs.isSound.budget, hs.isSound.store, hs.isSound.deferred⟩, hs.flush,
      fun e he => ?_, hs.deferred⟩
    obtain rfl := List.mem_singleton.mp he
    trivial
  have hnear : s.started.stream.Near := State.near_initial text options .fresh
  have hn : s.started.Complained 0 :=
    ⟨hlax, rfl, Nat.zero_le _, fun _ he => absurd he List.not_mem_nil, List.Pairwise.nil⟩
  have hloop := sheetLoop hstarted hnear.ready hn
  have hfirst := Parser.fire_apply (s := s) rfl hs.isSound.store .startStylesheet .start
  obtain ⟨hkeeps, herror, hok⟩ := hloop
  rcases hrun : Parser.repeating () Parser.sheetStep s.started with ⟨e | u, s₁⟩ <;>
    rw [hrun] at hkeeps herror hok
  · have hsheet : Parser.sheet s = (.error e, s₁) :=
      (Parser.bind_ok hfirst).trans (Parser.bind_error hrun)
    obtain ⟨loc, -, -, hn₁⟩ := herror e rfl
    rw [hsheet]
    exact ⟨loc.offset, hn₁, hkeeps.source_eq⟩
  · obtain ⟨n, -, hn₁, -⟩ := hok u rfl
    have hlast := Parser.fire_apply (s := s₁) hn₁.reported hkeeps.isSound.store
      .endStylesheet s₁.stream.current.location
    have hsheet : Parser.sheet s = (.ok (), { s₁ with
        events := ⟨.endStylesheet, s₁.stream.current.location⟩ :: s₁.events }) :=
      ((Parser.bind_ok hfirst).trans (Parser.bind_ok hrun)).trans hlast
    rw [hsheet]
    exact ⟨n, ⟨hn₁.lax, hn₁.reported, hn₁.le, hn₁.past, hn₁.inTurn⟩, hkeeps.source_eq⟩

end InTurn

/-- **The diagnostics of a stylesheet come in the order of the source.** Every one
of them has a place, and none points further back than one before it. The one
exception is the complaint about the prelude of an `@scope`: the rule is passed
over from its name on, so that what is complained of next may come before it. -/
theorem sheet_inTurn (text : String) (options : Options) (hlax : options.strict = false) :
    (∀ e ∈ diagnosticsOf (parseSheet text options).events, e.location ≠ none) ∧
      (diagnosticsOf (parseSheet text options).events).Pairwise fun earlier later =>
        later.IsAfter (normalizeNewlines text.toList) earlier := by
  obtain ⟨n, hn, hsource⟩ := InTurn.sheet text options hlax
  have hevents : diagnosticsOf (parseSheet text options).events =
      (diagnosticsOf (Parser.sheet (State.initial text options .fresh none)).2.events).reverse :=
    List.filterMap_reverse
  rw [hevents]
  refine ⟨fun e he => ?_, List.pairwise_reverse.mpr ?_⟩
  · obtain ⟨loc, hloc, -⟩ := hn.past e (List.mem_reverse.mp he)
    rw [hloc]
    exact Option.some_ne_none _
  · rw [← hsource]
    exact hn.inTurn

/-- A rule with two broken items. -/
theorem sheet_inTurn_rule :
    ({} : Options).strict = false ∧
      (diagnosticsOf (parseSheet "a\x7b!;]\x7d" {}).events).filterMap
        (fun e => e.location.map (·.offset)) = [2, 4] ∧
      ((∀ e ∈ diagnosticsOf (parseSheet "a\x7b!;]\x7d" {}).events, e.location ≠ none) ∧
        (diagnosticsOf (parseSheet "a\x7b!;]\x7d" {}).events).Pairwise fun earlier later =>
          later.IsAfter (normalizeNewlines "a\x7b!;]\x7d".toList) earlier) :=
  ⟨rfl, by decide +kernel, sheet_inTurn "a\x7b!;]\x7d" {} rfl⟩

/-- **A complaint that strays.** The prelude is broken at its end, but passing over
the rule stops at the bracket inside it that closes nothing. -/
theorem sheet_strayed :
    (diagnosticsOf (parseSheet "@scope(:x(])\x7b\x7d" {}).events).filterMap
      (fun e => e.location.map (·.offset)) = [12, 10, 11, 12, 13] := by
  decide +kernel

end Stylesheet
