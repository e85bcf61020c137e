import Stylesheet.Proofs.WrittenOut

/-!
# Marks of variables

A value is marked if something in it is not known before it is used: a
placeholder, or a variable of the sheet or of the environment. The mark turns off
the checks of a whole declaration, so it should be there exactly if such a part
stands somewhere in the value, at any depth (`Parser.isVar_of_expr`).

The marks are made from the inside out. A single token is marked by its kind, a
block takes over the mark of what stands inside it, and a function does so unless
its name alone is enough. What is carried through the loop over the parts and
through the brackets is that all parts read so far have the right marks, those
inside them included (`ValuePart.Exact`).
-/

namespace Stylesheet

open Parse (State)

namespace PartType

variable {t : Token}

theorem ofToken_eq_variable : ofToken t = .variable ↔ t.kind = .uvar := by
  unfold ofToken
  cases t.kind <;> dsimp only <;> (try split_ifs) <;> simp

theorem ofToken_eq_function : ofToken t = .function ↔ t.kind = .function := by
  unfold ofToken
  cases t.kind <;> dsimp only <;> (try split_ifs) <;> simp

end PartType

namespace ValuePart

variable {p q : ValuePart} {ps : List ValuePart}

/-- **A part that is not known** before it is used: a placeholder, or a reference
to a variable that says which. -/
def IsUnknown (p : ValuePart) : Prop :=
  p.type = .variable ∨
    p.type = .function ∧ (p.token.name = "var" ∨ p.token.name = "env") ∧ p.inner ≠ []

/-- **Something among these parts is not known**, or inside one of them at any
depth. -/
def AnyUnknown (ps : List ValuePart) : Prop := ∃ p : ValuePart, p.In ps ∧ p.IsUnknown

theorem not_anyUnknown_nil : ¬AnyUnknown [] := fun ⟨_, hp, _⟩ => not_in_nil hp

/-- It is the part itself, or stands inside it. -/
theorem anyUnknown_singleton : AnyUnknown [p] ↔ p.IsUnknown ∨ AnyUnknown p.inner := by
  constructor
  · rintro ⟨q, hq, hunknown⟩
    rcases in_singleton.mp hq with rfl | hq
    · exact Or.inl hunknown
    · exact Or.inr ⟨q, hq, hunknown⟩
  · rintro (hunknown | ⟨q, hq, hunknown⟩)
    · exact ⟨p, in_singleton.mpr (Or.inl rfl), hunknown⟩
    · exact ⟨q, in_singleton.mpr (Or.inr hq), hunknown⟩

/-- It is one of the parts, or stands inside one of them. -/
theorem anyUnknown_iff : AnyUnknown ps ↔ ∃ p ∈ ps, AnyUnknown [p] := by
  constructor
  · rintro ⟨q, hq | ⟨hp, hq⟩, hunknown⟩
    · exact ⟨q, hq, q, .here List.mem_cons_self, hunknown⟩
    · exact ⟨_, hp, q, .inside List.mem_cons_self hq, hunknown⟩
  · rintro ⟨p, hp, q, hq, hunknown⟩
    rcases in_singleton.mp hq with rfl | hq
    · exact ⟨q, .here hp, hunknown⟩
    · exact ⟨q, .inside hp hq, hunknown⟩

/-- **A part with the right marks**: its own, and that of what stands inside
it. -/
structure Exact (p : ValuePart) : Prop where
  /-- Its own mark. -/
  own : p.isVar = true ↔ AnyUnknown [p]
  /-- The mark of what stands inside it. -/
  inside : ∀ v, p.expr = some v → (v.isVar = true ↔ AnyUnknown v.parts)

/-- **A value of parts with the right marks** has the right mark. -/
theorem isVar_ofParts (h : ∀ p : ValuePart, p.In ps → p.Exact) (source : List Char) :
    (ValueOf.ofParts ps source).isVar = true ↔ AnyUnknown ps := by
  show ps.any (·.isVar) = true ↔ _
  rw [List.any_eq_true, anyUnknown_iff]
  exact exists_congr fun p => and_congr_right fun hp => (h p (.here hp)).own

end ValuePart

open ValuePart (AnyUnknown anyUnknown_singleton not_anyUnknown_nil)

namespace Parser

variable {s s' : State} {inner : ExprParser} {t : Token} {raw : Bool} {part : ValuePart}

/-- **A value with the right marks**, its own and those of its parts at any
depth. -/
structure Marked (v : Value) : Prop where
  /-- It has a part. -/
  nonempty : v.parts ≠ []
  /-- Its own mark. -/
  own : v.isVar = true ↔ AnyUnknown v.parts
  /-- The marks of its parts. -/
  parts : ∀ p : ValuePart, p.In v.parts → p.Exact

/-- **A reader of values that sets the right marks.** -/
def Marks (inner : ExprParser) : Prop :=
  ∀ (ends : List TokenKind) (raw : Bool) (s s' : State) (v : Value),
    inner ends raw s = (.ok (some v), s') → Marked v

/-- A part whose inside has the right marks, if its own mark is right. -/
theorem exact_of_inside (hinside : ∀ v, part.expr = some v → Marked v)
    (hown : part.isVar = true ↔ part.IsUnknown ∨ AnyUnknown part.inner) {p : ValuePart}
    (hp : p.In [part]) : p.Exact := by
  rcases ValuePart.in_singleton.mp hp with rfl | hp
  · exact ⟨hown.trans anyUnknown_singleton.symm, fun v hv => (hinside v hv).own⟩
  · cases hexpr : part.expr with
    | none =>
      unfold ValuePart.inner at hp
      rw [hexpr] at hp
      exact absurd hp ValuePart.not_in_nil
    | some v =>
      unfold ValuePart.inner at hp
      rw [hexpr] at hp
      exact (hinside v hexpr).parts p hp

/-! ## Kinds of parts -/

/-- **A token that is a part by itself** is marked if it is a placeholder. -/
theorem isVar_tokenOf (hfunction : ¬(t.kind == .function) = true) :
    (tokenOf t raw).isVar = true ↔
      (tokenOf t raw).IsUnknown ∨ AnyUnknown (tokenOf t raw).inner := by
  have hplain : (tokenOf t raw).isVar = (t.kind == .uvar) ∧ (tokenOf t raw).inner = [] ∧
      ((tokenOf t raw).type = .ofToken t ∨
        (tokenOf t raw).type = .color ∧ (t.kind == .uvar) = false) := by
    unfold tokenOf hashOf wordPart
    dsimp only
    split_ifs with _ hhash _ hword
    · exact ⟨rfl, rfl, Or.inl rfl⟩
    · exact ⟨rfl, rfl, Or.inr ⟨rfl, by rw [eq_of_beq hhash]; rfl⟩⟩
    · exact ⟨rfl, rfl, Or.inl rfl⟩
    · exact ⟨rfl, rfl, Or.inl rfl⟩
    · refine ⟨rfl, rfl, Or.inr ⟨rfl, ?_⟩⟩
      rw [eq_of_beq (Bool.and_eq_true_iff.mp hword).1]
      rfl
    · exact ⟨rfl, rfl, Or.inl rfl⟩
    · exact ⟨rfl, rfl, Or.inl rfl⟩
  obtain ⟨hvar, hinner, htype⟩ := hplain
  have hcall : (tokenOf t raw).type ≠ .function := by
    rcases htype with htype | ⟨htype, -⟩ <;> rw [htype]
    · exact fun h => hfunction (beq_iff_eq.mpr (PartType.ofToken_eq_function.mp h))
    · exact PartType.noConfusion
  have hunknown : (tokenOf t raw).IsUnknown ↔ t.kind = .uvar := by
    unfold ValuePart.IsUnknown
    rw [or_iff_left fun h => hcall h.1]
    rcases htype with htype | ⟨htype, hkind⟩ <;> rw [htype]
    · exact PartType.ofToken_eq_variable
    · exact iff_of_false PartType.noConfusion (beq_eq_false_iff_ne.mp hkind)
  rw [hvar, beq_iff_eq, hinner, hunknown, or_iff_left not_anyUnknown_nil]

/-- **A block** is marked if something inside it is not known. -/
theorem isVar_blockOf {inside : Option Value} (hinside : ∀ v, inside = some v → Marked v)
    (text : String) (last : Token) : (blockOf t inside text last).isVar = true ↔
      (blockOf t inside text last).IsUnknown ∨ AnyUnknown (blockOf t inside text last).inner := by
  have hblock : ¬(blockOf t inside text last).IsUnknown := by
    rintro (h | ⟨h, -⟩) <;> cases h
  rw [or_iff_right hblock]
  cases inside with
  | none => exact iff_of_false Bool.false_ne_true not_anyUnknown_nil
  | some v => exact (hinside v rfl).own

/-- **A function** is marked if it refers to a variable, or something in its
arguments is not known. -/
theorem isVar_functionOf (hfunction : (t.kind == .function) = true) {args : Option Value}
    (hargs : ∀ v, args = some v → Marked v) (text : String) (close : Token) :
    (functionOf t args text close).isVar = true ↔
      (functionOf t args text close).IsUnknown ∨
        AnyUnknown (functionOf t args text close).inner := by
  have htype : PartType.ofToken t = .function :=
    PartType.ofToken_eq_function.mpr (eq_of_beq hfunction)
  cases args with
  | none =>
    -- a reference has to say what it refers to
    refine iff_of_false ?_ ?_
    · show ¬(t.kind == .uvar) = true
      rw [eq_of_beq hfunction]
      exact Bool.false_ne_true
    · rintro ((h | ⟨-, -, h⟩) | h)
      · exact PartType.noConfusion (htype.symm.trans h)
      · exact h rfl
      · exact not_anyUnknown_nil h
  | some v =>
    have hv := hargs v rfl
    have hunknown : (functionOf t (some v) text close).IsUnknown ↔
        t.name = "var" ∨ t.name = "env" := by
      refine ⟨?_, fun hname => Or.inr ⟨htype, hname, hv.nonempty⟩⟩
      rintro (h | ⟨-, hname, -⟩)
      · exact PartType.noConfusion (htype.symm.trans h)
      · exact hname
    rw [hunknown]
    show (v.isVar || t.name == "var" || t.name == "env") = true ↔
      (t.name = "var" ∨ t.name = "env") ∨ AnyUnknown v.parts
    rw [Bool.or_eq_true, Bool.or_eq_true, beq_iff_eq, beq_iff_eq, hv.own, or_assoc]
    exact or_comm

/-- **One part** has the right marks, and so has everything inside it. -/
theorem Marks.onePart (hinner : Marks inner) (h : partOf inner t raw s = (.ok part, s'))
    {p : ValuePart} (hp : p.In [part]) : p.Exact := by
  unfold partOf at h
  cases hclosing : closingKind? t.kind with
  | some close =>
    rw [hclosing] at h
    obtain ⟨inside, hrun, -, rfl⟩ := blockPart_eq_ok.mp h
    have hinside : ∀ v, inside = some v → Marked v := fun v hv => hinner _ _ _ _ v (hv ▸ hrun)
    exact exact_of_inside hinside (isVar_blockOf hinside _ _) hp
  | none =>
    rw [hclosing] at h
    by_cases hfunction : (t.kind == .function) = true
    · obtain ⟨args, hrun, -, rfl⟩ := functionPart_eq_ok.mp (functionPart_of_plainPart hfunction h)
      have hargs : ∀ v, args = some v → Marked v := fun v hv => hinner _ _ _ _ v (hv ▸ hrun)
      refine exact_of_inside (fun v hv => hargs v ?_) (isVar_functionOf hfunction hargs _ _) hp
      rw [← hv]
      cases args <;> rfl
    · obtain ⟨s₁, hrun, -⟩ := @plainPart_apply inner t raw hfunction s
      obtain ⟨hpart, -⟩ := Prod.mk.inj (hrun.symm.trans h)
      obtain rfl := Except.ok.inj hpart
      have hexpr : (tokenOf t raw).expr = none := by
        unfold tokenOf hashOf wordPart
        dsimp only
        split_ifs <;> rfl
      refine exact_of_inside (fun v hv => ?_) (isVar_tokenOf hfunction) hp
      rw [hexpr] at hv
      cases hv

/-! ## Values -/

/-- **The parts of a value** all have the right marks. The induction is on the
rounds of the loop. -/
theorem Marks.rounds (hinner : Marks inner) {ends : List TokenKind} {n : Nat}
    {before parts : List ValuePart} (hbefore : ∀ p : ValuePart, p.In before → p.Exact)
    (h : rounds (exprStep inner ends raw) n before s = (.ok parts, s')) :
    ∀ p : ValuePart, p.In parts → p.Exact := by
  induction n generalizing before s with
  | zero =>
    cases h
    exact hbefore
  | succ n ih =>
    rcases rounds_eq_ok.mp h with hdone | ⟨more, s₁, hyield, hrest⟩
    · obtain ⟨-, rfl, -⟩ := exprStep_eq_done.mp hdone
      exact hbefore
    · obtain ⟨-, part, hpart, rfl⟩ := exprStep_eq_yield.mp hyield
      refine ih (fun p hp => ?_) hrest
      rcases ValuePart.in_append.mp (show p.In ([part] ++ before) from hp) with hp | hp
      · exact hinner.onePart hpart hp
      · exact hbefore p hp

/-- **Values with brackets nested to any depth.** -/
theorem marks_exprTo (depth : Nat) : Marks (exprTo depth) := by
  induction depth with
  | zero =>
    intro ends raw s s' v h
    cases h
  | succ depth ih =>
    intro ends raw s s' v h
    obtain ⟨parts, hrounds, hv⟩ := exprTo_eq_ok.mp h
    have hparts := ih.rounds (fun p hp => absurd hp ValuePart.not_in_nil) hrounds
    unfold valueOf at hv
    split_ifs at hv with hempty
    obtain rfl := Option.some.inj hv
    have hreverse : ∀ p : ValuePart, p.In parts.reverse → p.Exact := by
      rintro p (hp | ⟨hq, hp⟩)
      · exact hparts p (.here (List.mem_reverse.mp hp))
      · exact hparts p (.inside (List.mem_reverse.mp hq) hp)
    exact ⟨fun hnil => hempty (by rw [List.reverse_eq_nil_iff.mp hnil]; rfl),
      ValuePart.isVar_ofParts hreverse _, hreverse⟩

/-- **The marks of variables are exact.** Wherever a value is read, whatever ends
it and whether it is raw: it is marked if and only if something in it, at any
depth, is a placeholder or a reference to a variable. The same holds of each of
its parts with what stands inside it, and of the values inside. -/
theorem isVar_of_expr {ends : List TokenKind} {v : Value}
    (h : expr ends raw s = (.ok (some v), s')) :
    (v.isVar = true ↔ ∃ p : ValuePart, p.In v.parts ∧ p.IsUnknown) ∧
      ∀ p : ValuePart, p.In v.parts →
        (p.isVar = true ↔ p.IsUnknown ∨ ∃ q : ValuePart, q.In p.inner ∧ q.IsUnknown) ∧
        ∀ w, p.expr = some w → (w.isVar = true ↔ ∃ q : ValuePart, q.In w.parts ∧ q.IsUnknown) := by
  have hmarked := marks_exprTo s.budget ends raw s s' v h
  exact ⟨hmarked.own, fun p hp =>
    ⟨(hmarked.parts p hp).own.trans anyUnknown_singleton, (hmarked.parts p hp).inside⟩⟩

/-- A variable inside a block that is an argument. -/
theorem isVar_of_expr_nested :
    let s := State.initial "a(b [-x-Var(--c)]) d" {} .fresh none
    ∃ v s', expr [.semicolon] false s = (.ok (some v), s') ∧ v.text = "a(b [-x-Var(--c)]) d" ∧
      ∃ p : ValuePart, p.In v.parts ∧ p.IsUnknown := by
  intro s
  have hread : (expr [.semicolon] false s).1.toOption.join.map (fun v => (v.text, v.isVar)) =
      some ("a(b [-x-Var(--c)]) d", true) := by decide +kernel
  rcases hrun : expr [.semicolon] false s with ⟨e | _ | v, s'⟩ <;> rw [hrun] at hread
  · cases hread
  · cases hread
  · obtain ⟨htext, hvar⟩ := Prod.mk.inj (Option.some.inj hread)
    exact ⟨v, s', rfl, htext, (isVar_of_expr hrun).1.mp hvar⟩

end Parser

end Stylesheet
