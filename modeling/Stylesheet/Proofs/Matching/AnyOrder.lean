import Stylesheet.Proofs.Matching.Steps

/-!
# Members in any order

The search for members goes back on what it has tried, and shares one
record of the members in use among all attempts. A search that fails
leaves the record and the cursor as they were. One that succeeds has
taken the pieces of distinct members, exactly those that the record has
gained, and it ended where the count was the one wanted.

The first search wants all members. When it fails it has learned the
highest count that any attempt reached, and the second search wants just
that. It goes over the same attempts in the same order, since notes that
the first one took make no difference, and so it succeeds.
-/

namespace Stylesheet.Grammar

/-- What a member adds to the count. -/
def Member.weight (member : Member) : Nat := if member.counts then 1 else 0

namespace AnyOrder

variable {members : List Member} {retry : Bool} {count : Nat}
  {deeper deeper' : Nat → Search → Cursor → Bool × Search × Cursor}
  {rest : List (Nat × Member)} {i : Nat} {member : Member} {search search' : Search}
  {it it' after : Cursor} {found : Bool} {Ls : Nat → Language}

/-- Whether a member is in use. -/
def Search.uses (search : Search) (i : Nat) : Bool := search.seen[i]?.getD false

/-! ## One member -/

/-- **What the search does with a member**: it passes over one that is in
use; it goes deeper after one that matches, and goes on with the others
if that fails; and it goes on after one that does not match. -/
theorem tryFrom_cases
    (hrun : tryFrom members retry count deeper ((i, member) :: rest) search it =
      (found, search', after)) :
    (search.uses i = true ∧
      tryFrom members retry count deeper rest search it = (found, search', after)) ∨
    (search.uses i = false ∧ ∃ n between, member.step it = (some (n + 1), between) ∧
      ∃ found₁ search₁ after₁, deeper (count + member.weight)
          { search with seen := search.seen.set i true } between = (found₁, search₁, after₁) ∧
        (found₁ = true ∧ (found, search', after) = (true, search₁, after₁) ∨
          found₁ = false ∧ tryFrom members retry count deeper rest
            { search₁ with seen := search₁.seen.set i false } { after₁ with pos := it.pos } =
              (found, search', after))) ∨
    (search.uses i = false ∧ (∀ n, (member.step it).1 ≠ some (n + 1)) ∧
      tryFrom members retry count deeper rest search { (member.step it).2 with pos := it.pos } =
        (found, search', after)) := by
  unfold tryFrom at hrun
  split at hrun
  · next huses => exact .inl ⟨huses, hrun⟩
  · next huses =>
    have hfree : search.uses i = false := by simpa [Search.uses] using huses
    split at hrun
    · next n between hstep =>
      rcases hdeep : deeper (count + member.weight)
        { search with seen := search.seen.set i true } between with ⟨found₁, search₁, after₁⟩
      refine .inr (.inl ⟨hfree, n, between, hstep, found₁, search₁, after₁, hdeep, ?_⟩)
      have hdeep' : deeper (count + if member.counts = true then 1 else 0)
          { search with seen := search.seen.set i true } between = (found₁, search₁, after₁) := hdeep
      dsimp only at hrun
      rw [hdeep'] at hrun
      cases found₁ with
      | true => exact .inl ⟨rfl, hrun.symm⟩
      | false => exact .inr ⟨rfl, hrun⟩
    · next k between hne hstep =>
      refine .inr (.inr ⟨hfree, fun n hn => ?_, ?_⟩)
      · rw [hstep] at hn
        exact hne n hn
      · rw [hstep]
        exact hrun

/-- Taking back a member that was put to use. -/
theorem set_false_of_free (hfree : search.uses i = false) :
    (search.seen.set i true).set i false = search.seen := by
  rw [List.set_set]
  apply List.ext_getElem?
  intro j
  rw [List.getElem?_set]
  split_ifs with hij hlt
  · subst hij
    have hsome : search.seen[i]? = some search.seen[i] := List.getElem?_eq_getElem hlt
    rw [Search.uses, hsome] at hfree
    rw [hsome]
    exact congrArg some hfree.symm
  · subst hij
    exact (List.getElem?_eq_none (Nat.le_of_not_lt hlt)).symm
  · rfl

/-! ## Attempts that fail -/

/-- **A search that leaves everything as it was when it fails**, but for
notes and for the most that was found. -/
def GivesBack (retry : Bool) (f : Nat → Search → Cursor → Bool × Search × Cursor) : Prop :=
  ∀ count search it search' after, f count search it = (false, search', after) →
    search'.seen = search.seen ∧ after.Alike it ∧ search.best ≤ search'.best ∧
      (retry = true → search'.best = search.best)

theorem tryFrom_givesBack (hdeeper : GivesBack retry deeper)
    (hrest : ∀ entry ∈ rest, entry.2.step.Advances)
    (hrun : tryFrom members retry count deeper rest search it = (false, search', after)) :
    search'.seen = search.seen ∧ after.Alike it ∧ search.best ≤ search'.best ∧
      (retry = true → search'.best = search.best) := by
  induction rest generalizing search it with
  | nil =>
    unfold tryFrom at hrun
    split at hrun
    · obtain ⟨-, rfl, rfl⟩ : _ ∧ search = search' ∧ it = after := by simpa using hrun
      exact ⟨rfl, .refl _, Nat.le_refl _, fun _ => rfl⟩
    · next hretry =>
      obtain ⟨-, rfl, rfl⟩ : _ ∧ { search with best := max search.best count } = search' ∧
        it = after := by simpa using hrun
      exact ⟨rfl, .refl _, Nat.le_max_left _ _, fun h => absurd h hretry⟩
  | cons entry rest ih =>
    obtain ⟨i, member⟩ := entry
    have hadvances := hrest (i, member) List.mem_cons_self it
    have hothers := fun entry he => hrest entry (List.mem_cons_of_mem _ he)
    rcases tryFrom_cases hrun with ⟨-, hrun⟩ |
      ⟨hfree, n, between, hstep, found₁, search₁, after₁, hdeep, hcase⟩ | ⟨-, -, hrun⟩
    · exact ih hothers hrun
    · obtain ⟨-, hfalse⟩ | ⟨rfl, hrun⟩ := hcase
      · cases hfalse
      · obtain ⟨hseen, halike, hbest, hsame⟩ := hdeeper _ _ _ _ _ hdeep
        obtain ⟨hseen', halike', hbest', hsame'⟩ := ih hothers hrun
        rw [hstep] at hadvances
        refine ⟨?_, halike'.trans ?_, Nat.le_trans hbest hbest',
          fun h => (hsame' h).trans (hsame h)⟩
        · rw [hseen']
          show search₁.seen.set i false = _
          rw [hseen]
          exact set_false_of_free hfree
        · exact ⟨halike.parts_eq.trans hadvances.parts_eq, rfl,
            halike.tryAttr_eq.trans hadvances.tryAttr_eq⟩
    · obtain ⟨hseen', halike', hbest'⟩ := ih hothers hrun
      exact ⟨hseen', halike'.trans ⟨hadvances.parts_eq, rfl, hadvances.tryAttr_eq⟩, hbest'⟩

theorem run_givesBack (hmembers : ∀ m ∈ members, m.step.Advances) (depth : Nat) :
    GivesBack retry (run members retry depth) := by
  induction depth with
  | zero =>
    intro count search it search' after hrun
    cases hrun
    exact ⟨rfl, .refl _, Nat.le_refl _, fun _ => rfl⟩
  | succ depth ih =>
    intro count search it search' after hrun
    exact tryFrom_givesBack ih (fun entry he => hmembers _ (List.of_mem_zip he).2) hrun

/-! ## Attempts that succeed -/

/-- **Pieces of some members**, one after another. -/
inductive Chosen (Ls : Nat → Language) (attr : Bool) : List Nat → List ValuePart → Prop where
  /-- No members take no parts. -/
  | nil : Chosen Ls attr [] []
  /-- One member after another. -/
  | cons {i : Nat} {order : List Nat} {ps qs : List ValuePart} :
      Ls i attr ps → Chosen Ls attr order qs → Chosen Ls attr (i :: order) (ps ++ qs)

/-- What some members add to the count. -/
def weightOf (members : List Member) : List Nat → Nat
  | [] => 0
  | i :: order => (members[i]?.map Member.weight).getD 0 + weightOf members order

/-- **What a search has gained** when it succeeds. -/
structure Gains (members : List Member) (Ls : Nat → Language) (retry : Bool) (count : Nat)
    (search : Search) (it : Cursor) (search' : Search) (after : Cursor) (order : List Nat) :
    Prop where
  /-- The members are distinct. -/
  nodup : order.Nodup
  /-- They were not in use before. -/
  free : ∀ i ∈ order, i < members.length ∧ search.uses i = false
  /-- They are the ones that are in use now. -/
  uses_iff : ∀ i, search'.uses i = true ↔ search.uses i = true ∨ i ∈ order
  /-- Their pieces were taken. -/
  takes : ∃ ps, it.Takes after ps ∧ Chosen Ls it.tryAttr order ps
  /-- The count is the one that was wanted. -/
  count_eq : count + weightOf members order = if retry then search.best else members.length
  /-- The record is as long as before. -/
  length_eq : search'.seen.length = search.seen.length
  /-- The most that was found is not changed a second time. -/
  best_eq : retry = true → search'.best = search.best

/-- A search that gains some members when it succeeds. -/
def Finds (members : List Member) (Ls : Nat → Language) (retry : Bool)
    (f : Nat → Search → Cursor → Bool × Search × Cursor) : Prop :=
  ∀ count search it search' after, search.seen.length = members.length →
    f count search it = (true, search', after) →
    ∃ order, Gains members Ls retry count search it search' after order

theorem uses_set (hi : i < search.seen.length) (j : Nat) :
    Search.uses { search with seen := search.seen.set i true } j = true ↔
      j = i ∨ search.uses j = true := by
  unfold Search.uses
  rw [List.getElem?_set]
  by_cases hij : i = j
  · subst hij
    simp [hi]
  · simp [hij, Ne.symm hij]

/-- **A member that matched, and those that were found after it.** -/
theorem Gains.cons {between : Cursor} {n : Nat} {order : List Nat}
    (hmember : members[i]? = some member) (hlength : search.seen.length = members.length)
    (hsound : member.step.Sound (Ls i)) (hadvances : member.step.Advances)
    (hfree : search.uses i = false) (hstep : member.step it = (some n, between))
    (h : Gains members Ls retry (count + member.weight)
      { search with seen := search.seen.set i true } between search' after order) :
    Gains members Ls retry count search it search' after (i :: order) := by
  have hi : i < members.length := (List.getElem?_eq_some_iff.mp hmember).1
  have huses : ∀ j, Search.uses { search with seen := search.seen.set i true } j = true ↔
      j = i ∨ search.uses j = true := uses_set (by rw [hlength]; exact hi)
  have hfollows : it.Follows between := by
    have := hadvances it
    rwa [hstep] at this
  have hnot : i ∉ order := by
    intro hmem
    have hused := (h.free i hmem).2
    rw [(huses i).mpr (.inl rfl)] at hused
    cases hused
  refine ⟨List.nodup_cons.mpr ⟨hnot, h.nodup⟩, ?_, fun j => ?_, ?_, ?_, ?_, h.best_eq⟩
  · rintro j hj
    rcases List.mem_cons.mp hj with rfl | hj
    · exact ⟨hi, hfree⟩
    · refine ⟨(h.free j hj).1, ?_⟩
      have hunused := (h.free j hj).2
      by_contra hused
      rw [(huses j).mpr (.inr (by simpa using hused))] at hunused
      cases hunused
  · rw [h.uses_iff, huses, List.mem_cons]
    tauto
  · obtain ⟨ps, hps, hL⟩ := hsound it n between hstep
    obtain ⟨qs, hqs, hchosen⟩ := h.takes
    rw [hfollows.tryAttr_eq] at hchosen
    exact ⟨ps ++ qs, hps.trans hfollows.parts_eq hqs, .cons hL hchosen⟩
  · rw [← h.count_eq]
    rw [weightOf, hmember, Option.map_some, Option.getD_some, Nat.add_assoc]
  · rw [h.length_eq]
    exact List.length_set

/-- A search that went on from a cursor with other notes. -/
theorem Gains.of_alike {order : List Nat} {before : Search}
    (h : Gains members Ls retry count search it' search' after order) (halike : it'.Alike it)
    (hseen : search.seen = before.seen) (hbest : retry = true → search.best = before.best) :
    Gains members Ls retry count before it search' after order := by
  have huses : ∀ i, search.uses i = before.uses i := fun i => by
    unfold Search.uses
    rw [hseen]
  refine ⟨h.nodup, fun i hi => ⟨(h.free i hi).1, (huses i).symm.trans (h.free i hi).2⟩,
    fun i => by rw [h.uses_iff, huses], ?_, ?_, h.length_eq.trans (congrArg _ hseen),
    fun hretry => (h.best_eq hretry).trans (hbest hretry)⟩
  · obtain ⟨ps, hps, hchosen⟩ := h.takes
    rw [halike.tryAttr_eq] at hchosen
    exact ⟨ps, hps.of_start_eq halike.pos_eq.symm halike.parts_eq.symm, hchosen⟩
  · rw [h.count_eq]
    cases retry with
    | true => exact hbest rfl
    | false => rfl

variable (hmembers : ∀ (i : Nat) (m : Member), members[i]? = some m →
  m.step.Sound (Ls i) ∧ m.step.Advances)

include hmembers in
theorem tryFrom_finds (hdeeper : Finds members Ls retry deeper) (hback : GivesBack retry deeper)
    (hrest : ∀ entry ∈ rest, members[entry.1]? = some entry.2)
    (hlength : search.seen.length = members.length)
    (hrun : tryFrom members retry count deeper rest search it = (true, search', after)) :
    ∃ order, Gains members Ls retry count search it search' after order := by
  induction rest generalizing search it with
  | nil =>
    refine ⟨[], ?_⟩
    unfold tryFrom at hrun
    split at hrun
    · next hretry =>
      obtain ⟨hcount, rfl, rfl⟩ : count = search.best ∧ search = search' ∧ it = after := by
        simpa using hrun
      exact ⟨.nil, by simp, by simp, ⟨[], .nil rfl, .nil⟩, by simp [weightOf, hretry, hcount], rfl,
        fun _ => rfl⟩
    · next hretry =>
      obtain ⟨hcount, rfl, rfl⟩ : count = members.length ∧
          { search with best := max search.best count } = search' ∧ it = after := by
        simpa using hrun
      exact ⟨.nil, by simp, by simp [Search.uses], ⟨[], .nil rfl, .nil⟩,
        by simp [weightOf, hretry, hcount], rfl, fun h => absurd h hretry⟩
  | cons entry rest ih =>
    obtain ⟨i, member⟩ := entry
    have hmember := hrest (i, member) List.mem_cons_self
    obtain ⟨hsound, hadvances⟩ := hmembers i member hmember
    have hfollows := hadvances it
    have hothers := fun entry he => hrest entry (List.mem_cons_of_mem _ he)
    rcases tryFrom_cases hrun with ⟨-, hrun⟩ |
      ⟨hfree, n, between, hstep, found₁, search₁, after₁, hdeep, hcase⟩ | ⟨-, -, hrun⟩
    · exact ih hothers hlength hrun
    · obtain ⟨rfl, hfound⟩ | ⟨rfl, hrun⟩ := hcase
      · cases hfound
        obtain ⟨order, hgains⟩ := hdeeper _ _ _ _ _ (by rwa [List.length_set]) hdeep
        exact ⟨i :: order, hgains.cons hmember hlength hsound hadvances hfree hstep⟩
      · -- the attempt is taken back, and the search goes on from where it was
        obtain ⟨hseen, halike, -, hbest⟩ := hback _ _ _ _ _ hdeep
        have hrestored : search₁.seen.set i false = search.seen := by
          rw [hseen]
          exact set_false_of_free hfree
        rw [hstep] at hfollows
        obtain ⟨order, hgains⟩ := ih hothers (by rw [hrestored]; exact hlength) hrun
        exact ⟨order, hgains.of_alike ⟨halike.parts_eq.trans hfollows.parts_eq, rfl,
          halike.tryAttr_eq.trans hfollows.tryAttr_eq⟩ hrestored hbest⟩
    · obtain ⟨order, hgains⟩ := ih hothers hlength hrun
      exact ⟨order, hgains.of_alike ⟨hfollows.parts_eq, rfl, hfollows.tryAttr_eq⟩ rfl fun _ => rfl⟩

/-- The members with their places. -/
theorem getElem?_of_mem_zip {entry : Nat × Member}
    (h : entry ∈ (List.range members.length).zip members) : members[entry.1]? = some entry.2 := by
  obtain ⟨k, hk⟩ := List.mem_iff_getElem?.mp h
  obtain ⟨hrange, hmember⟩ := List.getElem?_zip_eq_some.mp hk
  obtain ⟨hlt, hk'⟩ := List.getElem?_eq_some_iff.mp hrange
  rw [List.getElem_range] at hk'
  rw [← hk']
  exact hmember

include hmembers in
theorem run_finds (depth : Nat) : Finds members Ls retry (run members retry depth) := by
  have hadvances : ∀ m ∈ members, m.step.Advances := fun m hm => by
    obtain ⟨i, hi⟩ := List.mem_iff_getElem?.mp hm
    exact (hmembers i m hi).2
  induction depth with
  | zero =>
    intro count search it search' after _ hrun
    cases hrun
  | succ depth ih =>
    intro count search it search' after hlength hrun
    exact tryFrom_finds hmembers ih (run_givesBack hadvances depth)
      (fun entry he => getElem?_of_mem_zip he) hlength hrun

/-! ## The second search -/

/-- **A search that succeeds where another one has learned something**:
if the first one fails and has raised the most that was found, then the
second one succeeds when it wants just as many. -/
def Repeats (f f' : Nat → Search → Cursor → Bool × Search × Cursor) : Prop :=
  ∀ count search it it' search' after, f count search it = (false, search', after) →
    it.Alike it' → search.best < search'.best →
    (f' count { search with best := search'.best } it').1 = true

theorem tryFrom_repeats (hdeeper : Repeats deeper deeper') (hback : GivesBack false deeper)
    (hback' : GivesBack true deeper') (hblind : ∀ entry ∈ rest, entry.2.step.Blind)
    (hadvances : ∀ entry ∈ rest, entry.2.step.Advances)
    (hrun : tryFrom members false count deeper rest search it = (false, search', after))
    (halike : it.Alike it') (hlt : search.best < search'.best) :
    (tryFrom members true count deeper' rest { search with best := search'.best } it').1 = true := by
  induction rest generalizing search it it' with
  | nil =>
    unfold tryFrom at hrun ⊢
    obtain ⟨-, rfl, -⟩ : _ ∧ { search with best := max search.best count } = search' ∧ it = after := by
      simpa using hrun
    dsimp only at hlt ⊢
    rw [if_pos rfl]
    simpa using (Nat.max_eq_right (by omega : search.best ≤ count)).symm
  | cons entry rest ih =>
    obtain ⟨i, member⟩ := entry
    have hfollows := hadvances (i, member) List.mem_cons_self it
    have hfollows' := hadvances (i, member) List.mem_cons_self it'
    obtain ⟨hsame, hcursors⟩ := hblind (i, member) List.mem_cons_self it it' halike
    have hothers := fun entry he => hblind entry (List.mem_cons_of_mem _ he)
    have hothers' := fun entry he => hadvances entry (List.mem_cons_of_mem _ he)
    rcases hresult : tryFrom members true count deeper' ((i, member) :: rest)
      { search with best := search'.best } it' with ⟨found, search'', after''⟩
    show found = true
    rcases tryFrom_cases hrun with ⟨huses, hrun⟩ |
      ⟨hfree, n, between, hstep, found₁, search₁, after₁, hdeep, hcase⟩ | ⟨hfree, hnone, hrun⟩
    · rcases tryFrom_cases hresult with ⟨-, hresult⟩ | ⟨hfree', -⟩ | ⟨hfree', -⟩
      · have hagain := ih hothers hothers' hrun halike hlt
        rwa [hresult] at hagain
      · exact absurd (huses.symm.trans hfree') (by decide)
      · exact absurd (huses.symm.trans hfree') (by decide)
    · obtain ⟨-, hfalse⟩ | ⟨rfl, hrun⟩ := hcase
      · cases hfalse
      · rw [hstep] at hsame hcursors hfollows
        obtain ⟨hseen, halike₁, hbest₁, -⟩ := hback _ _ _ _ _ hdeep
        have hrestored : search₁.seen.set i false = search.seen := by
          rw [hseen]
          exact set_false_of_free hfree
        rcases tryFrom_cases hresult with ⟨huses, -⟩ |
          ⟨-, n', between', hstep', found₂, search₂, after₂, hdeep', hcase'⟩ | ⟨-, hnone, -⟩
        · exact absurd (huses.symm.trans hfree) (by decide)
        · obtain ⟨rfl, hfound⟩ | ⟨rfl, hresult⟩ := hcase'
          · exact congrArg Prod.fst hfound
          · rw [hstep'] at hcursors hfollows'
            obtain ⟨hseen₂, halike₂, -, hbest₂⟩ := hback' _ _ _ _ _ hdeep'
            obtain ⟨-, -, hbest', -⟩ := tryFrom_givesBack hback hothers' hrun
            -- whoever raised the most that was found, this attempt or a later one
            by_cases hraised : search₁.best < search'.best
            · have hback₁ : Cursor.Alike { after₁ with pos := it.pos } it :=
                ⟨halike₁.parts_eq.trans hfollows.parts_eq, rfl,
                  halike₁.tryAttr_eq.trans hfollows.tryAttr_eq⟩
              have hback₂ : Cursor.Alike { after₂ with pos := it'.pos } it' :=
                ⟨halike₂.parts_eq.trans hfollows'.parts_eq, rfl,
                  halike₂.tryAttr_eq.trans hfollows'.tryAttr_eq⟩
              have hagain := ih hothers hothers' hrun ((hback₁.trans halike).trans hback₂.symm)
                hraised
              have hsearch : (⟨search₁.seen.set i false, search'.best⟩ : Search) =
                  ⟨search₂.seen.set i false, search₂.best⟩ := by
                rw [hrestored, hbest₂ rfl, hseen₂]
                exact congrArg (Search.mk · search'.best) (set_false_of_free hfree).symm
              rw [hsearch, hresult] at hagain
              exact hagain
            · have heq : search₁.best = search'.best :=
                Nat.le_antisymm hbest' (Nat.le_of_not_lt hraised)
              have hagain := hdeeper _ _ _ _ _ _ hdeep hcursors (by rw [heq]; exact hlt)
              dsimp only at hagain
              rw [heq, hdeep'] at hagain
              cases hagain
        · rw [← hsame] at hnone
          exact absurd rfl (hnone n)
    · rcases tryFrom_cases hresult with ⟨huses, -⟩ |
        ⟨-, n', between', hstep', -⟩ | ⟨-, -, hresult⟩
      · exact absurd (huses.symm.trans hfree) (by decide)
      · rw [hstep'] at hsame
        exact absurd hsame (hnone n')
      · have hnotes : Cursor.Alike { (member.step it).2 with pos := it.pos }
            { (member.step it').2 with pos := it'.pos } :=
          ⟨hcursors.parts_eq, halike.pos_eq, hcursors.tryAttr_eq⟩
        have hagain := ih hothers hothers' hrun hnotes hlt
        rwa [hresult] at hagain

theorem run_repeats (hadvances : ∀ m ∈ members, m.step.Advances)
    (hblind : ∀ m ∈ members, m.step.Blind) (depth : Nat) :
    Repeats (run members false depth) (run members true depth) := by
  induction depth with
  | zero =>
    intro count search it it' search' after hrun _ hlt
    cases hrun
    exact absurd hlt (Nat.lt_irrefl _)
  | succ depth ih =>
    intro count search it it' search' after hrun halike hlt
    exact tryFrom_repeats ih (run_givesBack hadvances depth) (run_givesBack hadvances depth)
      (fun entry he => hblind _ (List.of_mem_zip he).2)
      (fun entry he => hadvances _ (List.of_mem_zip he).2) hrun halike hlt

/-! ## Cursors that are alike -/

section Likeness

variable {S : ValuePart → ValuePart → Prop} {R : Cursor → Cursor → Prop}

/-- **Results with cursors that are alike.** -/
def SameResult (R : Cursor → Cursor → Prop) (r r' : Bool × Search × Cursor) : Prop :=
  r.1 = r'.1 ∧ r.2.1 = r'.2.1 ∧ R r.2.2 r'.2.2

/-- Searches that come to the same result from cursors that are alike. -/
def SearchesAgree (R : Cursor → Cursor → Prop)
    (f f' : Nat → Search → Cursor → Bool × Search × Cursor) : Prop :=
  ∀ count search it it', R it it' → SameResult R (f count search it) (f' count search it')

/-- **Members that come to the same result**, and count alike. -/
structure MembersAgree (R : Cursor → Cursor → Prop) (member member' : Member) : Prop where
  /-- Their steps do. -/
  step : member.step.Agrees R member'.step
  /-- One counts if the other one does. -/
  counts_eq : member.counts = member'.counts

theorem MembersAgree.weight_eq {member member' : Member} (h : MembersAgree R member member') :
    member.weight = member'.weight := by
  unfold Member.weight
  rw [h.counts_eq]

variable {members' : List Member} {rest' : List (Nat × Member)}
  {deeper' : Nat → Search → Cursor → Bool × Search × Cursor}

theorem tryFrom_agrees (hR : Cursor.Likeness S R) (hlength : members.length = members'.length)
    (hdeeper : SearchesAgree R deeper deeper')
    (hrest : List.Forall₂ (fun entry entry' => entry.1 = entry'.1 ∧ MembersAgree R entry.2 entry'.2)
      rest rest') (halike : R it it') :
    SameResult R (tryFrom members retry count deeper rest search it)
      (tryFrom members' retry count deeper' rest' search it') := by
  induction hrest generalizing search it it' with
  | nil =>
    unfold tryFrom
    rw [hlength]
    split_ifs
    · exact ⟨rfl, rfl, halike⟩
    · exact ⟨rfl, rfl, halike⟩
  | @cons entry entry' rest rest' hentry _ ih =>
    obtain ⟨i, member⟩ := entry
    obtain ⟨_, member'⟩ := entry'
    obtain ⟨rfl, hmember⟩ := hentry
    obtain ⟨hsame, hcursors⟩ := hmember.step it it' halike
    rcases hrun : tryFrom members retry count deeper ((i, member) :: rest) search it
      with ⟨found, search₁, after⟩
    rcases hrun' : tryFrom members' retry count deeper' ((i, member') :: rest') search it'
      with ⟨found', search₂, after'⟩
    rcases tryFrom_cases hrun with ⟨huses, hrest⟩ |
        ⟨hfree, n, between, hstep, foundDeep, searchDeep, afterDeep, hdeep, hcase⟩ |
        ⟨hfree, hnone, hrest⟩ <;>
      rcases tryFrom_cases hrun' with ⟨huses', hrest'⟩ |
        ⟨hfree', n', between', hstep', foundDeep', searchDeep', afterDeep', hdeep', hcase'⟩ |
        ⟨hfree', hnone', hrest'⟩
    · rw [← hrest, ← hrest']
      exact ih halike
    · exact absurd (huses.symm.trans hfree') (by decide)
    · exact absurd (huses.symm.trans hfree') (by decide)
    · exact absurd (huses'.symm.trans hfree) (by decide)
    · rw [hstep, hstep'] at hcursors
      rw [← hmember.weight_eq] at hdeep'
      obtain ⟨hfound, hsearch, hafter⟩ := hdeeper (count + member.weight)
        { search with seen := search.seen.set i true } between between' hcursors
      rw [hdeep, hdeep'] at hfound hsearch hafter
      dsimp only at hfound hsearch hafter
      subst hfound hsearch
      rcases hcase with ⟨rfl, hresult⟩ | ⟨rfl, hrest⟩ <;>
        rcases hcase' with ⟨hfound', hresult'⟩ | ⟨hfound', hrest'⟩
      · rw [hresult, hresult']
        exact ⟨rfl, rfl, hafter⟩
      · cases hfound'
      · cases hfound'
      · rw [← hrest, ← hrest']
        refine ih ?_
        rw [hR.pos_eq halike]
        exact hR.withPos hafter _
    · rw [hstep] at hsame
      exact absurd hsame.symm (hnone' n)
    · exact absurd (huses'.symm.trans hfree) (by decide)
    · rw [hstep'] at hsame
      exact absurd hsame (hnone n')
    · rw [← hrest, ← hrest']
      refine ih ?_
      rw [hR.pos_eq halike]
      exact hR.withPos hcursors _

/-- Members that agree one by one, with their numbers. -/
theorem forall₂_numbered (h : List.Forall₂ (MembersAgree R) members members') (numbers : List Nat) :
    List.Forall₂ (fun entry entry' => entry.1 = entry'.1 ∧ MembersAgree R entry.2 entry'.2)
      (numbers.zip members) (numbers.zip members') := by
  induction h generalizing numbers with
  | nil => simp
  | cons hmember _ ih =>
    cases numbers with
    | nil => exact .nil
    | cons i numbers => exact .cons ⟨rfl, hmember⟩ (ih numbers)

theorem run_agrees (hR : Cursor.Likeness S R)
    (hmembers : List.Forall₂ (MembersAgree R) members members') (depth : Nat) :
    SearchesAgree R (run members retry depth) (run members' retry depth) := by
  have hlength := hmembers.length_eq
  induction depth with
  | zero => exact fun _ _ _ _ halike => ⟨rfl, rfl, halike⟩
  | succ depth ih =>
    intro count search it it' halike
    unfold run
    rw [← hlength]
    exact tryFrom_agrees hR hlength ih (forall₂_numbered hmembers _) halike

end Likeness

/-! ## The whole search -/

/-- The search before anything is tried. -/
def Search.start (members : List Member) : Search := ⟨members.map fun _ => false, 0⟩

/-- **What the two searches come to.** -/
def searched (members : List Member) (it : Cursor) : Search × Cursor :=
  let first := run members false (members.length + 1) 0 (.start members) it
  if first.1 then first.2 else (run members true (members.length + 1) 0 first.2.1 first.2.2).2

/-- Whether enough members are in use. -/
def isEnough (required : Option (List Bool)) (search : Search) : Bool :=
  match required with
  | none => decide (0 < search.best)
  | some marks => (marks.zip search.seen).all fun (mark, seen) => !mark || seen

theorem step_eq (required : Option (List Bool)) (it : Cursor) : step members required it =
    (if isEnough required (searched members it).1 then some 1 else none, (searched members it).2) :=
  rfl

/-- **Members in any order** come to the same result from cursors that are
alike. -/
theorem step_agrees {S : ValuePart → ValuePart → Prop} {R : Cursor → Cursor → Prop}
    {members' : List Member} (hR : Cursor.Likeness S R)
    (hmembers : List.Forall₂ (MembersAgree R) members members') (required : Option (List Bool)) :
    (step members required).Agrees R (step members' required) := by
  intro it it' halike
  have hlength := hmembers.length_eq
  have hstart : Search.start members' = .start members := by
    unfold Search.start
    rw [List.map_const', List.map_const', hlength]
  have hrun : ∀ retry, SearchesAgree R (run members retry (members.length + 1))
      (run members' retry (members.length + 1)) := fun _ => run_agrees hR hmembers _
  have hsearched : (searched members it).1 = (searched members' it').1 ∧
      R (searched members it).2 (searched members' it').2 := by
    obtain ⟨hfound, hsearch, hafter⟩ := hrun false 0 (.start members) it it' halike
    unfold searched
    dsimp only
    rw [hstart, ← hlength, ← hfound]
    split_ifs
    · exact ⟨hsearch, hafter⟩
    · rw [← hsearch]
      exact (hrun true 0 _ _ _ hafter).2
  rw [step_eq, step_eq, hsearched.1]
  exact ⟨rfl, hsearched.2⟩

/-- **What members in any order take**: pieces of distinct members, at
least one when no marks say which are required, and otherwise all those
that are. -/
def Taken (Ls : Nat → Language) (size : Nat) (required : Option (List Bool)) : Language :=
  fun attr ps => ∃ order : List Nat, order.Nodup ∧ (∀ i ∈ order, i < size) ∧
    Chosen Ls attr order ps ∧ (required = none → order ≠ []) ∧
    ∀ marks i, required = some marks → i < size → marks[i]? = some true → i ∈ order

/-- All required members are in use when the marks are checked. -/
theorem uses_of_all {marks : List Bool}
    (hall : ((marks.zip search.seen).all fun (mark, seen) => !mark || seen) = true)
    (hi : i < search.seen.length) (hmark : marks[i]? = some true) : search.uses i = true := by
  have hseen : search.seen[i]? = some search.seen[i] := List.getElem?_eq_getElem hi
  have hmem : (true, search.seen[i]) ∈ marks.zip search.seen :=
    List.mem_of_getElem? (List.getElem?_zip_eq_some.mpr ⟨hmark, hseen⟩)
  have hused := List.all_eq_true.mp hall _ hmem
  rw [Search.uses, hseen]
  simpa using hused

/-- At the start no member is in use. -/
theorem uses_start (i : Nat) : (Search.start members).uses i = false := by
  unfold Search.uses Search.start
  rw [List.getElem?_map]
  cases members[i]? <;> rfl

/-- **What the two searches have found** when they have found enough. -/
theorem Gains.taken {order : List Nat} {required : Option (List Bool)}
    (h : Gains members Ls retry 0 search it search' after order)
    (hseen : search.seen = (Search.start members).seen) (henough : isEnough required search' = true)
    (hnone : required = none → order ≠ []) :
    ∃ ps, it.Takes after ps ∧ Taken Ls members.length required it.tryAttr ps := by
  obtain ⟨ps, hps, hchosen⟩ := h.takes
  refine ⟨ps, hps, order, h.nodup, fun i hi => (h.free i hi).1, hchosen, hnone, ?_⟩
  rintro marks i rfl hi hmark
  have hlength : search'.seen.length = members.length := by
    rw [h.length_eq, hseen]
    exact List.length_map _
  rcases (h.uses_iff i).mp (uses_of_all henough (by rw [hlength]; exact hi) hmark) with hused | hmem
  · have hunused : (Search.start members).uses i = false := uses_start i
    rw [Search.uses, ← hseen] at hunused
    exact absurd (hused.symm.trans hunused) (by decide)
  · exact hmem

include hmembers in
/-- **Members in any order** take pieces of distinct members. -/
theorem step_sound (hblind : ∀ m ∈ members, m.step.Blind) (required : Option (List Bool)) :
    (step members required).Sound (Taken Ls members.length required) := by
  have hadvances : ∀ m ∈ members, m.step.Advances := fun m hm => by
    obtain ⟨i, hi⟩ := List.mem_iff_getElem?.mp hm
    exact (hmembers i m hi).2
  have hlength : (Search.start members).seen.length = members.length := List.length_map _
  intro it n after hrun
  rw [step_eq] at hrun
  obtain ⟨⟨henough, -⟩, rfl⟩ : (isEnough required (searched members it).1 = true ∧ 1 = n) ∧
      (searched members it).2 = after := by
    simpa using hrun
  unfold searched at henough ⊢
  rcases hfirst : run members false (members.length + 1) 0 (.start members) it
    with ⟨_ | _, search₁, after₁⟩ <;> rw [hfirst] at henough
  · -- the first search fails, and the second one wants the most that it found
    obtain ⟨hseen, halike, -⟩ := run_givesBack hadvances _ _ _ _ _ _ hfirst
    rcases hsecond : run members true (members.length + 1) 0 search₁ after₁
      with ⟨_ | _, search₂, after₂⟩
    · dsimp only at henough ⊢
      rw [if_neg (by decide), hsecond] at henough
      rw [if_neg (by decide), hsecond]
      obtain ⟨hseen₂, halike₂, -, hbest⟩ := run_givesBack hadvances _ _ _ _ _ _ hsecond
      refine ⟨[], .nil (halike₂.trans halike).pos_eq, [], .nil, by simp, .nil, ?_, ?_⟩
      · rintro rfl
        have hpos : 0 < search₁.best := by simpa [isEnough, hbest] using henough
        have hagain := run_repeats hadvances hblind _ _ _ _ _ _ _ hfirst halike.symm hpos
        rw [← hseen, hsecond] at hagain
        cases hagain
      · rintro marks i rfl hi hmark
        have hused := uses_of_all henough (by rw [hseen₂, hseen, hlength]; exact hi) hmark
        rw [Search.uses, hseen₂, hseen] at hused
        exact absurd (hused.symm.trans (uses_start i)) (by decide)
    · dsimp only at henough ⊢
      rw [if_neg (by decide), hsecond] at henough
      rw [if_neg (by decide), hsecond]
      obtain ⟨order, hgains⟩ := run_finds hmembers _ _ _ _ _ _ (by rw [hseen]; exact hlength) hsecond
      refine (hgains.of_alike halike rfl fun _ => rfl).taken hseen henough ?_
      rintro rfl rfl
      have hcount := hgains.count_eq
      rw [isEnough, decide_eq_true_eq, hgains.best_eq rfl] at henough
      simp only [weightOf, if_true] at hcount
      omega
  · obtain ⟨order, hgains⟩ := run_finds hmembers _ _ _ _ _ _ hlength hfirst
    refine hgains.taken rfl henough ?_
    rintro rfl rfl
    have hempty : members = [] := by simpa [weightOf] using hgains.count_eq.symm
    subst hempty
    obtain ⟨rfl, -⟩ : (⟨[], 0⟩ : Search) = search₁ ∧ it = after₁ := by
      simpa [run, tryFrom, Search.start] using hfirst
    simp [isEnough] at henough

end AnyOrder

end Stylesheet.Grammar
