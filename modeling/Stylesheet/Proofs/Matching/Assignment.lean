import Mathlib.Data.List.Perm.Subperm
import Stylesheet.Proofs.Matching.Matchers

/-!
# The best assignment of members

An assignment puts distinct members to use one after another, each of which
takes something where the one before it stopped. There may be many, and the
two searches for members in any order go over all of them: a search visits an
assignment after all those that go on from it. The first search learns the
most that any of them counts for, unless one counts for all members and is
taken at once. The second one takes the first visited assignment that counts
for the most (`searched_maximal`). Whatever goes on from it was visited before
and counts for at least as much, so nothing goes on from it.

What is left to explore at some point of a search are the assignments that
go on from there with members not in use (`Remaining`). What the search comes
to is stated of these (`Explored`), first for some members to go on with, and
then, a level at a time, for all of them (`run_explored`).
-/

namespace Stylesheet.Grammar

namespace AnyOrder

/-- **Members that match one after another**, from one place to another.
Each of them takes something, or at least counts. -/
inductive Fits (members : List Member) (it : Cursor) : Nat → List Nat → Nat → Prop where
  /-- No members. -/
  | nil {pos : Nat} : Fits members it pos [] pos
  /-- One member, and others where it stopped. -/
  | cons {i n pos stop : Nat} {order : List Nat} {member : Member} {after : Cursor} :
      members[i]? = some member → member.step { it with pos := pos } = (some (n + 1), after) →
      Fits members it after.pos order stop → Fits members it pos (i :: order) stop

/-- **An assignment**: distinct members that match one after another, from
where the cursor stands. -/
structure Assignment (members : List Member) (it : Cursor) (order : List Nat) (stop : Nat) :
    Prop where
  /-- The members are distinct. -/
  nodup : order.Nodup
  /-- They match one after another. -/
  fits : Fits members it it.pos order stop

/-- **What is left to explore**: distinct members that are not in use and
match one after another. -/
structure Remaining (members : List Member) (it : Cursor) (search : Search) (pos : Nat)
    (order : List Nat) (stop : Nat) : Prop where
  /-- The members are distinct. -/
  nodup : order.Nodup
  /-- They are not in use. -/
  free : ∀ i ∈ order, search.uses i = false
  /-- They match one after another. -/
  fits : Fits members it pos order stop

variable {members : List Member} {retry found : Bool} {count pos stop : Nat}
  {deeper : Nat → Search → Cursor → Bool × Search × Cursor} {rest : List (Nat × Member)} {i : Nat}
  {member : Member} {search search' : Search} {it it' after : Cursor} {order heads : List Nat}

theorem Fits.lt_length (h : Fits members it pos order stop) : ∀ i ∈ order, i < members.length := by
  induction h with
  | nil => simp
  | cons hmember _ _ ih =>
    rintro j hj
    rcases List.mem_cons.mp hj with rfl | hj
    · exact (List.getElem?_eq_some_iff.mp hmember).1
    · exact ih j hj

/-- What is left to explore depends on the members in use only. -/
theorem Remaining.of_seen_eq {before : Search} (h : Remaining members it search pos order stop)
    (hseen : before.seen = search.seen) : Remaining members it before pos order stop := by
  refine ⟨h.nodup, fun i hi => ?_, h.fits⟩
  rw [Search.uses, hseen]
  exact h.free i hi

/-- **One more member is put to use.** -/
theorem Remaining.cons {n : Nat} (hmember : members[i]? = some member)
    (hlength : search.seen.length = members.length) (hfree : search.uses i = false)
    (hstep : member.step { it with pos := pos } = (some (n + 1), after))
    (h : Remaining members it { search with seen := search.seen.set i true } after.pos order stop) :
    Remaining members it search pos (i :: order) stop := by
  have hi : i < search.seen.length := hlength ▸ (List.getElem?_eq_some_iff.mp hmember).1
  have hnot : ∀ j ∈ order, ¬(j = i ∨ search.uses j = true) := by
    intro j hj hused
    have hunused := h.free j hj
    rw [(uses_set hi j).mpr hused] at hunused
    cases hunused
  refine ⟨List.nodup_cons.mpr ⟨fun hmem => hnot i hmem (.inl rfl), h.nodup⟩, ?_,
    .cons hmember hstep h.fits⟩
  rintro j hj
  rcases List.mem_cons.mp hj with rfl | hj
  · exact hfree
  · exact Bool.eq_false_iff.mpr fun hused => hnot j hj (.inr hused)

/-- **What goes on with a member** is left to explore after it. -/
theorem Remaining.tail {n : Nat} (h : Remaining members it search pos (i :: order) stop)
    (hmember : members[i]? = some member) (hlength : search.seen.length = members.length)
    (hstep : member.step { it with pos := pos } = (some (n + 1), after)) :
    Remaining members it { search with seen := search.seen.set i true } after.pos order stop := by
  have hi : i < search.seen.length := hlength ▸ (List.getElem?_eq_some_iff.mp hmember).1
  obtain ⟨hnot, hnodup⟩ := List.nodup_cons.mp h.nodup
  refine ⟨hnodup, fun j hj => Bool.eq_false_iff.mpr fun hused => ?_, ?_⟩
  · rcases (uses_set hi j).mp hused with rfl | hused
    · exact hnot hj
    · exact absurd (hused.symm.trans (h.free j (List.mem_cons_of_mem _ hj))) (by decide)
  · cases h.fits with
    | cons hmember' hstep' hfits =>
      cases hmember.symm.trans hmember'
      cases hstep.symm.trans hstep'
      exact hfits

/-- A member that goes first is not in use and matches. -/
theorem Remaining.head (h : Remaining members it search pos (i :: order) stop)
    (hmember : members[i]? = some member) : search.uses i = false ∧
      ∃ n after, member.step { it with pos := pos } = (some (n + 1), after) := by
  refine ⟨h.free i List.mem_cons_self, ?_⟩
  cases h.fits with
  | cons hmember' hstep _ =>
    cases hmember.symm.trans hmember'
    exact ⟨_, _, hstep⟩

/-! ## What a search comes to -/

/-- The count that a search wants. -/
def goal (members : List Member) (retry : Bool) (search : Search) : Nat :=
  if retry then search.best else members.length

/-- Orders that begin with one of some members, if with any. -/
def BeginsIn (heads order : List Nat) : Prop := ∀ i, order.head? = some i → i ∈ heads

/-- **What a search has found**: what it wanted, and nothing that goes on
from there is wanted as well. -/
structure Met (members : List Member) (it : Cursor) (retry : Bool) (count : Nat)
    (search : Search) (pos : Nat) (heads : List Nat) (search' : Search) (after : Cursor)
    (order : List Nat) (stop : Nat) : Prop where
  /-- It was left to explore. -/
  remaining : Remaining members it search pos order stop
  /-- It counts for what was wanted. -/
  count_eq : count + weightOf members order = goal members retry search
  /-- These members are in use now. -/
  uses_iff : ∀ i, search'.uses i = true ↔ search.uses i = true ∨ i ∈ order
  /-- The record is as long as before. -/
  length_eq : search'.seen.length = search.seen.length
  /-- The search ended where they stop. -/
  alike : after.Alike { it with pos := stop }
  /-- Nothing that goes on from there is wanted. -/
  last : ∀ more stop', more ≠ [] → Remaining members it search pos (order ++ more) stop' →
    BeginsIn heads (order ++ more) →
    count + weightOf members (order ++ more) ≠ goal members retry search
  /-- The first search has noticed it. -/
  noticed : retry = false → count + weightOf members order ≤ search'.best

/-- **What a search comes to** that goes on with some of the members. -/
structure Explored (members : List Member) (it : Cursor) (retry : Bool) (count : Nat)
    (search : Search) (pos : Nat) (heads : List Nat) (found : Bool) (search' : Search)
    (after : Cursor) : Prop where
  /-- When it fails, nothing is wanted, and the first search has noticed
  everything. -/
  missed : found = false → ∀ order stop, Remaining members it search pos order stop →
    BeginsIn heads order → count + weightOf members order ≠ goal members retry search ∧
      (retry = false → count + weightOf members order ≤ search'.best)
  /-- When it succeeds, it has found something. -/
  met : found = true → ∃ order stop,
    Met members it retry count search pos heads search' after order stop
  /-- The most that was found is an old one, or that of something left to
  explore. -/
  reached : search'.best = search.best ∨ ∃ order stop,
    Remaining members it search pos order stop ∧ count + weightOf members order = search'.best
  /-- The most that was found does not fall. -/
  grows : search.best ≤ search'.best

/-- A search that explores what is left, as long as fewer than some number of
members are not in use. -/
def Explores (members : List Member) (it : Cursor) (retry : Bool) (bound : Nat)
    (f : Nat → Search → Cursor → Bool × Search × Cursor) : Prop :=
  ∀ count search pos it' found search' after, search.seen.length = members.length →
    search.seen.count false < bound → it'.Alike { it with pos := pos } →
    f count search it' = (found, search', after) →
    Explored members it retry count search pos (List.range members.length) found search' after

theorem BeginsIn.range (h : Remaining members it search pos order stop) :
    BeginsIn (List.range members.length) order := by
  intro i hi
  exact List.mem_range.mpr (h.fits.lt_length i (List.mem_of_mem_head? hi))

theorem weightOf_cons (hmember : members[i]? = some member) (order : List Nat) :
    weightOf members (i :: order) = member.weight + weightOf members order := by
  rw [weightOf, hmember]
  rfl

/-! ## One member -/

/-- **A member that cannot go first** may be left out of those to go on with. -/
theorem Explored.skip
    (hnone : ∀ order stop, ¬Remaining members it search pos (i :: order) stop)
    (h : Explored members it retry count search pos heads found search' after) :
    Explored members it retry count search pos (i :: heads) found search' after := by
  have hbegins : ∀ {order stop}, Remaining members it search pos order stop →
      BeginsIn (i :: heads) order → BeginsIn heads order := by
    intro order stop hremaining hbegins j hj
    rcases List.mem_cons.mp (hbegins j hj) with rfl | hmem
    · obtain ⟨order, rfl⟩ := List.head?_eq_some_iff.mp hj
      exact absurd hremaining (hnone order stop)
    · exact hmem
  refine ⟨fun hfound order stop hr hb => h.missed hfound order stop hr (hbegins hr hb),
    fun hfound => ?_, h.reached, h.grows⟩
  obtain ⟨order, stop, hmet⟩ := h.met hfound
  exact ⟨order, stop, { hmet with
    last := fun more stop' hne hr hb => hmet.last more stop' hne hr (hbegins hr hb) }⟩

/-- The search goes on from the same members in use, and may have noticed
more. -/
theorem goal_of_best_eq {before : Search} (h : retry = true → search.best = before.best) :
    goal members retry search = goal members retry before := by
  unfold goal
  split_ifs with hretry
  · exact h hretry
  · rfl

section Member

variable {between : Cursor} {n : Nat} {search₁ : Search} {after₁ : Cursor}
  (hmember : members[i]? = some member) (hlength : search.seen.length = members.length)
  (hfree : search.uses i = false)
  (hstep : member.step { it with pos := pos } = (some (n + 1), between))

include hmember hlength hfree hstep

/-- What was reached after a member was reached with it. -/
theorem reached_cons
    (h : search₁.best = search.best ∨ ∃ order stop,
      Remaining members it { search with seen := search.seen.set i true } between.pos order stop ∧
        count + member.weight + weightOf members order = search₁.best) :
    search₁.best = search.best ∨ ∃ order stop, Remaining members it search pos order stop ∧
      count + weightOf members order = search₁.best := by
  refine h.imp_right ?_
  rintro ⟨order, stop, hremaining, hcount⟩
  refine ⟨i :: order, stop, hremaining.cons hmember hlength hfree hstep, ?_⟩
  rw [weightOf_cons hmember, ← Nat.add_assoc]
  exact hcount

/-- **A member after which something is found.** -/
theorem Explored.stops (h : Explored members it retry (count + member.weight)
      { search with seen := search.seen.set i true } between.pos (List.range members.length) true
      search₁ after₁) :
    Explored members it retry count search pos (i :: heads) true search₁ after₁ := by
  refine ⟨nofun, fun _ => ?_, reached_cons hmember hlength hfree hstep h.reached, h.grows⟩
  obtain ⟨order, stop, hmet⟩ := h.met rfl
  have hi : i < search.seen.length := hlength ▸ (List.getElem?_eq_some_iff.mp hmember).1
  have hweight : ∀ order, count + weightOf members (i :: order) =
      count + member.weight + weightOf members order := fun order => by
    rw [weightOf_cons hmember, Nat.add_assoc]
  refine ⟨i :: order, stop, hmet.remaining.cons hmember hlength hfree hstep, ?_, fun j => ?_, ?_,
    hmet.alike, fun more stop' hne hr _ => ?_, fun hretry => ?_⟩
  · rw [hweight]
    exact hmet.count_eq
  · rw [hmet.uses_iff, uses_set hi, List.mem_cons]
    tauto
  · rw [hmet.length_eq]
    exact List.length_set
  · rw [List.cons_append] at hr ⊢
    have hr' := hr.tail hmember hlength hstep
    rw [hweight]
    exact hmet.last more stop' hne hr' (.range hr')
  · rw [hweight]
    exact hmet.noticed hretry

/-- **A member after which nothing is found**: the search goes on without
it. -/
theorem Explored.gone (hsame : retry = true → search₁.best = search.best)
    (hdeep : Explored members it retry (count + member.weight)
      { search with seen := search.seen.set i true } between.pos (List.range members.length) false
      search₁ after₁)
    (h : Explored members it retry count { search₁ with seen := search.seen } pos heads found
      search' after) :
    Explored members it retry count search pos (i :: heads) found search' after := by
  have hgoal : goal members retry { search₁ with seen := search.seen } = goal members retry search :=
    goal_of_best_eq hsame
  -- what begins with this member was missed, whatever comes after it
  have hmissed : ∀ order stop, Remaining members it search pos (i :: order) stop →
      count + weightOf members (i :: order) ≠ goal members retry search ∧
        (retry = false → count + weightOf members (i :: order) ≤ search'.best) := by
    intro order stop hr
    have hr' := hr.tail hmember hlength hstep
    obtain ⟨hne, hle⟩ := hdeep.missed rfl order stop hr' (.range hr')
    rw [weightOf_cons hmember, ← Nat.add_assoc]
    exact ⟨hne, fun hretry => Nat.le_trans (hle hretry) h.grows⟩
  have hcases : ∀ {order : List Nat}, BeginsIn (i :: heads) order →
      BeginsIn heads order ∨ ∃ tail, order = i :: tail := by
    intro order hbegins
    cases order with
    | nil => exact .inl nofun
    | cons j tail =>
      rcases List.mem_cons.mp (hbegins j rfl) with rfl | hmem
      · exact .inr ⟨tail, rfl⟩
      · refine .inl fun k hk => ?_
        cases hk
        exact hmem
  refine ⟨fun hfound order stop hr hb => ?_, fun hfound => ?_, ?_,
    Nat.le_trans hdeep.grows h.grows⟩
  · rcases hcases hb with hb | ⟨tail, rfl⟩
    · obtain ⟨hne, hle⟩ := h.missed hfound order stop (hr.of_seen_eq rfl) hb
      rw [hgoal] at hne
      exact ⟨hne, hle⟩
    · exact hmissed tail stop hr
  · obtain ⟨order, stop, hmet⟩ := h.met hfound
    refine ⟨order, stop, hmet.remaining.of_seen_eq rfl, hmet.count_eq.trans hgoal, hmet.uses_iff,
      hmet.length_eq, hmet.alike, fun more stop' hne hr hb => ?_, hmet.noticed⟩
    rcases hcases hb with hb | ⟨tail, htail⟩
    · rw [← hgoal]
      exact hmet.last more stop' hne (hr.of_seen_eq rfl) hb
    · rw [htail] at hr ⊢
      exact (hmissed tail stop' hr).1
  · rcases h.reached with hold | ⟨order, stop, hr, hcount⟩
    · rw [hold]
      exact reached_cons hmember hlength hfree hstep hdeep.reached
    · exact .inr ⟨order, stop, hr.of_seen_eq rfl, hcount⟩

end Member

/-! ## The search for members -/

/-- **No member to go on with**: what has been put to use is looked at. -/
theorem tryFrom_nil_explored (halike : it'.Alike { it with pos := pos })
    (hrun : tryFrom members retry count deeper [] search it' = (found, search', after)) :
    Explored members it retry count search pos [] found search' after := by
  have hempty : Remaining members it search pos [] pos := ⟨.nil, by simp, .nil⟩
  have hbegins : ∀ {order}, BeginsIn [] order → order = [] := by
    intro order hb
    cases order with
    | nil => rfl
    | cons i tail => cases hb i rfl
  have hlast : ∀ more stop', more ≠ [] → Remaining members it search pos ([] ++ more) stop' →
      BeginsIn [] ([] ++ more) →
      count + weightOf members ([] ++ more) ≠ goal members retry search :=
    fun more _ hne _ hb => absurd (hbegins hb) hne
  unfold tryFrom at hrun
  cases retry with
  | true =>
    obtain ⟨rfl, rfl, rfl⟩ : (count == search.best) = found ∧ search = search' ∧ it' = after := by
      simpa using hrun
    refine ⟨fun hne order stop _ hb => ?_, fun heq => ?_, .inl rfl, Nat.le_refl _⟩
    · obtain rfl := hbegins hb
      exact ⟨beq_eq_false_iff_ne.mp hne, fun h => absurd h (by decide)⟩
    · exact ⟨[], pos, hempty, beq_iff_eq.mp heq, by simp, rfl, halike, hlast,
        fun h => absurd h (by decide)⟩
  | false =>
    obtain ⟨rfl, rfl, rfl⟩ : (count == members.length) = found ∧
        { search with best := max search.best count } = search' ∧ it' = after := by
      simpa using hrun
    have hle : count ≤ max search.best count := Nat.le_max_right _ _
    refine ⟨fun hne order stop _ hb => ?_, fun heq => ?_, ?_, Nat.le_max_left _ _⟩
    · obtain rfl := hbegins hb
      exact ⟨beq_eq_false_iff_ne.mp hne, fun _ => hle⟩
    · exact ⟨[], pos, hempty, beq_iff_eq.mp heq, by simp [Search.uses], rfl, halike, hlast,
        fun _ => hle⟩
    · rcases Nat.le_total search.best count with hcount | hcount
      · exact .inr ⟨[], pos, hempty, (Nat.max_eq_right hcount).symm⟩
      · exact .inl (Nat.max_eq_left hcount)

/-- A member that is not in use makes one less when it is. -/
theorem count_false_set (hi : i < search.seen.length) (hfree : search.uses i = false) :
    (search.seen.set i true).count false + 1 = search.seen.count false := by
  have hget : search.seen[i] = false := by
    rwa [Search.uses, List.getElem?_eq_getElem hi] at hfree
  have hpos : 0 < search.seen.count false := List.count_pos_iff.mpr (hget ▸ List.getElem_mem hi)
  rw [List.count_set hi, hget, if_pos (by decide : (false == false) = true),
    if_neg (by decide : ¬(true == false) = true), Nat.add_zero]
  exact Nat.sub_add_cancel hpos

variable (hmembers : ∀ m ∈ members, m.step.Blind ∧ m.step.Advances)

/-- A step comes to the same from cursors that differ in their notes, and
leads to such cursors. -/
theorem step_of_alike (hblind : member.step.Blind) (hadvances : member.step.Advances)
    (halike : it'.Alike { it with pos := pos }) {result : Option Nat} {between : Cursor}
    (hstep : member.step it' = (result, between)) :
    ∃ between', member.step { it with pos := pos } = (result, between') ∧
      between.Alike { it with pos := between'.pos } := by
  obtain ⟨hsame, hcursors⟩ := hblind it' { it with pos := pos } halike
  have hfollows := hadvances { it with pos := pos }
  rw [hstep] at hsame hcursors
  refine ⟨(member.step { it with pos := pos }).2, Prod.ext hsame.symm rfl, ?_⟩
  exact hcursors.trans ⟨hfollows.parts_eq, rfl, hfollows.tryAttr_eq⟩

include hmembers in
/-- **The search for members** explores what begins with one of them. -/
theorem tryFrom_explored {bound : Nat} (hdeeper : Explores members it retry bound deeper)
    (hback : GivesBack retry deeper) (hrest : ∀ entry ∈ rest, members[entry.1]? = some entry.2)
    (hlength : search.seen.length = members.length) (hbound : search.seen.count false < bound + 1)
    (halike : it'.Alike { it with pos := pos })
    (hrun : tryFrom members retry count deeper rest search it' = (found, search', after)) :
    Explored members it retry count search pos (rest.map Prod.fst) found search' after := by
  induction rest generalizing search it' with
  | nil => exact tryFrom_nil_explored halike hrun
  | cons entry rest ih =>
    obtain ⟨i, member⟩ := entry
    have hmember := hrest (i, member) List.mem_cons_self
    have hi : i < search.seen.length := hlength ▸ (List.getElem?_eq_some_iff.mp hmember).1
    obtain ⟨hblind, hadvances⟩ := hmembers member (List.mem_of_getElem? hmember)
    have hothers := fun entry he => hrest entry (List.mem_cons_of_mem _ he)
    rcases tryFrom_cases hrun with ⟨huses, hrun⟩ |
      ⟨hfree, n, between, hstep, found₁, search₁, after₁, hdeep, hcase⟩ | ⟨hfree, hnone, hrun⟩
    · -- it is in use
      refine (ih hothers hlength hbound halike hrun).skip fun order stop hr => ?_
      exact absurd (huses.symm.trans (hr.head hmember).1) (by decide)
    · -- it matches
      obtain ⟨between', hstep', hbetween⟩ := step_of_alike hblind hadvances halike hstep
      have hexplored := hdeeper (count + member.weight) { search with seen := search.seen.set i true }
        between'.pos between found₁ search₁ after₁ (List.length_set.trans hlength)
        (by have := count_false_set hi hfree; dsimp only; omega) hbetween hdeep
      obtain ⟨rfl, hfound⟩ | ⟨rfl, hrun⟩ := hcase
      · cases hfound
        exact hexplored.stops hmember hlength hfree hstep'
      · obtain ⟨hseen, halike₁, -, hbest⟩ := hback _ _ _ _ _ hdeep
        have hrestored : search₁.seen.set i false = search.seen := by
          rw [hseen]
          exact set_false_of_free hfree
        rw [hrestored] at hrun
        have hback₁ : Cursor.Alike { after₁ with pos := it'.pos } { it with pos := pos } := by
          have hafter := halike₁.trans hbetween
          exact ⟨hafter.parts_eq, halike.pos_eq, hafter.tryAttr_eq⟩
        exact .gone hmember hlength hfree hstep' hbest hexplored
          (ih hothers hlength hbound hback₁ hrun)
    · -- it does not match
      have hback₁ : Cursor.Alike { (member.step it').2 with pos := it'.pos } { it with pos := pos } := by
        have hfollows := hadvances it'
        exact ⟨hfollows.parts_eq.trans halike.parts_eq, halike.pos_eq,
          hfollows.tryAttr_eq.trans halike.tryAttr_eq⟩
      refine (ih hothers hlength hbound hback₁ hrun).skip fun order stop hr => ?_
      obtain ⟨-, n, between, hstep⟩ := hr.head hmember
      obtain ⟨hsame, -⟩ := hblind it' { it with pos := pos } halike
      rw [hstep] at hsame
      exact hnone n hsame

theorem fst_range_zip (members : List Member) :
    ((List.range members.length).zip members).map Prod.fst = List.range members.length :=
  List.map_fst_zip (Nat.le_of_eq List.length_range)

include hmembers in
/-- **The search to a depth** explores all that is left, if fewer members than
that are left. -/
theorem run_explored (depth : Nat) : Explores members it retry depth (run members retry depth) := by
  induction depth with
  | zero => exact fun _ _ _ _ _ _ _ _ hbound => absurd hbound (Nat.not_lt_zero _)
  | succ depth ih =>
    intro count search pos it' found search' after hlength hbound halike hrun
    rw [← fst_range_zip]
    exact tryFrom_explored hmembers ih (run_givesBack (fun m hm => (hmembers m hm).2) depth)
      (fun entry he => getElem?_of_mem_zip he) hlength hbound halike hrun

/-! ## The two searches -/

theorem weightOf_append (members : List Member) (order more : List Nat) :
    weightOf members (order ++ more) = weightOf members order + weightOf members more := by
  induction order with
  | nil => exact (Nat.zero_add _).symm
  | cons i order ih => rw [List.cons_append, weightOf, weightOf, ih, Nat.add_assoc]

/-- A member counts once at most. -/
theorem weightOf_le_length (members : List Member) (order : List Nat) :
    weightOf members order ≤ order.length := by
  induction order with
  | nil => exact Nat.le_refl _
  | cons i order ih =>
    have hone : (members[i]?.map Member.weight).getD 0 ≤ 1 := by
      cases members[i]? with
      | none => exact Nat.zero_le _
      | some member =>
        show (if member.counts then 1 else 0) ≤ 1
        split_ifs
        · exact Nat.le_refl _
        · exact Nat.zero_le _
    rw [weightOf, List.length_cons]
    omega

/-- Distinct members are no more than there are. -/
theorem Assignment.length_le (h : Assignment members it order stop) :
    order.length ≤ members.length := by
  have hsubset : order ⊆ List.range members.length :=
    fun i hi => List.mem_range.mpr (h.fits.lt_length i hi)
  simpa using (List.subperm_of_subset h.nodup hsubset).length_le

theorem remaining_start :
    Remaining members it (Search.start members) it.pos order stop ↔
      Assignment members it order stop :=
  ⟨fun h => ⟨h.nodup, h.fits⟩, fun h => ⟨h.nodup, fun i _ => uses_start i, h.fits⟩⟩

/-- **A best assignment**, as a search leaves it behind. -/
structure Best (members : List Member) (it : Cursor) (search : Search) (after : Cursor)
    (order : List Nat) (stop : Nat) : Prop where
  /-- It is an assignment. -/
  assignment : Assignment members it order stop
  /-- Its members are in use. -/
  uses_iff : ∀ i, search.uses i = true ↔ i ∈ order
  /-- There is a mark for every member. -/
  length_eq : search.seen.length = members.length
  /-- The search ended where it stops. -/
  alike : after.Alike { it with pos := stop }
  /-- It counts for the most that was found. -/
  weight_eq : weightOf members order = search.best
  /-- No assignment counts for more. -/
  heaviest : ∀ order' stop', Assignment members it order' stop' →
    weightOf members order' ≤ search.best
  /-- No member goes on from it. -/
  last : ∀ i stop', ¬Assignment members it (order ++ [i]) stop'

/-- **A first search that succeeds** leaves all members in use, and all of
them count. -/
theorem Met.best (h : Met members it false 0 (.start members) it.pos heads search' after order stop)
    (hreached : search'.best = 0 ∨ ∃ order stop, Assignment members it order stop ∧
      weightOf members order = search'.best) :
    Best members it search' after order stop := by
  have hassignment := remaining_start.mp h.remaining
  have hall : weightOf members order = members.length := by
    rw [← Nat.zero_add (weightOf members order)]
    exact h.count_eq
  have hle : ∀ order' stop', Assignment members it order' stop' →
      weightOf members order' ≤ members.length := fun order' _ h' =>
    Nat.le_trans (weightOf_le_length members order') h'.length_le
  have hbest : search'.best = members.length := by
    refine Nat.le_antisymm ?_ ?_
    · rcases hreached with hzero | ⟨order', stop', h', hweight⟩
      · rw [hzero]
        exact Nat.zero_le _
      · rw [← hweight]
        exact hle order' stop' h'
    · have hnoticed := h.noticed rfl
      rwa [Nat.zero_add, hall] at hnoticed
  refine ⟨hassignment, fun i => ?_, h.length_eq.trans (List.length_map _), h.alike,
    hall.trans hbest.symm, by rwa [hbest], fun i stop' h' => ?_⟩
  · rw [h.uses_iff, uses_start]
    simp
  · have hmore := h'.length_le
    have hfull := weightOf_le_length members order
    rw [hall] at hfull
    rw [List.length_append, List.length_singleton] at hmore
    omega

/-- **A second search that succeeds** where the first has noticed the most
that there is. -/
theorem Met.best_again (hseen : search.seen = (Search.start members).seen)
    (h : Met members it true 0 search it.pos (List.range members.length) search' after order stop)
    (hheaviest : ∀ order stop, Assignment members it order stop →
      weightOf members order ≤ search.best) (hbest : search'.best = search.best) :
    Best members it search' after order stop := by
  have hweight : weightOf members order = search.best := by
    rw [← Nat.zero_add (weightOf members order)]
    exact h.count_eq
  have hlength : search.seen.length = members.length := by
    rw [hseen]
    exact List.length_map _
  refine ⟨remaining_start.mp (h.remaining.of_seen_eq hseen.symm), fun i => ?_,
    h.length_eq.trans hlength, h.alike, hweight.trans hbest.symm, by rwa [hbest],
    fun i stop' h' => ?_⟩
  · have hunused : search.uses i = false := by
      rw [Search.uses, hseen]
      exact uses_start i
    rw [h.uses_iff, hunused]
    simp
  · -- it would count for as much, and would have been visited before
    have hr : Remaining members it search it.pos (order ++ [i]) stop' :=
      (remaining_start.mpr h').of_seen_eq hseen
    refine h.last [i] stop' (List.cons_ne_nil _ _) hr (.range hr) ?_
    have hle := hheaviest _ _ h'
    rw [weightOf_append, hweight] at hle
    show 0 + weightOf members (order ++ [i]) = search.best
    rw [Nat.zero_add, weightOf_append, hweight]
    exact Nat.le_antisymm hle (Nat.le_add_right _ _)

include hmembers in
/-- **The two searches** leave a best assignment behind. -/
theorem searched_best (it : Cursor) : ∃ order stop,
    Best members it (searched members it).1 (searched members it).2 order stop := by
  have hlength : (Search.start members).seen.length = members.length := List.length_map _
  have hbound : ∀ {search : Search}, search.seen.length = members.length →
      search.seen.count false < members.length + 1 := fun h =>
    Nat.lt_succ_of_le (h ▸ List.count_le_length)
  rcases hfirst : run members false (members.length + 1) 0 (.start members) it
    with ⟨found₁, search₁, after₁⟩
  have hexplored := run_explored hmembers _ 0 _ it.pos it found₁ search₁ after₁ hlength
    (hbound hlength) (.refl it) hfirst
  have hreached : search₁.best = 0 ∨ ∃ order stop, Assignment members it order stop ∧
      weightOf members order = search₁.best := by
    refine hexplored.reached.imp id ?_
    rintro ⟨order, stop, hr, hcount⟩
    exact ⟨order, stop, remaining_start.mp hr, by rw [← hcount, Nat.zero_add]⟩
  have hsearched : searched members it = if found₁ then (search₁, after₁) else
      (run members true (members.length + 1) 0 search₁ after₁).2 := by
    unfold searched
    rw [hfirst]
  rw [hsearched]
  cases found₁ with
  | true =>
    obtain ⟨order, stop, hmet⟩ := hexplored.met rfl
    exact ⟨order, stop, hmet.best hreached⟩
  | false =>
    obtain ⟨hseen, halike, -⟩ := run_givesBack (fun m hm => (hmembers m hm).2) _ _ _ _ _ _ hfirst
    have hheaviest : ∀ order stop, Assignment members it order stop →
        weightOf members order ≤ search₁.best := by
      intro order stop h
      have hr := remaining_start.mpr h
      have hle := (hexplored.missed rfl order stop hr (.range hr)).2 rfl
      rwa [Nat.zero_add] at hle
    rcases hsecond : run members true (members.length + 1) 0 search₁ after₁
      with ⟨found₂, search₂, after₂⟩
    have hlength₁ : search₁.seen.length = members.length := by rw [hseen, hlength]
    have hexplored₂ := run_explored hmembers _ 0 _ it.pos after₁ found₂ search₂ after₂ hlength₁
      (hbound hlength₁) halike hsecond
    cases found₂ with
    | false =>
      -- what was noticed first is found again
      obtain ⟨order, stop, h, hweight⟩ : ∃ order stop, Assignment members it order stop ∧
          weightOf members order = search₁.best := by
        rcases hreached with hzero | hreached
        · exact ⟨[], it.pos, ⟨.nil, .nil⟩, hzero.symm⟩
        · exact hreached
      have hr : Remaining members it search₁ it.pos order stop :=
        (remaining_start.mpr h).of_seen_eq hseen
      refine absurd ?_ (hexplored₂.missed rfl order stop hr (.range hr)).1
      rw [Nat.zero_add]
      exact hweight
    | true =>
      obtain ⟨order, stop, hmet⟩ := hexplored₂.met rfl
      refine ⟨order, stop, hmet.best_again hseen hheaviest ?_⟩
      show search₂.best = search₁.best
      refine Nat.le_antisymm ?_ hexplored₂.grows
      rcases hexplored₂.reached with hold | ⟨order', stop', hr, hcount⟩
      · exact Nat.le_of_eq hold
      · rw [← hcount, Nat.zero_add]
        exact hheaviest order' stop' (remaining_start.mp (hr.of_seen_eq hseen.symm))

/-! ## Members of a group -/

section Group

open Matching

variable {s : Surroundings} {ms : List Matcher} {required : Option (List Bool)}

/-- The required members of a group that are in an order are the ones that
count. -/
theorem weightOf_membersOf (h : ∀ i ∈ order, i < ms.length) :
    weightOf (membersOf s required 0 ms) order = order.countP (Matcher.isRequired required) := by
  induction order with
  | nil => rfl
  | cons i order ih =>
    have hi := h i List.mem_cons_self
    rw [weightOf, ih fun j hj => h j (List.mem_cons_of_mem _ hj), getElem?_membersOf,
      List.getElem?_eq_getElem hi, List.countP_cons, Nat.zero_add, Nat.add_comm]
    rfl

/-- **All required members** are in an order that has as many of them as one
that has them all. -/
theorem required_of_countP_le {order' : List Nat} (hnodup : order.Nodup)
    (hrange : ∀ i ∈ order, i < ms.length)
    (hall : ∀ i, i < ms.length → Matcher.isRequired required i = true → i ∈ order')
    (hle : order'.countP (Matcher.isRequired required) ≤ order.countP (Matcher.isRequired required)) :
    ∀ i, i < ms.length → Matcher.isRequired required i = true → i ∈ order := by
  intro i hi hrequired
  by_contra hnot
  -- with this member the order would have more of them than the other one
  have hsubset : (i :: order).filter (Matcher.isRequired required) ⊆
      order'.filter (Matcher.isRequired required) := by
    intro j hj
    obtain ⟨hmem, hj⟩ := List.mem_filter.mp hj
    refine List.mem_filter.mpr ⟨hall j ?_ hj, hj⟩
    rcases List.mem_cons.mp hmem with rfl | hmem
    · exact hi
    · exact hrange j hmem
  have hlength := (List.subperm_of_subset
    ((List.nodup_cons.mpr ⟨hnot, hnodup⟩).filter _) hsubset).length_le
  rw [← List.countP_eq_length_filter, ← List.countP_eq_length_filter,
    List.countP_cons_of_pos hrequired] at hlength
  omega

theorem isSome_step (members : List Member) (required : Option (List Bool)) (it : Cursor) :
    (step members required it).1.isSome = isEnough required (searched members it).1 := by
  rw [step_eq]
  cases isEnough required (searched members it).1 <;> rfl

/-- The members of a group look at no notes and lead to cursors that
follow. -/
theorem membersOf_steady (s : Surroundings) (required : Option (List Bool)) (ms : List Matcher) :
    ∀ m ∈ membersOf s required 0 ms, m.step.Blind ∧ m.step.Advances := fun m hm =>
  ⟨membersOf_respect Cursor.Alike.likeness (surroundings_quiet s) required 0 ms m hm,
    membersOf_advances s required 0 ms m hm⟩

/-- The members of an assignment are among those of the group. -/
theorem Assignment.lt_length (h : Assignment (membersOf s required 0 ms) it order stop) :
    ∀ i ∈ order, i < ms.length := fun i hi =>
  length_membersOf s required ms 0 ▸ h.fits.lt_length i hi

/-- **No assignment has more required members** than a best one. -/
theorem Best.countP_le {order' : List Nat} {stop' : Nat}
    (h : Best (membersOf s required 0 ms) it search after order stop)
    (h' : Assignment (membersOf s required 0 ms) it order' stop') :
    order'.countP (Matcher.isRequired required) ≤ order.countP (Matcher.isRequired required) := by
  rw [← weightOf_membersOf (s := s) h'.lt_length,
    ← weightOf_membersOf (s := s) h.assignment.lt_length, h.weight_eq]
  exact h.heaviest order' stop' h'

/-- **Enough members are in use** if all required ones are, or any at all
when there are no marks. -/
theorem Best.isEnough_iff (hmarks : ∀ marks, required = some marks → ms.length ≤ marks.length)
    (h : Best (membersOf s required 0 ms) it search after order stop) :
    isEnough required search = true ↔ (required = none → order ≠ []) ∧
      (required.isSome = true → ∀ i, i < ms.length → Matcher.isRequired required i = true →
        i ∈ order) := by
  have hlength := length_membersOf s required ms 0
  cases required with
  | none =>
    have hweight : search.best = order.length := by
      rw [← h.weight_eq, weightOf_membersOf h.assignment.lt_length]
      exact List.countP_eq_length.mpr fun _ _ => rfl
    rw [isEnough, hweight, decide_eq_true_eq, List.length_pos_iff]
    simp
  | some marks =>
    have hle := hmarks marks rfl
    constructor
    · refine fun henough => ⟨fun hnone => absurd hnone (Option.some_ne_none marks), fun _ i hi hrequired => ?_⟩
      have hmark : marks[i]? = some true := by
        have hget := List.getElem?_eq_getElem (Nat.lt_of_lt_of_le hi hle)
        rw [hget]
        rw [Matcher.isRequired, hget] at hrequired
        exact congrArg some hrequired
      refine (h.uses_iff i).mp (uses_of_all henough ?_ hmark)
      rwa [h.length_eq, hlength]
    · rintro ⟨-, hall⟩
      refine List.all_eq_true.mpr ?_
      rintro ⟨mark, seen⟩ hentry
      obtain ⟨i, hi⟩ := List.mem_iff_getElem?.mp hentry
      obtain ⟨hmark, hseen⟩ := List.getElem?_zip_eq_some.mp hi
      cases mark with
      | false => rfl
      | true =>
        have hlt : i < ms.length := by
          rw [← hlength, ← h.length_eq]
          exact (List.getElem?_eq_some_iff.mp hseen).1
        have hrequired : Matcher.isRequired (some marks) i = true := by
          rw [Matcher.isRequired, hmark]
          rfl
        have hused := (h.uses_iff i).mpr (hall rfl i hlt hrequired)
        rw [Search.uses, hseen] at hused
        exact hused

/-- **The search for members in any order is exact.** It leaves in use the
members of an assignment, and stops where that one does. No assignment has more
required members, all of them being so when there are no marks, and no other
member goes on from it. The group matches if some assignment has all the members
that are marked as required, or, when there are no marks, if some assignment has
any. -/
theorem searched_maximal (s : Surroundings) (ms : List Matcher) (required : Option (List Bool))
    (hmarks : ∀ marks, required = some marks → ms.length ≤ marks.length) (it : Cursor) :
    let members := membersOf s required 0 ms
    (∃ order stop, Assignment members it order stop ∧
      (searched members it).1.seen = (List.range ms.length).map (fun i => decide (i ∈ order)) ∧
      (step members required it).2.pos = stop ∧
      (∀ order' stop', Assignment members it order' stop' →
        order'.countP (Matcher.isRequired required) ≤ order.countP (Matcher.isRequired required)) ∧
      ∀ i stop', ¬Assignment members it (order ++ [i]) stop') ∧
    ((step members required it).1.isSome = true ↔ ∃ order stop, Assignment members it order stop ∧
      (required = none → order ≠ []) ∧
      (required.isSome = true → ∀ i, i < ms.length → Matcher.isRequired required i = true →
        i ∈ order)) := by
  intro members
  obtain ⟨order, stop, hbest⟩ := searched_best (membersOf_steady s required ms) it
  refine ⟨⟨order, stop, hbest.assignment, ?_, hbest.alike.pos_eq, fun _ _ => hbest.countP_le,
    hbest.last⟩, ?_⟩
  · refine List.ext_getElem ?_ fun i hi hi' => ?_
    · rw [hbest.length_eq, List.length_map, List.length_range, length_membersOf]
    · have huses := hbest.uses_iff i
      rw [Search.uses, List.getElem?_eq_getElem hi, Option.getD_some] at huses
      rw [List.getElem_map, List.getElem_range, Bool.eq_iff_iff, huses, decide_eq_true_eq]
  · rw [isSome_step, hbest.isEnough_iff hmarks]
    constructor
    · exact fun henough => ⟨order, stop, hbest.assignment, henough⟩
    · rintro ⟨order', stop', h, hsome, hall⟩
      have hle := hbest.countP_le h
      refine ⟨?_, fun hmarked => ?_⟩
      · rintro rfl rfl
        have hpos : order'.countP (Matcher.isRequired none) = order'.length :=
          List.countP_eq_length.mpr fun _ _ => rfl
        rw [hpos, List.countP_nil] at hle
        exact hsome rfl (List.eq_nil_of_length_eq_zero (Nat.le_zero.mp hle))
      · exact required_of_countP_le hbest.assignment.nodup hbest.assignment.lt_length (hall hmarked)
          hle

/-- Of a word and an optional one in the other order, all are found. -/
theorem searched_maximal_optional :
    let word := fun text => ValuePart.ofToken ⟨.ident, .ident text 0 false, text, .start, .start⟩
    let it := Cursor.start [word "b", word "a"]
    let members := membersOf (surroundings .empty it.parts) (some [true, false]) 0
      [.words ["a"] "a", .repeated (.words ["b"] "b") ⟨0, some 1, some .optional, false⟩ none]
    (step members (some [true, false]) it).1.isSome = true ∧
      ∃ order stop, Assignment members it order stop ∧ 0 ∈ order := by
  intro word it members
  have hmatches : (step members (some [true, false]) it).1.isSome = true := by decide +kernel
  obtain ⟨-, hiff⟩ := searched_maximal (surroundings .empty it.parts)
    [.words ["a"] "a", .repeated (.words ["b"] "b") ⟨0, some 1, some .optional, false⟩ none]
    (some [true, false]) (by rintro marks ⟨⟩; decide) it
  obtain ⟨order, stop, h, -, hall⟩ := hiff.mp hmatches
  exact ⟨hmatches, order, stop, h, hall rfl 0 (by decide) rfl⟩

end Group

end AnyOrder

end Stylesheet.Grammar
