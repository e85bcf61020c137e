import Mathlib.Algebra.Order.Floor.Div
import Mathlib.Data.List.Forall2
import Mathlib.GroupTheory.GroupAction.Ring
import Stylesheet.Proofs.Filing

/-!
# What clearing a store leaves

A store loses blocks when it is trimmed, and events when a caller says which
places it still complains about.

While no block is too old, trimming thins out what is left from earlier
generations, key by key (`BlockStore.Thins`): of those blocks half are kept,
one more if their number is odd, and no block that goes is younger than one
that stays. So trimming again and again halves their number again and again,
and never takes the last of them (`BlockStore.trims_thin`).

The places complained about are taken by the first block that covers them,
so what becomes of a block could depend on which blocks were visited before
it. It does not as long as no two blocks that could take a place share it:
then a block of the current generation loses its events exactly if no place
is in it, in whatever order the blocks are visited
(`BlockStore.feedback_strikes`).
-/

namespace Stylesheet

namespace BlockStore

variable {s : BlockStore} {generation now : Nat} {blocks blocks' blocks'' : List StoredBlock}
  {filed : List (String × List StoredBlock)}

/-! ## Thinning out -/

/-- The blocks of earlier generations. -/
def older (generation : Nat) (blocks : List StoredBlock) : List StoredBlock :=
  blocks.filter fun b => b.generation != generation

/-- **The blocks of a key are thinned out**: those of the current generation
stay as they are, and of the older ones only the youngest do, so many of
them. -/
structure Thins (generation count : Nat) (blocks blocks' : List StoredBlock) : Prop where
  /-- The blocks of the current generation. -/
  current : blocks'.filter (fun b => b.generation == generation) =
    blocks.filter fun b => b.generation == generation
  /-- The older blocks stay or go, and none that goes is younger than one that
  stays. -/
  youngest : ∃ dropped, (older generation blocks).Perm (older generation blocks' ++ dropped) ∧
    ∀ b ∈ older generation blocks', ∀ d ∈ dropped, d.generation ≤ b.generation
  /-- The number of those that stay. -/
  length_older : (older generation blocks').length = count

namespace Thins

variable {count count' : Nat}

theorem refl (generation : Nat) (blocks : List StoredBlock) :
    Thins generation (older generation blocks).length blocks blocks :=
  ⟨rfl, ⟨[], by rw [List.append_nil], nofun⟩, rfl⟩

/-- **Thinning out twice** is thinning out to what is left then. -/
theorem trans (h : Thins generation count blocks blocks')
    (h' : Thins generation count' blocks' blocks'') : Thins generation count' blocks blocks'' := by
  obtain ⟨dropped, hperm, hyoungest⟩ := h.youngest
  obtain ⟨dropped', hperm', hyoungest'⟩ := h'.youngest
  refine ⟨h'.current.trans h.current, ⟨dropped' ++ dropped, ?_, ?_⟩, h'.length_older⟩
  · rw [← List.append_assoc]
    exact hperm.trans (hperm'.append_right dropped)
  · intro b hb d hd
    rcases List.mem_append.mp hd with hd | hd
    · exact hyoungest' b hb d hd
    · exact hyoungest b (hperm'.mem_iff.mpr (List.mem_append_left _ hb)) d hd

/-- **No key loses its last block** if half of the older ones are kept. -/
theorem eq_nil_iff (h : Thins generation ((older generation blocks).length ⌈/⌉ 2) blocks blocks') :
    blocks' = [] ↔ blocks = [] := by
  have hsplit : ∀ bs : List StoredBlock, bs = [] ↔
      bs.filter (fun b => b.generation == generation) = [] ∧ (older generation bs).length = 0 := by
    intro bs
    rw [List.length_eq_zero_iff, older, List.filter_eq_nil_iff, List.filter_eq_nil_iff,
      List.eq_nil_iff_forall_not_mem]
    constructor
    · exact fun hnone => ⟨fun b hb => absurd hb (hnone b), fun b hb => absurd hb (hnone b)⟩
    · rintro ⟨hcurrent, holder⟩ b hb
      exact hcurrent b hb (by simpa using holder b hb)
  rw [hsplit blocks', hsplit blocks, h.current, h.length_older, Nat.ceilDiv_eq_add_pred_div]
  exact and_congr_right fun _ => by omega

end Thins

/-! ## Trimming -/

/-- Whether no filed block is too old at a time. -/
def NoneAged (s : BlockStore) (now : Nat) : Prop :=
  ∀ entry ∈ s.filed, ∀ b ∈ entry.2, now - b.used < s.retention.maxAge

/-- **The younger half stays** when no block is too old. -/
theorem kept_thins (hyoung : ∀ b ∈ blocks, now - b.used < s.retention.maxAge) :
    Thins s.generation ((older s.generation blocks).length ⌈/⌉ 2) blocks (s.kept now blocks) := by
  have hall : (blocks.filter fun b => decide (now - b.used < s.retention.maxAge)) = blocks :=
    List.filter_eq_self.mpr fun b hb => decide_eq_true (hyoung b hb)
  have hpartition : blocks.partition (fun b => b.generation == s.generation) =
      (blocks.filter fun b => b.generation == s.generation, older s.generation blocks) :=
    List.partition_eq_filter_filter
  let sorted :=
    (older s.generation blocks).mergeSort fun a b => decide (b.generation ≤ a.generation)
  let half := (sorted.length + 1) / 2
  have hperm : sorted.Perm (older s.generation blocks) := List.mergeSort_perm _ _
  have hsorted : sorted.Pairwise fun a b => b.generation ≤ a.generation := by
    refine (List.pairwise_mergeSort ?_ ?_ (older s.generation blocks)).imp of_decide_eq_true
    · intro a b c hab hbc
      exact decide_eq_true ((of_decide_eq_true hbc).trans (of_decide_eq_true hab))
    · intro a b
      simpa using Nat.le_total b.generation a.generation
  have hkept : s.kept now blocks =
      sorted.take half ++ blocks.filter fun b => b.generation == s.generation := by
    unfold kept
    rw [hall]
    dsimp only
    rw [hpartition]
  -- what is taken of the sorted blocks is all that is older among those kept
  have holder : older s.generation (s.kept now blocks) = sorted.take half := by
    rw [hkept, older, List.filter_append]
    have htaken : (sorted.take half).filter (fun b => b.generation != s.generation) =
        sorted.take half := by
      refine List.filter_eq_self.mpr fun b hb => ?_
      exact (List.mem_filter.mp (hperm.mem_iff.mp (List.mem_of_mem_take hb))).2
    have hrest : (blocks.filter fun b => b.generation == s.generation).filter
        (fun b => b.generation != s.generation) = [] := by
      refine List.filter_eq_nil_iff.mpr fun b hb => ?_
      simpa using (List.mem_filter.mp hb).2
    rw [htaken, hrest, List.append_nil]
  refine ⟨filter_kept s now blocks fun b hb _ => hyoung b hb, ⟨sorted.drop half, ?_, ?_⟩, ?_⟩
  · rw [holder, List.take_append_drop]
    exact hperm.symm
  · rw [holder]
    rw [← List.take_append_drop half sorted, List.pairwise_append] at hsorted
    exact hsorted.2.2
  · rw [holder, List.length_take, ← hperm.length_eq, Nat.ceilDiv_eq_add_pred_div]
    omega

/-- The entries of a store that have blocks. -/
def inhabited (filed : List (String × List StoredBlock)) : List (String × List StoredBlock) :=
  filed.filter fun entry => !entry.2.isEmpty

/-- **Keys keep their order, and their blocks are thinned out** as often as
said. -/
def ThinnedOut (generation times : Nat) (filed filed' : List (String × List StoredBlock)) : Prop :=
  List.Forall₂ (fun entry entry' => entry'.1 = entry.1 ∧
    Thins generation ((older generation entry.2).length ⌈/⌉ 2 ^ times) entry.2 entry'.2)
    filed filed'

theorem filed_trim (s : BlockStore) (now : Nat) : (s.trim now).filed =
    inhabited (s.filed.map fun entry => (entry.1, s.kept now entry.2)) := rfl

/-- No key is left without blocks. -/
theorem inhabited_trim (s : BlockStore) (now : Nat) :
    inhabited (s.trim now).filed = (s.trim now).filed := by
  rw [filed_trim, inhabited, inhabited, List.filter_filter]
  exact congrArg (List.filter · _) (funext fun entry => Bool.and_self _)

/-- **Trimming once** halves what is old. -/
theorem trim_thinnedOut (h : s.NoneAged now) :
    ThinnedOut s.generation 1 (inhabited s.filed) (s.trim now).filed := by
  have hthins : ∀ entry ∈ s.filed, Thins s.generation
      ((older s.generation entry.2).length ⌈/⌉ 2 ^ 1) entry.2 (s.kept now entry.2) :=
    fun entry hentry => kept_thins (h entry hentry)
  have hsame : ∀ entry ∈ s.filed,
      (!(s.kept now entry.2).isEmpty) = !entry.2.isEmpty := by
    intro entry hentry
    rw [Bool.eq_iff_iff]
    simpa using (hthins entry hentry).eq_nil_iff.not
  have hfiled : (s.trim now).filed =
      (inhabited s.filed).map fun entry => (entry.1, s.kept now entry.2) := by
    rw [filed_trim, inhabited, List.filter_map]
    exact congrArg _ (List.filter_congr hsame)
  rw [hfiled, ThinnedOut, List.forall₂_map_right_iff]
  exact List.forall₂_same.mpr fun entry hentry => ⟨rfl, hthins entry (List.mem_filter.mp hentry).1⟩

/-- **Half of a half**, and so on, each rounded up, is the whole over a power of
two, rounded up. -/
theorem ceilDiv_two_pow (m times : Nat) : (m ⌈/⌉ 2) ⌈/⌉ 2 ^ times = m ⌈/⌉ 2 ^ (times + 1) := by
  refine eq_of_forall_ge_iff fun c => ?_
  rw [ceilDiv_le_iff_le_mul (Nat.two_pow_pos _), ceilDiv_le_iff_le_mul (by decide),
    ceilDiv_le_iff_le_mul (Nat.two_pow_pos _), Nat.pow_succ', Nat.mul_assoc]

/-- **What is thinned out once and then some times more.** -/
theorem ThinnedOut.trans {times : Nat} {filed filed' filed'' : List (String × List StoredBlock)}
    (h : ThinnedOut generation 1 filed filed') (h' : ThinnedOut generation times filed' filed'') :
    ThinnedOut generation (times + 1) filed filed'' := by
  induction h generalizing filed'' with
  | nil =>
    cases h'
    exact .nil
  | cons hfirst _ ih =>
    obtain ⟨hkey, hthins⟩ := hfirst
    cases h' with
    | cons hfirst' hrest' =>
      obtain ⟨hkey', hthins'⟩ := hfirst'
      rw [hthins.length_older, Nat.pow_one, ceilDiv_two_pow] at hthins'
      exact .cons ⟨hkey'.trans hkey, hthins.trans hthins'⟩ (ih hrest')

/-- Blocks that stay are no older than before. -/
theorem NoneAged.trim {later : Nat} (h : s.NoneAged later) (now : Nat) :
    (s.trim now).NoneAged later := by
  intro entry hentry b hb
  obtain ⟨⟨key, blocks⟩, hfiled, rfl⟩ := List.mem_map.mp (List.mem_filter.mp hentry).1
  exact h _ hfiled b (mem_kept hb)

/-- **Trimming again and again** halves what is old again and again. -/
theorem foldl_trim_thinnedOut (times : List Nat) (h : ∀ now ∈ times, s.NoneAged now) :
    ThinnedOut s.generation times.length (inhabited s.filed)
      (inhabited (times.foldl trim s).filed) := by
  induction times generalizing s with
  | nil =>
    refine List.forall₂_same.mpr fun entry _ => ⟨rfl, ?_⟩
    rw [List.length_nil, Nat.pow_zero, Nat.ceilDiv_eq_add_pred_div, Nat.add_sub_cancel, Nat.div_one]
    exact .refl _ _
  | cons now times ih =>
    have hfirst := trim_thinnedOut (h now List.mem_cons_self)
    have hrest := ih (s := s.trim now) fun later hlater =>
      (h later (List.mem_cons_of_mem _ hlater)).trim now
    rw [inhabited_trim] at hrest
    exact hfirst.trans hrest

/-- A store in which every key has blocks has keys just if it has blocks. -/
theorem isEmpty_iff_size (h : inhabited s.filed = s.filed) : s.isEmpty = true ↔ s.size = 0 := by
  rw [isEmpty, size, List.isEmpty_iff, List.length_eq_zero_iff, List.flatMap_eq_nil_iff]
  constructor
  · intro hnil
    simp [hnil]
  · intro hnone
    rw [← h, inhabited, List.filter_eq_nil_iff]
    intro entry hentry
    simp [hnone entry hentry]

/-- **Trimming drops only old surplus.** While no block is too old, a number of
trims, one after the other, leaves all blocks of the current generation, and
of the older ones of each key the youngest: the half of them for each trim,
rounded up. No key loses its last block, and none is left without blocks.
Once all blocks are too old, a trim leaves nothing. -/
theorem trims_thin (s : BlockStore) (now : Nat) (times : List Nat) :
    ((∀ time ∈ now :: times, s.NoneAged time) →
      ThinnedOut s.generation (times.length + 1) (inhabited s.filed)
          ((now :: times).foldl trim s).filed ∧
        (∀ entry ∈ ((now :: times).foldl trim s).filed, entry.2 ≠ []) ∧
        (((now :: times).foldl trim s).isEmpty = true ↔
          ((now :: times).foldl trim s).size = 0)) ∧
    ((∀ entry ∈ s.filed, ∀ b ∈ entry.2, s.retention.maxAge ≤ now - b.used) →
      (s.trim now).isEmpty = true ∧ (s.trim now).size = 0) := by
  have hinhabited : ∀ (times : List Nat) (s : BlockStore), inhabited s.filed = s.filed →
      inhabited (times.foldl trim s).filed = (times.foldl trim s).filed := by
    intro times
    induction times with
    | nil => exact fun _ h => h
    | cons now times ih => exact fun s _ => ih (s.trim now) (inhabited_trim s now)
  constructor
  · intro h
    have hall := hinhabited times (s.trim now) (inhabited_trim s now)
    have hthinned := foldl_trim_thinnedOut (now :: times) h
    rw [List.foldl_cons] at hthinned ⊢
    rw [hall] at hthinned
    refine ⟨hthinned, fun entry hentry => ?_, isEmpty_iff_size hall⟩
    rw [← hall] at hentry
    simpa using (List.mem_filter.mp hentry).2
  · intro h
    have hempty : (s.trim now).filed = [] := by
      refine List.filter_eq_nil_iff.mpr fun entry hentry => ?_
      obtain ⟨⟨key, blocks⟩, hfiled, rfl⟩ := List.mem_map.mp hentry
      have hnone : s.kept now blocks = [] := by
        have hold : (blocks.filter fun b => decide (now - b.used < s.retention.maxAge)) = [] :=
          List.filter_eq_nil_iff.mpr fun b hb => by simpa using h _ hfiled b hb
        unfold kept
        rw [hold]
        simp
      simp [hnone]
    have hisEmpty : (s.trim now).isEmpty = true := List.isEmpty_iff.mpr hempty
    exact ⟨hisEmpty, (isEmpty_iff_size (inhabited_trim s now)).mp hisEmpty⟩

/-- Three old rules and a new one of the same key, trimmed twice; and the same
rules when none may grow old. -/
theorem trims_thin_twice :
    let block (generation : Nat) : StoredBlock :=
      ⟨"a\x7b\x7d", [], generation, generation, .start, ⟨1, 4, 3⟩⟩
    let s : BlockStore := { empty {} with
      filed := [("a\x7b", [block 4, block 2, block 1, block 3])]
      generation := 4 }
    let strict : BlockStore := { s with retention := ⟨0, 0⟩ }
    (∀ time ∈ [5, 6], s.NoneAged time) ∧
      ThinnedOut 4 2 (inhabited s.filed) ([5, 6].foldl trim s).filed ∧
      (∀ entry ∈ strict.filed, ∀ b ∈ entry.2, strict.retention.maxAge ≤ 5 - b.used) ∧
      (strict.trim 5).size = 0 := by
  intro block s strict
  have hyoung : ∀ time ∈ [5, 6], s.NoneAged time := by
    intro time htime entry hentry b hb
    have hle : time ≤ 6 := by revert htime; simp; omega
    exact Nat.lt_of_le_of_lt ((Nat.sub_le _ _).trans hle) (by decide)
  have hold : ∀ entry ∈ strict.filed, ∀ b ∈ entry.2, strict.retention.maxAge ≤ 5 - b.used :=
    fun _ _ _ _ => Nat.zero_le _
  exact ⟨hyoung, ((trims_thin s 5 [6]).1 hyoung).1, hold, ((trims_thin strict 5 []).2 hold).2⟩

/-! ## Striking out what is clean -/

/-- Whether a block can take places: it is of the current generation and has
events. -/
def Takes (generation : Nat) (b : StoredBlock) : Bool :=
  b.generation == generation && !b.events.isEmpty

/-- **No place is in two blocks** that can take it. -/
def TakenOnce (generation : Nat) (places : List Location) (blocks : List StoredBlock) : Prop :=
  ∀ loc ∈ places, (blocks.filter fun b => Takes generation b && b.covers loc).length ≤ 1

/-- **A block of the current generation without a place in it** loses its
events; any other block stays as it is. -/
def struck (generation : Nat) (places : List Location) (b : StoredBlock) : StoredBlock :=
  if b.generation = generation ∧ ∀ loc ∈ places, b.covers loc = false then bare b else b

section Striking

variable {places left : List Location} {b b' : StoredBlock} {loc : Location}

/-- The places that a block leaves to others. -/
def leaves (generation : Nat) (places : List Location) (b : StoredBlock) : List Location :=
  if Takes generation b then places.filter fun loc => !b.covers loc else places

/-- A block after it has been visited. -/
def visited (generation : Nat) (places : List Location) (b : StoredBlock) : StoredBlock :=
  if Takes generation b && (leaves generation places b).length == places.length then bare b else b

/-- **One block is visited**, and then the others with the places it leaves. -/
theorem strikeClean_cons (generation : Nat) (places : List Location) (b : StoredBlock)
    (blocks : List StoredBlock) : strikeClean generation places (b :: blocks) =
      ((strikeClean generation (leaves generation places b) blocks).1,
        visited generation places b ::
          (strikeClean generation (leaves generation places b) blocks).2) := by
  have hidle : (b.events.isEmpty || b.generation != generation) = !Takes generation b := by
    rw [Takes, Bool.not_and, Bool.not_not, Bool.or_comm]
    rfl
  conv_lhs => unfold strikeClean
  rw [hidle]
  unfold visited leaves
  cases htakes : Takes generation b <;> rfl

theorem mem_leaves : loc ∈ leaves generation places b ↔
    loc ∈ places ∧ (Takes generation b = true → b.covers loc = false) := by
  unfold leaves
  split_ifs with htakes
  · simp [List.mem_filter, htakes]
  · simp [htakes]

/-- **A place is left** if no block could take it. -/
theorem mem_fst_strikeClean : loc ∈ (strikeClean generation places blocks).1 ↔
    loc ∈ places ∧ ∀ b ∈ blocks, Takes generation b = true → b.covers loc = false := by
  induction blocks generalizing places with
  | nil => simp [strikeClean]
  | cons b blocks ih =>
    rw [strikeClean_cons, ih, mem_leaves, List.forall_mem_cons, and_assoc]

/-- **A block finds all places that are in it**, if others have taken none of
them. -/
def Finds (generation : Nat) (places left : List Location) (b : StoredBlock) : Prop :=
  Takes generation b = true → ∀ loc ∈ places, b.covers loc = true → loc ∈ left

theorem visited_eq_struck (hleft : left ⊆ places) (h : Finds generation places left b) :
    visited generation left b = struck generation places b := by
  unfold visited struck
  cases htakes : Takes generation b with
  | false =>
    -- striking out makes no difference to what has no events
    rw [Bool.false_and, if_neg Bool.false_ne_true]
    split_ifs with hclean
    · have hevents : b.events = [] := by simpa [Takes, hclean.1] using htakes
      cases b
      exact congrArg (StoredBlock.mk _ · _ _ _ _) hevents
    · rfl
  | true =>
    have hgeneration : b.generation = generation := by
      simpa using (Bool.and_eq_true_iff.mp htakes).1
    have hclean : (true && (leaves generation left b).length == left.length) = true ↔
        b.generation = generation ∧ ∀ loc ∈ places, b.covers loc = false := by
      rw [Bool.true_and, beq_iff_eq, leaves, if_pos htakes, List.length_filter_eq_length_iff]
      constructor
      · refine fun hnone => ⟨hgeneration, fun loc hloc => Bool.eq_false_iff.mpr fun hcovers => ?_⟩
        simpa [hcovers] using hnone loc (h htakes loc hloc hcovers)
      · rintro ⟨-, hnone⟩ loc hloc
        simp [hnone loc (hleft hloc)]
    simp only [hclean]

/-- Two blocks share no place that both can take. -/
def Apart (generation : Nat) (places : List Location) (b b' : StoredBlock) : Prop :=
  ∀ loc ∈ places, (Takes generation b && b.covers loc) = true →
    (Takes generation b' && b'.covers loc) = false

theorem TakenOnce.pairwise (h : TakenOnce generation places blocks) :
    blocks.Pairwise (Apart generation places) := by
  induction blocks with
  | nil => exact .nil
  | cons b blocks ih =>
    have htail : TakenOnce generation places blocks := fun loc hloc =>
      ((List.sublist_cons_self b blocks).filter _).length_le.trans (h loc hloc)
    refine List.pairwise_cons.mpr ⟨fun b' hb' loc hloc htakes => ?_, ih htail⟩
    have hone := h loc hloc
    rw [List.filter_cons, if_pos htakes, List.length_cons, Nat.succ_le_succ_iff, Nat.le_zero,
      List.length_eq_zero_iff, List.filter_eq_nil_iff] at hone
    simpa using hone b' hb'

theorem TakenOnce.perm (h : TakenOnce generation places blocks) (hperm : blocks'.Perm blocks) :
    TakenOnce generation places blocks' := fun loc hloc =>
  ((hperm.filter _).length_eq.trans_le (h loc hloc))

/-- **A block leaves the places of blocks apart from it.** -/
theorem Finds.leaves (h : Finds generation places left b') (hapart : Apart generation places b b') :
    Finds generation places (leaves generation left b) b' := by
  refine fun htakes' loc hloc hcovers' =>
    mem_leaves.mpr ⟨h htakes' loc hloc hcovers', fun htakes => ?_⟩
  refine Bool.eq_false_iff.mpr fun hcovers => ?_
  have hnot := hapart loc hloc (by simp [htakes, hcovers])
  simp [htakes', hcovers'] at hnot

/-- **Blocks apart are struck out each for itself**: every one still finds the
places that are in it, whatever those before it have taken. -/
theorem strikeClean_apart (h : blocks.Pairwise (Apart generation places)) (hleft : left ⊆ places)
    (hfinds : ∀ b ∈ blocks, Finds generation places left b) :
    (strikeClean generation left blocks).2 = blocks.map (struck generation places) := by
  induction blocks generalizing left with
  | nil => rfl
  | cons b blocks ih =>
    obtain ⟨hb, hblocks⟩ := List.pairwise_cons.mp h
    obtain ⟨hfinds, htail⟩ := List.forall_mem_cons.mp hfinds
    rw [strikeClean_cons, List.map_cons, visited_eq_struck hleft hfinds,
      ih hblocks (fun loc hloc => hleft (mem_leaves.mp hloc).1)
        fun b' hb' => (htail b' hb').leaves (hb b' hb')]

theorem strikeCleanAll_apart (h : (filed.flatMap (·.2)).Pairwise (Apart generation places))
    (hleft : left ⊆ places) (hfinds : ∀ b ∈ filed.flatMap (·.2), Finds generation places left b) :
    strikeCleanAll generation left filed =
      filed.map fun entry => (entry.1, entry.2.map (struck generation places)) := by
  induction filed generalizing left with
  | nil => rfl
  | cons entry filed ih =>
    rw [List.flatMap_cons] at h hfinds
    obtain ⟨hblocks, hrest, hbetween⟩ := List.pairwise_append.mp h
    obtain ⟨hfinds, htail⟩ := List.forall_mem_append.mp hfinds
    have hlater : ∀ b ∈ filed.flatMap (·.2),
        Finds generation places (strikeClean generation left entry.2).1 b := by
      refine fun b hb htakes loc hloc hcovers =>
        mem_fst_strikeClean.mpr ⟨htail b hb htakes loc hloc hcovers, fun b' hb' htakes' => ?_⟩
      refine Bool.eq_false_iff.mpr fun hcovers' => ?_
      have hnot := hbetween b' hb' b hb loc hloc (by simp [htakes', hcovers'])
      simp [htakes, hcovers] at hnot
    unfold strikeCleanAll
    dsimp only
    rw [List.map_cons, strikeClean_apart hblocks hleft hfinds,
      ih hrest (fun loc hloc => hleft (mem_fst_strikeClean.mp hloc).1) hlater]

end Striking

/-- **Feedback strikes out exactly the clean blocks.** If no place is in two
blocks that can take it, then a block loses its events just if it is of the
current generation and no place is in it, and nothing else changes. It makes
no difference in which order the keys stand, nor in which order the blocks
are visited. -/
theorem feedback_strikes {places : List Location}
    (h : TakenOnce s.generation places (s.filed.flatMap (·.2))) :
    (∀ filed, filed.Perm s.filed → ({ s with filed := filed } : BlockStore).feedback places =
      { s with filed := filed.map fun entry =>
        (entry.1, entry.2.map (struck s.generation places)) }) ∧
    ∀ blocks, blocks.Perm (s.filed.flatMap (·.2)) →
      (strikeClean s.generation places blocks).2 = blocks.map (struck s.generation places) := by
  have hfinds : ∀ b, Finds s.generation places places b := fun _ _ _ hloc _ => hloc
  constructor
  · intro filed hperm
    have hapart := (h.perm (hperm.flatMap_right _)).pairwise
    exact congrArg (fun filed => { s with filed := filed })
      (strikeCleanAll_apart hapart (List.Subset.refl _) fun b _ => hfinds b)
  · intro blocks hperm
    exact strikeClean_apart (h.perm hperm).pairwise (List.Subset.refl _) fun b _ => hfinds b

/-- Of two rules in a row the second one is complained about, twice. -/
theorem feedback_strikes_first :
    let warning : Event := ⟨.warning "w", .start⟩
    let first : StoredBlock := ⟨"a\x7b\x7d", [warning], 1, 0, .start, ⟨1, 4, 3⟩⟩
    let second : StoredBlock := ⟨"b\x7b\x7d", [warning], 1, 0, ⟨2, 1, 4⟩, ⟨2, 4, 7⟩⟩
    let s : BlockStore := { empty {} with
      filed := [("a\x7b", [first]), ("b\x7b", [second])]
      generation := 1 }
    let places : List Location := [⟨2, 2, 5⟩, ⟨2, 2, 5⟩]
    TakenOnce s.generation places (s.filed.flatMap (·.2)) ∧
      (s.feedback places).filed = [("a\x7b", [bare first]), ("b\x7b", [second])] := by
  intro warning first second s places
  have honce : TakenOnce s.generation places (s.filed.flatMap (·.2)) := by
    intro loc hloc
    obtain rfl : loc = ⟨2, 2, 5⟩ := by simpa [places] using hloc
    decide
  have hfiled := congrArg BlockStore.filed ((feedback_strikes honce).1 s.filed (.refl _))
  have hfirst : struck s.generation places first = bare first := if_pos (by decide)
  have hsecond : struck s.generation places second = second := if_neg (by decide)
  refine ⟨honce, hfiled.trans ?_⟩
  rw [← hfirst]
  conv_rhs => rw [← hsecond]
  rfl

end BlockStore

end Stylesheet
