import Stylesheet.Proofs.TokenCut
import Stylesheet.Session

/-!
# What is reused

A rule that is found again is moved to where its text stands now. All
places in it move as its text does, and the place after it is the one
after the same text (`BlockStore.found_in_place`). This is so in every
store that parses lead to, whatever they have read: while a block is open
it starts at a place of the source that is read, and once it is filed its
text lies between its ends.

The text of a rule is all that a store asks for. What else its events
depend on is not asked for: a selector that refers to the rule around it
is fit inside a scope, and is reported elsewhere, but not when the rule
was read inside a scope before (`reuse_across_scopes`).
-/

namespace Stylesheet

/-! ## Moving places -/

/-- **Places at the same distance**: one from an origin, the other from
another. Within the line of the origins columns count from them. -/
structure Location.Parallel (origin origin' loc loc' : Location) (lines : Nat) : Prop where
  /-- The lines between. -/
  line : loc.line = origin.line + lines ∧ loc'.line = origin'.line + lines
  /-- The bytes between. -/
  offset : ∃ n, loc.offset = origin.offset + n ∧ loc'.offset = origin'.offset + n
  /-- The columns between, on the line of the origins. -/
  column : lines = 0 → ∃ n, loc.column = origin.column + n ∧ loc'.column = origin'.column + n
  /-- The columns on other lines. -/
  later : lines ≠ 0 → loc.column = loc'.column

namespace Location.Parallel

variable {origin origin' loc loc' : Location} {lines : Nat}

theorem refl (origin origin' : Location) : Parallel origin origin' origin origin' 0 :=
  ⟨⟨rfl, rfl⟩, ⟨0, rfl, rfl⟩, fun _ => ⟨0, rfl, rfl⟩, fun h => absurd rfl h⟩

theorem step (h : Parallel origin origin' loc loc' lines) (c : Char) :
    ∃ lines, Parallel origin origin' (loc.step c) (loc'.step c) lines := by
  obtain ⟨n, hn, hn'⟩ := h.offset
  have hoffset : ∃ n, loc.offset + c.utf8Size = origin.offset + n ∧
      loc'.offset + c.utf8Size = origin'.offset + n :=
    ⟨n + c.utf8Size, by rw [hn, Nat.add_assoc], by rw [hn', Nat.add_assoc]⟩
  unfold Location.step
  split_ifs
  · refine ⟨lines + 1, ⟨?_, ?_⟩, hoffset, fun h => absurd h (Nat.succ_ne_zero _), fun _ => rfl⟩
    · rw [h.line.1, Nat.add_assoc]
    · rw [h.line.2, Nat.add_assoc]
  · refine ⟨lines, h.line, hoffset, fun hline => ?_, fun hline => congrArg (· + 1) (h.later hline)⟩
    obtain ⟨k, hk, hk'⟩ := h.column hline
    exact ⟨k + 1, congrArg (· + 1) hk, congrArg (· + 1) hk'⟩

theorem advance (h : Parallel origin origin' loc loc' lines) (cs : List Char) :
    ∃ lines, Parallel origin origin' (loc.advance cs) (loc'.advance cs) lines := by
  induction cs generalizing loc loc' lines with
  | nil => exact ⟨lines, h⟩
  | cons c cs ih =>
    obtain ⟨lines, h⟩ := h.step c
    exact ih h

/-- The distance between the origins leads from one place to the other. -/
theorem shift_eq (h : Parallel origin origin' loc loc' lines) :
    shift (Delta.between origin origin') loc = loc' := by
  obtain ⟨⟨hline, hline'⟩, ⟨n, hn, hn'⟩, hcolumn, hlater⟩ := h
  have hcolumns : (if loc.line = origin.line then
      moveCount loc.column ((origin'.column : Int) - origin.column) else loc.column) =
        loc'.column := by
    unfold moveCount
    split_ifs with hanchor
    · obtain ⟨k, hk, hk'⟩ := hcolumn (by omega)
      omega
    · exact hlater (by omega)
  have hlines : moveCount loc.line ((origin'.line : Int) - origin.line) = loc'.line := by
    unfold moveCount
    omega
  have hoffsets : moveCount loc.offset ((origin'.offset : Int) - origin.offset) = loc'.offset := by
    unfold moveCount
    omega
  calc shift (Delta.between origin origin') loc = ⟨_, _, _⟩ := rfl
    _ = ⟨loc'.line, loc'.column, loc'.offset⟩ := by rw [← hlines, ← hcolumns, ← hoffsets]; rfl
    _ = loc' := rfl

end Location.Parallel

/-- **A place in a text moves with the text.** -/
theorem shift_between_advance (origin target : Location) (cs : List Char) :
    shift (Delta.between origin target) (origin.advance cs) = target.advance cs := by
  obtain ⟨lines, h⟩ := (Location.Parallel.refl origin target).advance cs
  exact h.shift_eq

/-- A distance of nothing leads to the same place. -/
theorem Delta.eq_of_isZero {origin target : Location} (h : (between origin target).isZero = true) :
    origin = target := by
  simp only [isZero, between, Bool.and_eq_true, beq_iff_eq] at h
  obtain ⟨line, column, offset⟩ := origin
  obtain ⟨line', column', offset'⟩ := target
  simp only [Location.mk.injEq]
  dsimp only at h
  omega

/-! ## Blocks -/

namespace StoredBlock

variable {b : StoredBlock}

/-- **A block whose text lies between its ends.** -/
def InPlace (b : StoredBlock) : Prop := b.stop = b.start.advance b.text.toList

/-- **A block stays in place when it moves.** -/
theorem InPlace.moveTo (h : b.InPlace) (target : Location) : (b.moveTo target).InPlace := by
  unfold StoredBlock.moveTo
  dsimp only
  split_ifs
  · exact h
  · unfold InPlace at h ⊢
    dsimp only
    rw [h, shift_between_advance, show shift _ b.start = target from
      shift_between_advance b.start target []]

theorem start_moveTo (b : StoredBlock) (target : Location) : (b.moveTo target).start = target := by
  unfold StoredBlock.moveTo
  dsimp only
  split_ifs with hzero
  · exact Delta.eq_of_isZero hzero
  · exact shift_between_advance b.start target []

theorem text_moveTo (b : StoredBlock) (target : Location) : (b.moveTo target).text = b.text := by
  unfold StoredBlock.moveTo
  dsimp only
  split_ifs <;> rfl

end StoredBlock

namespace BlockStore

variable {source : List Char} {s : BlockStore} {key : String} {blocks : List StoredBlock}
  {b : StoredBlock} {loc : Location}

/-! ## Stores -/

/-- **A store whose blocks are in place**: the filed ones, and the starts
of the open ones in the source that is being read. -/
structure IsInPlace (source : List Char) (s : BlockStore) : Prop where
  /-- The filed blocks. -/
  filed : ∀ entry ∈ s.filed, ∀ b ∈ entry.2, b.InPlace
  /-- The open blocks. -/
  opened : ∀ b ∈ s.open_, IsPlace source b.start

/-- **The stores that parses lead to**, with the source that is being
read. -/
inductive Reached : List Char → BlockStore → Prop where
  /-- A new store. -/
  | empty (retention : Retention) : Reached [] (empty retention)
  /-- Another document. -/
  | reset {source : List Char} {s : BlockStore} : Reached source s → Reached source s.reset
  /-- A parse begins. -/
  | start {before : List Char} {s : BlockStore} (source : List Char) (now : Nat) :
      Reached before s → Reached source (s.start now)
  /-- A rule begins. -/
  | openBlock {source : List Char} {s : BlockStore} {loc : Location} :
      Reached source s → IsPlace source loc → Reached source (s.openBlock loc).2
  /-- An event is reported. -/
  | addEvent {source : List Char} {s : BlockStore} (e : Event) :
      Reached source s → Reached source (s.addEvent e)
  /-- A rule ends. -/
  | closeBlock {source : List Char} {s : BlockStore} {loc : Location} :
      Reached source s → IsPlace source loc → Reached source (s.closeBlock source loc)
  /-- A rule is given up. -/
  | cancelBlock {source : List Char} {s : BlockStore} (id : Nat) :
      Reached source s → Reached source (s.cancelBlock id)
  /-- A rule is looked for. -/
  | findBlock {source : List Char} {s : BlockStore} (loc : Location) :
      Reached source s → Reached source (s.findBlock source loc).2
  /-- A parse is over, and some complaints remain. -/
  | feedback {source : List Char} {s : BlockStore} (complaints : List Location) :
      Reached source s → Reached source (s.feedback complaints)

theorem mem_setBlocks {filed : List (String × List StoredBlock)}
    {entry : String × List StoredBlock} (h : entry ∈ setBlocks key blocks filed) :
    entry ∈ filed ∨ entry.2 = blocks := by
  induction filed with
  | nil => exact .inr (congrArg Prod.snd (List.mem_singleton.mp h))
  | cons first filed ih =>
    obtain ⟨k, bs⟩ := first
    unfold setBlocks at h
    split_ifs at h
    · rcases List.mem_cons.mp h with rfl | h
      · exact .inr rfl
      · exact .inl (List.mem_cons_of_mem _ h)
    · rcases List.mem_cons.mp h with rfl | h
      · exact .inl List.mem_cons_self
      · exact (ih h).imp (List.mem_cons_of_mem _) id

theorem mem_of_blocksOf (h : s.blocksOf key = some blocks) : (key, blocks) ∈ s.filed := by
  obtain ⟨before, after, hfiled, -⟩ := List.lookup_eq_some_iff.mp h
  rw [hfiled]
  exact List.mem_append_right _ List.mem_cons_self

/-- **Filing blocks in place** keeps a store in place. -/
theorem IsInPlace.setBlocks (h : ∀ entry ∈ s.filed, ∀ b ∈ entry.2, b.InPlace)
    (hblocks : ∀ b ∈ blocks, b.InPlace) :
    ∀ entry ∈ setBlocks key blocks s.filed, ∀ b ∈ entry.2, b.InPlace := by
  intro entry hentry b hb
  rcases mem_setBlocks hentry with hentry | hentry
  · exact h entry hentry b hb
  · exact hblocks b (hentry ▸ hb)

/-- The text between two places of a source leads from one to the
other. -/
theorem advance_of_cut {start stop : Location} {after text : List Char}
    (hstart : IsPlace source start) (hstop : IsPlace source stop)
    (hle : start.offset ≤ stop.offset) (hafter : Text.dropBytes? source start.offset = some after)
    (htext : Text.takeBytes? after (stop.offset - start.offset) = some text) :
    stop = start.advance text := by
  obtain ⟨before, rest, rfl, rfl⟩ := hstart
  obtain ⟨before', rest', hsource, rfl⟩ := hstop
  simp only [Location.offset_advance_start] at hle hafter htext
  rw [Text.dropBytes?_append, Option.some.injEq] at hafter
  obtain ⟨post, hpost, hlength⟩ := Text.takeBytes?_eq_some htext
  rw [hafter, hpost, ← List.append_assoc] at hsource
  have hbefore : before ++ text = before' := by
    refine (append_eq_append_of_byteLength hsource ?_).1
    rw [Text.byteLength_append, hlength, Nat.add_sub_cancel' hle]
  rw [← hbefore, Location.advance_append]

/-- **A block that is closed is in place.** -/
theorem IsInPlace.closeBlock (h : s.IsInPlace source) (hloc : IsPlace source loc) :
    (s.closeBlock source loc).IsInPlace source := by
  unfold BlockStore.closeBlock
  cases hopen : s.open_ with
  | nil => exact h
  | cons block rest =>
    have hrest : ∀ b ∈ rest, IsPlace source b.start := fun b hb =>
      h.opened b (hopen ▸ List.mem_cons_of_mem _ hb)
    dsimp only
    split
    · next key text _ htext =>
      obtain ⟨⟨⟩, hle, htext⟩ := Option.bind_eq_some_iff.mp htext
      obtain ⟨after, hafter, htext⟩ := Option.bind_eq_some_iff.mp htext
      refine ⟨IsInPlace.setBlocks h.filed fun b hb => ?_, hrest⟩
      rcases List.mem_append.mp hb with hb | hb
      · have hfiled : b ∈ (s.blocksOf key).getD [] := hb
        cases hblocks : s.blocksOf key with
        | none => simp [hblocks] at hfiled
        | some blocks =>
          rw [hblocks] at hfiled
          exact h.filed _ (mem_of_blocksOf hblocks) b hfiled
      · obtain rfl := List.mem_singleton.mp hb
        have hstart := h.opened block (hopen ▸ List.mem_cons_self)
        have hle : block.start.offset ≤ loc.offset := by
          refine Decidable.byContradiction fun hnot => ?_
          have hguard : (if block.start.offset ≤ loc.offset then some () else none) = some () := hle
          rw [if_neg hnot] at hguard
          cases hguard
        unfold StoredBlock.InPlace
        rw [String.toList_ofList]
        exact advance_of_cut hstart hloc hle hafter htext
    · exact ⟨h.filed, hrest⟩

/-- Events change nothing but events. -/
theorem mem_addTo {e : Event} {bs : List StoredBlock} (h : b ∈ addTo e bs) :
    ∃ b' ∈ bs, b = b' ∨ b = { b' with events := e :: b'.events } := by
  induction bs with
  | nil => cases h
  | cons first bs ih =>
    unfold addTo at h
    split_ifs at h
    · rcases List.mem_cons.mp h with rfl | h
      · exact ⟨first, List.mem_cons_self, .inr rfl⟩
      · exact ⟨b, List.mem_cons_of_mem _ h, .inl rfl⟩
    · rcases List.mem_cons.mp h with rfl | h
      · exact ⟨b, List.mem_cons_self, .inl rfl⟩
      · obtain ⟨b', hb', hsame⟩ := ih h
        exact ⟨b', List.mem_cons_of_mem _ hb', hsame⟩

/-- A block that can stand at a place is one of those looked at, and its
text follows there. -/
theorem mem_ranked {entry : Nat × StoredBlock} (h : entry ∈ s.ranked source loc blocks) :
    entry.2 ∈ blocks ∧ entry.2.text.toList <+: Text.suffixAt source loc.offset := by
  obtain ⟨⟨d, i, b⟩, hmem, rfl⟩ := List.mem_map.mp h
  obtain ⟨⟨j, b'⟩, hfitting, heq⟩ := List.mem_map.mp (List.mem_mergeSort.mp hmem)
  cases heq
  obtain ⟨hzip, htext⟩ := List.mem_filter.mp hfitting
  exact ⟨(List.of_mem_zip hzip).2, List.isPrefixOf_iff_prefix.mp htext⟩

/-- A block that is used at a place. -/
def useAt (s : BlockStore) (loc : Location) (b : StoredBlock) : StoredBlock :=
  { b.moveTo loc with generation := s.generation, used := s.started }

/-- **What becomes of the blocks of a key** when one of them is used at a
place. One of an earlier generation goes there itself, and one of this
generation stays and a copy of it goes there. -/
def Replaces (s : BlockStore) (loc : Location) (b : StoredBlock)
    (blocks blocks' : List StoredBlock) : Prop :=
  (∃ i, blocks[i]? = some b ∧ b.generation ≠ s.generation ∧ blocks' = blocks.set i (s.useAt loc b)) ∨
    b ∈ blocks ∧ blocks' = blocks ++ [s.useAt loc b]

/-- The blocks that can stand at a place are ranked with their positions. -/
theorem getElem?_of_mem_ranked {entry : Nat × StoredBlock}
    (h : entry ∈ s.ranked source loc blocks) : blocks[entry.1]? = some entry.2 := by
  obtain ⟨⟨d, i, b⟩, hmem, rfl⟩ := List.mem_map.mp h
  obtain ⟨⟨j, b'⟩, hfitting, heq⟩ := List.mem_map.mp (List.mem_mergeSort.mp hmem)
  cases heq
  obtain ⟨k, hk⟩ := List.mem_iff_getElem?.mp (List.mem_filter.mp hfitting).1
  obtain ⟨hleft, hright⟩ := List.getElem?_zip_eq_some.mp hk
  obtain ⟨hlt, rfl⟩ := List.getElem?_eq_some_iff.mp hleft
  rwa [List.getElem_range]

/-- **What looking for a block does.** Nothing is found and only counted;
or a block of the key that stands at the place is found, whose text
follows there. It is used there, and its events and its end are those of
the block at its new place. -/
theorem findBlock_inv (s : BlockStore) (source : List Char) (loc : Location) :
    (∃ misses, s.findBlock source loc = (none, { s with misses := misses })) ∨
      ∃ key blocks b blocks', keyAt? source loc.offset = some key ∧
        s.blocksOf key = some blocks ∧ b.text.toList <+: Text.suffixAt source loc.offset ∧
        s.Replaces loc b blocks blocks' ∧
        s.findBlock source loc = (some ((b.moveTo loc).events, (b.moveTo loc).stop),
          { s with filed := setBlocks key blocks' s.filed, hits := s.hits + 1 }) := by
  unfold findBlock
  split
  · exact .inl ⟨s.misses, rfl⟩
  · next key hkey =>
    dsimp only
    split
    · exact .inl ⟨_, rfl⟩
    · next blocks hblocks =>
      split
      · exact .inl ⟨_, rfl⟩
      · next best others hranked =>
        have hfound : ∀ entry ∈ best :: others, entry ∈ s.ranked source loc blocks :=
          fun entry hentry => hranked ▸ hentry
        split
        · next i b hfind =>
          have hmem := hfound _ (List.mem_of_find?_eq_some hfind)
          have hold : b.generation ≠ s.generation := by simpa using List.find?_some hfind
          exact .inr ⟨key, blocks, b, _, hkey, hblocks, (mem_ranked hmem).2,
            .inl ⟨i, getElem?_of_mem_ranked hmem, hold, rfl⟩, rfl⟩
        · obtain ⟨hb, htext⟩ := mem_ranked (hfound best List.mem_cons_self)
          exact .inr ⟨key, blocks, best.2, _, hkey, hblocks, htext, .inr ⟨hb, rfl⟩, rfl⟩

/-- The block that is used was among the blocks, and all others were. -/
theorem Replaces.mem {blocks' : List StoredBlock} (h : s.Replaces loc b blocks blocks') :
    b ∈ blocks ∧ ∀ b' ∈ blocks', b' ∈ blocks ∨ b' = s.useAt loc b := by
  rcases h with ⟨i, hi, -, rfl⟩ | ⟨hb, rfl⟩
  · exact ⟨List.mem_of_getElem? hi, fun b' hb' => List.mem_or_eq_of_mem_set hb'⟩
  · exact ⟨hb, fun b' hb' => (List.mem_append.mp hb').imp id List.mem_singleton.mp⟩

/-- The same, with what is filed only. -/
theorem findBlock_cases (s : BlockStore) (source : List Char) (loc : Location) :
    (s.findBlock source loc).2.open_ = s.open_ ∧
      ((s.findBlock source loc).1 = none ∧ (s.findBlock source loc).2.filed = s.filed ∨
        ∃ key blocks b blocks', (key, blocks) ∈ s.filed ∧ b ∈ blocks ∧
          b.text.toList <+: Text.suffixAt source loc.offset ∧
          (s.findBlock source loc).1 = some ((b.moveTo loc).events, (b.moveTo loc).stop) ∧
          (s.findBlock source loc).2.filed = setBlocks key blocks' s.filed ∧
          ∀ b' ∈ blocks', b' ∈ blocks ∨ b' = s.useAt loc b) := by
  obtain ⟨misses, hrun⟩ | ⟨key, blocks, b, blocks', -, hblocks, htext, hreplaces, hrun⟩ :=
    findBlock_inv s source loc
  · rw [hrun]
    exact ⟨rfl, .inl ⟨rfl, rfl⟩⟩
  · rw [hrun]
    exact ⟨rfl, .inr ⟨key, blocks, b, blocks', mem_of_blocksOf hblocks, hreplaces.mem.1, htext,
      rfl, rfl, hreplaces.mem.2⟩⟩

theorem IsInPlace.findBlock (h : s.IsInPlace source) (loc : Location) :
    (s.findBlock source loc).2.IsInPlace source := by
  obtain ⟨misses, hrun⟩ | ⟨key, blocks, b, blocks', -, hblocks, -, hreplaces, hrun⟩ :=
    findBlock_inv s source loc
  · rw [hrun]
    exact ⟨h.filed, h.opened⟩
  · rw [hrun]
    have hmem := mem_of_blocksOf hblocks
    refine ⟨IsInPlace.setBlocks h.filed fun b' hb' => ?_, h.opened⟩
    rcases hreplaces.mem.2 b' hb' with hb' | rfl
    · exact h.filed _ hmem b' hb'
    · exact (h.filed _ hmem b hreplaces.mem.1).moveTo loc

/-- Old blocks are dropped, and none is added. -/
theorem mem_kept {now : Nat} (h : b ∈ s.kept now blocks) : b ∈ blocks := by
  unfold kept at h
  dsimp only at h
  have hyoung : ∀ b ∈ blocks.filter fun b => decide (now - b.used < s.retention.maxAge),
      b ∈ blocks := fun b hb => (List.mem_filter.mp hb).1
  rw [List.partition_eq_filter_filter] at h
  rcases List.mem_append.mp h with h | h
  · have h := List.mem_mergeSort.mp (List.mem_of_mem_take h)
    exact hyoung b (List.mem_filter.mp h).1
  · exact hyoung b (List.mem_filter.mp h).1

theorem IsInPlace.start {before : List Char} (h : s.IsInPlace before) (source : List Char)
    (now : Nat) : (s.start now).IsInPlace source := by
  unfold BlockStore.start
  dsimp only
  split_ifs
  · refine ⟨fun entry hentry b hb => ?_, fun b hb => by cases hb⟩
    obtain ⟨⟨key, blocks⟩, hfiled, rfl⟩ := List.mem_map.mp (List.mem_filter.mp hentry).1
    exact h.filed _ hfiled b (mem_kept hb)
  · exact ⟨h.filed, fun b hb => by cases hb⟩

/-- Events are struck out, and nothing else changes. -/
theorem mem_strikeClean {generation : Nat} {complaints : List Location}
    (h : b ∈ (strikeClean generation complaints blocks).2) :
    ∃ b' ∈ blocks, b = b' ∨ b = { b' with events := [] } := by
  induction blocks generalizing complaints with
  | nil => cases h
  | cons first blocks ih =>
    have hlater : ∀ {complaints}, b ∈ (strikeClean generation complaints blocks).2 →
        ∃ b' ∈ first :: blocks, b = b' ∨ b = { b' with events := [] } := by
      intro complaints h
      obtain ⟨b', hb', hsame⟩ := ih h
      exact ⟨b', List.mem_cons_of_mem _ hb', hsame⟩
    unfold strikeClean at h
    dsimp only at h
    split_ifs at h
    · rcases List.mem_cons.mp h with rfl | h
      · exact ⟨b, List.mem_cons_self, .inl rfl⟩
      · exact hlater h
    · rcases List.mem_cons.mp h with rfl | h
      · exact ⟨first, List.mem_cons_self, .inr rfl⟩
      · exact hlater h
    · rcases List.mem_cons.mp h with rfl | h
      · exact ⟨b, List.mem_cons_self, .inl rfl⟩
      · exact hlater h

theorem mem_strikeCleanAll {generation : Nat} {complaints : List Location}
    {filed : List (String × List StoredBlock)} {entry : String × List StoredBlock}
    (hentry : entry ∈ strikeCleanAll generation complaints filed) (h : b ∈ entry.2) :
    ∃ entry' ∈ filed, ∃ b' ∈ entry'.2, b = b' ∨ b = { b' with events := [] } := by
  induction filed generalizing complaints with
  | nil => cases hentry
  | cons first filed ih =>
    obtain ⟨key, blocks⟩ := first
    unfold strikeCleanAll at hentry
    dsimp only at hentry
    rcases List.mem_cons.mp hentry with rfl | hentry
    · obtain ⟨b', hb', hsame⟩ := mem_strikeClean h
      exact ⟨_, List.mem_cons_self, b', hb', hsame⟩
    · obtain ⟨entry', hentry', hb⟩ := ih hentry
      exact ⟨entry', List.mem_cons_of_mem _ hentry', hb⟩

/-- **Every store that parses lead to is in place.** -/
theorem Reached.isInPlace (h : Reached source s) : s.IsInPlace source := by
  induction h with
  | empty => exact ⟨fun _ h => absurd h List.not_mem_nil, fun _ h => absurd h List.not_mem_nil⟩
  | reset => exact ⟨fun _ h => absurd h List.not_mem_nil, fun _ h => absurd h List.not_mem_nil⟩
  | start source now _ ih => exact ih.start source now
  | openBlock _ hloc ih =>
    refine ⟨ih.filed, fun b hb => ?_⟩
    rcases List.mem_cons.mp hb with rfl | hb
    · exact hloc
    · exact ih.opened b hb
  | addEvent e _ ih =>
    refine ⟨ih.filed, fun b hb => ?_⟩
    obtain ⟨b', hb', rfl | rfl⟩ := mem_addTo hb
    · exact ih.opened b hb'
    · exact ih.opened b' hb'
  | closeBlock _ hloc ih => exact ih.closeBlock hloc
  | cancelBlock id _ ih =>
    unfold BlockStore.cancelBlock
    split_ifs
    · exact ⟨ih.filed, fun b hb => ih.opened b (List.mem_of_mem_drop hb)⟩
    · exact ih
  | findBlock loc _ ih => exact ih.findBlock loc
  | feedback complaints _ ih =>
    refine ⟨fun entry hentry b hb => ?_, ih.opened⟩
    obtain ⟨entry', hentry', b', hb', rfl | rfl⟩ := mem_strikeCleanAll hentry hb
    · exact ih.filed entry' hentry' b hb'
    · exact ih.filed entry' hentry' b' hb'

/-- **A find that is in place.** The events and the place after them are
those of a filed rule whose text stands at the place where it was looked
for. Its events are moved from where it stood to there, the place of any
part of its text to that of the same part; and reading goes on behind the
text. -/
def FindsInPlace (s : BlockStore) (source : List Char) (loc : Location) (events : List Event)
    (stop : Location) : Prop :=
  ∃ key blocks b, (key, blocks) ∈ s.filed ∧ b ∈ blocks ∧
    b.text.toList <+: Text.suffixAt source loc.offset ∧
    stop = loc.advance b.text.toList ∧
    (events = b.events ∧ b.start = loc ∨
      events = shift (Delta.between b.start loc) b.events ∧
        ∀ before, before <+: b.text.toList →
          shift (Delta.between b.start loc) (b.start.advance before) = loc.advance before)

/-- **What is found is in place**, in every store that parses lead to. -/
theorem found_in_place (h : Reached source s) {events : List Event} {stop : Location}
    (hfound : (s.findBlock source loc).1 = some (events, stop)) :
    s.FindsInPlace source loc events stop := by
  obtain ⟨-, ⟨hnone, -⟩ | ⟨key, blocks, b, -, hmem, hb, htext, hsome, -, -⟩⟩ :=
    findBlock_cases s source loc
  · rw [hnone] at hfound
    cases hfound
  · rw [hsome] at hfound
    cases hfound
    have hplace := (h.isInPlace.filed _ hmem b hb).moveTo loc
    refine ⟨key, blocks, b, hmem, hb, htext, ?_, ?_⟩
    · rw [hplace, b.start_moveTo, b.text_moveTo]
    · unfold StoredBlock.moveTo
      dsimp only
      split_ifs with hzero
      · exact .inl ⟨rfl, Delta.eq_of_isZero hzero⟩
      · exact .inr ⟨rfl, fun before _ => shift_between_advance b.start loc before⟩

/-- A rule with a warning in it is found one line further down. -/
theorem found_in_place_moved :
    let read := (((empty {}).start 0).openBlock .start).2.addEvent ⟨.warning "", ⟨1, 3, 2⟩⟩
    let s := (read.closeBlock "a\x7b\x7d".toList ⟨1, 4, 3⟩).start 1
    ((s.findBlock "\na\x7b\x7d".toList ⟨2, 1, 1⟩).1.map fun found =>
      (found.1.map (·.location), found.2)) = some ([⟨2, 3, 3⟩], ⟨2, 4, 4⟩) ∧
    ∀ events stop, (s.findBlock "\na\x7b\x7d".toList ⟨2, 1, 1⟩).1 = some (events, stop) →
      s.FindsInPlace "\na\x7b\x7d".toList ⟨2, 1, 1⟩ events stop := by
  have hstop : IsPlace "a\x7b\x7d".toList ⟨1, 4, 3⟩ :=
    ⟨"a\x7b\x7d".toList, [], (List.append_nil _).symm, by decide⟩
  have hread := Reached.addEvent ⟨.warning "", ⟨1, 3, 2⟩⟩
    (.openBlock (.start "a\x7b\x7d".toList 0 (.empty {})) (.start _))
  exact ⟨by decide +kernel, fun _ _ hfound =>
    found_in_place (.start _ 1 (.closeBlock hread hstop)) hfound⟩

end BlockStore

/-! ## Where it goes wrong -/

/-- **A rule that is fit inside a scope is reused outside.** What an
uncached parse complains about is lost. -/
theorem reuse_across_scopes :
    let options : Options := { reuseCache := true, noValidation := true }
    let session := ((Session.new {}).parse "@scope\x7b&\x7bq:1\x7d\x7d" options 0).2
    (session.parse "&\x7bq:1\x7d" options 0).1.events.map (·.display) =
      ["1:1 startstylesheet", "1:1 startrule &", "1:3 property q: 1", "1:6 endrule",
        "1:7 endstylesheet"] ∧
    (parseSheet "&\x7bq:1\x7d" options).events.map (·.display) =
      ["1:1 startstylesheet", "1:1 error Nested selector must be inside a style rule.",
        "1:1 startrule &", "1:3 property q: 1", "1:6 endrule", "1:7 endstylesheet"] :=
  ⟨by decide +kernel, by decide +kernel⟩

end Stylesheet
