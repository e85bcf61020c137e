import Stylesheet.Proofs.Filing
import Stylesheet.Proofs.WellFormed.Moving

/-!
# Well-formed selectors in stores

The events of a rule that is filed carry selectors, and they will be
reported again wherever the text of the rule stands. So it is not enough
that a selector is well formed where it was read: it has to lie within the
text of its rule, or it would not move with that text. A store is **laid**
if this is so of all blocks that are filed, whatever source they were read
from; the selectors of open blocks lie between the start of the block and
a place that reading has come to.
-/

namespace Stylesheet

/-! ## Events -/

/-- The selectors of a kind of block. -/
def BlockKind.selectors : BlockKind → List Selector
  | .rule selectors => selectors
  | .scope start stop => start.getD [] ++ stop.getD []
  | _ => []

/-- Whether the selectors of a kind of block may be relative. -/
def BlockKind.allowsRelative : BlockKind → Bool
  | .rule _ => true
  | _ => false

namespace Event

/-- **The selectors of an event.** -/
def selectors (e : Event) : List Selector :=
  match e.kind with
  | .start kind => kind.selectors
  | .stop kind _ => kind.selectors
  | .supportsSelector selector => [selector]
  | _ => []

/-- Whether the selectors of an event may be relative: those of style rules
may. -/
def allowsRelative (e : Event) : Bool :=
  match e.kind with
  | .start kind => kind.allowsRelative
  | .stop kind _ => kind.allowsRelative
  | _ => false

/-- **An event whose selectors are well formed** in a source. -/
def IsWellFormed (source : List Char) (e : Event) : Prop :=
  ∀ s ∈ e.selectors, s.IsWellFormed source e.allowsRelative

/-- **An event whose selectors lie between two offsets**, and are well
formed. -/
def Lies (source : List Char) (start stop : Nat) (e : Event) : Prop :=
  ∀ s ∈ e.selectors, s.Lies source e.allowsRelative start stop

variable {source : List Char} {start stop start' stop' : Nat} {e : Event}

theorem Lies.mono (h : e.Lies source start stop) (hstart : start' ≤ start) (hstop : stop ≤ stop') :
    e.Lies source start' stop' := fun s hs => (h s hs).mono hstart hstop

theorem Lies.isWellFormed (h : e.Lies source start stop) : e.IsWellFormed source := fun s hs =>
  (h s hs).isWellFormed

/-- **An event that may be reported** up to an offset while some blocks are
open: its selectors are well formed, and lie behind the starts of these
blocks. -/
def IsBehind (source : List Char) (starts : List Location) (m : Nat) (e : Event) : Prop :=
  ∀ s ∈ e.selectors, s.IsWellFormed source e.allowsRelative ∧
    ∀ start ∈ starts, s.Lies source e.allowsRelative start.offset m

theorem IsBehind.isWellFormed {starts : List Location} {m : Nat} (h : e.IsBehind source starts m) :
    e.IsWellFormed source := fun s hs => (h s hs).1

theorem IsBehind.mono {starts : List Location} {m m' : Nat} (h : e.IsBehind source starts m)
    (hle : m ≤ m') : e.IsBehind source starts m' := fun s hs =>
  ⟨(h s hs).1, fun start hstart => ((h s hs).2 start hstart).mono (Nat.le_refl _) hle⟩

/-- What lies behind a place where all blocks are open. -/
theorem Lies.isBehind {starts : List Location} (h : e.Lies source start stop)
    (hstarts : ∀ loc ∈ starts, loc.offset ≤ start) : e.IsBehind source starts stop := fun s hs =>
  ⟨(h s hs).isWellFormed, fun loc hloc => (h s hs).mono (hstarts loc hloc) (Nat.le_refl _)⟩

theorem isBehind_of_nil {starts : List Location} {m : Nat} (h : e.selectors = []) :
    e.IsBehind source starts m := fun s hs => by
  rw [h] at hs
  cases hs

theorem selectors_shift (δ : Delta) (e : Event) :
    (shift δ e).selectors = e.selectors.map (shift δ) := by
  have hkind : ∀ kind : BlockKind, (shift δ kind).selectors = kind.selectors.map (shift δ) := by
    intro kind
    cases kind with
    | scope start stop =>
      show (shift δ start).getD [] ++ (shift δ stop).getD [] = _
      cases start <;> cases stop <;> simp [BlockKind.selectors, shift]
    | _ => rfl
  obtain ⟨kind, location⟩ := e
  cases kind with
  | start kind => exact hkind kind
  | stop kind empty => exact hkind kind
  | _ => rfl

theorem allowsRelative_shift (δ : Delta) (e : Event) :
    (shift δ e).allowsRelative = e.allowsRelative := by
  have hkind : ∀ kind : BlockKind, (shift δ kind).allowsRelative = kind.allowsRelative := by
    intro kind
    cases kind <;> rfl
  obtain ⟨kind, location⟩ := e
  cases kind with
  | start kind => exact hkind kind
  | stop kind empty => exact hkind kind
  | _ => rfl

end Event

/-! ## Blocks -/

namespace StoredBlock

variable {source : List Char} {b : StoredBlock} {loc : Location}

/-- **A filed block that is laid**: its text stands between its ends in some
source, and the selectors of its events lie in it. -/
def IsLaid (b : StoredBlock) : Prop :=
  ∃ source, Spans source b.text b.start b.stop ∧
    ∀ e ∈ b.events, e.Lies source b.start.offset b.stop.offset

/-- **A laid block at a place where its text stands.** -/
theorem IsLaid.moveTo (h : b.IsLaid) (hloc : IsPlace source loc)
    (htext : b.text.toList <+: Text.suffixAt source loc.offset) :
    Spans source b.text loc (b.moveTo loc).stop ∧
      ∀ e ∈ (b.moveTo loc).events, e.Lies source loc.offset (b.moveTo loc).stop.offset := by
  obtain ⟨before, hspans, hlies⟩ := h
  have hhere : Spans source b.text loc (loc.advance b.text.toList) := by
    obtain ⟨lead, rest, rfl, rfl⟩ := hloc
    rw [Location.offset_advance_start, Text.suffixAt_append] at htext
    obtain ⟨rest, rfl⟩ := htext
    exact .of_append lead rest b.text
  have hplace : b.InPlace := hspans.stop_eq
  have hstop : (b.moveTo loc).stop = loc.advance b.text.toList := by
    rw [hplace.moveTo loc, b.start_moveTo, b.text_moveTo]
  have hlength : b.stop.offset - b.start.offset + loc.offset =
      (loc.advance b.text.toList).offset := by
    rw [hspans.stop_eq, Location.offset_advance, Location.offset_advance]
    omega
  -- a moved selector lies in the text where that stands now
  have hcarry : ∀ e ∈ b.events, ∀ s ∈ e.selectors, (shift (Delta.between b.start loc) s).Lies
      source e.allowsRelative loc.offset (loc.advance b.text.toList).offset := by
    intro e he s hs
    have hmoved := (hlies e he s hs).carry hspans hhere (Nat.le_refl _) (Nat.le_refl _)
    rwa [Nat.sub_self, Nat.zero_add, hlength] at hmoved
  rw [hstop]
  refine ⟨hhere, ?_⟩
  unfold StoredBlock.moveTo
  dsimp only
  split_ifs with hzero
  · intro e he s hs
    have hsame : shift (Delta.between b.start loc) s = s := Selector.move_of_isZero hzero s
    exact hsame ▸ hcarry e he s hs
  · intro e he s hs
    obtain ⟨e, hmem, rfl⟩ := List.mem_map.mp he
    rw [Event.selectors_shift] at hs
    obtain ⟨s, hmem', rfl⟩ := List.mem_map.mp hs
    rw [Event.allowsRelative_shift]
    exact hcarry e hmem s hmem'

end StoredBlock

/-! ## Stores -/

namespace BlockStore

variable {source : List Char} {starts : List Location} {m : Nat} {s : BlockStore} {key : String}
  {blocks : List StoredBlock} {b : StoredBlock} {loc stop : Location} {e : Event}

/-- **A store all of whose filed blocks are laid.** -/
def IsFiledWell (s : BlockStore) : Prop := ∀ entry ∈ s.filed, ∀ b ∈ entry.2, b.IsLaid

/-- **A store that is laid** while a source is read, with some blocks open
and up to an offset. -/
structure IsLaid (source : List Char) (starts : List Location) (m : Nat) (s : BlockStore) :
    Prop where
  /-- The filed blocks are laid. -/
  filed : s.IsFiledWell
  /-- The open blocks start at these places. -/
  starts_eq : s.open_.map (·.start) = starts
  /-- They are places of the source. -/
  isPlace : ∀ start ∈ starts, IsPlace source start
  /-- None starts after the offset. -/
  start_le : ∀ start ∈ starts, start.offset ≤ m
  /-- The selectors of the events of open blocks lie between their starts and
  the offset. -/
  opened : ∀ b ∈ s.open_, ∀ e ∈ b.events, e.Lies source b.start.offset m

theorem mem_blocksOf (h : b ∈ (s.blocksOf key).getD []) : ∃ entry ∈ s.filed, b ∈ entry.2 := by
  cases hblocks : s.blocksOf key with
  | none =>
    rw [hblocks] at h
    cases h
  | some blocks =>
    rw [hblocks] at h
    exact ⟨_, mem_of_blocksOf hblocks, h⟩

theorem IsFiledWell.setBlocks {after : BlockStore} (h : s.IsFiledWell)
    (hfiled : after.filed = setBlocks key blocks s.filed) (hblocks : ∀ b ∈ blocks, b.IsLaid) :
    after.IsFiledWell := by
  intro entry hentry b hb
  rw [hfiled] at hentry
  rcases mem_setBlocks hentry with hentry | rfl
  · exact h entry hentry b hb
  · exact hblocks b hb

theorem IsLaid.mono {m' : Nat} (h : s.IsLaid source starts m) (hle : m ≤ m') :
    s.IsLaid source starts m' :=
  ⟨h.filed, h.starts_eq, h.isPlace, fun x hx => Nat.le_trans (h.start_le x hx) hle,
    fun b hb e he => (h.opened b hb e he).mono (Nat.le_refl _) hle⟩

/-- An event that lies behind the starts of the open blocks. -/
theorem IsLaid.addEvent (h : s.IsLaid source starts m) (he : e.IsBehind source starts m) :
    (s.addEvent e).IsLaid source starts m := by
  have hstarts : ∀ bs : List StoredBlock, (addTo e bs).map (·.start) = bs.map (·.start) := by
    intro bs
    induction bs with
    | nil => rfl
    | cons b bs ih =>
      unfold addTo
      split_ifs
      · rfl
      · exact congrArg (b.start :: ·) ih
  refine ⟨h.filed, (hstarts s.open_).trans h.starts_eq, h.isPlace, h.start_le, fun b hb e' he' => ?_⟩
  obtain ⟨b', hb', rfl | rfl⟩ := mem_addTo hb
  · exact h.opened b hb' e' he'
  · rcases List.mem_cons.mp he' with rfl | he'
    · exact fun x hx => (he x hx).2 b'.start (h.starts_eq ▸ List.mem_map_of_mem hb')
    · exact h.opened b' hb' e' he'

theorem IsLaid.openBlock (h : s.IsLaid source starts m) (hloc : IsPlace source loc)
    (hle : loc.offset ≤ m) : (s.openBlock loc).2.IsLaid source (loc :: starts) m where
  filed := h.filed
  starts_eq := congrArg (loc :: ·) h.starts_eq
  isPlace := List.forall_mem_cons.mpr ⟨hloc, h.isPlace⟩
  start_le := List.forall_mem_cons.mpr ⟨hle, h.start_le⟩
  opened b hb e he := by
    rcases List.mem_cons.mp hb with rfl | hb
    · cases he
    · exact h.opened b hb e he

/-- **A block that is given up** is no longer open. -/
theorem IsLaid.cancelBlock (h : s.IsLaid source (loc :: starts) m) :
    (s.cancelBlock (starts.length + 1)).IsLaid source starts m := by
  have hlength : starts.length + 1 = s.open_.length := by
    rw [← List.length_cons (a := loc), ← h.starts_eq, List.length_map]
  have hdrop : (s.open_.drop 1).map (·.start) = starts := by
    rw [List.map_drop, h.starts_eq]
    rfl
  unfold BlockStore.cancelBlock
  rw [if_pos hlength]
  exact ⟨h.filed, hdrop, fun x hx => h.isPlace x (List.mem_cons_of_mem _ hx),
    fun x hx => h.start_le x (List.mem_cons_of_mem _ hx),
    fun b hb => h.opened b (List.mem_of_mem_drop hb)⟩

/-- **A block that is closed** at a place is filed as a laid one. -/
theorem IsLaid.closeBlock (h : s.IsLaid source (loc :: starts) m) (hstop : IsPlace source stop)
    (hle : m ≤ stop.offset) : (s.closeBlock source stop).IsLaid source starts m := by
  obtain ⟨b, rest, hopen, rfl, hrest⟩ := List.map_eq_cons_iff.mp h.starts_eq
  have hclosed : ∀ after : BlockStore, after.open_ = rest → after.IsFiledWell →
      after.IsLaid source starts m := fun after hafter hfiled =>
    ⟨hfiled, hafter ▸ hrest, fun x hx => h.isPlace x (List.mem_cons_of_mem _ hx),
      fun x hx => h.start_le x (List.mem_cons_of_mem _ hx),
      fun b hb => h.opened b (hopen ▸ List.mem_cons_of_mem _ (hafter ▸ hb))⟩
  have hstart : IsPlace source b.start := h.isPlace _ List.mem_cons_self
  have hstop_le : b.start.offset ≤ stop.offset :=
    Nat.le_trans (h.start_le _ List.mem_cons_self) hle
  unfold BlockStore.closeBlock
  rw [hopen]
  dsimp only
  split
  · next key text _ htext =>
    have hslice : text = Text.slice source b.start.offset stop.offset := by
      rw [guard, if_pos hstop_le] at htext
      rw [Text.slice, if_pos hstop_le]
      exact congrArg (Option.getD · []) htext.symm
    have hspans := Spans.of_slice hstart hstop hstop_le
    refine hclosed _ rfl (h.filed.setBlocks rfl fun b' hb' => ?_)
    rcases List.mem_append.mp hb' with hb' | hb'
    · obtain ⟨entry, hentry, hb'⟩ := mem_blocksOf hb'
      exact h.filed entry hentry b' hb'
    · obtain rfl := List.mem_singleton.mp hb'
      refine ⟨source, hslice ▸ hspans, fun e he => ?_⟩
      exact (h.opened b (hopen ▸ List.mem_cons_self) e (List.mem_reverse.mp he)).mono
        (Nat.le_refl _) hle
  · exact hclosed _ rfl h.filed

/-- **What is found lies where it is found**: its selectors are between the
place and the end that is returned. -/
theorem IsLaid.findBlock (h : s.IsLaid source starts m) (hloc : IsPlace source loc) :
    (s.findBlock source loc).2.IsLaid source starts m ∧
      ∀ events stop, (s.findBlock source loc).1 = some (events, stop) →
        IsPlace source stop ∧ loc.offset ≤ stop.offset ∧
          ∀ e ∈ events, e.Lies source loc.offset stop.offset := by
  obtain ⟨misses, hrun⟩ | ⟨key, blocks, b, blocks', -, hblocks, htext, hreplaces, hrun⟩ :=
    findBlock_inv s source loc
  · rw [hrun]
    exact ⟨⟨h.filed, h.starts_eq, h.isPlace, h.start_le, h.opened⟩, fun _ _ hsome => by cases hsome⟩
  · rw [hrun]
    have hfiled := h.filed _ (mem_of_blocksOf hblocks)
    obtain ⟨hspans, hlies⟩ := (hfiled b hreplaces.mem.1).moveTo hloc htext
    refine ⟨⟨h.filed.setBlocks rfl fun b' hb' => ?_, h.starts_eq, h.isPlace, h.start_le, h.opened⟩,
      ?_⟩
    · rcases hreplaces.mem.2 b' hb' with hb' | rfl
      · exact hfiled b' hb'
      · have hstart := b.start_moveTo loc
        have htext := b.text_moveTo loc
        exact ⟨source, by rw [show (s.useAt loc b).text = b.text from htext,
          show (s.useAt loc b).start = loc from hstart]; exact hspans,
          by rw [show (s.useAt loc b).start = loc from hstart]; exact hlies⟩
    · rintro _ _ ⟨⟩
      exact ⟨hspans.stop_isPlace, hspans.start_le_stop, hlies⟩

/-! ## Between parses -/

theorem IsFiledWell.empty (retention : Retention) : (empty retention).IsFiledWell :=
  fun _ h => absurd h List.not_mem_nil

theorem IsFiledWell.reset (s : BlockStore) : s.reset.IsFiledWell :=
  fun _ h => absurd h List.not_mem_nil

theorem IsFiledWell.start (h : s.IsFiledWell) (source : List Char) (now : Nat) :
    (s.start now).IsLaid source [] 0 := by
  have hnone : ∀ after : BlockStore, after.open_ = [] → after.IsFiledWell →
      after.IsLaid source [] 0 := fun after hopen hfiled =>
    ⟨hfiled, by rw [hopen]; rfl, fun _ h => absurd h List.not_mem_nil,
      fun _ h => absurd h List.not_mem_nil, fun b hb => by rw [hopen] at hb; cases hb⟩
  unfold BlockStore.start
  dsimp only
  split_ifs
  · refine hnone _ rfl fun entry hentry b hb => ?_
    obtain ⟨⟨key, blocks⟩, hfiled, rfl⟩ := List.mem_map.mp (List.mem_filter.mp hentry).1
    exact h _ hfiled b (mem_kept hb)
  · exact hnone _ rfl h

/-- What is no longer complained about is struck out. -/
theorem IsFiledWell.feedback (h : s.IsFiledWell) (complaints : List Location) :
    (s.feedback complaints).IsFiledWell := by
  intro entry hentry b hb
  obtain ⟨entry', hentry', b', hb', rfl | rfl⟩ := mem_strikeCleanAll hentry hb
  · exact h entry' hentry' b hb'
  · obtain ⟨source, hspans, -⟩ := h entry' hentry' b' hb'
    exact ⟨source, hspans, fun _ he => absurd he List.not_mem_nil⟩

end BlockStore

end Stylesheet
