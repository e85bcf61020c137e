import Mathlib.Data.List.Perm.Basic
import Stylesheet.Proofs.Reuse

/-!
# What is filed over a whole history

A store is asked for all kinds of things in any order, over any number of
parses: rules are opened, given up, closed and looked for, old ones are
dropped and events struck out. Through all of it the store stays in order
(`BlockStore.IsOrdered`): what is filed under a key begins with that key,
a block's text lies between its ends, and no key is left without blocks.

The blocks of the current parse can be counted at any time, for they are
those that were found or filed since it began, each at the place where it
was used, and as often as it was used there (`BlockStore.history_ordered`).
So a block that was used once in a parse stays where it is until the next.
-/

namespace Stylesheet

namespace BlockStore

/-! ## Keys -/

variable {source text rest : List Char} {key : String} {loc : Location}

/-- The key at an offset is that of the text from there on. -/
theorem keyAt?_of_dropBytes? {offset : Nat} (h : Text.dropBytes? source offset = some rest) :
    keyAt? source offset = keyAt? rest 0 := by
  unfold keyAt?
  rw [h, Text.dropBytes?_zero]

/-- **The key of a text** ends with its first opening brace. -/
theorem keyAt?_zero : keyAt? text 0 = some key ↔
    ∃ front back, text = front ++ '\x7b' :: back ∧ '\x7b' ∉ front ∧
      key = String.ofList (front ++ ['\x7b']) := by
  unfold keyAt?
  rw [Text.dropBytes?_zero, Option.bind_eq_bind, Option.bind_some]
  constructor
  · intro h
    obtain ⟨n, hn, hkey⟩ := Option.bind_eq_some_iff.mp h
    obtain ⟨front, back, rfl, hfront, rfl⟩ := Text.indexOf?_singleton.mp hn
    obtain rfl := Option.some.inj hkey
    exact ⟨front, back, rfl, hfront, by rw [List.take_length_add_append]; rfl⟩
  · rintro ⟨front, back, rfl, hfront, rfl⟩
    refine Option.bind_eq_some_iff.mpr
      ⟨front.length, Text.indexOf?_singleton.mpr ⟨front, back, rfl, hfront, rfl⟩, ?_⟩
    rw [List.take_length_add_append]
    rfl

/-- **A beginning that reaches beyond the key** has the same key. -/
theorem keyAt?_of_prefix (htext : text <+: rest) (hkey : keyAt? rest 0 = some key)
    (hle : Text.byteLength key.toList ≤ Text.byteLength text) : keyAt? text 0 = some key := by
  obtain ⟨front, back, rfl, hfront, rfl⟩ := keyAt?_zero.mp hkey
  rw [String.toList_ofList] at hle
  obtain ⟨more, rfl⟩ := Text.prefix_of_byteLength_le ⟨back, by simp⟩ htext hle
  exact keyAt?_zero.mpr ⟨front, more, by simp, hfront, rfl⟩

/-! ## Stores in order -/

variable {s : BlockStore} {b : StoredBlock} {blocks blocks' extra : List StoredBlock}
  {filed : List (String × List StoredBlock)} {entry : String × List StoredBlock}
  {generation now : Nat}

/-- **A block that is filed in order**: its text begins with the key, it
lies between its ends, and it is of no later generation. -/
structure Files (generation : Nat) (key : String) (b : StoredBlock) : Prop where
  /-- The text up to its first opening brace is the key. -/
  key : keyAt? b.text.toList 0 = some key
  /-- The block ends where its text does. -/
  inPlace : b.InPlace
  /-- The generation has come already. -/
  past : b.generation ≤ generation

/-- **A store in order.** -/
structure IsOrdered (s : BlockStore) : Prop where
  /-- Every block is filed under its key. -/
  filed : ∀ entry ∈ s.filed, ∀ b ∈ entry.2, Files s.generation entry.1 b
  /-- Every key has blocks. -/
  inhabited : ∀ entry ∈ s.filed, entry.2 ≠ []
  /-- Blocks are opened and closed in the same parse. -/
  opened : ∀ b ∈ s.open_, b.generation = s.generation

/-- The blocks of a generation. -/
def ofGeneration (generation : Nat) (filed : List (String × List StoredBlock)) :
    List StoredBlock :=
  (filed.flatMap (·.2)).filter fun b => b.generation == generation

/-- **The blocks of the current parse.** -/
def current (s : BlockStore) : List StoredBlock := ofGeneration s.generation s.filed

theorem Files.later {generation' : Nat} (h : Files generation key b)
    (hle : generation ≤ generation') : Files generation' key b :=
  ⟨h.key, h.inPlace, Nat.le_trans h.past hle⟩

/-- A block that is used somewhere is filed there under the same key. -/
theorem Files.useAt (h : Files s.generation key b) (loc : Location) :
    Files s.generation key (s.useAt loc b) where
  key := (congrArg (fun text => keyAt? text.toList 0) (b.text_moveTo loc)).trans h.key
  inPlace := h.inPlace.moveTo loc
  past := Nat.le_refl _

/-! ## Changing the blocks of a key -/

/-- **The blocks of one key are changed where they stand**, or filed
last. -/
theorem setBlocks_split (key : String) (blocks : List StoredBlock)
    (filed : List (String × List StoredBlock)) :
    ∃ before after, filed = before ++ ((filed.lookup key).map (key, ·)).toList ++ after ∧
      setBlocks key blocks filed = before ++ (key, blocks) :: after := by
  induction filed with
  | nil => exact ⟨[], [], rfl, rfl⟩
  | cons entry filed ih =>
    obtain ⟨k, bs⟩ := entry
    by_cases hk : k = key
    · subst hk
      exact ⟨[], filed, by simp, by simp [setBlocks]⟩
    · obtain ⟨before, after, hfiled, hset⟩ := ih
      refine ⟨(k, bs) :: before, after, ?_, ?_⟩
      · rw [List.lookup_cons, show (key == k) = false by simpa using Ne.symm hk]
        exact congrArg _ hfiled
      · rw [setBlocks, if_neg (by simpa using hk), hset]
        rfl

/-- **A store stays in order** when the blocks of a key are changed to
others that are in order. -/
theorem IsOrdered.setBlocks (h : s.IsOrdered) {after : BlockStore}
    (hfiled : after.filed = setBlocks key blocks s.filed) (hne : blocks ≠ [])
    (hgeneration : after.generation = s.generation)
    (hopen : ∀ b ∈ after.open_, b.generation = s.generation)
    (hblocks : ∀ b ∈ blocks, Files s.generation key b) : after.IsOrdered := by
  obtain ⟨front, back, hsplit, hset⟩ := setBlocks_split key blocks s.filed
  have hmem : ∀ entry ∈ after.filed, entry = (key, blocks) ∨ entry ∈ s.filed := by
    intro entry hentry
    rw [hfiled, hset] at hentry
    rw [hsplit]
    rcases List.mem_append.mp hentry with hentry | hentry
    · exact .inr (List.mem_append_left _ (List.mem_append_left _ hentry))
    · exact (List.mem_cons.mp hentry).imp id fun hentry => List.mem_append_right _ hentry
  refine ⟨fun entry hentry b hb => ?_, fun entry hentry => ?_, fun b hb => ?_⟩
  · rw [hgeneration]
    rcases hmem entry hentry with rfl | hentry
    · exact hblocks b hb
    · exact h.filed entry hentry b hb
  · rcases hmem entry hentry with rfl | hentry
    · exact hne
    · exact h.inhabited entry hentry
  · exact (hopen b hb).trans hgeneration.symm

/-- **What changing the blocks of a key adds** to those of a generation. -/
theorem ofGeneration_setBlocks (h : (ofGeneration generation [(key, blocks)]).Perm
      (extra ++ ofGeneration generation [(key, (filed.lookup key).getD [])])) :
    (ofGeneration generation (setBlocks key blocks filed)).Perm
      (extra ++ ofGeneration generation filed) := by
  obtain ⟨front, back, hsplit, hset⟩ := setBlocks_split key blocks filed
  have hold : ofGeneration generation ((filed.lookup key).map (key, ·)).toList =
      ofGeneration generation [(key, (filed.lookup key).getD [])] := by
    cases filed.lookup key <;> rfl
  have happend : ∀ filed filed', ofGeneration generation (filed ++ filed') =
      ofGeneration generation filed ++ ofGeneration generation filed' := fun filed filed' => by
    simp [ofGeneration]
  rw [hset, show front ++ (key, blocks) :: back = front ++ [(key, blocks)] ++ back by simp]
  conv_rhs => rw [hsplit]
  rw [happend, happend, happend, happend, hold]
  refine ((List.Perm.append_left _ h).append_right _).trans ?_
  have hmove := (List.perm_append_comm_assoc (ofGeneration generation front) extra
    (ofGeneration generation [(key, (filed.lookup key).getD [])])).append_right
      (ofGeneration generation back)
  rwa [List.append_assoc extra] at hmove

/-! ## Questions and their effects -/

/-- **What can be asked of a store.** -/
inductive Op where
  /-- A parse begins. -/
  | start (now : Nat)
  /-- Another document. -/
  | reset
  /-- Is there a block at a place of a source? -/
  | find (source : List Char) (loc : Location)
  /-- A block begins. -/
  | open_ (loc : Location)
  /-- An event is reported. -/
  | record (e : Event)
  /-- A block ends. -/
  | close (source : List Char) (stop : Location)
  /-- A block is given up. -/
  | cancel (id : Nat)
  /-- Old blocks are to be dropped. -/
  | trim (now : Nat)
  /-- Some complaints remain. -/
  | feedback (places : List Location)

namespace Op

/-- The store afterwards. -/
def apply (op : Op) (s : BlockStore) : BlockStore :=
  match op with
  | .start now => s.start now
  | .reset => s.reset
  | .find source loc => (s.findBlock source loc).2
  | .open_ loc => (s.openBlock loc).2
  | .record e => s.addEvent e
  | .close source stop => s.closeBlock source stop
  | .cancel id => s.cancelBlock id
  | .trim now => s.trim now
  | .feedback places => s.feedback places

/-- **What a caller takes care of**: a block ends behind its first brace,
at a place of the source that it starts in, and when old blocks are to be
dropped none of the current parse is too old. -/
def IsFit (op : Op) (s : BlockStore) : Prop :=
  match op with
  | .close source stop => ∀ b ∈ s.open_.head?, IsPlace source b.start ∧ IsPlace source stop ∧
      ∃ key, keyAt? source b.start.offset = some key ∧
        b.start.offset + Text.byteLength key.toList ≤ stop.offset
  | .trim now => ∀ b ∈ s.current, now - b.used < s.retention.maxAge
  | _ => True

/-- **Where blocks were used** in the current parse, given where they were
before: where one is found, and where one starts that is closed. -/
def usedAfter (op : Op) (s : BlockStore) (used : List Location) : List Location :=
  match op with
  | .start _ | .reset => []
  | .find source loc => if (s.findBlock source loc).1.isSome then loc :: used else used
  | .close _ _ => (s.open_.head?.map (·.start)).toList ++ used
  | _ => used

end Op

/-- **A store and where its blocks were used** since the current parse
began, after any number of questions to a new store. -/
inductive History (retention : Retention) : BlockStore → List Location → Prop where
  /-- A new store. -/
  | new : History retention (empty retention) []
  /-- One more question. -/
  | step {s : BlockStore} {used : List Location} (op : Op) : History retention s used →
      op.IsFit s → History retention (op.apply s) (op.usedAfter s used)

/-! ## Finding -/

/-- What is found is used: it is one more block of the current parse. -/
theorem Replaces.ofGeneration (h : s.Replaces loc b blocks blocks') :
    (ofGeneration s.generation [(key, blocks')]).Perm
      (s.useAt loc b :: ofGeneration s.generation [(key, blocks)]) := by
  have hnew : List.filter (fun b => b.generation == s.generation) [s.useAt loc b] =
      [s.useAt loc b] := List.filter_cons_of_pos (beq_self_eq_true s.generation)
  simp only [BlockStore.ofGeneration, List.flatMap_singleton]
  rcases h with ⟨i, hi, hold, rfl⟩ | ⟨-, rfl⟩
  · obtain ⟨hlt, hb⟩ := List.getElem?_eq_some_iff.mp hi
    have hsplit : blocks = blocks.take i ++ ([b] ++ blocks.drop (i + 1)) := by
      rw [List.singleton_append, ← hb, ← List.drop_eq_getElem_cons hlt, List.take_append_drop]
    have hset : blocks.set i (s.useAt loc b) =
        blocks.take i ++ ([s.useAt loc b] ++ blocks.drop (i + 1)) := by
      rw [List.set_eq_take_append_cons_drop, if_pos hlt, List.singleton_append]
    have hnone : List.filter (fun b => b.generation == s.generation) [b] = [] :=
      List.filter_cons_of_neg (by simpa using hold)
    rw [hset]
    conv_rhs => rw [hsplit]
    simp only [List.filter_append, hnew, hnone, List.nil_append]
    exact List.perm_middle
  · rw [List.filter_append, hnew]
    exact List.perm_append_singleton _ _

theorem IsOrdered.findBlock (h : s.IsOrdered) (source : List Char) (loc : Location) :
    (s.findBlock source loc).2.IsOrdered := by
  obtain ⟨misses, hrun⟩ | ⟨key, blocks, b, blocks', -, hblocks, -, hreplaces, hrun⟩ :=
    findBlock_inv s source loc
  · rw [hrun]
    exact ⟨h.filed, h.inhabited, h.opened⟩
  · rw [hrun]
    have hfiled := h.filed _ (mem_of_blocksOf hblocks)
    refine h.setBlocks rfl ?_ rfl h.opened fun b' hb' => ?_
    · rcases hreplaces with ⟨i, hi, -, rfl⟩ | ⟨-, rfl⟩
      · simpa using List.ne_nil_of_mem (List.mem_of_getElem? hi)
      · simp
    · rcases hreplaces.mem.2 b' hb' with hb' | rfl
      · exact hfiled b' hb'
      · exact (hfiled b hreplaces.mem.1).useAt loc

/-- **What looking for a block finds.** If one is found its text stands
between the place and the end that is returned, and it is used there in
addition to all blocks used so far; if none is found these are as they
were. -/
def FindsUnused (s : BlockStore) (source : List Char) (loc : Location) : Prop :=
  match s.findBlock source loc with
  | (none, after) => after.current = s.current
  | (some (_, stop), after) => ∃ entry ∈ s.filed, ∃ b ∈ entry.2,
      Text.slice source loc.offset stop.offset = b.text.toList ∧
        after.current.Perm (s.useAt loc b :: s.current)

theorem IsOrdered.findsUnused (h : s.IsOrdered) (source : List Char) (loc : Location) :
    s.FindsUnused source loc := by
  unfold FindsUnused
  obtain ⟨misses, hrun⟩ | ⟨key, blocks, b, blocks', -, hblocks, htext, hreplaces, hrun⟩ :=
    findBlock_inv s source loc
  · rw [hrun]
    rfl
  · rw [hrun]
    have hmem := mem_of_blocksOf hblocks
    have hfiles := h.filed _ hmem b hreplaces.mem.1
    refine ⟨_, hmem, b, hreplaces.mem.1, ?_, ?_⟩
    · obtain ⟨front, back, hfront, -⟩ := keyAt?_zero.mp hfiles.key
      obtain ⟨rest, hrest⟩ := htext
      rw [hfiles.inPlace.moveTo loc, b.start_moveTo, b.text_moveTo, Location.offset_advance]
      have hdrop : Text.dropBytes? source loc.offset = some (b.text.toList ++ rest) := by
        rw [Text.suffixAt] at hrest
        cases hdrop : Text.dropBytes? source loc.offset with
        | some found => rw [hrest, hdrop, Option.getD_some]
        | none => simp [hdrop, hfront] at hrest
      unfold Text.slice
      rw [if_pos (Nat.le_add_right _ _), Nat.add_sub_cancel_left, hdrop, Option.bind_eq_bind,
        Option.bind_some, Text.takeBytes?_append, Option.getD_some]
    · have hold : (s.filed.lookup key).getD [] = blocks := congrArg (Option.getD · []) hblocks
      have hadded : (BlockStore.ofGeneration s.generation [(key, blocks')]).Perm ([s.useAt loc b] ++
          BlockStore.ofGeneration s.generation [(key, (s.filed.lookup key).getD [])]) := by
        rw [hold]
        exact hreplaces.ofGeneration
      exact ofGeneration_setBlocks hadded

/-! ## Filing -/

/-- The text between two places of a source. -/
theorem cut_between {start stop : Location} (hstart : IsPlace source start)
    (hstop : IsPlace source stop) (hle : start.offset ≤ stop.offset) :
    ∃ text after, Text.dropBytes? source start.offset = some (text ++ after) ∧
      Text.takeBytes? (text ++ after) (stop.offset - start.offset) = some text ∧
      stop = start.advance text := by
  obtain ⟨before, rest, rfl, rfl⟩ := hstart
  obtain ⟨before', rest', hsource, rfl⟩ := hstop
  simp only [Location.offset_advance_start] at hle ⊢
  obtain ⟨text, rfl⟩ := Text.prefix_of_byteLength_le (List.prefix_append before rest)
    ⟨rest', hsource.symm⟩ hle
  rw [List.append_assoc] at hsource
  obtain rfl := List.append_cancel_left hsource
  refine ⟨text, rest', Text.dropBytes?_append _ _, ?_, Location.advance_append _ _ _⟩
  rw [Text.byteLength_append, Nat.add_sub_cancel_left, Text.takeBytes?_append]

/-- **A block that ends behind its first brace** is filed in order. -/
theorem closeBlock_files {stop : Location} {rest : List StoredBlock} (hopen : s.open_ = b :: rest)
    (hfit : (Op.close source stop).IsFit s) (hpast : b.generation = s.generation) :
    ∃ key closed, Files s.generation key closed ∧ closed.start = b.start ∧
      closed.generation = s.generation ∧
      s.closeBlock source stop = { s with
        open_ := rest
        filed := setBlocks key ((s.blocksOf key).getD [] ++ [closed]) s.filed } := by
  obtain ⟨hstart, hstop, key, hkey, hbrace⟩ := hfit b (by rw [hopen]; rfl)
  have hle : b.start.offset ≤ stop.offset := Nat.le_trans (Nat.le_add_right _ _) hbrace
  obtain ⟨text, after, hdrop, htake, rfl⟩ := cut_between hstart hstop hle
  have htext : keyAt? text 0 = some key := by
    rw [keyAt?_of_dropBytes? hdrop] at hkey
    refine keyAt?_of_prefix (List.prefix_append _ _) hkey ?_
    rw [Location.offset_advance] at hbrace
    exact Nat.le_of_add_le_add_left hbrace
  refine ⟨key, { b with text := String.ofList text, events := b.events.reverse,
                        stop := b.start.advance text }, ⟨?_, ?_, Nat.le_of_eq hpast⟩, rfl, hpast, ?_⟩
  · rwa [String.toList_ofList]
  · exact congrArg _ String.toList_ofList.symm
  · have hguard : (guard (b.start.offset ≤ (b.start.advance text).offset) : Option Unit) =
        some () := if_pos hle
    unfold closeBlock
    rw [hopen]
    dsimp only
    rw [hkey, hguard, hdrop]
    simp only [Option.bind_eq_bind, Option.bind_some, htake]
    rfl

theorem IsOrdered.closeBlock (h : s.IsOrdered) {stop : Location}
    (hfit : (Op.close source stop).IsFit s) : (s.closeBlock source stop).IsOrdered ∧
      ((s.closeBlock source stop).current.map (·.start)).Perm
        ((s.open_.head?.map (·.start)).toList ++ s.current.map (·.start)) := by
  cases hopen : s.open_ with
  | nil =>
    have hrun : s.closeBlock source stop = s := by
      unfold BlockStore.closeBlock
      rw [hopen]
    rw [hrun]
    exact ⟨h, .refl _⟩
  | cons b rest =>
    obtain ⟨key, closed, hfiles, hstart, hgeneration, hrun⟩ :=
      closeBlock_files hopen hfit (h.opened b (hopen ▸ List.mem_cons_self))
    rw [hrun]
    constructor
    · refine h.setBlocks rfl (by simp) rfl
        (fun b' hb' => h.opened b' (hopen ▸ List.mem_cons_of_mem _ hb')) fun b' hb' => ?_
      rcases List.mem_append.mp hb' with hb' | hb'
      · cases hblocks : s.blocksOf key with
        | none => simp [hblocks] at hb'
        | some blocks =>
          rw [hblocks] at hb'
          exact h.filed _ (mem_of_blocksOf hblocks) b' hb'
      · exact List.mem_singleton.mp hb' ▸ hfiles
    · have hcurrent : (current { s with
          open_ := rest
          filed := BlockStore.setBlocks key ((s.blocksOf key).getD [] ++ [closed])
            s.filed }).Perm ([closed] ++ s.current) := by
        refine ofGeneration_setBlocks ?_
        have hnew : List.filter (fun b => b.generation == s.generation) [closed] = [closed] :=
          List.filter_cons_of_pos (by rw [hgeneration]; exact beq_self_eq_true _)
        simp only [ofGeneration, List.flatMap_singleton, List.filter_append, hnew]
        exact List.perm_append_comm
      refine (hcurrent.map _).trans (.of_eq ?_)
      rw [List.map_append, List.map_singleton, hstart]
      rfl

/-! ## Clearing -/

/-- No block of the current parse is dropped when none is too old. -/
theorem filter_kept (s : BlockStore) (now : Nat) (blocks : List StoredBlock)
    (h : ∀ b ∈ blocks, b.generation = s.generation → now - b.used < s.retention.maxAge) :
    (s.kept now blocks).filter (fun b => b.generation == s.generation) =
      blocks.filter fun b => b.generation == s.generation := by
  unfold kept
  dsimp only
  rw [List.partition_eq_filter_filter, List.filter_append]
  have holder : ∀ n (older : List StoredBlock),
      ((((blocks.filter fun b => decide (now - b.used < s.retention.maxAge)).filter
        (not ∘ fun b => b.generation == s.generation)).mergeSort
          fun a b => decide (b.generation ≤ a.generation)).take n).filter
            (fun b => b.generation == s.generation) = [] := by
    intro n older
    refine List.filter_eq_nil_iff.mpr fun b hb => ?_
    have hmem := List.mem_mergeSort.mp (List.mem_of_mem_take hb)
    simpa using (List.mem_filter.mp hmem).2
  rw [holder _ [], List.nil_append, List.filter_filter, List.filter_filter]
  refine List.filter_congr fun b hb => ?_
  by_cases hgeneration : b.generation = s.generation
  · simp [hgeneration, h b hb hgeneration]
  · simp [hgeneration]

theorem IsOrdered.trim (h : s.IsOrdered) (now : Nat) : (s.trim now).IsOrdered := by
  refine ⟨fun entry hentry b hb => ?_, fun entry hentry => ?_, h.opened⟩
  · obtain ⟨⟨key, blocks⟩, hfiled, rfl⟩ := List.mem_map.mp (List.mem_filter.mp hentry).1
    exact h.filed _ hfiled b (mem_kept hb)
  · simpa using (List.mem_filter.mp hentry).2

theorem current_trim (hfit : (Op.trim now).IsFit s) : (s.trim now).current = s.current := by
  have hall : ∀ filed : List (String × List StoredBlock),
      (∀ b ∈ ofGeneration s.generation filed, now - b.used < s.retention.maxAge) →
      ofGeneration s.generation ((filed.map fun entry => (entry.1, s.kept now entry.2)).filter
        fun entry => !entry.2.isEmpty) = ofGeneration s.generation filed := by
    intro filed hyoung
    induction filed with
    | nil => rfl
    | cons entry filed ih =>
      obtain ⟨key, blocks⟩ := entry
      have hsplit : ∀ (bs : List StoredBlock) filed, ofGeneration s.generation ((key, bs) :: filed) =
          bs.filter (fun b => b.generation == s.generation) ++ ofGeneration s.generation filed :=
        fun bs filed => by simp [ofGeneration]
      rw [hsplit] at hyoung
      have hkept := filter_kept s now blocks fun b hb hgeneration =>
        hyoung b (List.mem_append_left _ (List.mem_filter.mpr ⟨hb, by simpa using hgeneration⟩))
      have ih := ih fun b hb => hyoung b (List.mem_append_right _ hb)
      rw [List.map_cons, hsplit, ← hkept, ← ih]
      by_cases hempty : s.kept now blocks = []
      · rw [List.filter_cons_of_neg (by simp [hempty]), hempty]
        rfl
      · rw [List.filter_cons_of_pos (by simp [hempty]), hsplit]
  exact hall s.filed hfit

/-- **A new parse has used no blocks.** -/
theorem IsOrdered.start (h : s.IsOrdered) (now : Nat) :
    (s.start now).IsOrdered ∧ (s.start now).current = [] := by
  have hbegun : IsOrdered
      { s with open_ := [], generation := s.generation + 1, started := now } :=
    ⟨fun entry hentry b hb => (h.filed entry hentry b hb).later (Nat.le_succ _), h.inhabited,
      nofun⟩
  have hnone : current { s with open_ := [], generation := s.generation + 1, started := now } =
      [] := by
    refine List.filter_eq_nil_iff.mpr fun b hb => ?_
    obtain ⟨entry, hentry, hb⟩ := List.mem_flatMap.mp hb
    have hpast := (h.filed entry hentry b hb).past
    simpa using fun hgeneration : b.generation = s.generation + 1 => by omega
  unfold BlockStore.start
  dsimp only
  split_ifs
  · refine ⟨hbegun.trim now, (current_trim fun b hb => ?_).trans hnone⟩
    rw [hnone] at hb
    cases hb
  · exact ⟨hbegun, hnone⟩

/-! ## Striking out -/

/-- A block without its events. -/
def bare (b : StoredBlock) : StoredBlock := { b with events := [] }

theorem strikeClean_bare (generation : Nat) (complaints : List Location)
    (blocks : List StoredBlock) :
    (strikeClean generation complaints blocks).2.map bare = blocks.map bare := by
  induction blocks generalizing complaints with
  | nil => rfl
  | cons b blocks ih =>
    unfold strikeClean
    dsimp only
    split_ifs
    · exact congrArg (bare b :: ·) (ih _)
    · exact congrArg (bare b :: ·) (ih _)
    · exact congrArg (bare b :: ·) (ih _)

/-- **Striking out changes events only.** -/
theorem strikeCleanAll_bare (generation : Nat) (complaints : List Location)
    (filed : List (String × List StoredBlock)) :
    ((strikeCleanAll generation complaints filed).map fun entry => (entry.1, entry.2.map bare)) =
      filed.map fun entry => (entry.1, entry.2.map bare) := by
  induction filed generalizing complaints with
  | nil => rfl
  | cons entry filed ih =>
    unfold strikeCleanAll
    dsimp only
    rw [List.map_cons, List.map_cons, ih, strikeClean_bare]

theorem ofGeneration_bare (generation : Nat) (filed : List (String × List StoredBlock)) :
    ofGeneration generation (filed.map fun entry => (entry.1, entry.2.map bare)) =
      (ofGeneration generation filed).map bare := by
  unfold ofGeneration
  rw [List.flatMap_map, ← List.map_flatMap, List.filter_map]
  rfl

theorem IsOrdered.feedback (h : s.IsOrdered) (complaints : List Location) :
    (s.feedback complaints).IsOrdered ∧
      (s.feedback complaints).current.map (·.start) = s.current.map (·.start) := by
  have hbare := strikeCleanAll_bare s.generation complaints s.filed
  have hentry : ∀ entry ∈ (s.feedback complaints).filed, ∃ entry' ∈ s.filed,
      entry'.1 = entry.1 ∧ entry'.2.map bare = entry.2.map bare := by
    intro entry hentry
    have hmem := List.mem_map_of_mem (f := fun entry => (entry.1, entry.2.map bare)) hentry
    obtain ⟨entry', hentry', hsame⟩ := List.mem_map.mp (hbare ▸ hmem)
    exact ⟨entry', hentry', Prod.ext_iff.mp hsame⟩
  refine ⟨⟨fun entry he b hb => ?_, fun entry he => ?_, h.opened⟩, ?_⟩
  · obtain ⟨entry', hentry', hkey, hblocks⟩ := hentry entry he
    have hmem := List.mem_map_of_mem (f := bare) hb
    obtain ⟨b', hb', hsame⟩ := List.mem_map.mp (hblocks ▸ hmem)
    have hfiles := h.filed entry' hentry' b' hb'
    have hfiles' : Files s.generation entry.1 (bare b) :=
      hsame ▸ hkey ▸ ⟨hfiles.key, hfiles.inPlace, hfiles.past⟩
    exact ⟨hfiles'.key, hfiles'.inPlace, hfiles'.past⟩
  · obtain ⟨entry', hentry', -, hblocks⟩ := hentry entry he
    intro hnil
    rw [hnil] at hblocks
    exact h.inhabited entry' hentry' (List.map_eq_nil_iff.mp hblocks)
  · have hcurrent : (s.feedback complaints).current.map bare = s.current.map bare := by
      unfold current
      rw [← ofGeneration_bare, ← ofGeneration_bare]
      exact congrArg _ hbare
    have hstarts := congrArg (List.map (·.start)) hcurrent
    rwa [List.map_map, List.map_map] at hstarts

/-! ## Histories -/

/-- **One question keeps a store in order**, and the blocks of the current
parse are those that were used. -/
theorem IsOrdered.apply (h : s.IsOrdered) {op : Op} (hfit : op.IsFit s) {used : List Location}
    (hused : (s.current.map (·.start)).Perm used) :
    (op.apply s).IsOrdered ∧
      ((op.apply s).current.map (·.start)).Perm (op.usedAfter s used) := by
  cases op with
  | start now =>
    obtain ⟨hordered, hnone⟩ := h.start now
    exact ⟨hordered, by rw [show (Op.start now).apply s = s.start now from rfl, hnone]; exact .nil⟩
  | reset => exact ⟨⟨nofun, nofun, nofun⟩, .nil⟩
  | find source loc =>
    refine ⟨h.findBlock source loc, ?_⟩
    have hfinds := h.findsUnused source loc
    unfold FindsUnused at hfinds
    unfold Op.apply Op.usedAfter
    dsimp only
    rcases hrun : s.findBlock source loc with ⟨_ | ⟨events, stop⟩, after⟩ <;> rw [hrun] at hfinds
    · rw [hfinds]
      exact hused
    · obtain ⟨entry, -, b, -, -, hcurrent⟩ := hfinds
      refine (hcurrent.map _).trans ?_
      rw [List.map_cons, show (s.useAt loc b).start = loc from b.start_moveTo loc]
      exact hused.cons loc
  | open_ loc =>
    refine ⟨⟨h.filed, h.inhabited, fun b hb => ?_⟩, hused⟩
    rcases List.mem_cons.mp hb with rfl | hb
    · rfl
    · exact h.opened b hb
  | record e =>
    refine ⟨⟨h.filed, h.inhabited, fun b hb => ?_⟩, hused⟩
    obtain ⟨b', hb', rfl | rfl⟩ := mem_addTo hb
    · exact h.opened b hb'
    · exact h.opened b' hb'
  | close source stop =>
    obtain ⟨hordered, hcurrent⟩ := h.closeBlock hfit
    exact ⟨hordered, hcurrent.trans (hused.append_left _)⟩
  | cancel id =>
    unfold Op.apply BlockStore.cancelBlock
    dsimp only
    split_ifs
    · exact ⟨⟨h.filed, h.inhabited, fun b hb => h.opened b (List.mem_of_mem_drop hb)⟩, hused⟩
    · exact ⟨h, hused⟩
  | trim now =>
    refine ⟨h.trim now, ?_⟩
    rw [show (Op.trim now).apply s = s.trim now from rfl, current_trim hfit]
    exact hused
  | feedback complaints =>
    obtain ⟨hordered, hcurrent⟩ := h.feedback complaints
    refine ⟨hordered, ?_⟩
    rw [show (Op.feedback complaints).apply s = s.feedback complaints from rfl, hcurrent]
    exact hused

/-- **A store is in order after every history.** The blocks of the current
parse are, place by place, those that were found or filed since it began;
and what is found next has its text at the place and is used there in
addition to them. -/
theorem history_ordered {retention : Retention} {used : List Location}
    (h : History retention s used) :
    s.IsOrdered ∧ (s.current.map (·.start)).Perm used ∧
      ∀ source loc, s.FindsUnused source loc := by
  have hkept : s.IsOrdered ∧ (s.current.map (·.start)).Perm used := by
    induction h with
    | new => exact ⟨⟨nofun, nofun, nofun⟩, .nil⟩
    | step op _ hfit ih => exact ih.1.apply hfit ih.2
  exact ⟨hkept.1, hkept.2, hkept.1.findsUnused⟩

/-- A rule of one parse is found one line further down in the next. -/
theorem history_ordered_found :
    let read := (((empty {}).start 0).openBlock .start).2
    let filed := (read.closeBlock "a\x7b\x7d".toList ⟨1, 4, 3⟩).start 1
    let s := (filed.findBlock "\na\x7b\x7d".toList ⟨2, 1, 1⟩).2
    History {} s [⟨2, 1, 1⟩] ∧ s.IsOrdered ∧ (s.current.map (·.start)).Perm [⟨2, 1, 1⟩] ∧
      ∀ source loc, s.FindsUnused source loc := by
  have hstop : IsPlace "a\x7b\x7d".toList ⟨1, 4, 3⟩ :=
    ⟨"a\x7b\x7d".toList, [], (List.append_nil _).symm, by decide⟩
  have hread := History.step (.open_ .start) (.step (.start 0) (@History.new {}) trivial)
    trivial
  have hclosed := History.step (.close "a\x7b\x7d".toList ⟨1, 4, 3⟩) hread fun b hb => by
    obtain rfl := Option.some.inj hb
    exact ⟨⟨[], _, rfl, rfl⟩, hstop, "a\x7b", by decide +kernel, by decide +kernel⟩
  have hhistory := History.step (.find "\na\x7b\x7d".toList ⟨2, 1, 1⟩)
    (.step (.start 1) hclosed trivial) trivial
  have hused : (Op.find "\na\x7b\x7d".toList ⟨2, 1, 1⟩).usedAfter
      ((((((empty {}).start 0).openBlock .start).2).closeBlock
        "a\x7b\x7d".toList ⟨1, 4, 3⟩).start 1) [] = [⟨2, 1, 1⟩] := by decide +kernel
  have hall := hused ▸ hhistory
  exact ⟨hall, history_ordered hall⟩

end BlockStore

end Stylesheet
