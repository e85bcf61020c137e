import Stylesheet.Event

/-!
# Remembered rules

A `BlockStore` keeps the rules of earlier parses together with their
events, so that a rule that has not changed need not be parsed again.
A rule is filed under the text up to its opening brace. When a later
parse – a later **generation** – comes to a place where such a text
stands, and the whole text of a filed rule follows, the rule's events
are moved there and reported again.

While a rule is being parsed it is open, and the events that belong to
it are collected; a rule inside another one is open on top of it.

Times are given by the caller, in milliseconds of a clock that never
goes back.
-/

namespace Stylesheet

/-- **How long rules are kept.** -/
structure Retention where
  /-- A rule that was not used for so long is dropped. -/
  maxAge : Nat := 600000
  /-- The least time between two clearings. -/
  trimDelay : Nat := 10000
  deriving DecidableEq, Repr

/-- **A remembered rule.** -/
structure StoredBlock where
  /-- Its text, up to and including the closing brace. -/
  text : String
  /-- Its events. -/
  events : List Event
  /-- The generation in which it was parsed or last used. -/
  generation : Nat
  /-- When that generation began. -/
  used : Nat
  /-- Where it starts. -/
  start : Location
  /-- The place after it. -/
  stop : Location

namespace StoredBlock

/-- Whether a place lies in the block, the place after it included. -/
def covers (b : StoredBlock) (loc : Location) : Bool :=
  !loc.isBefore b.start && !b.stop.isBefore loc

/-- The block at another place. -/
def moveTo (b : StoredBlock) (target : Location) : StoredBlock :=
  let δ := Delta.between b.start target
  if δ.isZero then b
  else
    { b with events := shift δ b.events, start := shift δ b.start, stop := shift δ b.stop }

end StoredBlock

/-- **The rules of earlier parses.** -/
structure BlockStore where
  /-- How long they are kept. -/
  retention : Retention
  /-- The blocks by the text up to their opening brace. -/
  filed : List (String × List StoredBlock)
  /-- The blocks that are being parsed, the innermost first; their
  events are the latest first. -/
  open_ : List StoredBlock
  /-- The number of the current parse. -/
  generation : Nat
  /-- When the current parse began. -/
  started : Nat
  /-- When the store was last cleared of old blocks. -/
  lastTrim : Option Nat
  /-- How often a block was found. -/
  hits : Nat
  /-- How often none was found. -/
  misses : Nat

namespace BlockStore

/-- A store without blocks. -/
def empty (retention : Retention) : BlockStore := ⟨retention, [], [], 0, 0, none, 0, 0⟩

/-- **Forget everything**, for another document. -/
def reset (s : BlockStore) : BlockStore :=
  { empty s.retention with started := s.started }

/-- The number of blocks. -/
def size (s : BlockStore) : Nat := (s.filed.flatMap (·.2)).length

/-- Whether no block is filed. -/
def isEmpty (s : BlockStore) : Bool := s.filed.isEmpty

/-! ## Filing -/

/-- **The text a rule is filed under**: from its start up to and
including the next opening brace. -/
def keyAt? (source : List Char) (offset : Nat) : Option String := do
  let rest ← Text.dropBytes? source offset
  let n ← Text.indexOf? ['\x7b'] rest
  return String.ofList (rest.take (n + 1))

/-- The blocks of a key. -/
def blocksOf (s : BlockStore) (key : String) : Option (List StoredBlock) := s.filed.lookup key

/-- Change the blocks of a key, or file the first ones. -/
def setBlocks (key : String) (blocks : List StoredBlock) :
    List (String × List StoredBlock) → List (String × List StoredBlock)
  | [] => [(key, blocks)]
  | (k, bs) :: rest =>
    if k == key then (k, blocks) :: rest else (k, bs) :: setBlocks key blocks rest

/-- **Open a block**; the answer is its number. -/
def openBlock (s : BlockStore) (start : Location) : Nat × BlockStore :=
  let s := { s with open_ := ⟨"", [], s.generation, s.started, start, start⟩ :: s.open_ }
  (s.open_.length, s)

/-- **Close the innermost block and file it**, if its text can be cut
from the source. -/
def closeBlock (s : BlockStore) (source : List Char) (stop : Location) : BlockStore :=
  match s.open_ with
  | [] => s
  | block :: rest =>
    let s := { s with open_ := rest }
    let text? := do
      guard (block.start.offset ≤ stop.offset)
      let after ← Text.dropBytes? source block.start.offset
      Text.takeBytes? after (stop.offset - block.start.offset)
    match keyAt? source block.start.offset, text? with
    | some key, some text =>
      let block :=
        { block with
          text := String.ofList text
          events := block.events.reverse
          stop := stop }
      { s with filed := setBlocks key ((s.blocksOf key).getD [] ++ [block]) s.filed }
    | _, _ => s

/-- Drop the block of a number if it is the innermost one. -/
def cancelBlock (s : BlockStore) (id : Nat) : BlockStore :=
  if id = s.open_.length then { s with open_ := s.open_.drop 1 } else s

/-- An event for the innermost open block that starts no later. -/
def addTo (e : Event) : List StoredBlock → List StoredBlock
  | [] => []
  | b :: bs =>
    if b.start.offset ≤ e.location.offset then { b with events := e :: b.events } :: bs
    else b :: addTo e bs

/-- **Record an event** for the open block it belongs to. -/
def addEvent (s : BlockStore) (e : Event) : BlockStore := { s with open_ := addTo e s.open_ }

/-! ## Finding -/

/-- **How far a block is from where it is wanted**: the share of the
generations since it was used, and the share of the source between. -/
def distance (s : BlockStore) (sourceSize : Nat) (loc : Location) (b : StoredBlock) : Binary64 :=
  let age := Binary64.ofQuotient (s.generation - b.generation) (max s.generation 1)
  let drift := Binary64.ofQuotient
    ((b.start.offset - loc.offset) + (loc.offset - b.start.offset)) (max sourceSize 1)
  age.addPositive drift

/-- The blocks that can stand at a place, by their positions in the list,
the nearest first. -/
def ranked (s : BlockStore) (source : List Char) (loc : Location) (blocks : List StoredBlock) :
    List (Nat × StoredBlock) :=
  let here := Text.suffixAt source loc.offset
  let size := Text.byteLength source
  let fitting := ((List.range blocks.length).zip blocks).filter fun (_, b) =>
    b.text.toList.isPrefixOf here
  (fitting.map fun (i, b) => (s.distance size loc b, i, b)).mergeSort
    (fun x y => x.1.le y.1) |>.map (·.2)

/-- **Look for a block at a place.** The nearest block of an earlier
generation moves there; if all that fit are of this generation, they
stay and a copy of the nearest one moves. The answer is its events and
the place after it. -/
def findBlock (s : BlockStore) (source : List Char) (loc : Location) :
    Option (List Event × Location) × BlockStore :=
  match keyAt? source loc.offset with
  | none => (none, s)
  | some key =>
    let miss := (none, { s with misses := s.misses + 1 })
    match s.blocksOf key with
    | none => miss
    | some blocks =>
      match s.ranked source loc blocks with
      | [] => miss
      | best :: others =>
        let use (b : StoredBlock) : StoredBlock :=
          { b.moveTo loc with generation := s.generation, used := s.started }
        let (block, blocks) :=
          match (best :: others).find? fun (_, b) => b.generation != s.generation with
          | some (i, b) => (use b, blocks.set i (use b))
          | none => (use best.2, blocks ++ [use best.2])
        (some (block.events, block.stop),
          { s with filed := setBlocks key blocks s.filed, hits := s.hits + 1 })

/-! ## Clearing -/

/-- The blocks of a key that stay: none that is too old, and of those of
earlier generations the younger half. -/
def kept (s : BlockStore) (now : Nat) (blocks : List StoredBlock) : List StoredBlock :=
  let young := blocks.filter fun b => now - b.used < s.retention.maxAge
  let (current, older) := young.partition fun b => b.generation == s.generation
  let older := older.mergeSort fun a b => b.generation ≤ a.generation
  older.take ((older.length + 1) / 2) ++ current

/-- **Drop old blocks.** -/
def trim (s : BlockStore) (now : Nat) : BlockStore :=
  let filed := (s.filed.map fun (key, blocks) => (key, s.kept now blocks)).filter
    fun (_, blocks) => !blocks.isEmpty
  { s with filed := filed, lastTrim := some now }

/-- **Begin a parse**; old blocks are dropped when it is time again. -/
def start (s : BlockStore) (now : Nat) : BlockStore :=
  let s := { s with open_ := [], generation := s.generation + 1, started := now }
  if s.lastTrim.all fun t => s.retention.trimDelay ≤ now - t then s.trim now else s

/-- The places no block of a list has taken, and the blocks with the
events of those that took none struck out. -/
def strikeClean (generation : Nat) :
    List Location → List StoredBlock → List Location × List StoredBlock
  | places, [] => (places, [])
  | places, b :: bs =>
    if b.events.isEmpty || b.generation != generation then
      let (places, bs) := strikeClean generation places bs
      (places, b :: bs)
    else
      let left := places.filter fun loc => !b.covers loc
      let b := if left.length == places.length then { b with events := [] } else b
      let (places, bs) := strikeClean generation left bs
      (places, b :: bs)

/-- The same over all keys. -/
def strikeCleanAll (generation : Nat) :
    List Location → List (String × List StoredBlock) → List (String × List StoredBlock)
  | _, [] => []
  | places, (key, blocks) :: rest =>
    let (places, blocks) := strikeClean generation places blocks
    (key, blocks) :: strikeCleanAll generation places rest

/-- **Take note of the places a caller still complains about**: a block
of this generation without any keeps its place, but has nothing more to
report. -/
def feedback (s : BlockStore) (places : List Location) : BlockStore :=
  { s with filed := strikeCleanAll s.generation places s.filed }

end BlockStore

end Stylesheet
