import Stylesheet.Text.Basic

/-!
# Places in a source text

A `Location` names a place in a text three ways at once: the line and
the column a person counts, both from 1, and the byte offset from 0.
Reading a character moves all three together (`Location.step`), so a
location reached by reading is determined by the text read.

A `Delta` is the distance between two places. It carries recorded
locations to the place where the same text is found again: every
location moves by the same lines and bytes, but only those on the
**anchor line** – the line the text starts on – move by columns, because
on every later line the text before them moved along with them.
-/

namespace Stylesheet

/-- **A place in a source text.** -/
structure Location where
  /-- The line, counted from 1. -/
  line : Nat
  /-- The column in characters, counted from 1. -/
  column : Nat
  /-- The byte offset, counted from 0. -/
  offset : Nat
  deriving DecidableEq, Repr, Inhabited

namespace Location

/-- The place where every text begins. -/
def start : Location := ⟨1, 1, 0⟩

/-- **One character further on**: a newline begins the next line, any
other character takes one column. -/
def step (loc : Location) (c : Char) : Location :=
  if c = '\n' then ⟨loc.line + 1, 1, loc.offset + c.utf8Size⟩
  else ⟨loc.line, loc.column + 1, loc.offset + c.utf8Size⟩

/-- **The place after a text** that starts at a location. -/
def advance (loc : Location) (cs : List Char) : Location := cs.foldl step loc

@[simp]
theorem advance_nil (loc : Location) : loc.advance [] = loc := rfl

@[simp]
theorem advance_cons (loc : Location) (c : Char) (cs : List Char) :
    loc.advance (c :: cs) = (loc.step c).advance cs := rfl

/-- Reading two texts in turn is reading them as one. -/
theorem advance_append (loc : Location) (cs ds : List Char) :
    loc.advance (cs ++ ds) = (loc.advance cs).advance ds :=
  List.foldl_append

theorem offset_step (loc : Location) (c : Char) :
    (loc.step c).offset = loc.offset + c.utf8Size := by
  unfold step; split <;> rfl

/-- **Offsets count the bytes read.** -/
theorem offset_advance (loc : Location) (cs : List Char) :
    (loc.advance cs).offset = loc.offset + Text.byteLength cs := by
  induction cs generalizing loc with
  | nil => rfl
  | cons c cs ih => rw [advance_cons, ih, offset_step, Text.byteLength_cons, Nat.add_assoc]

/-- Earlier in reading order: on an earlier line, or on the same line in
an earlier column. -/
def isBefore (a b : Location) : Bool :=
  a.line < b.line || (a.line == b.line && a.column < b.column)

/-- Line and column, as reports write them. -/
def display (loc : Location) : String := s!"{loc.line}:{loc.column}"

/-- Line and column in brackets, as messages write them. -/
def bracketed (loc : Location) : String := "(" ++ loc.display ++ ")"

end Location

/-- **A distance between two places**, and the line on which columns
move with it. -/
structure Delta where
  /-- Locations on this line move by columns as well. -/
  anchorLine : Nat
  /-- Lines to move by. -/
  lines : Int
  /-- Columns to move by on the anchor line. -/
  columns : Int
  /-- Bytes to move by. -/
  offset : Int
  deriving DecidableEq, Repr

namespace Delta

/-- **The distance from one place to another**, anchored at the line of
the first. -/
def between (source target : Location) : Delta where
  anchorLine := source.line
  lines := (target.line : Int) - source.line
  columns := (target.column : Int) - source.column
  offset := (target.offset : Int) - source.offset

/-- A distance of nothing. -/
def isZero (d : Delta) : Bool := d.lines == 0 && d.columns == 0 && d.offset == 0

end Delta

/-- Moving a count by a distance; counts stop at zero. -/
def moveCount (n : Nat) (by_ : Int) : Nat := ((n : Int) + by_).toNat

/-- **Things that carry locations and can be moved with them.** -/
class Shift (α : Type) where
  /-- Move every location inside by the distance. -/
  shift : Delta → α → α

export Shift (shift)

instance : Shift Location where
  shift d loc :=
    { line := moveCount loc.line d.lines
      column := if loc.line = d.anchorLine then moveCount loc.column d.columns else loc.column
      offset := moveCount loc.offset d.offset }

instance {α : Type} [Shift α] : Shift (Option α) where
  shift d := Option.map (shift d)

instance {α : Type} [Shift α] : Shift (List α) where
  shift d := List.map (shift d)

end Stylesheet
