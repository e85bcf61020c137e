import Stylesheet.Location

/-!
# Reading a source text

A `Reader` is a place in a fixed source text together with the text
that is still unread there. The source has its line ends normalized
once, when the reader is made: a carriage return, a form feed and the
pair of carriage return and newline all become one newline, so nothing
downstream meets any other line end.

The unread text is kept beside the location and is always what the
location says it is; the field `rest_eq` holds the reader to it. A
location that does not lie on the boundary of a character has nothing
unread.
-/

namespace Stylesheet

/-- **The source with every line end written as a newline.** -/
def normalizeNewlines : List Char → List Char
  | [] => []
  | '\r' :: '\n' :: cs => '\n' :: normalizeNewlines cs
  | c :: cs =>
    (if c = '\r' || c = '\x0c' then '\n' else c) :: normalizeNewlines cs

/-- Outside of a pair of carriage return and newline every character is
written by itself. -/
theorem normalizeNewlines_cons {c : Char} {cs : List Char}
    (h : c = '\r' → cs.head? ≠ some '\n') : normalizeNewlines (c :: cs) =
      (if c = '\r' || c = '\x0c' then '\n' else c) :: normalizeNewlines cs := by
  rw [normalizeNewlines]
  rintro ds hc rfl
  exact h hc rfl

/-- Only newlines are left as line ends. -/
theorem ne_lineEnd_of_mem_normalizeNewlines {c : Char} {cs : List Char}
    (h : c ∈ normalizeNewlines cs) : ¬(c = '\r' ∨ c = '\x0c') := by
  induction cs using normalizeNewlines.induct with
  | case1 => cases h
  | case2 cs ih =>
    rw [normalizeNewlines] at h
    rcases List.mem_cons.mp h with rfl | h
    · decide
    · exact ih h
  | case3 d cs hpair ih =>
    rw [normalizeNewlines_cons fun hd hhead => by
      obtain ⟨ds, rfl⟩ := List.head?_eq_some_iff.mp hhead
      exact hpair ds hd rfl] at h
    rcases List.mem_cons.mp h with rfl | h
    · by_cases hd : d = '\r' || d = '\x0c'
      · rw [if_pos hd]
        decide
      · rw [if_neg hd]
        simpa using hd
    · exact ih h

/-- A text without other line ends stays as it is. -/
theorem normalizeNewlines_of_forall {cs : List Char} (h : ∀ c ∈ cs, ¬(c = '\r' ∨ c = '\x0c')) :
    normalizeNewlines cs = cs := by
  induction cs with
  | nil => rfl
  | cons c cs ih =>
    have hc := h c List.mem_cons_self
    rw [normalizeNewlines_cons fun hr => absurd (Or.inl hr) hc,
      ih fun d hd => h d (List.mem_cons_of_mem _ hd), if_neg (by simpa using hc)]

/-- **A place in a source text, and what is unread there.** -/
structure Reader where
  /-- The normalized source. -/
  source : List Char
  /-- The place reached. -/
  location : Location
  /-- The unread text. -/
  rest : List Char
  /-- The place `reset` returns to. -/
  bookmark : Option Location
  /-- The unread text is the source from the location's offset on. -/
  rest_eq : rest = Text.suffixAt source location.offset

namespace Reader

/-- A reader at a place of a source. -/
def atPlace (source : List Char) (location : Location) (bookmark : Option Location) : Reader :=
  ⟨source, location, Text.suffixAt source location.offset, bookmark, rfl⟩

/-- **A reader at the start of a text.** -/
def ofString (text : String) : Reader :=
  atPlace (normalizeNewlines text.toList) .start none

/-- Whether the whole source has been read. -/
def atEnd (r : Reader) : Bool := Text.byteLength r.source ≤ r.location.offset

/-- The character `n` places ahead; the next one to be read is at 0. -/
def peek (r : Reader) (n : Nat) : Option Char := r.rest[n]?

/-- **Read past the next `n` characters**, or past all there are. -/
def advance (r : Reader) (n : Nat) : Reader where
  source := r.source
  location := r.location.advance (r.rest.take n)
  rest := r.rest.drop n
  bookmark := r.bookmark
  rest_eq := by
    rw [Location.offset_advance]
    refine (Text.suffixAt_add ?_).symm
    rw [← r.rest_eq, List.take_append_drop]

/-- The next `n` characters, and the reader after them. -/
def take (r : Reader) (n : Nat) : List Char × Reader := (r.rest.take n, r.advance n)

/-- The next character, and the reader after it. -/
def read (r : Reader) : Option Char × Reader := (r.rest.head?, r.advance 1)

/-- **Read a given text**, if it comes next. -/
def readText (r : Reader) (text : List Char) : Bool × Reader :=
  if text.isPrefixOf r.rest then (true, r.advance text.length) else (false, r)

/-- Read a given text in any ASCII letter case, if it comes next. -/
def readTextAnyCase (r : Reader) (text : List Char) : Bool × Reader :=
  if (text.map Char.toLower).isPrefixOf (r.rest.map Char.toLower) then
    (true, r.advance text.length)
  else (false, r)

/-- **Read the longest run of characters of a class.** -/
def readWhile (r : Reader) (p : Char → Bool) : List Char × Reader :=
  r.take (r.rest.takeWhile p).length

/-- Read the longest run of characters of a class that has at most
`limit` of them. -/
def readWhileMax (r : Reader) (p : Char → Bool) (limit : Nat) : List Char × Reader :=
  r.take ((r.rest.take limit).takeWhile p).length

/-- **Read up to and including a given text**; without it, read
everything and say so. -/
def readThrough (r : Reader) (text : List Char) : Bool × Reader :=
  match Text.indexOf? text r.rest with
  | some n => (true, r.advance (n + text.length))
  | none => (false, r.advance r.rest.length)

/-- Remember the place reached. -/
def mark (r : Reader) : Reader := { r with bookmark := some r.location }

/-- Return to the remembered place, if there is one. -/
def reset (r : Reader) : Reader :=
  match r.bookmark with
  | some loc => atPlace r.source loc r.bookmark
  | none => r

/-- **Move to a place.** An offset beyond the end is the end. -/
def seek (r : Reader) (loc : Location) : Reader :=
  atPlace r.source { loc with offset := min loc.offset (Text.byteLength r.source) } r.bookmark

/-- The source between two byte offsets, empty when they cut no text. -/
def slice (r : Reader) (start stop : Nat) : List Char := Text.slice r.source start stop

end Reader

end Stylesheet
