import Mathlib.Data.List.TakeWhile
import Stylesheet.Proofs.Places.Basic
import Stylesheet.Proofs.Window

/-!
# What a reader can be asked for

A reader is asked to read on, in one of seven ways (`Reader.Scan`), to remember
where it stands, to return there, and to go to a place where it has stood
before. Whatever it is asked for, in whatever order, it keeps its source, and its
location is always that of a character of the source or of its end, with line and
column counted up to there (`Reader.reached_agrees`).

What is read on is a piece of the source, from the place before to the place
after. `Reader.Scan.Reads` says for each way of reading which piece that is, and
what is answered.
-/

namespace Stylesheet

namespace Text

/-! ## First occurrences -/

variable {needle cs : List Char}

/-- **Where a text occurs first.** -/
theorem indexOf?_eq_some {n : Nat} (h : indexOf? needle cs = some n) :
    ∃ front back, cs = front ++ (needle ++ back) ∧ front.length = n ∧
      ∀ front' back', cs = front' ++ (needle ++ back') → n ≤ front'.length := by
  induction cs generalizing n with
  | nil =>
    rw [indexOf?] at h
    split_ifs at h with hempty
    obtain rfl := Option.some.inj h
    obtain rfl := List.isEmpty_iff.mp hempty
    exact ⟨[], [], rfl, rfl, fun _ _ _ => Nat.zero_le _⟩
  | cons c cs ih =>
    rw [indexOf?] at h
    split_ifs at h with hstarts
    · obtain rfl := Option.some.inj h
      obtain ⟨back, hback⟩ := List.isPrefixOf_iff_prefix.mp hstarts
      exact ⟨[], back, hback.symm, rfl, fun _ _ _ => Nat.zero_le _⟩
    · obtain ⟨m, hm, rfl⟩ := Option.map_eq_some_iff.mp h
      obtain ⟨front, back, hcs, hlength, hfirst⟩ := ih hm
      refine ⟨c :: front, back, by rw [hcs, List.cons_append], by rw [List.length_cons, hlength],
        fun front' back' hother => ?_⟩
      cases front' with
      | nil => exact absurd (List.isPrefixOf_iff_prefix.mpr ⟨back', hother.symm⟩) hstarts
      | cons d front' =>
        rw [List.cons_append, List.cons.injEq] at hother
        exact Nat.succ_le_succ (hfirst front' back' hother.2)

/-- **A text that does not occur.** -/
theorem indexOf?_eq_none (h : indexOf? needle cs = none) : ¬needle <:+: cs := by
  induction cs with
  | nil =>
    rw [indexOf?] at h
    split_ifs at h with hempty
    intro hinfix
    exact hempty (List.isEmpty_iff.mpr (List.infix_nil.mp hinfix))
  | cons c cs ih =>
    rw [indexOf?] at h
    split_ifs at h with hstarts
    rw [List.infix_cons_iff, not_or]
    exact ⟨fun hbegins => hstarts (List.isPrefixOf_iff_prefix.mpr hbegins),
      ih (Option.map_eq_none_iff.mp h)⟩

end Text

/-- A run of at most some characters ends because there are as many, or before a
character that does not belong to it. -/
theorem takeWhile_take_stops (p : Char → Bool) (n : Nat) (cs : List Char) :
    ((cs.take n).takeWhile p).length = n ∨
      ∀ c ∈ (cs.drop ((cs.take n).takeWhile p).length).head?, p c = false := by
  induction cs generalizing n with
  | nil => exact .inr fun c hc => by simp at hc
  | cons c cs ih =>
    cases n with
    | zero => exact .inl rfl
    | succ n =>
      rw [List.take_succ_cons]
      by_cases hc : p c = true
      · rw [List.takeWhile_cons_of_pos hc, List.length_cons, List.drop_succ_cons, Nat.succ_inj]
        exact ih n
      · rw [List.takeWhile_cons_of_neg hc]
        right
        intro d hd
        obtain rfl : c = d := Option.some.inj hd
        exact Bool.eq_false_iff.mpr hc

namespace Reader

/-! ## Reading on -/

/-- **A way of reading on.** -/
inductive Scan where
  /-- The next character. -/
  | read
  /-- The next so many characters. -/
  | take (count : Nat)
  /-- A text, if it comes next. -/
  | text (literal : List Char)
  /-- A text in any ASCII letter case, if it comes next. -/
  | textAnyCase (literal : List Char)
  /-- A run of characters of a class. -/
  | run (p : Char → Bool)
  /-- Such a run, but no more than so many characters. -/
  | runMax (p : Char → Bool) (limit : Nat)
  /-- Everything up to a text and the text itself. -/
  | through (literal : List Char)

/-- **What is answered.** -/
inductive Answer where
  /-- A character, if there is one. -/
  | char (c : Option Char)
  /-- The text that was read. -/
  | text (cs : List Char)
  /-- Whether a text was found. -/
  | found (b : Bool)

/-- **Reading on**: the answer, and the reader after it. -/
def scan (r : Reader) : Scan → Answer × Reader
  | .read => (.char r.read.1, r.read.2)
  | .take count => (.text (r.take count).1, (r.take count).2)
  | .text literal => (.found (r.readText literal).1, (r.readText literal).2)
  | .textAnyCase literal => (.found (r.readTextAnyCase literal).1, (r.readTextAnyCase literal).2)
  | .run p => (.text (r.readWhile p).1, (r.readWhile p).2)
  | .runMax p limit => (.text (r.readWhileMax p limit).1, (r.readWhileMax p limit).2)
  | .through literal => (.found (r.readThrough literal).1, (r.readThrough literal).2)

/-- **What reading on passes**, what is left after it, and what is answered. -/
inductive Scan.Reads : Scan → List Char → List Char → Answer → Prop
  /-- A character. -/
  | read {c : Char} {rest : List Char} : Reads .read [c] rest (.char (some c))
  /-- The end. -/
  | readEnd : Reads .read [] [] (.char none)
  /-- As many characters as were asked for, or all there are. -/
  | take {passed rest : List Char} {count : Nat}
      (length_eq : passed.length = count ∨ passed.length < count ∧ rest = []) :
      Reads (.take count) passed rest (.text passed)
  /-- The text. -/
  | text {literal rest : List Char} : Reads (.text literal) literal rest (.found true)
  /-- Nothing, if the text does not come next. -/
  | noText {literal rest : List Char} (absent : ¬literal <+: rest) :
      Reads (.text literal) [] rest (.found false)
  /-- The text in its own letter case. -/
  | textAnyCase {literal passed rest : List Char}
      (same : passed.map Char.toLower = literal.map Char.toLower) :
      Reads (.textAnyCase literal) passed rest (.found true)
  /-- Nothing, if the text does not come next in any letter case. -/
  | noTextAnyCase {literal rest : List Char}
      (absent : ∀ front, front <+: rest → front.map Char.toLower ≠ literal.map Char.toLower) :
      Reads (.textAnyCase literal) [] rest (.found false)
  /-- Characters of the class, up to the first that is none. -/
  | run {p : Char → Bool} {passed rest : List Char} (inClass : ∀ c ∈ passed, p c = true)
      (stops : ∀ c ∈ rest.head?, p c = false) : Reads (.run p) passed rest (.text passed)
  /-- Such characters, up to the limit. -/
  | runMax {p : Char → Bool} {limit : Nat} {passed rest : List Char}
      (inClass : ∀ c ∈ passed, p c = true) (length_le : passed.length ≤ limit)
      (stops : passed.length = limit ∨ ∀ c ∈ rest.head?, p c = false) :
      Reads (.runMax p limit) passed rest (.text passed)
  /-- Everything up to the first occurrence of the text, and this occurrence. -/
  | through {literal front rest : List Char}
      (first : ∀ front' back, front ++ (literal ++ rest) = front' ++ (literal ++ back) →
        front.length ≤ front'.length) :
      Reads (.through literal) (front ++ literal) rest (.found true)
  /-- Everything, if the text does not occur. -/
  | noThrough {literal passed : List Char} (absent : ¬literal <:+: passed) :
      Reads (.through literal) passed [] (.found false)

/-- **Reading on** takes some characters of what is left, and answers what it
should. -/
theorem scan_reads (r : Reader) (way : Scan) : ∃ n, (r.scan way).2 = r.advance n ∧
    way.Reads (r.rest.take n) (r.rest.drop n) (r.scan way).1 := by
  cases way with
  | read =>
    refine ⟨1, rfl, ?_⟩
    show Scan.Reads .read (r.rest.take 1) (r.rest.drop 1) (.char r.rest.head?)
    cases r.rest with
    | nil => exact .readEnd
    | cons c rest => exact .read
  | take count =>
    refine ⟨count, rfl, .take ?_⟩
    rw [List.length_take, List.drop_eq_nil_iff]
    omega
  | text literal =>
    show ∃ n, (r.readText literal).2 = r.advance n ∧ Scan.Reads _ _ _ (.found (r.readText literal).1)
    unfold readText
    split_ifs with h
    · obtain ⟨rest, hrest⟩ := List.isPrefixOf_iff_prefix.mp h
      refine ⟨literal.length, rfl, ?_⟩
      rw [← hrest, List.take_left, List.drop_left]
      exact .text
    · exact ⟨0, rfl, .noText fun hstarts => h (List.isPrefixOf_iff_prefix.mpr hstarts)⟩
  | textAnyCase literal =>
    show ∃ n, (r.readTextAnyCase literal).2 = r.advance n ∧
      Scan.Reads _ _ _ (.found (r.readTextAnyCase literal).1)
    unfold readTextAnyCase
    split_ifs with h
    · refine ⟨literal.length, rfl, .textAnyCase ?_⟩
      have hstarts := List.prefix_iff_eq_take.mp (List.isPrefixOf_iff_prefix.mp h)
      rw [hstarts, List.map_take, List.length_map]
    · refine ⟨0, rfl, .noTextAnyCase fun front hfront hsame => h ?_⟩
      rw [List.isPrefixOf_iff_prefix, ← hsame]
      exact hfront.map _
  | run p =>
    have hpassed := List.prefix_iff_eq_take.mp (List.takeWhile_prefix (l := r.rest) p)
    refine ⟨(r.rest.takeWhile p).length, rfl, .run ?_ ?_⟩
    · rw [← hpassed]
      exact fun c hc => List.mem_takeWhile_imp hc
    · have hstops := takeWhile_take_stops p (r.rest.length + 1) r.rest
      rw [List.take_of_length_le (Nat.le_succ _)] at hstops
      refine hstops.resolve_left fun hlength => ?_
      have hle := (List.takeWhile_sublist (l := r.rest) p).length_le
      omega
  | runMax p limit =>
    have hstarts : (r.rest.take limit).takeWhile p <+: r.rest :=
      (List.takeWhile_prefix _).trans (List.take_prefix _ _)
    have hpassed := List.prefix_iff_eq_take.mp hstarts
    refine ⟨((r.rest.take limit).takeWhile p).length, rfl, .runMax ?_ ?_ ?_⟩
    · rw [← hpassed]
      exact fun c hc => List.mem_takeWhile_imp hc
    · rw [← hpassed]
      refine (List.takeWhile_sublist p).length_le.trans ?_
      rw [List.length_take]
      exact Nat.min_le_left _ _
    · rw [← hpassed]
      exact takeWhile_take_stops p limit r.rest
  | through literal =>
    show ∃ n, (r.readThrough literal).2 = r.advance n ∧
      Scan.Reads _ _ _ (.found (r.readThrough literal).1)
    unfold readThrough
    cases hindex : Text.indexOf? literal r.rest with
    | some n =>
      obtain ⟨front, back, hrest, rfl, hfirst⟩ := Text.indexOf?_eq_some hindex
      refine ⟨front.length + literal.length, rfl, ?_⟩
      rw [hrest, List.take_length_add_append, List.take_left, List.drop_length_add_append,
        List.drop_left]
      exact .through fun front' back' hother => hfirst front' back' (hrest.trans hother)
    | none =>
      refine ⟨r.rest.length, rfl, ?_⟩
      rw [List.take_length, List.drop_length]
      exact .noThrough (Text.indexOf?_eq_none hindex)

/-! ## Requests in any order -/

/-- **A request to a reader.** -/
inductive Request where
  /-- To read on. -/
  | scan (way : Scan)
  /-- To remember the place. -/
  | mark
  /-- To return to the place that is remembered. -/
  | reset
  /-- To go to a place. -/
  | seek (loc : Location)

/-- The reader after a request. -/
def Request.run (r : Reader) : Request → Reader
  | .scan way => (r.scan way).2
  | .mark => r.mark
  | .reset => r.reset
  | .seek loc => r.seek loc

/-- **The readers that requests lead to**, from the start of a text, with the
places where they have stood on the way. -/
inductive Reached (text : String) : List Location → Reader → Prop
  /-- Nothing was asked for yet. -/
  | start : Reached text [.start] (ofString text)
  /-- One more request; it goes to a place where a reader has stood, if at all. -/
  | ask {known : List Location} {r : Reader} (request : Request) (before : Reached text known r)
      (permitted : ∀ loc, request = .seek loc → loc ∈ known) :
      Reached text ((request.run r).location :: known) (request.run r)

/-- **A steady reader of a source**: it stands at a place of the source, and
what it remembers is one. -/
structure IsSteady (source : List Char) (r : Reader) : Prop where
  /-- It stands at a place. -/
  isAt : r.IsAt
  /-- The source is the one given. -/
  source_eq : r.source = source
  /-- It remembers a place, if any. -/
  bookmark : ∀ loc ∈ r.bookmark, IsPlace source loc

/-- **A reader that keeps in step with a source.** -/
structure InStep (source : List Char) (r : Reader) : Prop where
  /-- It reads the source. -/
  source_eq : r.source = source
  /-- All lines of the source end with a newline. -/
  plain : ∀ c ∈ r.source, c ≠ '\r' ∧ c ≠ '\x0c'
  /-- Its location is that of a character of the source, or of its end. -/
  agrees : r.location.AgreesWith r.source
  /-- It has not read beyond the end. -/
  offset_le : r.location.offset ≤ Text.byteLength r.source
  /-- Reading on passes the source between the places before and after, and
  answers what it should. -/
  reads : ∀ way : Scan,
    let after := (r.scan way).2
    let passed := Text.slice r.source r.location.offset after.location.offset
    r.rest = passed ++ after.rest ∧ way.Reads passed after.rest (r.scan way).1

variable {source : List Char} {r : Reader}

/-- Going to a place of the source. -/
theorem IsSteady.seek (h : r.IsSteady source) {loc : Location} (hloc : IsPlace source loc) :
    (r.seek loc).IsSteady source where
  isAt := IsAt.seek (h.source_eq ▸ hloc)
  source_eq := h.source_eq
  bookmark := h.bookmark

theorem IsSteady.run (h : r.IsSteady source) (request : Request)
    (hseek : ∀ loc, request = .seek loc → IsPlace source loc) :
    (request.run r).IsSteady source := by
  cases request with
  | scan way =>
    obtain ⟨n, hn, -⟩ := r.scan_reads way
    show (r.scan way).2.IsSteady source
    rw [hn]
    exact ⟨h.isAt.advance n, h.source_eq, h.bookmark⟩
  | mark =>
    refine ⟨h.isAt, h.source_eq, fun loc hloc => ?_⟩
    obtain rfl := Option.some.inj hloc
    exact h.source_eq ▸ h.isAt.isPlace
  | reset =>
    show r.reset.IsSteady source
    cases hmark : r.bookmark with
    | none =>
      rw [show r.reset = r by unfold reset; rw [hmark]]
      exact h
    | some loc =>
      have hloc : IsPlace r.source loc := h.source_eq ▸ h.bookmark loc hmark
      rw [show r.reset = atPlace r.source loc (some loc) by unfold reset; rw [hmark]]
      exact ⟨hloc.exists_suffixAt, h.source_eq, hmark ▸ h.bookmark⟩
  | seek loc => exact h.seek (hseek loc rfl)

/-- **Any number of requests** lead to a steady reader, and all places on the way
are places of the source. -/
theorem Reached.isSteady {text : String} {known : List Location} (h : Reached text known r) :
    r.IsSteady (normalizeNewlines text.toList) ∧
      ∀ loc ∈ known, IsPlace (normalizeNewlines text.toList) loc := by
  have hplace : ∀ {r : Reader}, r.IsSteady (normalizeNewlines text.toList) →
      IsPlace (normalizeNewlines text.toList) r.location := fun h => h.source_eq ▸ h.isAt.isPlace
  induction h with
  | start =>
    have hstart : (ofString text).IsSteady (normalizeNewlines text.toList) :=
      ⟨⟨[], Text.suffixAt_zero _ |>.symm, rfl⟩, rfl, fun _ hloc => by cases hloc⟩
    exact ⟨hstart, List.forall_mem_singleton.mpr (hplace hstart)⟩
  | ask request before permitted ih =>
    obtain ⟨hsteady, hknown⟩ := ih
    have hafter := hsteady.run request fun loc hloc => hknown loc (permitted loc hloc)
    exact ⟨hafter, List.forall_mem_cons.mpr ⟨hplace hafter, hknown⟩⟩

/-- What is passed is what stands between the places before and after. -/
theorem IsAt.slice_advance (h : r.IsAt) (n : Nat) :
    Text.slice r.source r.location.offset (r.advance n).location.offset = r.rest.take n := by
  obtain ⟨before, hsource, hloc⟩ := h
  have hslice := Text.slice_append before (r.rest.take n) (r.rest.drop n)
  rw [List.take_append_drop, ← hsource] at hslice
  show Text.slice r.source r.location.offset (r.location.advance (r.rest.take n)).offset = _
  rw [Location.offset_advance, hloc, Location.offset_advance_start]
  exact hslice

/-- **Readers keep in step with their sources**, whatever they are asked for and
in whatever order: the source stays as it is, the location is that of the place
reached, and what is read is the source between two places. -/
theorem reached_inStep {text : String} {known : List Location} (h : Reached text known r) :
    r.InStep (normalizeNewlines text.toList) := by
  obtain ⟨hsteady, -⟩ := h.isSteady
  refine ⟨hsteady.source_eq, fun c hc => ?_, isPlace_iff.mp hsteady.isAt.isPlace,
    hsteady.isAt.isPlace.offset_le, fun way => ?_⟩
  · rw [hsteady.source_eq] at hc
    exact not_or.mp (ne_lineEnd_of_mem_normalizeNewlines hc)
  · obtain ⟨n, hn, hreads⟩ := r.scan_reads way
    dsimp only
    rw [hn, hsteady.isAt.slice_advance]
    exact ⟨(List.take_append_drop n r.rest).symm, hreads⟩

/-- A word is passed in another letter case and remembered, a line end is read,
and the reader goes back to where it started. -/
theorem reached_inStep_back :
    let r := (((ofString "É\r\nURL(").scan (.through ['\n'])).2.mark.scan (.textAnyCase "url".toList)).2
    let known := [r.location, ⟨2, 1, 3⟩, ⟨2, 1, 3⟩, .start]
    Reached "É\r\nURL(" (.start :: known) (r.seek .start) ∧
      (r.seek .start).InStep (normalizeNewlines "É\r\nURL(".toList) := by
  intro r known
  have hreached : Reached "É\r\nURL(" (.start :: known) (r.seek .start) :=
    (((Reached.start.ask (.scan (.through ['\n'])) fun _ h => by cases h).ask .mark
      fun _ h => by cases h).ask (.scan (.textAnyCase "url".toList)) fun _ h => by cases h).ask
      (.seek .start) fun _ h => by cases h; simp
  exact ⟨hreached, reached_inStep hreached⟩

end Reader

end Stylesheet
