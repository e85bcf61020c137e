import Stylesheet.Proofs.Places.Basic
import Stylesheet.Report.Lines

/-!
# Snippets and line ends

Places are counted in the source, where all lines end with a newline. A snippet
is cut from a text as it was given, where lines may end in other ways. It divides
the text at newlines only, and leaves out carriage returns at the ends of lines.
So it shows the same for the text as for its source if the only other line ends
are pairs of carriage return and newline, and only then
(`Snippet.render_normalized`): a line end of any other kind makes a line of the
source that the text does not have.
-/

namespace Stylesheet

/-- **A text whose only line ends** are newlines, and carriage returns right
before them. -/
def EndsLinesPlainly (cs : List Char) : Prop :=
  '\x0c' ∉ cs ∧ ∀ front back, cs = front ++ '\r' :: back → back.head? = some '\n'

/-! ## Newlines of a text and of its source -/

section Newlines

variable {c : Char} {cs : List Char}

theorem endsLinesPlainly_nil : EndsLinesPlainly [] :=
  ⟨List.not_mem_nil, fun front back h => by cases front <;> cases h⟩

/-- The first character of such a text, and what follows it. -/
theorem endsLinesPlainly_cons : EndsLinesPlainly (c :: cs) ↔
    c ≠ '\x0c' ∧ (c = '\r' → cs.head? = some '\n') ∧ EndsLinesPlainly cs := by
  constructor
  · rintro ⟨hfeed, hreturn⟩
    rw [List.mem_cons, not_or] at hfeed
    refine ⟨Ne.symm hfeed.1, fun hc => hreturn [] cs (hc ▸ rfl), hfeed.2, fun front back h => ?_⟩
    exact hreturn (c :: front) back (h ▸ rfl)
  · rintro ⟨hc, hreturn, hfeed, htail⟩
    refine ⟨List.not_mem_cons_of_ne_of_not_mem (Ne.symm hc) hfeed, fun front back h => ?_⟩
    cases front with
    | nil =>
      obtain ⟨rfl, rfl⟩ := List.cons_eq_cons.mp h
      exact hreturn rfl
    | cons d front => exact htail front back (List.cons_eq_cons.mp h).2

/-- **A source has no fewer newlines than its text**, and as many only if the text
has no other line ends. -/
theorem count_normalizeNewlines (cs : List Char) :
    cs.count '\n' ≤ (normalizeNewlines cs).count '\n' ∧
      ((normalizeNewlines cs).count '\n' ≤ cs.count '\n' → EndsLinesPlainly cs) := by
  induction cs using normalizeNewlines.induct with
  | case1 => exact ⟨Nat.le_refl 0, fun _ => endsLinesPlainly_nil⟩
  | case2 cs ih =>
    rw [normalizeNewlines, List.count_cons_of_ne (by decide), List.count_cons_self,
      List.count_cons_self]
    refine ⟨Nat.succ_le_succ ih.1, fun h => ?_⟩
    have hcs := ih.2 (Nat.le_of_succ_le_succ h)
    exact endsLinesPlainly_cons.mpr ⟨by decide, fun _ => rfl,
      endsLinesPlainly_cons.mpr ⟨by decide, fun h => absurd h (by decide), hcs⟩⟩
  | case3 c cs hpair ih =>
    have hhead : c = '\r' → cs.head? ≠ some '\n' := by
      intro hc hhead
      obtain ⟨ds, rfl⟩ := List.head?_eq_some_iff.mp hhead
      exact hpair ds hc rfl
    rw [normalizeNewlines_cons hhead]
    split_ifs with hend
    · have hc : c ≠ '\n' := by
        rintro rfl
        exact absurd hend (by decide)
      rw [List.count_cons_self, List.count_cons_of_ne hc]
      have hle := ih.1
      exact ⟨Nat.le_succ_of_le hle, fun h => absurd h (by omega)⟩
    · simp only [Bool.or_eq_true, decide_eq_true_eq, not_or] at hend
      have hcs := ih.2
      refine ⟨?_, fun h => endsLinesPlainly_cons.mpr ⟨hend.2, fun hc => absurd hc hend.1, hcs ?_⟩⟩
      · rw [List.count_cons, List.count_cons]
        exact Nat.add_le_add_right ih.1 _
      · rw [List.count_cons, List.count_cons] at h
        exact Nat.le_of_add_le_add_right h

/-- **A place with a given number of newlines before it.** -/
theorem exists_count_eq {k : Nat} (h : k ≤ cs.count c) :
    ∃ front back, cs = front ++ back ∧ front.count c = k := by
  induction cs generalizing k with
  | nil => exact ⟨[], [], rfl, (Nat.le_zero.mp h).symm⟩
  | cons d cs ih =>
    cases k with
    | zero => exact ⟨[], d :: cs, rfl, rfl⟩
    | succ k =>
      by_cases hd : d = c
      · subst hd
        rw [List.count_cons_self] at h
        obtain ⟨front, back, rfl, hcount⟩ := ih (Nat.le_of_succ_le_succ h)
        exact ⟨d :: front, back, rfl, by rw [List.count_cons_self, hcount]⟩
      · rw [List.count_cons_of_ne hd] at h
        obtain ⟨front, back, rfl, hcount⟩ := ih h
        exact ⟨d :: front, back, rfl, by rw [List.count_cons_of_ne hd, hcount]⟩

end Newlines

namespace Snippet

/-! ## Lines -/

section Lines

variable {c : Char} {cs line : List Char} {lines : List (List Char)}

/-- There is always a line. -/
theorem splitLines_ne_nil (cs : List Char) : splitLines cs ≠ [] := by
  cases cs with
  | nil => exact List.cons_ne_nil _ _
  | cons c cs =>
    rw [splitLines]
    split
    · exact List.cons_ne_nil _ _
    · split_ifs <;> exact List.cons_ne_nil _ _

/-- A newline ends a line. -/
theorem splitLines_newline (cs : List Char) : splitLines ('\n' :: cs) = [] :: splitLines cs := by
  obtain ⟨line, lines, h⟩ := List.exists_cons_of_ne_nil (splitLines_ne_nil cs)
  rw [splitLines, h]
  rfl

/-- Any other character belongs to its line. -/
theorem splitLines_cons (hc : c ≠ '\n') (h : splitLines cs = line :: lines) :
    splitLines (c :: cs) = (c :: line) :: lines := by
  rw [splitLines, h]
  exact if_neg hc

/-- **There is a line more than newlines.** -/
theorem length_splitLines (cs : List Char) : (splitLines cs).length = cs.count '\n' + 1 := by
  induction cs with
  | nil => rfl
  | cons c cs ih =>
    by_cases hc : c = '\n'
    · subst hc
      rw [splitLines_newline, List.length_cons, ih, List.count_cons_self]
    · obtain ⟨line, lines, h⟩ := List.exists_cons_of_ne_nil (splitLines_ne_nil cs)
      rw [splitLines_cons hc h, List.count_cons_of_ne hc, ← ih, h]
      rfl

/-- No line has a newline. -/
theorem newline_not_mem_splitLines (h : line ∈ splitLines cs) : '\n' ∉ line := by
  induction cs generalizing line with
  | nil =>
    obtain rfl := List.mem_singleton.mp h
    exact List.not_mem_nil
  | cons c cs ih =>
    by_cases hc : c = '\n'
    · subst hc
      rw [splitLines_newline] at h
      rcases List.mem_cons.mp h with rfl | h
      · exact List.not_mem_nil
      · exact ih h
    · obtain ⟨first, lines, hcs⟩ := List.exists_cons_of_ne_nil (splitLines_ne_nil cs)
      rw [splitLines_cons hc hcs] at h
      rw [hcs] at ih
      rcases List.mem_cons.mp h with rfl | h
      · exact List.not_mem_cons_of_ne_of_not_mem (Ne.symm hc) (ih List.mem_cons_self)
      · exact ih (List.mem_cons_of_mem _ h)

/-- The characters of a line are characters of the text. -/
theorem mem_of_mem_splitLines (h : line ∈ splitLines cs) (hc : c ∈ line) : c ∈ cs := by
  induction cs generalizing line with
  | nil =>
    obtain rfl := List.mem_singleton.mp h
    exact hc
  | cons d cs ih =>
    by_cases hd : d = '\n'
    · subst hd
      rw [splitLines_newline] at h
      rcases List.mem_cons.mp h with rfl | h
      · exact absurd hc List.not_mem_nil
      · exact List.mem_cons_of_mem _ (ih h hc)
    · obtain ⟨first, lines, hcs⟩ := List.exists_cons_of_ne_nil (splitLines_ne_nil cs)
      rw [splitLines_cons hd hcs] at h
      rw [hcs] at ih
      rcases List.mem_cons.mp h with rfl | h
      · rcases List.mem_cons.mp hc with rfl | hc
        · exact List.mem_cons_self
        · exact List.mem_cons_of_mem _ (ih List.mem_cons_self hc)
      · exact List.mem_cons_of_mem _ (ih (List.mem_cons_of_mem _ h) hc)

/-- The lines on both sides of a newline. -/
theorem splitLines_append (front back : List Char) :
    splitLines (front ++ '\n' :: back) = splitLines front ++ splitLines back := by
  induction front with
  | nil => exact splitLines_newline back
  | cons c front ih =>
    rw [List.cons_append]
    by_cases hc : c = '\n'
    · subst hc
      rw [splitLines_newline, splitLines_newline, ih, List.cons_append]
    · obtain ⟨line, lines, h⟩ := List.exists_cons_of_ne_nil (splitLines_ne_nil front)
      rw [h, List.cons_append] at ih
      rw [splitLines_cons hc ih, splitLines_cons hc h, List.cons_append]

/-- The first line goes up to the first newline. -/
theorem head?_splitLines (cs : List Char) :
    (splitLines cs)[0]? = some (cs.takeWhile (· ≠ '\n')) := by
  induction cs with
  | nil => rfl
  | cons c cs ih =>
    by_cases hc : c = '\n'
    · subst hc
      rw [splitLines_newline]
      rfl
    · obtain ⟨line, lines, h⟩ := List.exists_cons_of_ne_nil (splitLines_ne_nil cs)
      rw [h] at ih
      rw [splitLines_cons hc h, List.takeWhile_cons_of_pos (by simpa using hc),
        ← Option.some.inj ih]
      rfl

/-- **The line of a place**: what stands before the place since the last newline,
and what follows up to the next. -/
theorem getElem?_splitLines (front back : List Char) :
    (splitLines (front ++ back))[front.count '\n']? =
      some (lastLine front ++ back.takeWhile (· ≠ '\n')) := by
  induction front using List.reverseRecOn generalizing back with
  | nil => exact head?_splitLines back
  | append_singleton front c ih =>
    rw [lastLine_concat, List.append_assoc, List.singleton_append]
    by_cases hc : c = '\n'
    · subst hc
      rw [splitLines_append, List.count_append, List.count_singleton_self, if_pos rfl,
        List.nil_append, ← length_splitLines, List.getElem?_append_right (Nat.le_refl _),
        Nat.sub_self]
      exact head?_splitLines back
    · rw [List.count_append, List.count_singleton, beq_eq_false_iff_ne.mpr hc, if_neg hc,
        if_neg Bool.false_ne_true, Nat.add_zero, ih, List.takeWhile_cons_of_pos (by simpa using hc),
        List.append_assoc]
      rfl

/-- The characters that are shown of a line belong to it. -/
theorem mem_of_mem_shown (h : c ∈ shown line) : c ∈ line := by
  unfold shown at h
  exact List.mem_reverse.mp ((List.dropWhile_sublist _).subset (List.mem_reverse.mp h))

theorem shown_cons (hc : c ≠ '\r') (line : List Char) : shown (c :: line) = c :: shown line := by
  unfold shown
  rw [List.reverse_cons, List.dropWhile_append]
  split_ifs with hempty
  · rw [List.isEmpty_iff.mp hempty, List.dropWhile_cons_of_neg (by simpa using hc)]
    rfl
  · rw [List.reverse_append]
    rfl

theorem shown_eq_self (h : '\r' ∉ line) : shown line = line := by
  induction line with
  | nil => rfl
  | cons c line ih =>
    rw [List.mem_cons, not_or] at h
    rw [shown_cons (Ne.symm h.1), ih h.2]

/-- **The lines of a text**, as they are shown, are those of its source, if it has
no other line ends. -/
theorem shown_splitLines (h : EndsLinesPlainly cs) :
    (splitLines cs).map shown = splitLines (normalizeNewlines cs) := by
  induction cs using normalizeNewlines.induct with
  | case1 => rfl
  | case2 cs ih =>
    obtain ⟨-, -, hnext⟩ := endsLinesPlainly_cons.mp h
    obtain ⟨-, -, hcs⟩ := endsLinesPlainly_cons.mp hnext
    rw [normalizeNewlines, splitLines_newline, ← ih hcs,
      splitLines_cons (by decide) (splitLines_newline cs)]
    rfl
  | case3 c cs hpair ih =>
    obtain ⟨hfeed, hreturn, hcs⟩ := endsLinesPlainly_cons.mp h
    have hc : c ≠ '\r' := by
      intro hc
      obtain ⟨ds, rfl⟩ := List.head?_eq_some_iff.mp (hreturn hc)
      exact hpair ds hc rfl
    rw [normalizeNewlines_cons fun hr => absurd hr hc, if_neg (by simp [hc, hfeed])]
    by_cases hline : c = '\n'
    · subst hline
      rw [splitLines_newline, splitLines_newline, List.map_cons, ih hcs]
      rfl
    · obtain ⟨line, lines, hlines⟩ := List.exists_cons_of_ne_nil (splitLines_ne_nil cs)
      have hsource := ih hcs
      rw [hlines, List.map_cons] at hsource
      rw [splitLines_cons hline hlines, splitLines_cons hline hsource.symm, List.map_cons,
        shown_cons hc]

end Lines

/-! ## What is shown -/

/-- **The lines of a snippet that come before the caret**, with their numbers. -/
def above (lines : List (List Char)) (here : Nat) : List (Nat × List Char) :=
  (((List.range lines.length).zip lines).drop (here - context)).take (min here context + 1)

/-- **The lines of a snippet that come after the caret**, with their numbers. -/
def below (lines : List (List Char)) (here : Nat) : List (Nat × List Char) :=
  (((List.range lines.length).zip lines).drop (here + 1)).take context

theorem render_eq (text : String) (loc : Location) (message : String) :
    render text loc message =
      let lines := splitLines text.toList
      let here := lineIndex lines loc
      String.join ((above lines here).map numberedLine) ++ caretLine loc ++
        String.join ((below lines here).map numberedLine) ++ message ++ "\n" := rfl

/-- A line with its number, of which everything is shown. -/
def plainLine (entry : Nat × List Char) : String :=
  padded (toString (entry.1 + 1)) ++ "|" ++ String.ofList entry.2 ++ "\n"

variable {lines : List (List Char)} {line : List Char} {here : Nat}

/-- Of the lines of a snippet nothing matters but what is shown of them. -/
theorem map_numberedLine_above (lines : List (List Char)) (here : Nat) :
    (above lines here).map numberedLine = (above (lines.map shown) here).map plainLine := by
  unfold above
  rw [List.length_map, List.zip_map_right, ← List.map_drop, ← List.map_take, List.map_map]
  rfl

theorem map_numberedLine_below (lines : List (List Char)) (here : Nat) :
    (below lines here).map numberedLine = (below (lines.map shown) here).map plainLine := by
  unfold below
  rw [List.length_map, List.zip_map_right, ← List.map_drop, ← List.map_take, List.map_map]
  rfl

/-- **Two texts with the same lines**, as far as they are shown, have the same
snippets. -/
theorem render_congr {text text' : String}
    (h : (splitLines text.toList).map shown = (splitLines text'.toList).map shown)
    (loc : Location) (message : String) : render text loc message = render text' loc message := by
  have hlength := congrArg List.length h
  rw [List.length_map, List.length_map] at hlength
  have hhere : lineIndex (splitLines text.toList) loc = lineIndex (splitLines text'.toList) loc := by
    unfold lineIndex
    rw [hlength]
  rw [render_eq, render_eq]
  dsimp only
  rw [map_numberedLine_above, map_numberedLine_above, map_numberedLine_below,
    map_numberedLine_below, hhere, h]

/-- **The last line before the caret** is the line that the snippet is about. -/
theorem above_eq (h : lines[here]? = some line) :
    ∃ earlier, above lines here = earlier ++ [(here, line)] := by
  have hlt := (List.getElem?_eq_some_iff.mp h).1
  have hentry : (((List.range lines.length).zip lines).drop (here - context))[min here context]? =
      some (here, line) := by
    rw [List.getElem?_drop, show here - context + min here context = here by omega,
      List.getElem?_zip_eq_some]
    exact ⟨List.getElem?_range hlt, h⟩
  unfold above
  rw [List.take_add_one, hentry]
  exact ⟨_, rfl⟩

/-! ## Newlines in a snippet -/

/-- The newlines of a line that is shown with its number. -/
def newlinesAt (number : Nat) : Nat := (padded (toString (number + 1))).toList.count '\n' + 1

/-- The newlines of lines that are shown with their numbers. -/
def newlinesIn : List Nat → Nat
  | [] => 0
  | number :: numbers => newlinesAt number + newlinesIn numbers

theorem count_numberedLine {entry : Nat × List Char} (h : '\n' ∉ entry.2) :
    (numberedLine entry).toList.count '\n' = newlinesAt entry.1 := by
  have hshown : (shown entry.2).count '\n' = 0 :=
    List.count_eq_zero.mpr fun hmem => h (mem_of_mem_shown hmem)
  unfold numberedLine newlinesAt
  simp only [String.toList_append, String.toList_ofList, List.count_append, hshown]
  rfl

theorem count_join {entries : List (Nat × List Char)} (h : ∀ entry ∈ entries, '\n' ∉ entry.2) :
    (String.join (entries.map numberedLine)).toList.count '\n' =
      newlinesIn (entries.map Prod.fst) := by
  induction entries with
  | nil => rfl
  | cons entry entries ih =>
    obtain ⟨hentry, hentries⟩ := List.forall_mem_cons.mp h
    rw [String.toList_join] at ih ⊢
    rw [List.map_cons, List.flatMap_cons, List.count_append, ih hentries,
      count_numberedLine hentry]
    rfl

/-- The numbers of the lines before the caret do not depend on how many lines
there are. -/
theorem fst_above (h : here < lines.length) :
    (above lines here).map Prod.fst = (List.range (here + 1)).drop (here - context) := by
  have hcount : min here context + 1 = here + 1 - (here - context) := by omega
  unfold above
  rw [List.map_take, List.map_drop, List.map_fst_zip (Nat.le_of_eq List.length_range), hcount,
    ← List.drop_take, List.take_range, Nat.min_eq_left h]

theorem fst_below (lines : List (List Char)) (here : Nat) :
    (below lines here).map Prod.fst =
      ((List.range lines.length).drop (here + 1)).take context := by
  unfold below
  rw [List.map_take, List.map_drop, List.map_fst_zip (Nat.le_of_eq List.length_range)]

theorem newline_not_mem_of_mem_zip {cs : List Char} {ns : List Nat} {entry : Nat × List Char}
    (h : entry ∈ ns.zip (splitLines cs)) : '\n' ∉ entry.2 :=
  newline_not_mem_splitLines (List.of_mem_zip h).2

/-- **The newlines of a snippet**: those of the lines before the caret, of the
lines after it, and of the message. -/
theorem count_render (text : String) {loc : Location} (message : String)
    (hline : lineIndex (splitLines text.toList) loc = here) :
    (render text loc message).toList.count '\n' =
      newlinesIn ((above (splitLines text.toList) here).map Prod.fst) +
        newlinesIn ((below (splitLines text.toList) here).map Prod.fst) +
        ((caretLine loc).toList.count '\n' + message.toList.count '\n' + 1) := by
  have habove : ∀ entry ∈ above (splitLines text.toList) here, '\n' ∉ entry.2 := fun entry hentry =>
    newline_not_mem_of_mem_zip (List.mem_of_mem_drop (List.mem_of_mem_take hentry))
  have hbelow : ∀ entry ∈ below (splitLines text.toList) here, '\n' ∉ entry.2 := fun entry hentry =>
    newline_not_mem_of_mem_zip (List.mem_of_mem_drop (List.mem_of_mem_take hentry))
  rw [render_eq]
  dsimp only
  rw [hline]
  simp only [String.toList_append, List.count_append, count_join habove, count_join hbelow]
  show _ + 1 = _
  omega

/-- **A line of the source that the text does not have** is shown of the source
only. -/
theorem render_ne {text text' : String} (h : text.toList.count '\n' < text'.toList.count '\n')
    {loc : Location} (hline : loc.line = text.toList.count '\n' + 1) (message : String) :
    render text loc message ≠ render text' loc message := by
  have hlength := length_splitLines text.toList
  have hlength' := length_splitLines text'.toList
  have hhere : lineIndex (splitLines text.toList) loc = text.toList.count '\n' := by
    unfold lineIndex
    omega
  have hhere' : lineIndex (splitLines text'.toList) loc = text.toList.count '\n' := by
    unfold lineIndex
    omega
  -- Of the text the line is the last one, of the other one it is not.
  have hlast : (List.range (splitLines text.toList).length).drop (text.toList.count '\n' + 1) =
      [] := List.drop_eq_nil_of_le (Nat.le_of_eq (by rw [List.length_range, hlength]))
  intro hsame
  have hcount := congrArg (fun s : String => s.toList.count '\n') hsame
  rw [count_render text message hhere, count_render text' message hhere',
    fst_above (by omega), fst_above (by omega), fst_below, fst_below, hlast] at hcount
  obtain ⟨number, numbers, hnumbers⟩ : ∃ number numbers,
      ((List.range (splitLines text'.toList).length).drop (text.toList.count '\n' + 1)).take
        context = number :: numbers := by
    refine List.exists_cons_of_ne_nil fun hnil => ?_
    rw [List.take_eq_nil_iff, List.drop_eq_nil_iff, List.length_range] at hnil
    rcases hnil with hnil | hnil
    · exact absurd hnil (by decide)
    · omega
  rw [hnumbers, List.take_nil, newlinesIn, newlinesIn] at hcount
  have hpos : 0 < newlinesAt number := Nat.succ_pos _
  omega

/-! ## Snippets of texts and of their sources -/

/-- No line of a source has a carriage return. -/
theorem return_not_mem_of_source (cs : List Char) {line : List Char}
    (h : line ∈ splitLines (normalizeNewlines cs)) : '\r' ∉ line := fun hmem =>
  ne_lineEnd_of_mem_normalizeNewlines (mem_of_mem_splitLines h hmem) (.inl rfl)

/-- **Snippets and line ends.** The snippets of a text are those of its source
for all places and messages exactly if its lines end with newlines only, or with
a carriage return before the newline. The snippet of a source shows the caret
right under the line that the place is on, which has the number of the place. -/
theorem render_normalized (text : String) :
    let source := normalizeNewlines text.toList
    ((∀ loc, IsPlace source loc → ∀ message,
      render text loc message = render (String.ofList source) loc message) ↔
        EndsLinesPlainly text.toList) ∧
    ∀ front back, source = front ++ back → ∀ message, ∃ earlier later,
      let loc := Location.start.advance front
      render (String.ofList source) loc message =
        earlier ++
          (padded (toString loc.line) ++ "|" ++
            String.ofList (lastLine front ++ back.takeWhile (· ≠ '\n')) ++ "\n") ++
          ("     |" ++ "".pushn ' ' (lastLine front).length ++ "^\n") ++
          later ++ message ++ "\n" := by
  intro source
  refine ⟨⟨fun h => ?_, fun h loc _ message => ?_⟩, fun front back hsource message => ?_⟩
  · by_contra hplain
    have hcount := count_normalizeNewlines text.toList
    have hlt : text.toList.count '\n' < source.count '\n' :=
      Nat.lt_of_not_le fun hle => hplain (hcount.2 hle)
    obtain ⟨front, back, hsource, hfront⟩ := exists_count_eq (Nat.le_of_lt hlt)
    have hline : (Location.start.advance front).line = text.toList.count '\n' + 1 := by
      rw [Location.advance_start_eq, hfront]
      exact Nat.add_comm 1 _
    exact render_ne (by rwa [String.toList_ofList]) hline ""
      (h (Location.start.advance front) ⟨front, back, hsource, rfl⟩ "")
  · refine render_congr ?_ loc message
    have hplain : (splitLines source).map shown = splitLines source :=
      (List.map_congr_left fun line hline =>
        shown_eq_self (return_not_mem_of_source text.toList hline)).trans (List.map_id _)
    rw [String.toList_ofList, shown_splitLines h, hplain]
  · have hline := getElem?_splitLines front back
    rw [← hsource] at hline
    have hplain := shown_eq_self (return_not_mem_of_source text.toList (List.mem_of_getElem? hline))
    have hhere : lineIndex (splitLines source) (Location.start.advance front) =
        front.count '\n' := by
      have hlt := (List.getElem?_eq_some_iff.mp hline).1
      unfold lineIndex
      rw [Location.advance_start_eq]
      dsimp only
      omega
    have hnumbered : numberedLine (front.count '\n', lastLine front ++ back.takeWhile (· ≠ '\n')) =
        padded (toString (Location.start.advance front).line) ++ "|" ++
          String.ofList (lastLine front ++ back.takeWhile (· ≠ '\n')) ++ "\n" := by
      unfold numberedLine
      rw [hplain, Location.advance_start_eq, Nat.add_comm 1]
    have hcaret : caretLine (Location.start.advance front) =
        "     |" ++ "".pushn ' ' (lastLine front).length ++ "^\n" := by
      unfold caretLine
      rw [Location.advance_start_eq, Nat.add_sub_cancel_left]
    obtain ⟨earlier, habove⟩ := above_eq hline
    refine ⟨String.join (earlier.map numberedLine),
      String.join ((below (splitLines source) (front.count '\n')).map numberedLine), ?_⟩
    have hjoin : String.join [numberedLine (front.count '\n', lastLine front ++
        back.takeWhile (· ≠ '\n'))] = numberedLine (front.count '\n', lastLine front ++
        back.takeWhile (· ≠ '\n')) := String.empty_append
    dsimp only
    rw [render_eq, String.toList_ofList]
    dsimp only
    rw [hhere, habove, List.map_append, String.join_append, List.map_cons, List.map_nil, hjoin,
      hnumbered, hcaret]

/-- **A carriage return alone**: it ends a line of the source, on which the place
is counted, but not of the text. The caret stands under the wrong line then. -/
theorem render_lone_return :
    let text := "a\rb\x7b"
    let source := normalizeNewlines text.toList
    let loc : Location := ⟨2, 1, 2⟩
    IsPlace source loc ∧
      render (String.ofList source) loc "m" = "1    |a\n2    |b\x7b\n     |^\nm\n" ∧
      render text loc "m" = "1    |a\rb\x7b\n     |^\nm\n" :=
  ⟨⟨['a', '\n'], ['b', '\x7b'], by decide, by decide⟩, by decide, by decide⟩

end Snippet

end Stylesheet
