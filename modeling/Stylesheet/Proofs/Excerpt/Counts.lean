import Stylesheet.Proofs.Counts
import Stylesheet.Proofs.Excerpt.Mirrors

/-!
# Reading a count from an excerpt

A count is read from the characters, and the tokens go on after it. All the
same, whole tokens lead over it (`Nth.Written.lexes`), because whatever can
follow it ends every token. So nothing is lost by reading it in another way.

How far a count goes is seen from what follows it. A step may have an offset
behind any number of blanks, and so it is not enough that the excerpt holds the
count: it must hold the closing bracket, too. Then the same count is read from
the excerpt, or none from either (`Reader.Beside.readNth`).
-/

namespace Stylesheet

open Parse (State)
open Parse.State (Onward Beside Level Inside Steady Meets Faces)
open Reader (toStart)
open Lexeme (Fenced)

/-! ## Whole tokens -/

namespace Lexeme

variable {w a : List Char}

/-- **The characters that counts are written with.** -/
def isCountChar (c : Char) : Bool :=
  c.isDigit || Text.isSpace c || c == '+' || c == '-' || ['e', 'v', 'n', 'o', 'd'].contains c.toLower

/-- Another character is not among them. -/
theorem ne_of_isCountChar {c m : Char} (hc : isCountChar c = true) (hm : isCountChar m = false) :
    c ≠ m := by
  rintro rfl
  exact Bool.false_ne_true (hm.symm.trans hc)

/-- A name without escapes ends where a text does that ends every token. -/
theorem scanName_size_le_of_fenced (hw : ∀ c ∈ w, c ≠ '\\') (ha : Fenced a) :
    (scanName 0 (w ++ a)).size ≤ w.length := by
  induction w with
  | nil =>
    cases a with
    | nil => exact Nat.le_refl 0
    | cons c a =>
      have hc := inner_of_all (p := fun c => isNameChar c || c == '\\') (by decide) c (ha c rfl)
      simp only [Bool.or_eq_false_iff, beq_eq_false_iff_ne] at hc
      rw [List.nil_append, scanName_end hc.2 (by rw [hc.1]; exact Bool.false_ne_true)]
      exact Nat.le_refl 0
  | cons c w ih =>
    obtain ⟨hc, hw⟩ := List.forall_mem_cons.mp hw
    rw [List.cons_append]
    by_cases hname : isNameChar c = true
    · rw [scanName_char hname]
      exact Nat.succ_le_succ (ih hw)
    · rw [scanName_end hc hname]
      exact Nat.zero_le _

section Chars

variable (hw : ∀ c ∈ w, isCountChar c = true) (ha : Fenced a)

include hw

theorem ne_backslash_of_count : ∀ c ∈ w, c ≠ '\\' := fun c hc =>
  ne_of_isCountChar (hw c hc) rfl

include ha

/-- What is neither written in a count nor ends every token does not come
next. -/
theorem head?_beq_of_count {m : Char} (hm : isCountChar m = false) (hfence : isFence m = false) :
    ((w ++ a).head? == some m) = false := by
  refine beq_eq_false_iff_ne.mpr fun hhead => ?_
  cases w with
  | nil =>
    exact Bool.false_ne_true (hfence.symm.trans (ha m hhead))
  | cons c w =>
    exact ne_of_isCountChar (hw c List.mem_cons_self) hm (Option.some.inj hhead)

theorem identLike_size_le : (identLike (w ++ a)).size ≤ w.length := by
  have hscan := scanName_size_le_of_fenced (ne_backslash_of_count hw) ha
  have hrest : ∀ {m : Char}, isCountChar m = false → isFence m = false →
      (((w ++ a).drop (scanName 0 (w ++ a)).size).head? == some m) = false := by
    intro m hm hfence
    rw [List.drop_append_of_le_length hscan]
    exact head?_beq_of_count (fun c hc => hw c (List.mem_of_mem_drop hc)) ha hm hfence
  rw [identLike_of_name (hrest (m := '(') rfl rfl)]
  unfold filterOf?
  rw [hrest (m := ':') rfl rfl, Bool.and_false, if_neg Bool.false_ne_true]
  exact hscan

theorem numeric_size_le (hne : w ≠ []) : (numeric (w ++ a)).size ≤ w.length := by
  obtain ⟨hfigures, hle⟩ := figuresOf_excerpt ha hne
  rw [numeric_eq, ← hfigures, List.drop_append_of_le_length hle]
  have hrest : ∀ c ∈ w.drop (figuresOf w).size, isCountChar c = true := fun c hc =>
    hw c (List.mem_of_mem_drop hc)
  have hunit := scanName_size_le_of_fenced (ne_backslash_of_count hrest) ha
  rw [List.length_drop] at hunit
  unfold Figures.withUnit
  rw [head?_beq_of_count hrest ha rfl rfl, if_neg Bool.false_ne_true]
  split_ifs
  · show (figuresOf w).size + _ ≤ _
    omega
  · exact hle

omit hw in
theorem dashed_size_le {w : List Char} (hw : ∀ c ∈ '-' :: w, isCountChar c = true) :
    (dashed ('-' :: w ++ a)).size ≤ ('-' :: w).length := by
  have hident := identLike_size_le hw ha
  unfold dashed
  split_ifs with hdash hname hend hname'
  · exact hident
  · -- the second dash belongs to the count, and no angle comes after it
    have htail := (List.forall_mem_cons.mp hw).2
    rw [List.cons_append, List.getElem?_cons_succ, ← List.head?_eq_getElem?] at hdash
    cases w with
    | nil => exact absurd (ha '-' (eq_of_beq hdash)) (by decide)
    | cons d w =>
      have hangle := head?_beq_of_count (List.forall_mem_cons.mp htail).2 ha (m := '>') rfl rfl
      rw [List.head?_eq_getElem?] at hangle
      exact absurd (hend.symm.trans hangle) (by decide)
  · exact Nat.succ_le_succ (Nat.zero_le _)
  · exact hident
  · exact Nat.succ_le_succ (Nat.zero_le _)

/-- **A token that starts with a character of a count** does not go beyond
it. -/
theorem significant_size_le (hne : w ≠ []) : (significant (w ++ a)).size ≤ w.length := by
  have hident := identLike_size_le hw ha
  have hnumeric := numeric_size_le hw ha hne
  obtain ⟨c, w, rfl⟩ := List.exists_cons_of_ne_nil hne
  have hother : ∀ m : Char, isCountChar m = false → c ≠ m := fun _ =>
    ne_of_isCountChar (hw c List.mem_cons_self)
  unfold significant
  rw [List.cons_append] at hident hnumeric ⊢
  dsimp only
  split_ifs with hnumber hdash hrange hname
  · exact hnumeric
  · subst hdash
    exact dashed_size_le ha hw
  · simp [hother 'U' rfl, hother 'u' rfl] at hrange
  · exact hident
  · unfold punctuation
    simp [hother '<' rfl, hother '>' rfl, hother '$' rfl, hother '*' rfl, hother '^' rfl,
      hother '|' rfl, hother '~' rfl, hother '#' rfl, hother '"' rfl, hother '\'' rfl,
      hother '\\' rfl, hother '@' rfl]

/-- **The first token of a count** does not go beyond it, unless a blank ends
the count. -/
theorem first_size_le (hne : w ≠ []) (hlast : ∀ c ∈ w.getLast?, Text.isSpace c = false) :
    (first (w ++ a)).size ≤ w.length := by
  unfold first
  have hsignificant := significant_size_le hw ha hne
  cases htrivia : trivia? (w ++ a) with
  | none => exact hsignificant
  | some lx =>
    obtain ⟨c, w, rfl⟩ := List.exists_cons_of_ne_nil hne
    have hslash : c ≠ '/' := ne_of_isCountChar (hw c List.mem_cons_self) rfl
    rw [List.cons_append, trivia?_cons] at htrivia
    split_ifs at htrivia with hspace hcomment
    · obtain rfl := Option.some.inj htrivia
      show ((c :: w ++ a).takeWhile Text.isSpace).length ≤ (c :: w).length
      rw [List.takeWhile_append]
      split_ifs with hall
      · -- then a blank would end the count
        obtain ⟨d, hd⟩ : ∃ d, (c :: w).getLast? = some d :=
          Option.isSome_iff_exists.mp (by simp)
        have htake : (c :: w).takeWhile Text.isSpace = c :: w :=
          (List.takeWhile_sublist _).eq_of_length hall
        have hd' : Text.isSpace d = true := by
          have hmem := List.mem_of_getLast? hd
          rw [← htake] at hmem
          exact List.mem_takeWhile_imp hmem
        exact absurd (hd'.symm.trans (hlast d hd)) (by decide)
      · exact (List.takeWhile_sublist _).length_le
    · simp [hslash] at hcomment

/-- **Whole tokens lead over a count.** -/
theorem lexes_of_count (hlast : ∀ c ∈ w.getLast?, Text.isSpace c = false) : Lexes (w ++ a) a := by
  generalize hn : w.length = n
  induction n using Nat.strongRecOn generalizing w with
  | ind n ih =>
    by_cases hne : w = []
    · rw [hne]
      exact .refl a
    have hcs : w ++ a ≠ [] := by simp [hne]
    have hle := first_size_le hw ha hne hlast
    have hpos := first_size_pos hcs
    refine .next hcs ?_
    rw [List.drop_append_of_le_length hle]
    refine ih _ ?_ (fun c hc => hw c (List.mem_of_mem_drop hc)) (fun c hc => hlast c ?_) rfl
    · rw [← hn, List.length_drop]
      omega
    · rw [List.getLast?_drop] at hc
      split_ifs at hc with hall
      · cases hc
      · exact hc

end Chars

end Lexeme

namespace Nth

variable {rest rest' w : List Char} {nth : Nth}

/-- What a count is bounded by ends every token. -/
theorem Bounded.fenced (h : Bounded rest) : Fenced rest := by
  rcases h with ⟨c, hc, hspace⟩ | ⟨after, rfl⟩
  · intro d hd
    obtain rfl := Option.some.inj (hc.symm.trans hd)
    simp only [Text.isSpace, Bool.or_eq_true, beq_iff_eq] at hspace
    rcases hspace with ((rfl | rfl) | rfl) | rfl <;> rfl
  · rintro _ ⟨⟩
    rfl

/-- Counts are written with their characters, and none ends with a blank. -/
theorem Written.isCountChar (h : Written rest nth w) :
    (∀ c ∈ w, Lexeme.isCountChar c = true) ∧ ∀ c ∈ w.getLast?, Text.isSpace c = false := by
  have hdigit : ∀ {c : Char}, c.isDigit = true → Lexeme.isCountChar c = true := fun hc => by
    unfold Lexeme.isCountChar
    rw [hc]
    rfl
  have hspace : ∀ {c : Char}, Text.isSpace c = true → Lexeme.isCountChar c = true := fun hc => by
    unfold Lexeme.isCountChar
    rw [hc, Bool.or_true]
    rfl
  have hsigns : ∀ {sign : List Char}, IsSign sign → ∀ c ∈ sign, Lexeme.isCountChar c = true := by
    rintro _ (rfl | rfl | rfl) c hc
    · cases hc
    · obtain rfl := List.mem_singleton.mp hc
      rfl
    · obtain rfl := List.mem_singleton.mp hc
      rfl
  have hstep : ∀ {n : Char}, n = 'n' ∨ n = 'N' →
      Lexeme.isCountChar n = true ∧ Text.isSpace n = false := by
    rintro _ (rfl | rfl) <;> decide
  have hlastDigit : ∀ {before digits : List Char}, IsDigits digits → digits ≠ [] →
      ∀ c ∈ (before ++ digits).getLast?, Text.isSpace c = false := by
    intro before digits hdigits hne c hc
    rw [List.getLast?_append_of_ne_nil _ hne] at hc
    exact isSpace_of_isDigit (hdigits c (List.mem_of_getLast? hc))
  cases h with
  | word hw =>
    -- a letter is one of the words' when it is small
    have hletter : ∀ c ∈ w, ['e', 'v', 'n', 'o', 'd'].contains c.toLower = true := by
      intro c hc
      have hmem : c.toLower ∈ w.map Char.toLower := List.mem_map_of_mem hc
      have hall : ∀ v ∈ ["even".toList, "odd".toList], ∀ d ∈ v,
          ['e', 'v', 'n', 'o', 'd'].contains d = true := by simp
      exact hall _ hw _ hmem
    have hplain : ∀ c, ['e', 'v', 'n', 'o', 'd'].contains c.toLower = true →
        Text.isSpace c = false := by
      intro c hc
      refine Bool.eq_false_iff.mpr fun hspace => ?_
      simp only [Text.isSpace, Bool.or_eq_true, beq_iff_eq] at hspace
      rcases hspace with (rfl | rfl) | rfl <;> exact absurd hc (by decide)
    refine ⟨fun c hc => ?_, fun c hc => hplain c (hletter c (List.mem_of_getLast? hc))⟩
    unfold Lexeme.isCountChar
    rw [hletter c hc, Bool.or_true]
  | number hsign hdigits hne =>
    refine ⟨fun c hc => ?_, hlastDigit hdigits hne⟩
    exact (List.mem_append.mp hc).elim (hsigns hsign c) fun hc => hdigit (hdigits c hc)
  | step hsign hdigits hn =>
    refine ⟨fun c hc => ?_, fun c hc => ?_⟩
    · simp only [List.mem_append, List.mem_singleton] at hc
      rcases hc with (hc | hc) | rfl
      · exact hsigns hsign c hc
      · exact hdigit (hdigits c hc)
      · exact (hstep hn).1
    · rw [List.getLast?_concat] at hc
      obtain rfl := Option.some.inj hc
      exact (hstep hn).2
  | @offset sign digits lead gap figures n mark hsign hdigits hn hlead hmark hgap hfigures hne =>
    refine ⟨fun c hc => ?_, ?_⟩
    · simp only [List.mem_append, List.mem_cons, List.not_mem_nil, or_false] at hc
      rcases hc with ((hc | hc) | rfl) | hc | rfl | hc | hc
      · exact hsigns hsign c hc
      · exact hdigit (hdigits c hc)
      · exact (hstep hn).1
      · exact hspace (hlead c hc)
      · rcases hmark with rfl | rfl <;> rfl
      · exact hspace (hgap c hc)
      · exact hdigit (hfigures c hc)
    · rw [show sign ++ digits ++ [n] ++ (lead ++ mark :: (gap ++ figures)) =
        (sign ++ digits ++ [n] ++ (lead ++ mark :: gap)) ++ figures by simp]
      exact hlastDigit hfigures hne

/-- **Whole tokens lead over a count.** -/
theorem Written.lexes (h : Written rest nth w) (hrest : Bounded rest) : Lexes (w ++ rest) rest :=
  Lexeme.lexes_of_count h.isCountChar.1 hrest.fenced h.isCountChar.2

/-! ## What follows a count -/

section Closed

variable (hclose : ')' ∈ rest)

include hclose

/-- Up to a closing bracket nothing else matters. -/
theorem head?_of_closed (after : List Char) : (rest ++ after).head? = rest.head? := by
  obtain ⟨c, rest, rfl⟩ := List.exists_cons_of_ne_nil (List.ne_nil_of_mem hclose)
  rfl

theorem bounded_of_closed (after : List Char) : Bounded (rest ++ after) ↔ Bounded rest := by
  unfold Bounded
  rw [head?_of_closed hclose]
  refine or_congr Iff.rfl ⟨fun ⟨more, hmore⟩ => ?_, fun h => h.trans (List.prefix_append _ _)⟩
  match rest, hclose, hmore with
  | [c], hclose, hmore =>
    obtain rfl := List.mem_singleton.mp hclose
    cases hmore
  | c :: d :: rest, _, hmore =>
    obtain ⟨hc, hmore⟩ := List.cons.inj hmore
    obtain ⟨hd, -⟩ := List.cons.inj hmore
    rw [← hc, ← hd]
    exact ⟨rest, rfl⟩

theorem written_of_closed (after : List Char) :
    Written (rest ++ after) nth w ↔ Written rest nth w := by
  have hhead := head?_of_closed hclose after
  have hdrop : ((rest ++ after).dropWhile Text.isSpace).head? =
      (rest.dropWhile Text.isSpace).head? := by
    obtain ⟨spaces, more, rfl, hspaces, hend⟩ := exists_run Text.isSpace rest
    have hmore : ')' ∈ more := (List.mem_append.mp hclose).resolve_left fun h =>
      absurd (hspaces _ h) (by decide)
    have hend' : ∀ c, (more ++ after).head? = some c → Text.isSpace c = false := by
      rw [head?_of_closed hmore]
      exact hend
    rw [List.append_assoc, (takeWhile_run hspaces hend').2, (takeWhile_run hspaces hend).2,
      head?_of_closed hmore]
  constructor
  · rintro (hw | ⟨hsign, hdigits, hne, hrest⟩ | ⟨hsign, hdigits, hn, hrest⟩ |
      ⟨hsign, hdigits, hn, hlead, hmark, hgap, hfigures, hne⟩)
    · exact .word hw
    · exact .number hsign hdigits hne (by rwa [hhead] at hrest)
    · exact .step hsign hdigits hn (by rwa [hdrop] at hrest)
    · exact .offset hsign hdigits hn hlead hmark hgap hfigures hne
  · rintro (hw | ⟨hsign, hdigits, hne, hrest⟩ | ⟨hsign, hdigits, hn, hrest⟩ |
      ⟨hsign, hdigits, hn, hlead, hmark, hgap, hfigures, hne⟩)
    · exact .word hw
    · exact .number hsign hdigits hne (by rwa [hhead])
    · exact .step hsign hdigits hn (by rwa [hdrop])
    · exact .offset hsign hdigits hn hlead hmark hgap hfigures hne

end Closed

end Nth

/-! ## Reading a count -/

/-- **Of two ends that whole tokens lead to**, they lead from the longer one to
the other. -/
theorem Lexes.of_length_le {cs ds es : List Char} (h : Lexes cs ds) (h' : Lexes cs es)
    (hle : es.length ≤ ds.length) : Lexes ds es := by
  induction h with
  | refl => exact h'
  | @next cs ds hcs tail ih =>
    cases h' with
    | refl =>
      have hpos := Lexeme.first_size_pos hcs
      have hlength := List.length_pos_iff.mpr hcs
      have := tail.length_le
      rw [List.length_drop] at this
      omega
    | next _ tail' => exact ih tail' hle

namespace Reader

variable {lead after : List Char} {r q : Reader}

/-- A reader behind what is passed over before the next token. -/
def skip (r : Reader) : Reader := r.advance (Mode.visible.skipped 0 r.rest)

theorem skip_of_pass {lx : Lexeme} (htrivia : Lexeme.trivia? r.rest = some lx)
    (hkeeps : Mode.visible.keeps lx = none) : r.skip = (r.advance lx.size).skip := by
  unfold skip
  rw [Mode.skipped_of_trivia htrivia hkeeps, ← advance_advance]
  rfl

theorem skip_of_keeps
    (h : ∀ lx, Lexeme.trivia? r.rest = some lx → Mode.visible.keeps lx ≠ none) : r.skip = r := by
  unfold skip
  rw [Mode.skipped_of_keeps h, advance_zero]

/-- **Whole tokens are passed over.** -/
theorem lexes_skip (r : Reader) : Lexes r.rest r.skip.rest := by
  refine lex_induction Mode.visible (P := fun r => Lexes r.rest r.skip.rest)
    (fun r lx htrivia hkeeps _ ih => ?_) (fun r hkept _ => ?_) r
  · have hfirst : Lexeme.first r.rest = lx := by
      unfold Lexeme.first
      rw [htrivia]
      rfl
    rw [skip_of_pass htrivia hkeeps]
    refine .next (fun hnil => ?_) (by rwa [hfirst])
    rw [hnil] at htrivia
    cases htrivia
  · rw [skip_of_keeps hkept]
    exact .refl _

/-- **The same is passed over** in an excerpt, as long as it lies there. -/
theorem Beside.skip (ha : Fenced after) (h : Beside lead after r q)
    (hin : after.length ≤ r.skip.rest.length) : Beside lead after r.skip q.skip := by
  revert q h hin
  refine lex_induction Mode.visible (P := fun r => ∀ {q : Reader}, Beside lead after r q →
    after.length ≤ r.skip.rest.length → Beside lead after r.skip q.skip)
    (fun r lx htrivia hkeeps _ ih => ?_) (fun r hkept _ => ?_) r <;> intro q h hin
  · rw [skip_of_pass htrivia hkeeps] at hin ⊢
    have hfirst : Lexeme.first r.rest = lx := by
      unfold Lexeme.first
      rw [htrivia]
      rfl
    have hpos := Lexeme.trivia?_size_pos htrivia
    have hle := Lexeme.trivia?_size_le htrivia
    have hpassed := (r.advance lx.size).lexes_skip.length_le
    rw [show (r.advance lx.size).rest = r.rest.drop lx.size from rfl, List.length_drop] at hpassed
    have hlength := congrArg List.length h.rest_eq
    rw [List.length_append] at hlength
    have hne : q.rest ≠ [] := by
      intro hnil
      rw [hnil, List.length_nil] at hlength
      omega
    have hsame := Lexeme.trivia?_of_lexes ha hne h.lexes
    obtain ⟨hsize, htail⟩ := h.lexes.uncons hne
    rw [← h.rest_eq] at hsame hsize htail
    rw [hfirst] at hsize htail
    rw [skip_of_pass (hsame.trans htrivia) hkeeps]
    refine ih (h.advance ?_ htail) hin
    by_cases hafter : after = []
    · exact Or.inl hafter
    · exact Or.inr (hsize hafter)
  · rw [skip_of_keeps hkept, skip_of_keeps fun lx htrivia => ?_]
    · exact h
    have hne : q.rest ≠ [] := by
      rintro hnil
      rw [hnil] at htrivia
      cases htrivia
    have hsame := Lexeme.trivia?_of_lexes ha hne h.lexes
    rw [← h.rest_eq] at hsame
    exact hkept lx (hsame.symm.trans htrivia)

end Reader

namespace Stream

variable {s : Stream} {w rest : List Char} {nth : Nth}

/-- **A count that comes next** is read. -/
theorem readNth_of_written (hbare : s.ahead = []) (hrest : s.reader.skip.rest = w ++ rest)
    (hw : Nth.Written rest nth w) (hbounded : Nth.Bounded rest) :
    s.readNth = (some nth, ⟨s.reader.skip.advance w.length, [], []⟩) := by
  have hrewind : s.rewind = ⟨s.reader, [], []⟩ := by
    unfold rewind
    rw [hbare]
    rfl
  unfold readNth
  rw [hrewind]
  dsimp only
  rw [show s.reader.advance (Mode.visible.skipped 0 s.reader.rest) = s.reader.skip from rfl, hrest,
    hw.scan_eq hbounded]
  dsimp only
  rw [List.drop_left, if_pos (Nth.endsBefore_iff.mpr hbounded)]

/-- **Where none comes next**, nothing of the text is read. -/
theorem readNth_of_unwritten (hbare : s.ahead = [])
    (h : ∀ nth w rest, s.reader.skip.rest = w ++ rest → Nth.Written rest nth w →
      ¬Nth.Bounded rest) : s.readNth = (none, ⟨s.reader.skip, [], []⟩) := by
  have hrewind : s.rewind = ⟨s.reader, [], []⟩ := by
    unfold rewind
    rw [hbare]
    rfl
  unfold readNth
  rw [hrewind]
  dsimp only
  rw [show s.reader.advance (Mode.visible.skipped 0 s.reader.rest) = s.reader.skip from rfl]
  cases hscan : Nth.scan s.reader.skip.rest with
  | none => rfl
  | some found =>
    obtain ⟨nth, size⟩ := found
    obtain ⟨w, rest, hrest, hsize, hw⟩ := Nth.written_of_scan hscan
    dsimp only
    rw [hrest, ← hsize, List.drop_left, if_neg]
    exact fun hends => h nth w rest hrest hw (Nth.endsBefore_iff.mp hends)

/-- **What is read of a count.** -/
theorem readNth_cases (hbare : s.ahead = []) :
    (∃ nth w rest, s.reader.skip.rest = w ++ rest ∧ Nth.Written rest nth w ∧ Nth.Bounded rest ∧
      s.readNth = (some nth, ⟨s.reader.skip.advance w.length, [], []⟩)) ∨
    ((∀ nth w rest, s.reader.skip.rest = w ++ rest → Nth.Written rest nth w →
      ¬Nth.Bounded rest) ∧ s.readNth = (none, ⟨s.reader.skip, [], []⟩)) := by
  by_cases h : ∃ nth w rest, s.reader.skip.rest = w ++ rest ∧ Nth.Written rest nth w ∧
      Nth.Bounded rest
  · obtain ⟨nth, w, rest, hrest, hw, hbounded⟩ := h
    exact Or.inl ⟨nth, w, rest, hrest, hw, hbounded, readNth_of_written hbare hrest hw hbounded⟩
  · have hnone : ∀ nth w rest, s.reader.skip.rest = w ++ rest → Nth.Written rest nth w →
        ¬Nth.Bounded rest := fun nth w rest hrest hw hbounded =>
      h ⟨nth, w, rest, hrest, hw, hbounded⟩
    exact Or.inr ⟨hnone, readNth_of_unwritten hbare hnone⟩

end Stream

namespace Parse.State

variable {lead x after : List Char} {s u : State}

/-- The state after a count was asked for. -/
def afterNth (s : State) : State := { s with stream := s.stream.readNth.2 }

/-- **Reading a count** reads whole tokens. -/
theorem onward_afterNth (hbare : s.stream.ahead = []) : Onward s s.afterNth := by
  have hskip := s.stream.reader.lexes_skip
  have hpoised : ∀ r : Reader, s.stream.readNth.2 = ⟨r, [], []⟩ → s.afterNth.Poised := by
    intro r hr
    have hstream : s.afterNth.stream = ⟨r, [], []⟩ := hr
    refine ⟨?_, ?_⟩ <;> rw [hstream]
    rfl
  rcases Stream.readNth_cases hbare with ⟨nth, w, rest, hrest, hw, hbounded, hread⟩ | ⟨-, hread⟩
  · refine ⟨hpoised _ (congrArg Prod.snd hread), ?_, rfl, rfl, ?_⟩
    · have hafter : s.afterNth.stream.reader.rest = rest := by
        show s.stream.readNth.2.reader.rest = rest
        rw [hread]
        show s.stream.reader.skip.rest.drop w.length = rest
        rw [hrest, List.drop_left]
      rw [hafter]
      refine hskip.trans ?_
      rw [hrest]
      exact hw.lexes hbounded
    · show s.stream.readNth.2.reader.source = _
      rw [hread]
      rfl
  · refine ⟨hpoised _ (congrArg Prod.snd hread), ?_, rfl, rfl, ?_⟩
    · show Lexes _ s.stream.readNth.2.reader.rest
      rw [hread]
      exact hskip
    · show s.stream.readNth.2.reader.source = _
      rw [hread]
      rfl

/-- Empty windows are level where the readers are beside each other. -/
theorem Beside.of_forget (h : Beside lead after s u) {r q : Reader}
    (hreader : r.Beside lead after q) :
    Level lead after { s with stream := ⟨r, [], []⟩ } { u with stream := ⟨q, [], []⟩ } := by
  refine ⟨⟨hreader, rfl, rfl, h.budget_eq, h.filters, h.filters'⟩, ?_, ⟨hreader.offset_le.1, hreader.offset_le.2⟩⟩
  show Stream.eofAt q.location = shift (toStart lead) (Stream.eofAt r.location)
  rw [hreader.location_eq]
  rfl

/-- **The same count is read from an excerpt** that has the closing bracket. -/
theorem Meets.afterNth (ha : Fenced after) (h : Meets lead x after s u)
    {y z : List Char} (hclose : s.afterNth.stream.reader.rest = y ++ ')' :: z)
    (hz : after.length ≤ z.length) : u.stream.readNth.1 = s.stream.readNth.1 ∧
      Level lead after s.afterNth u.afterNth ∧ u.afterNth.stream.source = x := by
  have honward := onward_afterNth h.steady.bare
  have hinside : s.afterNth.Inside after := by
    unfold Inside
    rw [hclose, List.length_append, List.length_cons]
    omega
  have hin := honward.inside hinside
  have hu := h.beside hin
  -- what follows the count in the text ends with what comes after the excerpt
  have hends : ∀ {more : List Char}, s.afterNth.stream.reader.rest = more ++ after →
      ')' ∈ more := by
    intro more hmore
    have hsplit := hclose.symm.trans hmore
    rcases List.append_eq_append_iff.mp hsplit with ⟨c, rfl, hc⟩ | ⟨c, -, hc⟩
    · cases c with
      | nil =>
        have := congrArg List.length hc
        rw [List.nil_append, List.length_cons] at this
        omega
      | cons d c =>
        obtain ⟨rfl, -⟩ := List.cons.inj hc
        exact List.mem_append_right _ List.mem_cons_self
    · have := congrArg List.length hc
      rw [List.length_append, List.length_cons] at this
      omega
  rcases Stream.readNth_cases h.steady.bare with
    ⟨nth, w, rest, hrest, hw, hbounded, hread⟩ | ⟨hnone, hread⟩
  · -- the count ends within the excerpt
    have hafter : s.afterNth.stream.reader.rest = rest := by
      show s.stream.readNth.2.reader.rest = rest
      rw [hread]
      show s.stream.reader.skip.rest.drop w.length = rest
      rw [hrest, List.drop_left]
    unfold Inside at hinside
    rw [hafter] at hinside
    have hskip := hu.reader.skip ha (by
      rw [hrest, List.length_append]
      omega)
    obtain ⟨more, hmore, rfl⟩ : ∃ more, u.stream.reader.skip.rest = w ++ more ∧
        rest = more ++ after := by
      rcases List.append_eq_append_iff.mp (hrest.symm.trans hskip.rest_eq) with
        ⟨c, hc, hc'⟩ | ⟨c, rfl, rfl⟩
      · exact ⟨c, hc, hc'⟩
      · obtain rfl : c = [] := List.eq_nil_of_length_eq_zero (by
          rw [List.length_append] at hinside
          omega)
        exact ⟨[], (List.append_nil _).symm ▸ (List.append_nil _).symm, rfl⟩
    have hparen := hends hafter
    have hread' := Stream.readNth_of_written hu.bare' hmore
      ((Nth.written_of_closed hparen after).mp hw) ((Nth.bounded_of_closed hparen after).mp hbounded)
    have hadvance : (s.stream.reader.skip.advance w.length).Beside lead after
        (u.stream.reader.skip.advance w.length) := by
      refine hskip.advance (Or.inr ?_) ?_
      · rw [hmore, List.length_append]
        omega
      · have hlexes := hskip.lexes
        rw [hmore, List.append_assoc] at hlexes
        rw [hmore, List.drop_left]
        exact (hw.lexes hbounded).of_length_le hlexes hinside
    have hlevel := hu.of_forget hadvance
    unfold State.afterNth
    rw [hread, hread']
    exact ⟨rfl, hlevel, h.source_eq hin⟩
  · -- a count in the excerpt would be one in the text
    have hafter : s.afterNth.stream.reader.rest = s.stream.reader.skip.rest := by
      show s.stream.readNth.2.reader.rest = _
      rw [hread]
    unfold Inside at hinside
    rw [hafter] at hinside
    have hskip := hu.reader.skip ha hinside
    have hread' := Stream.readNth_of_unwritten hu.bare' fun nth w rest hrest hw hbounded => by
      have hparen : ')' ∈ rest := by
        have hmem := hends (hafter.trans hskip.rest_eq)
        rw [hrest] at hmem
        exact (List.mem_append.mp hmem).resolve_left fun hmem =>
          Lexeme.ne_of_isCountChar (hw.isCountChar.1 _ hmem) rfl rfl
      refine hnone nth w (rest ++ after) ?_ ((Nth.written_of_closed hparen after).mpr hw)
        ((Nth.bounded_of_closed hparen after).mpr hbounded)
      rw [hskip.rest_eq, hrest, List.append_assoc]
    have hlevel := hu.of_forget hskip
    unfold State.afterNth
    rw [hread, hread']
    exact ⟨rfl, hlevel, h.source_eq hin⟩

end Parse.State

end Stylesheet
