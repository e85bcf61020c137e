import Stylesheet.Proofs.Window

/-!
# What is passed over before a token

Before a token is cut, the blanks and comments that its mode does not ask
for are passed over, one after the other. Whatever is said of the next token
is therefore proved along them: either the text starts with something that
is passed over, and the token is the one after it, or the token is the
first of the text (`Reader.lex_cases`).

A mode that asks for less hands out the same token as long as it asks for
that one (`Reader.lex_eq_lex`).
-/

namespace Stylesheet

namespace Lexeme

theorem commentTail_le (cs : List Char) : commentTail cs ≤ cs.length := by
  induction cs with
  | nil => exact Nat.le_refl 0
  | cons c cs ih =>
    unfold commentTail
    split_ifs with hend
    · obtain ⟨-, hslash⟩ := Bool.and_eq_true_iff.mp hend
      cases cs with
      | nil => cases hslash
      | cons d cs => simp
    · exact Nat.succ_le_succ ih

/-- Blanks and comments lie within the text. -/
theorem trivia?_size_le {cs : List Char} {lx : Lexeme} (h : trivia? cs = some lx) :
    lx.size ≤ cs.length := by
  cases cs with
  | nil => cases h
  | cons c rest =>
    unfold trivia? at h
    dsimp only at h
    split_ifs at h with _ hopen
    · obtain rfl := Option.some.inj h
      exact (List.takeWhile_sublist _).length_le
    · have hsize : 2 + commentTail (List.drop 2 (c :: rest)) ≤ (c :: rest).length := by
        obtain ⟨-, hstar⟩ := Bool.and_eq_true_iff.mp hopen
        cases rest with
        | nil => cases hstar
        | cons d rest =>
          have := commentTail_le rest
          show 2 + commentTail rest ≤ rest.length + 1 + 1
          omega
      split at h <;>
      · obtain rfl := Option.some.inj h
        exact hsize

end Lexeme

namespace Mode

variable {mode : Mode} {cs : List Char} {lx : Lexeme}

/-- What has been passed over is not looked at again. -/
theorem skipped_append (mode : Mode) (before cs : List Char) :
    mode.skipped before.length (before ++ cs) = before.length + mode.skipped 0 cs := by
  induction before with
  | nil => simp
  | cons c before ih =>
    rw [List.length_cons, List.cons_append, skipped, ih]
    omega

/-- **What is passed over first**, and the rest of it. -/
theorem skipped_of_trivia (h : Lexeme.trivia? cs = some lx) (hkeeps : mode.keeps lx = none) :
    mode.skipped 0 cs = lx.size + mode.skipped 0 (cs.drop lx.size) := by
  have hpos := Lexeme.trivia?_size_pos h
  have hle := Lexeme.trivia?_size_le h
  cases cs with
  | nil => cases h
  | cons c rest =>
    have hlength : (rest.take (lx.size - 1)).length = lx.size - 1 := by
      rw [List.length_take]
      exact Nat.min_eq_left (Nat.sub_le_iff_le_add.mpr hle)
    have hrest := skipped_append mode (rest.take (lx.size - 1)) (rest.drop (lx.size - 1))
    rw [List.take_append_drop, hlength] at hrest
    obtain ⟨n, hn⟩ : ∃ n, lx.size = n + 1 := ⟨lx.size - 1, by omega⟩
    rw [skipped, h]
    dsimp only
    rw [hkeeps, if_pos Option.isNone_none, hrest, hn, List.drop_succ_cons, Nat.add_sub_cancel]
    omega

/-- Nothing is passed over before what is asked for. -/
theorem skipped_of_keeps (h : ∀ lx, Lexeme.trivia? cs = some lx → mode.keeps lx ≠ none) :
    mode.skipped 0 cs = 0 := by
  cases cs with
  | nil => rfl
  | cons c rest =>
    unfold skipped
    cases htrivia : Lexeme.trivia? (c :: rest) with
    | none => rfl
    | some lx =>
      dsimp only
      rw [if_neg]
      rw [Option.isNone_iff_eq_none]
      exact h lx htrivia

/-- **A blank or comment is passed over if it is hidden**, unless comments
are asked for. -/
theorem keeps_eq_none_iff (hcomments : mode.comments = false) (h : Lexeme.trivia? cs = some lx)
    (loc : Location) : mode.keeps lx = none ↔ mode.hides (lx.place loc cs) = true := by
  unfold keeps hides Lexeme.place
  rw [hcomments]
  rcases (Lexeme.trivia?_kind h).1 with hkind | hkind | hkind <;> rw [hkind] <;> simp

end Mode

namespace Reader

variable {mode mode' : Mode}

theorem advance_zero (r : Reader) : r.advance 0 = r := rfl

theorem advance_advance (r : Reader) (m n : Nat) :
    (r.advance m).advance n = r.advance (m + n) := by
  obtain ⟨source, location, rest, bookmark, hrest⟩ := r
  have hlocation : (location.advance (rest.take m)).advance ((rest.drop m).take n) =
      location.advance (rest.take (m + n)) := by
    rw [← Location.advance_append, List.take_add]
  have hdrop : (rest.drop m).drop n = rest.drop (m + n) := List.drop_drop
  unfold advance
  simp only [hlocation, hdrop]

/-- **The next token is the first of the text**, or the text starts with
something that is passed over, and it is the one after that. -/
theorem lex_cases (r : Reader) (mode : Mode) :
    (∃ lx, Lexeme.trivia? r.rest = some lx ∧ mode.keeps lx = none ∧ 0 < lx.size ∧
      lx.size ≤ r.rest.length ∧ r.lex mode = (r.advance lx.size).lex mode) ∨
    ((∀ lx, Lexeme.trivia? r.rest = some lx → mode.keeps lx ≠ none) ∧
      r.lex mode = ((mode.firstOf r.rest).place r.location r.rest,
        r.advance (mode.firstOf r.rest).size)) := by
  by_cases h : ∃ lx, Lexeme.trivia? r.rest = some lx ∧ mode.keeps lx = none
  · obtain ⟨lx, htrivia, hkeeps⟩ := h
    refine Or.inl ⟨lx, htrivia, hkeeps, Lexeme.trivia?_size_pos htrivia,
      Lexeme.trivia?_size_le htrivia, ?_⟩
    unfold lex
    have hadvance : r.advance (mode.skipped 0 r.rest) =
        (r.advance lx.size).advance (mode.skipped 0 (r.advance lx.size).rest) := by
      rw [Mode.skipped_of_trivia htrivia hkeeps, advance_advance]
      rfl
    rw [hadvance]
  · have hnone : ∀ lx, Lexeme.trivia? r.rest = some lx → mode.keeps lx ≠ none :=
      fun lx htrivia hkeeps => h ⟨lx, htrivia, hkeeps⟩
    refine Or.inr ⟨hnone, ?_⟩
    unfold lex
    rw [Mode.skipped_of_keeps hnone, advance_zero]

/-- **Along what is passed over**: what is so of the first token of a text,
and of a text if it is so of the text after something that is passed over,
is so of the next token. -/
theorem lex_induction (mode : Mode) {P : Reader → Prop}
    (hpass : ∀ r lx, Lexeme.trivia? r.rest = some lx → mode.keeps lx = none →
      r.lex mode = (r.advance lx.size).lex mode → P (r.advance lx.size) → P r)
    (hfirst : ∀ r, (∀ lx, Lexeme.trivia? r.rest = some lx → mode.keeps lx ≠ none) →
      r.lex mode = ((mode.firstOf r.rest).place r.location r.rest,
        r.advance (mode.firstOf r.rest).size) → P r) (r : Reader) : P r := by
  generalize hn : r.rest.length = n
  induction n using Nat.strongRecOn generalizing r with
  | ind n ih =>
    rcases r.lex_cases mode with ⟨lx, htrivia, hkeeps, hpos, hle, hlex⟩ | ⟨hnone, hlex⟩
    · refine hpass r lx htrivia hkeeps hlex (ih (r.rest.length - lx.size) (by omega) _ ?_)
      exact List.length_drop
    · exact hfirst r hnone hlex

/-- **A mode hides nothing of what it hands out**, but for a newline that is
escaped, which counts as a blank. -/
theorem hides_lex_cases (r : Reader) (hcomments : mode.comments = false) :
    mode.hides (r.lex mode).1 = false ∨
      (r.lex mode).1.kind = .whitespace ∧ ∃ n, ['\\', '\n'] <+: r.rest.drop n ∧
        (r.lex mode).1.location = r.location.advance (r.rest.take n) := by
  refine lex_induction mode (P := fun r => mode.hides (r.lex mode).1 = false ∨
    (r.lex mode).1.kind = .whitespace ∧ ∃ n, ['\\', '\n'] <+: r.rest.drop n ∧
      (r.lex mode).1.location = r.location.advance (r.rest.take n))
    (fun r lx _ _ hlex ih => ?_) (fun r hkept hlex => ?_) r
  · rw [hlex]
    refine ih.imp id fun ⟨hkind, n, hescaped, hlocation⟩ => ⟨hkind, lx.size + n, ?_, ?_⟩
    · rw [← List.drop_drop]
      exact hescaped
    · rw [hlocation, List.take_add, Location.advance_append]
      rfl
  · rw [hlex]
    dsimp only
    rw [Mode.firstOf_eq_first hcomments]
    rcases Lexeme.first_cases r.rest with hnil | ⟨lx, htrivia, hfirst⟩ | ⟨rest, hrest, -, hfirst⟩ |
      ⟨-, -, hcontent⟩
    · left
      rw [hnil]
      simp [Mode.hides, Lexeme.place, Lexeme.first, Lexeme.trivia?, Lexeme.significant]
    · left
      rw [hfirst]
      exact Bool.eq_false_iff.mpr fun hhides =>
        hkept lx htrivia ((Mode.keeps_eq_none_iff hcomments htrivia _).mpr hhides)
    · refine Or.inr ⟨?_, 0, ?_, rfl⟩
      · rw [hfirst]
        rfl
      · rw [hrest]
        exact ⟨rest, rfl⟩
    · left
      unfold Mode.hides Lexeme.place
      simp [hcontent.comment, hcontent.uvar, hcontent.whitespace]

/-- **A mode that asks for blanks hides nothing** of what it hands out. -/
theorem hides_lex (r : Reader) (hblanks : mode.blanks = true) (hcomments : mode.comments = false) :
    mode.hides (r.lex mode).1 = false := by
  rcases r.hides_lex_cases hcomments with hshown | ⟨hkind, -⟩
  · exact hshown
  · unfold Mode.hides
    rw [hkind, hblanks]
    simp

/-- **A comment is never handed out** where comments are not asked for. -/
theorem lex_kind_ne_comment (r : Reader) (hcomments : mode.comments = false) :
    (r.lex mode).1.kind ≠ .comment := by
  intro hkind
  rcases r.hides_lex_cases hcomments with hshown | ⟨hblank, -⟩
  · unfold Mode.hides at hshown
    rw [hkind] at hshown
    cases hshown
  · rw [hkind] at hblank
    cases hblank

/-- **A mode that asks for less** hands out the same token if it asks for
that one. -/
theorem lex_eq_lex (r : Reader) (hcomments : mode.comments = false)
    (hcomments' : mode'.comments = false) (hless : ∀ t, mode'.hides t = true → mode.hides t = true)
    (hshown : mode.hides (r.lex mode').1 = false) : r.lex mode = r.lex mode' := by
  revert hshown
  refine lex_induction mode'
    (P := fun r => mode.hides (r.lex mode').1 = false → r.lex mode = r.lex mode')
    (fun r lx htrivia hkeeps hlex ih hshown => ?_) (fun r hkept hlex hshown => ?_) r
  · -- what the one passes over is passed over by the other
    have hkeeps' : mode.keeps lx = none :=
      (Mode.keeps_eq_none_iff hcomments htrivia r.location).mpr
        (hless _ ((Mode.keeps_eq_none_iff hcomments' htrivia r.location).mp hkeeps))
    rcases r.lex_cases mode with ⟨lx', htrivia', -, -, -, hlex'⟩ | ⟨hnone, -⟩
    · obtain rfl : lx = lx' := Option.some.inj (htrivia.symm.trans htrivia')
      rw [hlex', hlex]
      exact ih (by rwa [hlex] at hshown)
    · exact absurd hkeeps' (hnone lx htrivia)
  · -- the token is the first of the text, and not passed over by the other
    rw [hlex] at hshown
    dsimp only at hshown
    rw [Mode.firstOf_eq_first hcomments'] at hshown
    rcases r.lex_cases mode with ⟨lx, htrivia, hkeeps, -⟩ | ⟨-, hlex'⟩
    · have hfirst : Lexeme.first r.rest = lx := by
        unfold Lexeme.first
        rw [htrivia]
        rfl
      have hhides := (Mode.keeps_eq_none_iff hcomments htrivia r.location).mp hkeeps
      rw [← hfirst, hshown] at hhides
      cases hhides
    · rw [hlex', hlex, Mode.firstOf_eq_first hcomments, Mode.firstOf_eq_first hcomments']

end Reader

end Stylesheet
