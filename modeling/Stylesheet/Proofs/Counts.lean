import Stylesheet.Proofs.BalancedText
import Stylesheet.Proofs.CaseFolding.Text
import Stylesheet.Proofs.Requests

/-!
# Counts are read exactly

A count is read from the characters, behind any blanks and comments. This
module says how one is written (`Nth.Written`): as one of the two words, as a
number, or as a step with an offset or without one. Blanks are allowed on both
sides of the offset's sign and nowhere else, and a step with a sign after it is
no count unless digits follow. What is read is a count exactly if it is written
like one and a blank, a comment or a closing bracket follows
(`Stream.readNth_exact`); otherwise nothing of it is read.
-/

namespace Stylesheet

/-! ## Blanks and comments -/

/-- **Blanks and comments up to a text** that starts with neither. A comment that
is not closed goes to the end. -/
inductive Skips : List Char → List Char → Prop where
  /-- Nothing is skipped. -/
  | nothing {cs : List Char} (hspace : ∀ c, cs.head? = some c → Text.isSpace c = false)
      (hcomment : ¬['/', '*'] <+: cs) : Skips [] cs
  /-- A blank. -/
  | space {c : Char} {gap cs : List Char} (hc : Text.isSpace c = true) (rest : Skips gap cs) :
      Skips (c :: gap) cs
  /-- A closed comment. -/
  | comment {inside gap cs : List Char} (hinside : Remark inside) (rest : Skips gap cs) :
      Skips ('/' :: '*' :: (inside ++ '*' :: '/' :: gap)) cs
  /-- A comment that is not closed. -/
  | unclosed {inside : List Char} (hinside : Remark inside) : Skips ('/' :: '*' :: inside) []

variable {cs rest inside : List Char} {c : Char}

/-- A run of blanks. -/
theorem Skips.spaces {gap spaces : List Char} (hspaces : ∀ c ∈ spaces, Text.isSpace c = true)
    (h : Skips gap cs) : Skips (spaces ++ gap) cs := by
  induction spaces with
  | nil => exact h
  | cons c spaces ih =>
    obtain ⟨hc, hspaces⟩ := List.forall_mem_cons.mp hspaces
    exact .space hc (ih hspaces)

/-- **Either a comment goes on to the end**, or it is closed. -/
theorem remark_cases (cs : List Char) :
    Remark cs ∨ ∃ inside rest, cs = inside ++ '*' :: '/' :: rest ∧ Remark inside := by
  induction cs with
  | nil => exact Or.inl .nil
  | cons c cs ih =>
    by_cases hend : c = '*' ∧ cs.head? = some '/'
    · obtain ⟨rfl, hslash⟩ := hend
      obtain ⟨rest, rfl⟩ := List.head?_eq_some_iff.mp hslash
      exact Or.inr ⟨[], rest, rfl, .nil⟩
    · rcases ih with hopen | ⟨inside, rest, rfl, hinside⟩
      · exact Or.inl (.char (fun hc hslash => hend ⟨hc, hslash⟩) hopen)
      · refine Or.inr ⟨c :: inside, rest, rfl, .char (fun hc hslash => hend ⟨hc, ?_⟩) hinside⟩
        obtain ⟨_, rfl⟩ := List.head?_eq_some_iff.mp hslash
        rfl

/-- A comment that is not closed takes all that is left. -/
theorem commentTail_unclosed (h : Remark inside) : Lexeme.commentTail inside = inside.length := by
  induction h with
  | nil => rfl
  | @char c cs hc _ ih =>
    have hopen : (c = '*' && cs.head? == some '/') = false := by
      by_cases hstar : c = '*'
      · simpa [hstar] using hc hstar
      · simp [hstar]
    rw [Lexeme.commentTail, hopen, if_neg Bool.false_ne_true, ih]
    rfl

/-- A text that starts neither with a blank nor with a comment. -/
theorem skips_nothing (h : Lexeme.trivia? cs = none) : Skips [] cs := by
  cases cs with
  | nil => exact .nothing (fun _ h => by cases h) (by simp)
  | cons c rest =>
    unfold Lexeme.trivia? at h
    dsimp only at h
    split_ifs at h with hspace hopen
    · split at h <;> cases h
    · refine .nothing (fun d hd => ?_) fun ⟨after, hafter⟩ => hopen ?_
      · obtain rfl := Option.some.inj hd
        exact Bool.eq_false_iff.mpr hspace
      · obtain ⟨rfl, rfl⟩ := List.cons.inj hafter
        rfl

/-- **A text that starts with a blank or a comment**: what comes first is skipped
before all that is skipped after it. -/
theorem skips_trivia {lx : Lexeme} (h : Lexeme.trivia? cs = some lx) :
    ∃ before after, cs = before ++ after ∧ before.length = lx.size ∧
      ∀ gap rest, after = gap ++ rest → Skips gap rest → Skips (before ++ gap) rest := by
  cases cs with
  | nil => cases h
  | cons c rest =>
    unfold Lexeme.trivia? at h
    dsimp only at h
    split_ifs at h with hspace hopen
    · obtain rfl := Option.some.inj h
      exact ⟨_, _, (List.takeWhile_append_dropWhile (p := Text.isSpace)).symm, rfl,
        fun gap rest _ hskips => hskips.spaces fun d hd => List.mem_takeWhile_imp hd⟩
    · obtain ⟨hc, hstar⟩ := Bool.and_eq_true_iff.mp hopen
      obtain rfl := of_decide_eq_true hc
      obtain ⟨rest, rfl⟩ := List.head?_eq_some_iff.mp (eq_of_beq hstar)
      have hsize : lx.size = 2 + Lexeme.commentTail rest := by
        split at h <;> exact (congrArg Lexeme.size (Option.some.inj h)).symm
      rcases remark_cases rest with hinside | ⟨inside, after, rfl, hinside⟩
      · refine ⟨_, [], (List.append_nil _).symm, ?_, fun gap rest' hafter _ => ?_⟩
        · rw [hsize, commentTail_unclosed hinside, List.length_cons, List.length_cons]
          omega
        · obtain ⟨rfl, rfl⟩ := List.append_eq_nil_iff.mp hafter.symm
          rw [List.append_nil]
          exact .unclosed hinside
      · refine ⟨'/' :: '*' :: (inside ++ ['*', '/']), after, by simp, ?_, fun gap rest' _ hskips => ?_⟩
        · rw [hsize, commentTail_remark hinside]
          simp only [List.length_cons, List.length_append, List.length_nil]
          omega
        · have hclosed := hskips.comment hinside
          rwa [show '/' :: '*' :: (inside ++ ['*', '/']) ++ gap =
            '/' :: '*' :: (inside ++ '*' :: '/' :: gap) by simp]

/-- **What is passed over before a token that is not hidden** are blanks and
comments. -/
theorem skipped_visible (cs : List Char) :
    ∃ gap rest, cs = gap ++ rest ∧ Skips gap rest ∧ Mode.visible.skipped 0 cs = gap.length := by
  generalize hn : cs.length = n
  induction n using Nat.strongRecOn generalizing cs with
  | ind n ih =>
    cases htrivia : Lexeme.trivia? cs with
    | none =>
      refine ⟨[], cs, rfl, skips_nothing htrivia, Mode.skipped_of_keeps fun lx hlx => ?_⟩
      rw [htrivia] at hlx
      cases hlx
    | some lx =>
      have hkeeps : Mode.visible.keeps lx = none := by
        unfold Mode.keeps
        split <;> rfl
      have hpos := Lexeme.trivia?_size_pos htrivia
      obtain ⟨before, after, rfl, hsize, hskips⟩ := skips_trivia htrivia
      rw [List.length_append] at hn
      obtain ⟨gap, rest, rfl, hrest, hskipped⟩ := ih after.length (by omega) after rfl
      refine ⟨before ++ gap, rest, (List.append_assoc ..).symm, hskips gap rest rfl hrest, ?_⟩
      rw [Mode.skipped_of_trivia htrivia hkeeps, ← hsize, List.drop_left, hskipped,
        List.length_append]

/-! ## How counts are written -/

namespace Nth

/-- An optional sign. -/
def IsSign (sign : List Char) : Prop := sign = [] ∨ sign = ['+'] ∨ sign = ['-']

/-- A run of digits. -/
def IsDigits (digits : List Char) : Prop := ∀ c ∈ digits, c.isDigit = true

/-- A run of blanks. -/
def IsSpaces (spaces : List Char) : Prop := ∀ c ∈ spaces, Text.isSpace c = true

/-- **How a count is written** before a text. -/
inductive Written (rest : List Char) : Nth → List Char → Prop where
  /-- One of the two words, in any letter case. -/
  | word {w : List Char} (hw : w.map Char.toLower ∈ ["even".toList, "odd".toList]) :
      Written rest ⟨String.ofList (w.map Char.toLower), ""⟩ w
  /-- A number with an optional sign. -/
  | number {sign digits : List Char} (hsign : IsSign sign) (hdigits : IsDigits digits)
      (hne : digits ≠ []) (hrest : rest.head? ≠ some 'n' ∧ rest.head? ≠ some 'N') :
      Written rest ⟨"", String.ofList (sign ++ digits)⟩ (sign ++ digits)
  /-- A step, with no sign after it, blanks aside. -/
  | step {sign digits : List Char} {n : Char} (hsign : IsSign sign) (hdigits : IsDigits digits)
      (hn : n = 'n' ∨ n = 'N')
      (hrest : ∀ c, (rest.dropWhile Text.isSpace).head? = some c → c ≠ '+' ∧ c ≠ '-') :
      Written rest ⟨Text.asciiLower (String.ofList (sign ++ digits ++ [n])), ""⟩
        (sign ++ digits ++ [n])
  /-- A step and its offset, which has a sign and digits. -/
  | offset {sign digits lead gap figures : List Char} {n mark : Char} (hsign : IsSign sign)
      (hdigits : IsDigits digits) (hn : n = 'n' ∨ n = 'N') (hlead : IsSpaces lead)
      (hmark : mark = '+' ∨ mark = '-') (hgap : IsSpaces gap) (hfigures : IsDigits figures)
      (hne : figures ≠ []) :
      Written rest
        ⟨Text.asciiLower (String.ofList (sign ++ digits ++ [n])), String.ofList (mark :: figures)⟩
        (sign ++ digits ++ [n] ++ (lead ++ mark :: (gap ++ figures)))

/-- **What must follow a count**: a blank, a closing bracket or a comment. -/
def Bounded (rest : List Char) : Prop :=
  (∃ c, rest.head? = some c ∧ (Text.isSpace c = true ∨ c = ')')) ∨ ['/', '*'] <+: rest

theorem endsBefore_iff : endsBefore rest = true ↔ Bounded rest := by
  unfold endsBefore Bounded
  rw [Bool.or_eq_true, Option.any_eq_true, List.isPrefixOf_iff_prefix]
  simp

/-- What follows a count goes on with none of its parts. -/
theorem Bounded.head (h : Bounded rest) :
    ∃ c, rest.head? = some c ∧ c.isDigit = false ∧ c ≠ 'n' ∧ c ≠ 'N' ∧
      Lexeme.isNameChar c.toLower = false := by
  rcases h with ⟨c, hc, hspace⟩ | ⟨after, rfl⟩
  · refine ⟨c, hc, ?_⟩
    simp only [Text.isSpace, Bool.or_eq_true, beq_iff_eq] at hspace
    rcases hspace with ((rfl | rfl) | rfl) | rfl <;> decide
  · exact ⟨'/', rfl, by decide⟩

/-! ## Reading what is written -/

/-- A run that the next character does not go on with. -/
theorem takeWhile_run {p : Char → Bool} {run : List Char} (hrun : ∀ c ∈ run, p c = true)
    (hrest : ∀ c, rest.head? = some c → p c = false) :
    (run ++ rest).takeWhile p = run ∧ (run ++ rest).dropWhile p = rest := by
  rw [List.takeWhile_append_of_pos hrun, List.dropWhile_append_of_pos hrun]
  cases rest with
  | nil => exact ⟨List.append_nil run, rfl⟩
  | cons c rest =>
    have hc := Bool.eq_false_iff.mp (hrest c rfl)
    rw [List.takeWhile_cons_of_neg hc, List.dropWhile_cons_of_neg hc, List.append_nil]
    exact ⟨rfl, rfl⟩

/-- Every text starts with such a run, if only an empty one. -/
theorem exists_run (p : Char → Bool) (cs : List Char) :
    ∃ run rest, cs = run ++ rest ∧ (∀ c ∈ run, p c = true) ∧
      ∀ c, rest.head? = some c → p c = false := by
  refine ⟨cs.takeWhile p, cs.dropWhile p, List.takeWhile_append_dropWhile.symm,
    fun c hc => List.mem_takeWhile_imp hc, fun c hc => ?_⟩
  have hhead := List.head?_dropWhile_not p cs
  rw [hc] at hhead
  simpa using hhead

/-- A digit is no blank. -/
theorem isSpace_of_isDigit (h : c.isDigit = true) : Text.isSpace c = false := by
  refine Bool.eq_false_iff.mpr fun hspace => ?_
  simp only [Text.isSpace, Bool.or_eq_true, beq_iff_eq] at hspace
  rcases hspace with (rfl | rfl) | rfl <;> cases h

/-- **A sign and digits before a text**: every text starts with these, though both
may be missing. -/
structure Figures (sign digits rest : List Char) : Prop where
  /-- The sign. -/
  isSign : IsSign sign
  /-- The digits. -/
  isDigits : IsDigits digits
  /-- No digit follows. -/
  digits_end : ∀ c, rest.head? = some c → c.isDigit = false
  /-- Without a sign, none follows right away. -/
  sign_end : sign = [] → ∀ c, (digits ++ rest).head? = some c → c ≠ '+' ∧ c ≠ '-'

/-- Every text starts with a sign and digits, if they may be missing. -/
theorem exists_figures (cs : List Char) :
    ∃ sign digits rest, cs = sign ++ (digits ++ rest) ∧ Figures sign digits rest := by
  obtain ⟨sign, after, rfl, hsign, hend⟩ : ∃ sign after, cs = sign ++ after ∧ IsSign sign ∧
      (sign = [] → ∀ c, after.head? = some c → c ≠ '+' ∧ c ≠ '-') := by
    cases cs with
    | nil => exact ⟨[], [], rfl, Or.inl rfl, fun _ _ h => by cases h⟩
    | cons c cs =>
      by_cases hc : c = '+' ∨ c = '-'
      · refine ⟨[c], cs, rfl, Or.inr ?_, fun h => by cases h⟩
        exact hc.imp (congrArg ([·])) (congrArg ([·]))
      · refine ⟨[], c :: cs, rfl, Or.inl rfl, fun _ d hd => ?_⟩
        obtain rfl := Option.some.inj hd
        exact not_or.mp hc
  obtain ⟨digits, rest, rfl, hdigits, hdigits_end⟩ := exists_run Char.isDigit after
  exact ⟨sign, digits, rest, rfl, hsign, hdigits, hdigits_end, hend⟩

variable {sign digits lead gap figures w : List Char} {n mark : Char} {nth : Nth} {size : Nat}

/-- The sign is what is taken for one. -/
theorem Figures.signSize_eq (h : Figures sign digits rest) :
    Lexeme.signSize (sign ++ (digits ++ rest)).head? = sign.length := by
  obtain ⟨hsign, -, -, hend⟩ := h
  rcases hsign with rfl | rfl | rfl
  · rw [List.nil_append]
    cases hhead : (digits ++ rest).head? with
    | none => rfl
    | some c =>
      obtain ⟨hplus, hminus⟩ := hend rfl c hhead
      unfold Lexeme.signSize
      simp [hplus, hminus]
  · rfl
  · rfl

/-- What comes after the sign and the digits. -/
theorem Figures.next_eq (sign digits rest : List Char) :
    (sign ++ (digits ++ rest))[sign.length + digits.length]? = rest.head? := by
  rw [← List.append_assoc, ← List.length_append, List.getElem?_append_right (Nat.le_refl _),
    Nat.sub_self, List.head?_eq_getElem?]

/-- **Without a step** the digits are the count. -/
theorem scan_number (h : Figures sign digits rest)
    (hword : word? (sign ++ (digits ++ rest)) = none)
    (hn : rest.head? ≠ some 'n' ∧ rest.head? ≠ some 'N') :
    scan (sign ++ (digits ++ rest)) = if digits = [] then none
      else some (⟨"", String.ofList (sign ++ digits)⟩, (sign ++ digits).length) := by
  unfold scan
  rw [hword]
  dsimp only
  rw [h.signSize_eq, List.drop_left, (takeWhile_run h.isDigits h.digits_end).1,
    Figures.next_eq, if_neg (by simp [hn]), ← List.append_assoc, ← List.length_append,
    List.take_left]
  simp only [List.length_eq_zero_iff]

section Step

variable {after : List Char} (h : Figures sign digits (n :: (lead ++ after)))
  (hword : word? (sign ++ (digits ++ n :: (lead ++ after))) = none) (hn : n = 'n' ∨ n = 'N')
  (hlead : IsSpaces lead) (hlead_end : ∀ c, after.head? = some c → Text.isSpace c = false)

include h hword hn hlead hlead_end

/-- **After a step and blanks** it depends on what follows whether there is an
offset. -/
theorem scan_after : scan (sign ++ (digits ++ n :: (lead ++ after))) =
    let step := Text.asciiLower (String.ofList (sign ++ digits ++ [n]))
    let size := (sign ++ digits ++ [n]).length
    match after.head? with
    | some mark =>
      if mark == '+' || mark == '-' then
        let gap := Lexeme.runSize Text.isSpace (after.drop 1)
        let figures := ((after.drop 1).drop gap).takeWhile Char.isDigit
        if figures.isEmpty then none
        else some (⟨step, String.ofList (mark :: figures)⟩,
          size + lead.length + 1 + gap + figures.length)
      else some (⟨step, ""⟩, size)
    | none => some (⟨step, ""⟩, size) := by
  have hwhole : sign ++ (digits ++ n :: (lead ++ after)) =
      sign ++ digits ++ [n] ++ (lead ++ after) := by simp
  have hlength : sign.length + digits.length + 1 = (sign ++ digits ++ [n]).length := by
    simp [Nat.add_assoc]
  have hrun : Lexeme.runSize Text.isSpace (lead ++ after) = lead.length :=
    congrArg List.length (takeWhile_run hlead hlead_end).1
  have hnext : (lead ++ after)[lead.length]? = after.head? := by
    rw [List.getElem?_append_right (Nat.le_refl _), Nat.sub_self, List.head?_eq_getElem?]
  have hdrop : (lead ++ after).drop (lead.length + 1) = after.drop 1 := by
    rw [← List.drop_drop, List.drop_left]
  unfold scan
  rw [hword]
  dsimp only
  rw [h.signSize_eq, List.drop_left, (takeWhile_run h.isDigits h.digits_end).1,
    Figures.next_eq, if_pos (by rcases hn with rfl | rfl <;> rfl), hwhole, hlength,
    List.take_left, List.drop_left, hrun, hnext]
  generalize (lead ++ after).drop (lead.length + 1) = rest at hdrop ⊢
  subst hdrop
  rfl

/-- **A step with no sign after it** has no offset. -/
theorem scan_step (hafter : ∀ c, after.head? = some c → c ≠ '+' ∧ c ≠ '-') :
    scan (sign ++ (digits ++ n :: (lead ++ after))) =
      some (⟨Text.asciiLower (String.ofList (sign ++ digits ++ [n])), ""⟩,
        (sign ++ digits ++ [n]).length) := by
  rw [scan_after h hword hn hlead hlead_end]
  cases after with
  | nil => rfl
  | cons c after =>
    obtain ⟨hplus, hminus⟩ := hafter c rfl
    exact if_neg (by simp [hplus, hminus])

/-- **A step with a sign after it** has an offset, and is no count without one. -/
theorem scan_offset (hafter : after = mark :: (gap ++ (figures ++ rest)))
    (hmark : mark = '+' ∨ mark = '-') (hgap : IsSpaces gap)
    (hgap_end : ∀ c, (figures ++ rest).head? = some c → Text.isSpace c = false)
    (hfigures : IsDigits figures) (hend : ∀ c, rest.head? = some c → c.isDigit = false) :
    scan (sign ++ (digits ++ n :: (lead ++ after))) = if figures = [] then none else
      some (⟨Text.asciiLower (String.ofList (sign ++ digits ++ [n])),
          String.ofList (mark :: figures)⟩,
        (sign ++ digits ++ [n] ++ (lead ++ mark :: (gap ++ figures))).length) := by
  have hrun : Lexeme.runSize Text.isSpace (gap ++ (figures ++ rest)) = gap.length :=
    congrArg List.length (takeWhile_run hgap hgap_end).1
  rw [scan_after h hword hn hlead hlead_end]
  obtain rfl := hafter
  show (if (mark == '+' || mark == '-') = true then _ else _) = _
  rw [if_pos (by rcases hmark with rfl | rfl <;> rfl)]
  dsimp only
  rw [List.drop_one, List.tail_cons, hrun, List.drop_left, (takeWhile_run hfigures hend).1]
  simp only [List.isEmpty_iff]
  split_ifs
  · rfl
  · simp only [List.length_append, List.length_cons]
    congr 2
    omega

end Step

/-! ### The two words -/

/-- A text that starts with neither letter starts with neither word. -/
theorem word?_eq_none (h : ∀ c, cs.head? = some c → c.toLower ≠ 'e' ∧ c.toLower ≠ 'o') :
    word? cs = none := by
  cases cs with
  | nil => rfl
  | cons c cs =>
    obtain ⟨he, ho⟩ := h c rfl
    simp [word?, Keywords.evenOdd, he.symm, ho.symm]

/-- **A word that is bounded** is found. -/
theorem word?_eq_some (hw : w.map Char.toLower ∈ ["even".toList, "odd".toList])
    (h : Bounded rest) :
    word? (w ++ rest) = some (⟨String.ofList (w.map Char.toLower), ""⟩, w.length) := by
  obtain ⟨c, hc, -, -, -, hname⟩ := h.head
  have hsize : w.length = (w.map Char.toLower).length := (List.length_map _).symm
  have hfound : ∀ word : String, w.map Char.toLower = word.toList →
      (word.toList.isPrefixOf ((w ++ rest).map Char.toLower) &&
        !((w ++ rest)[word.length]?).any fun c => Lexeme.isNameChar c.toLower) = true := by
    intro word hword
    have hlength : w.length = word.length := by
      rw [hsize, hword, String.length_toList]
    have hnext : (w ++ rest)[word.length]? = some c := by
      rw [List.getElem?_append_right (Nat.le_of_eq hlength), hlength, Nat.sub_self,
        ← List.head?_eq_getElem?, hc]
    rw [hnext, Option.any_some, hname, Bool.not_false, Bool.and_true,
      List.isPrefixOf_iff_prefix, List.map_append, hword]
    exact List.prefix_append _ _
  unfold word? Keywords.evenOdd
  rw [List.findSome?_cons]
  rcases List.mem_cons.mp hw with hw | hw
  · rw [if_pos (hfound "even" hw), hw, hsize, hw]
    rfl
  · have hw := List.mem_singleton.mp hw
    have hother : ("even".toList.isPrefixOf ((w ++ rest).map Char.toLower)) = false := by
      rw [List.map_append, hw]
      rfl
    rw [if_neg (by rw [hother]; simp)]
    dsimp only
    rw [List.findSome?_cons, if_pos (hfound "odd" hw), hw, hsize,
      hw]
    rfl

/-- What is found is a word. -/
theorem written_of_word? (h : word? cs = some (nth, size)) :
    ∃ w rest, cs = w ++ rest ∧ w.length = size ∧ Written rest nth w := by
  obtain ⟨word, hword, hfound⟩ := List.exists_of_findSome?_eq_some h
  split_ifs at hfound with htest
  obtain ⟨rfl, rfl⟩ := Prod.mk.inj (Option.some.inj hfound)
  have hprefix := List.isPrefixOf_iff_prefix.mp (Bool.and_eq_true_iff.mp htest).1
  have hlength : word.length ≤ cs.length := by
    have hle := hprefix.length_le
    rwa [String.length_toList, List.length_map] at hle
  have htake : (cs.take word.length).map Char.toLower = word.toList := by
    rw [List.map_take, ← String.length_toList]
    exact (List.prefix_iff_eq_take.mp hprefix).symm
  refine ⟨cs.take word.length, cs.drop word.length, (List.take_append_drop _ _).symm,
    List.length_take_of_le hlength, ?_⟩
  have hwritten : Written (cs.drop word.length)
      ⟨String.ofList ((cs.take word.length).map Char.toLower), ""⟩ (cs.take word.length) :=
    .word (htake ▸ List.mem_map_of_mem hword)
  rwa [htake, String.ofList_toList] at hwritten

/-! ### Reading and writing -/

/-- **A sign and digits before something of a count** are what the text starts
with, and it starts with neither word. -/
theorem figures_of_starts (hsign : IsSign sign) (hdigits : IsDigits digits)
    (hend : ∀ c, rest.head? = some c → c.isDigit = false)
    (hstart : ∃ c, (digits ++ rest).head? = some c ∧ (c = 'n' ∨ c = 'N' ∨ c.isDigit = true)) :
    Figures sign digits rest ∧ word? (sign ++ (digits ++ rest)) = none := by
  obtain ⟨c, hhead, hc⟩ := hstart
  have hsigns : c ≠ '+' ∧ c ≠ '-' := by
    constructor <;> rintro rfl <;> revert hc <;> decide
  have hletters : c.toLower ≠ 'e' ∧ c.toLower ≠ 'o' := by
    rcases hc with rfl | rfl | hc
    · decide
    · decide
    · rw [Text.toLower_digit hc]
      constructor <;> rintro rfl <;> revert hc <;> decide
  refine ⟨⟨hsign, hdigits, hend, fun _ d hd => ?_⟩, word?_eq_none fun d hd => ?_⟩
  · obtain rfl := Option.some.inj (hhead.symm.trans hd)
    exact hsigns
  · rcases hsign with rfl | rfl | rfl
    · obtain rfl := Option.some.inj (hhead.symm.trans hd)
      exact hletters
    · obtain rfl := Option.some.inj hd
      decide
    · obtain rfl := Option.some.inj hd
      decide

/-- **What is written like a count and bounded** is read as one. -/
theorem Written.scan_eq (hw : Written rest nth w) (h : Bounded rest) :
    scan (w ++ rest) = some (nth, w.length) := by
  obtain ⟨c, hc, hdigit, hc_n, hc_N, -⟩ := h.head
  have hend : ∀ d, rest.head? = some d → d.isDigit = false := fun d hd => by
    obtain rfl := Option.some.inj (hc.symm.trans hd)
    exact hdigit
  -- the mark of a step starts what comes after the digits
  have hstep : ∀ {n : Char} {digits : List Char} (after : List Char), n = 'n' ∨ n = 'N' →
      IsDigits digits →
      (∀ d, (n :: after).head? = some d → d.isDigit = false) ∧
        ∃ d, (digits ++ n :: after).head? = some d ∧ (d = 'n' ∨ d = 'N' ∨ d.isDigit = true) := by
    intro n digits after hn hdigits
    refine ⟨fun d hd => ?_, ?_⟩
    · obtain rfl := Option.some.inj hd
      rcases hn with rfl | rfl <;> decide
    · cases digits with
      | nil => exact ⟨n, rfl, hn.imp_right Or.inl⟩
      | cons d digits => exact ⟨d, rfl, Or.inr (Or.inr (hdigits d List.mem_cons_self))⟩
  cases hw with
  | word hw =>
    unfold scan
    rw [word?_eq_some hw h]
  | @number sign digits hsign hdigits hne hrest =>
    obtain ⟨d, digits', rfl⟩ := List.exists_cons_of_ne_nil hne
    obtain ⟨hfigures, hword⟩ := figures_of_starts hsign hdigits hend
      ⟨d, rfl, Or.inr (Or.inr (hdigits d List.mem_cons_self))⟩
    rw [List.append_assoc, scan_number hfigures hword hrest, if_neg hne]
  | @step sign digits n hsign hdigits hn hrest =>
    obtain ⟨lead, after, rfl, hlead, hlead_end⟩ := exists_run Text.isSpace rest
    rw [(takeWhile_run hlead hlead_end).2] at hrest
    obtain ⟨hmark, hstart⟩ := hstep (lead ++ after) hn hdigits
    obtain ⟨hfigures, hword⟩ := figures_of_starts hsign hdigits hmark hstart
    rw [List.append_assoc, List.append_assoc, List.singleton_append]
    exact scan_step hfigures hword hn hlead hlead_end hrest
  | @offset sign digits lead gap figures n mark hsign hdigits hn hlead hmark hgap hfigures hne =>
    obtain ⟨d, figures', rfl⟩ := List.exists_cons_of_ne_nil hne
    obtain ⟨hmark', hstart⟩ := hstep (lead ++ mark :: (gap ++ (d :: figures' ++ rest)))
      hn hdigits
    obtain ⟨hfigures', hword⟩ := figures_of_starts hsign hdigits hmark' hstart
    have hoffset := scan_offset hfigures' hword hn hlead
      (fun c hc => by obtain rfl := Option.some.inj hc; rcases hmark with rfl | rfl <;> decide)
      rfl hmark hgap
      (fun c hc => by
        obtain rfl := Option.some.inj hc
        exact isSpace_of_isDigit (hfigures d List.mem_cons_self)) hfigures hend
    rw [if_neg hne] at hoffset
    rw [← hoffset]
    congr 1
    simp

/-- **What is read as a count** is written like one. -/
theorem written_of_scan (h : scan cs = some (nth, size)) :
    ∃ w rest, cs = w ++ rest ∧ w.length = size ∧ Written rest nth w := by
  cases hword : word? cs with
  | some found =>
    unfold scan at h
    rw [hword] at h
    obtain rfl := Option.some.inj h
    exact written_of_word? hword
  | none =>
    obtain ⟨sign, digits, rest, rfl, hfigures⟩ := exists_figures cs
    by_cases hnone : rest.head? ≠ some 'n' ∧ rest.head? ≠ some 'N'
    · rw [scan_number hfigures hword hnone] at h
      split_ifs at h with hne
      obtain ⟨rfl, rfl⟩ := Prod.mk.inj (Option.some.inj h)
      exact ⟨sign ++ digits, rest, (List.append_assoc ..).symm, rfl,
        .number hfigures.isSign hfigures.isDigits hne hnone⟩
    · obtain ⟨n, after, rfl, hn⟩ : ∃ n after, rest = n :: after ∧ (n = 'n' ∨ n = 'N') := by
        cases rest with
        | nil => exact absurd ⟨nofun, nofun⟩ hnone
        | cons n after =>
          refine ⟨n, after, rfl, ?_⟩
          by_contra hne
          obtain ⟨hne, hne'⟩ := not_or.mp hne
          exact hnone ⟨fun h => hne (Option.some.inj h), fun h => hne' (Option.some.inj h)⟩
      obtain ⟨lead, after, rfl, hlead, hlead_end⟩ := exists_run Text.isSpace after
      by_cases hbare : ∀ c, after.head? = some c → c ≠ '+' ∧ c ≠ '-'
      · rw [scan_step hfigures hword hn hlead hlead_end hbare] at h
        obtain ⟨rfl, rfl⟩ := Prod.mk.inj (Option.some.inj h)
        refine ⟨_, lead ++ after, by simp, rfl,
          .step hfigures.isSign hfigures.isDigits hn ?_⟩
        rwa [(takeWhile_run hlead hlead_end).2]
      · obtain ⟨mark, after, rfl, hmark⟩ :
            ∃ mark after', after = mark :: after' ∧ (mark = '+' ∨ mark = '-') := by
          cases after with
          | nil => exact absurd nofun hbare
          | cons mark after =>
            refine ⟨mark, after, rfl, ?_⟩
            by_contra hne
            refine hbare fun c hc => ?_
            obtain rfl := Option.some.inj hc
            exact not_or.mp hne
        obtain ⟨gap, after, rfl, hgap, hgap_end⟩ := exists_run Text.isSpace after
        obtain ⟨figures, rest, rfl, hoffset, hend⟩ := exists_run Char.isDigit after
        rw [scan_offset hfigures hword hn hlead hlead_end rfl hmark hgap hgap_end hoffset hend] at h
        split_ifs at h with hne
        obtain ⟨rfl, rfl⟩ := Prod.mk.inj (Option.some.inj h)
        exact ⟨_, rest, by simp, rfl,
          .offset hfigures.isSign hfigures.isDigits hn hlead hmark hgap hoffset hne⟩

end Nth

namespace Stream

variable {s : Stream} {cs : List Char}

/-- **A count that is bounded** is read from the text. -/
theorem readNth_of_scan
    (hrest : s.rewind.reader.rest.drop (Mode.visible.skipped 0 s.rewind.reader.rest) = cs)
    {nth : Nth} {size : Nat} (hscan : Nth.scan cs = some (nth, size))
    (hends : Nth.endsBefore (cs.drop size) = true) :
    s.readNth.1 = some nth ∧ s.readNth.2.reader.rest = cs.drop size := by
  subst hrest
  unfold readNth
  dsimp only [Reader.advance]
  rw [hscan]
  dsimp only
  rw [if_pos hends]
  exact ⟨rfl, rfl⟩

/-- **Without one** nothing of the text is read. -/
theorem readNth_of_no_scan
    (hrest : s.rewind.reader.rest.drop (Mode.visible.skipped 0 s.rewind.reader.rest) = cs)
    (hscan : ∀ nth size, Nth.scan cs = some (nth, size) → Nth.endsBefore (cs.drop size) = false) :
    s.readNth.1 = none ∧ s.readNth.2.reader.rest = cs := by
  subst hrest
  unfold readNth
  dsimp only [Reader.advance]
  cases hfound : Nth.scan (s.rewind.reader.rest.drop
      (Mode.visible.skipped 0 s.rewind.reader.rest)) with
  | none => exact ⟨rfl, rfl⟩
  | some found =>
    dsimp only
    rw [if_neg (Bool.eq_false_iff.mp (hscan found.1 found.2 hfound))]
    exact ⟨rfl, rfl⟩

/-- **Counts are read exactly.** Whatever a stream was asked for before, let `cs` be
the text that is still to be read, without the blanks and comments that it starts
with. A count is read if and only if one is written at the start of `cs` and a
blank, a comment or a closing bracket follows, and the stream then stands right
after it. If none is read, it stands before `cs`. Its place is the one that the
text before it leads to, lines and columns included. -/
theorem readNth_exact {text : String} {known : List Location} (h : Reached text known s) :
    ∃ gap cs, Text.suffixAt s.source s.place.offset = gap ++ cs ∧ Skips gap cs ∧
      (∀ nth rest, s.readNth.1 = some nth ∧ s.readNth.2.reader.rest = rest ↔
        ∃ w, cs = w ++ rest ∧ Nth.Written rest nth w ∧ Nth.Bounded rest) ∧
      (s.readNth.1 = none → s.readNth.2.reader.rest = cs) ∧
      s.readNth.2.source = s.source ∧
      ∃ before, s.source = before ++ s.readNth.2.reader.rest ∧
        s.readNth.2.reader.location = Location.start.advance before := by
  obtain ⟨hsteady, -⟩ := h.isSteady
  obtain ⟨-, hsource, hplace, hreader⟩ := hsteady.isSound.rewind
  have hmoves := hsteady.isSound.readNth
  have hunread : s.rewind.reader.rest = Text.suffixAt s.source s.place.offset := by
    rw [s.rewind.reader.rest_eq, ← hreader, hplace]
    exact congrArg (Text.suffixAt · _) hsource
  obtain ⟨gap, cs, hcs, hskips, hskipped⟩ := skipped_visible s.rewind.reader.rest
  have hrest : s.rewind.reader.rest.drop (Mode.visible.skipped 0 s.rewind.reader.rest) = cs := by
    rw [hskipped, hcs, List.drop_left]
  refine ⟨gap, cs, hunread.symm.trans hcs, hskips, fun nth rest => ⟨fun hread => ?_, ?_⟩,
    fun hnone => ?_, hmoves.source_eq, hmoves.source_eq ▸ hmoves.isSound.isAt⟩
  · by_cases hscan : ∃ nth size, Nth.scan cs = some (nth, size) ∧
        Nth.endsBefore (cs.drop size) = true
    · obtain ⟨nth', size, hscan, hends⟩ := hscan
      obtain ⟨hnth, hafter⟩ := readNth_of_scan hrest hscan hends
      obtain ⟨w, after, rfl, rfl, hwritten⟩ := Nth.written_of_scan hscan
      rw [List.drop_left] at hends hafter
      obtain rfl := Option.some.inj (hread.1.symm.trans hnth)
      obtain rfl := hread.2.symm.trans hafter
      exact ⟨w, rfl, hwritten, Nth.endsBefore_iff.mp hends⟩
    · have hnone := readNth_of_no_scan hrest fun nth size hfound =>
        Bool.eq_false_iff.mpr fun hends => hscan ⟨nth, size, hfound, hends⟩
      cases hread.1.symm.trans hnone.1
  · rintro ⟨w, rfl, hwritten, hbounded⟩
    have hread := readNth_of_scan hrest (hwritten.scan_eq hbounded)
    rw [List.drop_left] at hread
    exact hread (Nth.endsBefore_iff.mpr hbounded)
  · refine (readNth_of_no_scan hrest fun nth size hfound => ?_).2
    refine Bool.eq_false_iff.mpr fun hends => ?_
    cases hnone.symm.trans (readNth_of_scan hrest hfound hends).1

/-- A count in capitals behind a comment, with a blank before its sign. -/
theorem readNth_exact_offset :
    let s := ((ofString "(/**/ 2N +1 of a)").get false false).2
    s.readNth.1 = some ⟨"2n", "+1"⟩ ∧ s.readNth.2.reader.rest = " of a)".toList ∧
      s.readNth.2.reader.location = ⟨1, 12, 11⟩ ∧
      ∃ gap w, Text.suffixAt s.source s.place.offset = gap ++ (w ++ " of a)".toList) ∧
        Nth.Written " of a)".toList ⟨"2n", "+1"⟩ w := by
  intro s
  have hreached : Reached "(/**/ 2N +1 of a)" _ s :=
    Reached.ask (.get false false) (@Reached.start "(/**/ 2N +1 of a)") fun _ h => by cases h
  have hsome : s.readNth.1 = some ⟨"2n", "+1"⟩ := by decide +kernel
  have hrest : s.readNth.2.reader.rest = " of a)".toList := by decide +kernel
  have hlocation : s.readNth.2.reader.location = ⟨1, 12, 11⟩ := by decide +kernel
  clear_value s
  obtain ⟨gap, cs, hunread, -, hread, -⟩ := readNth_exact hreached
  obtain ⟨w, rfl, hwritten, -⟩ := (hread _ _).mp ⟨hsome, hrest⟩
  exact ⟨hsome, hrest, hlocation, gap, w, hunread, hwritten⟩

end Stream

end Stylesheet
