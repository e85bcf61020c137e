import Stylesheet.Proofs.Excerpt.Lexeme
import Stylesheet.Proofs.Passing
import Stylesheet.Proofs.Reuse

/-!
# Reading an excerpt

A reader of a text and one of an excerpt of it stand **beside** each other if
they stand before the same character. They hand out the same tokens, at
places that differ by the distance from where the excerpt starts, until the
excerpt ends (`Reader.Beside.lex`).
-/

/-!
## The tokens of an excerpt

A text **lexes down** to one of its ends if whole tokens lead from its start
to where the end starts (`Lexes`). An excerpt that is cut off there, before
something that ends every token, has the tokens of the text: the first token
of the text is its first one, and so are all that follow
(`Lexeme.first_excerpt`, `Reader.lex_excerpt`).

It is not enough that the first token ends within the excerpt. A star says
whether a name follows it, and so the token after it must end there, too.
-/

namespace Stylesheet

/-- **Whole tokens lead from the start of a text to one of its ends.** -/
inductive Lexes : List Char → List Char → Prop where
  /-- Nothing is read. -/
  | refl (cs : List Char) : Lexes cs cs
  /-- One more token. -/
  | next {cs ds : List Char} (hcs : cs ≠ [])
      (tail : Lexes (cs.drop (Lexeme.first cs).size) ds) : Lexes cs ds

namespace Lexes

variable {cs ds es x a : List Char}

theorem trans (h : Lexes cs ds) (h' : Lexes ds es) : Lexes cs es := by
  induction h with
  | refl => exact h'
  | next hcs _ ih => exact .next hcs (ih h')

/-- What is left is an end of the text. -/
theorem isSuffix (h : Lexes cs ds) : ds <:+ cs := by
  induction h with
  | refl cs => exact List.suffix_refl cs
  | next _ _ ih => exact ih.trans (List.drop_suffix _ _)

theorem length_le (h : Lexes cs ds) : ds.length ≤ cs.length := h.isSuffix.length_le

/-- **The first of the tokens** lies before the end, and the others follow. -/
theorem uncons (h : Lexes (x ++ a) a) (hx : x ≠ []) :
    (a ≠ [] → (Lexeme.first (x ++ a)).size ≤ x.length) ∧
      Lexes (x.drop (Lexeme.first (x ++ a)).size ++ a) a := by
  generalize hcs : x ++ a = cs at h
  cases h with
  | refl => exact absurd (List.append_cancel_right (hcs.trans (List.nil_append a).symm)) hx
  | next hne tail =>
    subst hcs
    have hlength := tail.length_le
    rw [List.length_drop, List.length_append] at hlength
    have hle : a ≠ [] → (Lexeme.first (x ++ a)).size ≤ x.length := by
      intro ha
      have := List.length_pos_iff.mpr ha
      omega
    refine ⟨hle, ?_⟩
    by_cases ha : a = []
    · subst ha
      rw [List.append_nil] at tail ⊢
      rwa [List.append_nil]
    · rwa [List.drop_append_of_le_length (hle ha)] at tail

end Lexes

namespace Lexeme

variable {x a : List Char}

/-! ## Blanks and comments -/

/-- **The rest of a comment within an excerpt.** -/
theorem commentTail_excerpt (h : commentTail (x ++ a) ≤ x.length) :
    commentTail x = commentTail (x ++ a) := by
  induction x with
  | nil =>
    cases a with
    | nil => rfl
    | cons c a =>
      rw [List.nil_append, commentTail] at h
      split_ifs at h <;> cases h
  | cons c x ih =>
    rw [List.cons_append, commentTail] at h
    rw [List.cons_append, commentTail, commentTail]
    cases x with
    | nil =>
      have hslash : ¬(c = '*' && (([] : List Char) ++ a).head? == some '/') = true := by
        intro hend
        rw [if_pos hend] at h
        exact absurd h (by simp)
      rw [if_neg hslash] at h ⊢
      rw [if_neg (by simp), ih (Nat.le_of_succ_le_succ h)]
    | cons d x =>
      rw [List.cons_append, List.head?_cons] at h ⊢
      rw [List.head?_cons]
      split_ifs at h ⊢
      · rfl
      · rw [← List.cons_append, ih (Nat.le_of_succ_le_succ h)]

/-- **A comment within an excerpt.** -/
theorem commentOf_excerpt {c : Char} {x : List Char}
    (h : (commentOf (c :: '*' :: x ++ a)).size ≤ (c :: '*' :: x).length) :
    commentOf (c :: '*' :: x) = commentOf (c :: '*' :: x ++ a) := by
  rw [commentOf_size] at h
  have hle : 2 + commentTail (x ++ a) ≤ x.length + 1 + 1 := h
  have hsize : commentSize (c :: '*' :: x) = commentSize (c :: '*' :: x ++ a) :=
    congrArg (2 + ·) (commentTail_excerpt (x := x) (a := a) (by omega))
  unfold commentOf
  rw [hsize, List.take_append_of_le_length h]

/-- **The blanks or the comment an excerpt starts with.** -/
theorem trivia?_excerpt (ha : Fenced a) (hx : x ≠ [])
    (h : ∀ lx, trivia? (x ++ a) = some lx → lx.size ≤ x.length) : trivia? x = trivia? (x ++ a) := by
  obtain ⟨c, x, rfl⟩ := List.exists_cons_of_ne_nil hx
  rw [List.cons_append, trivia?_cons] at h ⊢
  rw [trivia?_cons, head?_beq_excerpt (m := '*') rfl ha x]
  by_cases hspace : Text.isSpace c = true
  · rw [if_pos hspace] at h ⊢
    have hsize : runSize Text.isSpace (c :: x ++ a) ≤ (c :: x).length := h _ rfl
    rw [if_pos hspace, runSize_excerpt hsize, List.cons_append]
  · rw [if_neg hspace] at h ⊢
    rw [if_neg hspace]
    by_cases hopen : (c = '/' && (x ++ a).head? == some '*') = true
    · rw [if_pos hopen] at h ⊢
      rw [if_pos hopen]
      have hstar := (Bool.and_eq_true_iff.mp hopen).2
      rw [← head?_beq_excerpt rfl ha] at hstar
      obtain ⟨x, rfl⟩ := List.head?_eq_some_iff.mp (eq_of_beq hstar)
      exact congrArg some (commentOf_excerpt (h _ rfl))
    · rw [if_neg hopen, if_neg hopen]

/-! ## The first token -/

/-- A backslash and what follows it, unless that is a newline. -/
theorem first_escape {next : Char} (h : next ≠ '\n') (cs : List Char) :
    first ('\\' :: next :: cs) = identLike ('\\' :: next :: cs) := by
  have hname : nameComesNext ('\\' :: next :: cs) = true := by
    simp [nameComesNext, startsName, startsPlainName, continuesName, h]
  unfold first significant
  dsimp only
  rw [if_neg (by simp [numberComesNext]), if_neg (by decide), if_neg (by simp), if_pos hname]
  rfl

/-- A name starts with an escape, and so has two characters. -/
theorem two_le_first_escape {next : Char} (h : next ≠ '\n') (cs : List Char) :
    2 ≤ (first ('\\' :: next :: cs)).size := by
  rw [first_escape h]
  refine Nat.le_trans ?_ (scanName_size_le_identLike _)
  rw [scanName_escape h]
  have hpass := scanName_pass_le (readEscape (next :: cs)).2 (next :: cs)
  have hpos := readEscape_size_pos next cs
  simp only [Scanned.push, List.length_cons] at hpass ⊢
  omega

/-- A newline that is escaped takes the newline. -/
theorem two_le_first_newline (cs : List Char) : 2 ≤ (first ('\\' :: '\n' :: cs)).size := by
  have hpos := runSize_pos (p := Text.isSpace) (c := '\n') rfl cs
  show 2 ≤ 1 + runSize Text.isSpace ('\n' :: cs)
  omega

/-- **Whole tokens do not part** an escaped newline from its backslash. -/
theorem not_parted (h : Lexes (x ++ a) a) : ¬Parted x a := by
  rintro ⟨rfl, hnewline⟩
  obtain ⟨a, rfl⟩ := List.head?_eq_some_iff.mp hnewline
  have hle := (h.uncons (List.cons_ne_nil _ _)).1 (List.cons_ne_nil _ _)
  have := two_le_first_newline a
  simp only [List.cons_append, List.nil_append, List.length_cons, List.length_nil] at hle
  omega

/-- **Whether a name follows a star**, if whole tokens follow it. -/
theorem startsName_excerpt (ha : Fenced a) (hne : a ≠ []) (h : Lexes (x ++ a) a) :
    startsName x[0]? x[1]? none = startsName (x ++ a)[0]? (x ++ a)[1]? none := by
  unfold startsName
  cases x with
  | nil =>
    rw [List.nil_append]
    have hdash := beq_excerpt (x := []) (m := '-') rfl ha (Nat.le_refl 0)
    rw [List.nil_append] at hdash
    rw [← hdash, startsPlainName_fenced ha]
    rfl
  | cons c x =>
    cases x with
    | cons d x => rfl
    | nil =>
      simp only [List.cons_append, List.nil_append, List.getElem?_cons_zero,
        List.getElem?_cons_succ]
      split_ifs with hc
      · rw [startsPlainName_fenced ha]
        simp [startsPlainName]
      · by_cases hescape : c = '\\'
        · -- the backslash would be the first character of a longer token
          subst hescape
          obtain ⟨next, a, rfl⟩ := List.exists_cons_of_ne_nil hne
          have hle := (h.uncons (List.cons_ne_nil _ _)).1 (List.cons_ne_nil _ _)
          simp only [List.cons_append, List.nil_append, List.length_cons, List.length_nil] at hle
          by_cases hnewline : next = '\n'
          · subst hnewline
            rfl
          · have := two_le_first_escape hnewline a
            omega
        · exact startsPlainName_of_ne hescape _ _

/-- The blanks or the comment an excerpt starts with, if whole tokens
follow. -/
theorem trivia?_of_lexes (ha : Fenced a) (hx : x ≠ []) (h : Lexes (x ++ a) a) :
    trivia? x = trivia? (x ++ a) := by
  by_cases hne : a = []
  · rw [hne, List.append_nil]
  refine trivia?_excerpt ha hx fun lx hlx => ?_
  have hle := (h.uncons hx).1 hne
  unfold first at hle
  rwa [hlx] at hle

/-- **The first token of an excerpt** is that of the text. -/
theorem first_excerpt (ha : Fenced a) (hx : x ≠ []) (h : Lexes (x ++ a) a) :
    first x = first (x ++ a) := by
  by_cases hne : a = []
  · rw [hne, List.append_nil]
  obtain ⟨hsize, htail⟩ := h.uncons hx
  have hle := hsize hne
  unfold first at hle htail ⊢
  rw [trivia?_of_lexes ha hx h]
  cases hfound : trivia? (x ++ a) with
  | some lx => rfl
  | none =>
    rw [hfound, Option.getD_none] at hle htail
    refine significant_excerpt ha hx ⟨hle, not_parted htail⟩ fun _ hone => ?_
    obtain ⟨c, x, rfl⟩ := List.exists_cons_of_ne_nil hx
    rw [hone] at htail
    exact startsName_excerpt ha hne htail

end Lexeme

/-! ## Slices -/

namespace Text

/-- Dropping more than what leads up to a text. -/
theorem dropBytes?_lead (lead cs : List Char) (n : Nat) :
    dropBytes? (lead ++ cs) (byteLength lead + n) = dropBytes? cs n := by
  induction lead with
  | nil => rw [List.nil_append, byteLength_nil, Nat.zero_add]
  | cons c lead ih =>
    obtain ⟨k, hk⟩ : ∃ k, c.utf8Size + byteLength lead + n = k + 1 :=
      ⟨c.utf8Size + byteLength lead + n - 1, by have := c.utf8Size_pos; omega⟩
    rw [List.cons_append, byteLength_cons, hk, dropBytes?, if_pos (by omega), ← ih]
    congr 1
    omega

/-- Dropping no more than a text leaves what comes after it. -/
theorem dropBytes?_within {cs : List Char} {n : Nat} (hn : n ≤ byteLength cs)
    (after : List Char) : dropBytes? (cs ++ after) n = (dropBytes? cs n).map (· ++ after) := by
  induction cs generalizing n with
  | nil =>
    obtain rfl : n = 0 := Nat.le_zero.mp hn
    rw [dropBytes?_zero, dropBytes?_zero]
    rfl
  | cons c cs ih =>
    cases n with
    | zero =>
      rw [dropBytes?_zero, dropBytes?_zero]
      rfl
    | succ n =>
      rw [byteLength_cons] at hn
      rw [List.cons_append, dropBytes?, dropBytes?]
      split_ifs with hsize
      · exact ih (by omega)
      · rfl

/-- Taking no more than a text does not look at what comes after it. -/
theorem takeBytes?_within {cs : List Char} {n : Nat} (hn : n ≤ byteLength cs)
    (after : List Char) : takeBytes? (cs ++ after) n = takeBytes? cs n := by
  induction cs generalizing n with
  | nil =>
    obtain rfl : n = 0 := Nat.le_zero.mp hn
    rw [takeBytes?_zero, takeBytes?_zero]
  | cons c cs ih =>
    cases n with
    | zero => rw [takeBytes?_zero, takeBytes?_zero]
    | succ n =>
      rw [byteLength_cons] at hn
      rw [List.cons_append, takeBytes?, takeBytes?]
      split_ifs with hsize
      · rw [ih (by omega)]
      · rfl

/-- What is left after dropping some bytes has the others. -/
theorem byteLength_of_dropBytes? {cs ds : List Char} {n : Nat} (h : dropBytes? cs n = some ds) :
    n + byteLength ds = byteLength cs := by
  induction cs generalizing n with
  | nil =>
    cases n with
    | zero =>
      obtain rfl := Option.some.inj h
      rfl
    | succ n => cases h
  | cons c cs ih =>
    cases n with
    | zero =>
      obtain rfl := Option.some.inj h
      rw [Nat.zero_add]
    | succ n =>
      rw [dropBytes?] at h
      split_ifs at h with hsize
      have := ih h
      rw [byteLength_cons]
      omega

/-- **A slice of a text that lies in an excerpt** is one of the excerpt. -/
theorem slice_within {lead cs : List Char} (after : List Char) {start stop : Nat}
    (hstart : byteLength lead ≤ start) (hstop : stop ≤ byteLength lead + byteLength cs) :
    slice cs (start - byteLength lead) (stop - byteLength lead) =
      slice (lead ++ (cs ++ after)) start stop := by
  unfold slice
  by_cases hle : start ≤ stop
  · obtain ⟨n, rfl⟩ := Nat.exists_eq_add_of_le hstart
    have hlength : byteLength lead + n + (stop - (byteLength lead + n)) = stop := by omega
    rw [if_pos (by omega), if_pos hle, dropBytes?_lead, dropBytes?_within (by omega),
      Nat.add_sub_cancel_left,
      show stop - byteLength lead - n = stop - (byteLength lead + n) by omega]
    cases hdrop : dropBytes? cs n with
    | none => rfl
    | some ds =>
      have hds := byteLength_of_dropBytes? hdrop
      exact congrArg (Option.getD · []) (takeBytes?_within (by omega) after).symm
  · rw [if_neg hle]
    split_ifs with hle'
    · rw [show start - byteLength lead = 0 by omega, show stop - byteLength lead = 0 by omega,
        dropBytes?_zero]
      show (takeBytes? cs 0).getD [] = []
      rw [takeBytes?_zero]
      rfl
    · rfl

end Text

/-! ## Whole tokens -/

namespace Reader

/-- **Cutting the next token** reads whole tokens. -/
theorem lexes_lex (r : Reader) {mode : Mode} (hcomments : mode.comments = false) :
    Lexes r.rest (r.lex mode).2.rest := by
  refine lex_induction mode (P := fun r => Lexes r.rest (r.lex mode).2.rest)
    (fun r lx htrivia _ hlex ih => ?_) (fun r _ hlex => ?_) r
  · have hfirst : Lexeme.first r.rest = lx := by
      unfold Lexeme.first
      rw [htrivia]
      rfl
    rw [hlex]
    refine .next (fun hnil => ?_) (by rwa [hfirst])
    rw [hnil] at htrivia
    cases htrivia
  · rw [hlex]
    show Lexes r.rest (r.rest.drop (mode.firstOf r.rest).size)
    rw [Mode.firstOf_eq_first hcomments]
    by_cases hnil : r.rest = []
    · rw [hnil]
      exact .refl _
    · exact .next hnil (.refl _)

/-- Something is read if something is left. -/
theorem lex_rest_lt (r : Reader) {mode : Mode} (hcomments : mode.comments = false)
    (hrest : r.rest ≠ []) : (r.lex mode).2.rest.length < r.rest.length := by
  have hpos := List.length_pos_iff.mpr hrest
  rcases r.lex_cases mode with ⟨lx, -, -, hsize, hle, hlex⟩ | ⟨-, hlex⟩
  · have hlexes := ((r.advance lx.size).lexes_lex hcomments).length_le
    rw [show (r.advance lx.size).rest = r.rest.drop lx.size from rfl, List.length_drop] at hlexes
    rw [hlex]
    omega
  · rw [hlex]
    show (r.rest.drop (mode.firstOf r.rest).size).length < _
    have hsize := mode.firstOf_size_pos hrest
    rw [List.length_drop]
    omega

/-- **A reader of a text beside one of an excerpt.** The excerpt stands
between what leads up to it and what comes after it. -/
structure Beside (lead after : List Char) (r q : Reader) : Prop where
  /-- The excerpt stands in the text. -/
  source_eq : r.source = lead ++ (q.source ++ after)
  /-- What is left of the excerpt is left of the text, too. -/
  rest_eq : r.rest = q.rest ++ after
  /-- As much of the excerpt has been read in both. -/
  read : ∃ read, q.source = read ++ q.rest ∧ q.location = Location.start.advance read ∧
    r.location = (Location.start.advance lead).advance read
  /-- Whole tokens lead to the end of the excerpt. -/
  lexes : Lexes (q.rest ++ after) after

/-- **The distance** from where an excerpt starts to the start of a text. -/
def toStart (lead : List Char) : Delta := .between (Location.start.advance lead) .start

namespace Beside

variable {lead after : List Char} {r q : Reader}

/-- The place in the excerpt is that in the text, moved. -/
theorem location_eq (h : Beside lead after r q) : q.location = shift (toStart lead) r.location := by
  obtain ⟨read, -, hq, hr⟩ := h.read
  rw [hq, hr]
  exact (shift_between_advance _ _ _).symm

/-- The place lies in the excerpt. -/
theorem offset_le (h : Beside lead after r q) :
    Text.byteLength lead ≤ r.location.offset ∧
      r.location.offset ≤ Text.byteLength lead + Text.byteLength q.source := by
  obtain ⟨read, hsource, -, hr⟩ := h.read
  rw [hr, Location.offset_advance, Location.offset_advance_start, hsource, Text.byteLength_append]
  omega

/-- **Both read on** by as much, and by whole tokens. -/
theorem advance (h : Beside lead after r q) {n : Nat} (hn : after = [] ∨ n ≤ q.rest.length)
    (hlexes : Lexes (q.rest.drop n ++ after) after) :
    Beside lead after (r.advance n) (q.advance n) := by
  have htake : r.rest.take n = q.rest.take n ∧ r.rest.drop n = q.rest.drop n ++ after := by
    rw [h.rest_eq]
    rcases hn with rfl | hn
    · rw [List.append_nil, List.append_nil]
      exact ⟨rfl, rfl⟩
    · exact ⟨List.take_append_of_le_length hn, List.drop_append_of_le_length hn⟩
  refine ⟨h.source_eq, htake.2, ?_, hlexes⟩
  obtain ⟨read, hsource, hq, hr⟩ := h.read
  refine ⟨read ++ q.rest.take n, ?_, ?_, ?_⟩
  · show q.source = read ++ q.rest.take n ++ q.rest.drop n
    rw [List.append_assoc, List.take_append_drop]
    exact hsource
  · show q.location.advance (q.rest.take n) = _
    rw [Location.advance_append, hq]
  · show r.location.advance (r.rest.take n) = _
    rw [Location.advance_append, hr, htake.1]

end Beside

end Reader

/-- **A token that lies in an excerpt**, between two offsets. -/
structure Token.Within (lo hi : Nat) (t : Token) : Prop where
  /-- It does not start before the excerpt. -/
  lo_le : lo ≤ t.location.offset
  /-- It does not stop after the excerpt. -/
  le_hi : t.stop.offset ≤ hi

namespace Reader

variable {lead after : List Char} {r q : Reader} {mode : Mode}

/-- **A token at the same place** of a text and an excerpt. -/
theorem Beside.place (h : Beside lead after r q) {lx : Lexeme}
    (hlx : after = [] ∨ lx.size ≤ q.rest.length)
    (hlexes : Lexes (q.rest.drop lx.size ++ after) after) :
    lx.place q.location q.rest = shift (toStart lead) (lx.place r.location r.rest) ∧
      (lx.place r.location r.rest).Within (Text.byteLength lead)
        (Text.byteLength lead + Text.byteLength q.source) := by
  have hadvance := h.advance hlx hlexes
  have htake : r.rest.take lx.size = q.rest.take lx.size := by
    rw [h.rest_eq]
    rcases hlx with rfl | hlx
    · rw [List.append_nil]
    · exact List.take_append_of_le_length hlx
  refine ⟨?_, h.offset_le.1, hadvance.offset_le.2⟩
  show (⟨lx.kind, lx.payload, String.ofList (q.rest.take lx.size), q.location,
      (q.advance lx.size).location⟩ : Token) =
    ⟨lx.kind, lx.payload, String.ofList (r.rest.take lx.size), shift (toStart lead) r.location,
      shift (toStart lead) (r.advance lx.size).location⟩
  rw [← h.location_eq, ← hadvance.location_eq, htake]

/-- **The next token of an excerpt** is that of the text, as long as it lies
in the excerpt. -/
theorem Beside.lex (ha : Lexeme.Fenced after) (hcomments : mode.comments = false)
    (h : Beside lead after r q) (hin : after.length ≤ (r.lex mode).2.rest.length) :
    (q.lex mode).1 = shift (toStart lead) (r.lex mode).1 ∧
      (r.lex mode).1.Within (Text.byteLength lead)
        (Text.byteLength lead + Text.byteLength q.source) ∧
      Beside lead after (r.lex mode).2 (q.lex mode).2 := by
  -- if nothing is left of the excerpt, nothing comes after it
  have hleft : ∀ {r q : Reader}, Beside lead after r q →
      after.length ≤ (r.lex mode).2.rest.length → q.rest = [] → after = [] := by
    intro r q h hin hnil
    have hrest : r.rest = after := by rw [h.rest_eq, hnil, List.nil_append]
    refine Classical.byContradiction fun hne => ?_
    have hlt := r.lex_rest_lt hcomments (hrest ▸ hne)
    rw [hrest] at hlt
    omega
  -- otherwise it starts with the first token of the text
  have hfirst : ∀ {r q : Reader}, Beside lead after r q →
      after.length ≤ (r.lex mode).2.rest.length →
      Lexeme.trivia? q.rest = Lexeme.trivia? r.rest ∧ Lexeme.first q.rest = Lexeme.first r.rest ∧
        (after = [] ∨ (Lexeme.first r.rest).size ≤ q.rest.length) ∧
        Lexes (q.rest.drop (Lexeme.first r.rest).size ++ after) after := by
    intro r q h hin
    rw [h.rest_eq]
    by_cases hnil : q.rest = []
    · obtain rfl := hleft h hin hnil
      rw [hnil]
      exact ⟨rfl, rfl, Or.inl rfl, .refl _⟩
    · obtain ⟨hsize, htail⟩ := h.lexes.uncons hnil
      refine ⟨Lexeme.trivia?_of_lexes ha hnil h.lexes, Lexeme.first_excerpt ha hnil h.lexes, ?_,
        htail⟩
      by_cases hafter : after = []
      · exact Or.inl hafter
      · exact Or.inr (hsize hafter)
  revert q h hin
  refine lex_induction mode (P := fun r => ∀ {q : Reader}, Beside lead after r q →
    after.length ≤ (r.lex mode).2.rest.length →
      (q.lex mode).1 = shift (toStart lead) (r.lex mode).1 ∧
        (r.lex mode).1.Within (Text.byteLength lead)
          (Text.byteLength lead + Text.byteLength q.source) ∧
        Beside lead after (r.lex mode).2 (q.lex mode).2)
    (fun r lx htrivia hkeeps hlex ih => ?_) (fun r hkept hlex => ?_) r <;> intro q h hin
  · obtain ⟨hsame, -, hsize, htail⟩ := hfirst h hin
    have hlx : Lexeme.first r.rest = lx := by
      unfold Lexeme.first
      rw [htrivia]
      rfl
    rw [hlx] at hsize htail
    have hlex' : q.lex mode = (q.advance lx.size).lex mode := by
      rcases q.lex_cases mode with ⟨lx', htrivia', -, -, -, hlex'⟩ | ⟨hnone, -⟩
      · obtain rfl := Option.some.inj (htrivia'.symm.trans (hsame.trans htrivia))
        exact hlex'
      · exact absurd hkeeps (hnone lx (hsame.trans htrivia))
    rw [hlex] at hin ⊢
    rw [hlex']
    exact ih (h.advance hsize htail) hin
  · obtain ⟨hsame, hsame', hsize, htail⟩ := hfirst h hin
    have hlex' : q.lex mode = ((mode.firstOf q.rest).place q.location q.rest,
        q.advance (mode.firstOf q.rest).size) := by
      rcases q.lex_cases mode with ⟨lx, htrivia, hkeeps, -⟩ | ⟨-, hlex'⟩
      · exact absurd hkeeps (hkept lx (hsame.symm.trans htrivia))
      · exact hlex'
    rw [hlex, hlex', Mode.firstOf_eq_first hcomments, Mode.firstOf_eq_first hcomments, hsame']
    obtain ⟨hplace, hwithin⟩ := h.place hsize htail
    exact ⟨hplace, hwithin, h.advance hsize htail⟩

/-- Where nothing is left the source ends. -/
theorem lex_of_nil (h : r.rest = []) : (r.lex mode).1.kind = .eof := by
  rcases r.lex_cases mode with ⟨lx, htrivia, -⟩ | ⟨-, hlex⟩
  · rw [h] at htrivia
    cases htrivia
  · rw [hlex, h]
    rfl

/-- **Where the text goes on beyond an excerpt**, the excerpt ends. -/
theorem Beside.lex_beyond (ha : Lexeme.Fenced after) (hcomments : mode.comments = false)
    (h : Beside lead after r q) (hout : (r.lex mode).2.rest.length < after.length) :
    (q.lex mode).1.kind = .eof := by
  have hne : after ≠ [] := List.length_pos_iff.mp (Nat.zero_lt_of_lt hout)
  revert q h hout
  refine lex_induction mode (P := fun r => ∀ {q : Reader}, Beside lead after r q →
    (r.lex mode).2.rest.length < after.length → (q.lex mode).1.kind = .eof)
    (fun r lx htrivia hkeeps hlex ih => ?_) (fun r _ hlex => ?_) r <;> intro q h hout <;>
    by_cases hnil : q.rest = []
  · exact lex_of_nil hnil
  · -- what is passed over in the text is passed over in the excerpt
    obtain ⟨hsize, htail⟩ := h.lexes.uncons hnil
    have hsame := Lexeme.trivia?_of_lexes ha hnil h.lexes
    rw [h.rest_eq] at htrivia
    have hlx : Lexeme.first (q.rest ++ after) = lx := by
      unfold Lexeme.first
      rw [htrivia]
      rfl
    rw [hlx] at hsize htail
    rw [hlex] at hout
    rcases q.lex_cases mode with ⟨lx', htrivia', -, -, -, hlex'⟩ | ⟨hnone, -⟩
    · obtain rfl := Option.some.inj (htrivia'.symm.trans (hsame.trans htrivia))
      rw [hlex']
      exact ih (h.advance (Or.inr (hsize hne)) htail) hout
    · exact absurd hkeeps (hnone lx (hsame.trans htrivia))
  · exact lex_of_nil hnil
  · -- the token would have ended within the excerpt
    have hle := (h.lexes.uncons hnil).1 hne
    rw [hlex] at hout
    replace hout : (r.rest.drop (mode.firstOf r.rest).size).length < after.length := hout
    rw [Mode.firstOf_eq_first hcomments, h.rest_eq, List.length_drop, List.length_append] at hout
    omega

end Reader

end Stylesheet
