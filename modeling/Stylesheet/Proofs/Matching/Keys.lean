import Stylesheet.Proofs.LetterCase
import Stylesheet.Proofs.Matching.Made
import Stylesheet.Proofs.Matching.Reading

/-!
# The texts of terms

The catalog of matchers is asked for grammars and for single terms alike,
so a text must mean the same both ways. This module says what the texts
of terms look like (`IsKey`): they are in small letters, and a text is a
reference, or it is made of pieces with bars in between. In a grammar of
the tables they are plain (`IsPlainKey`): in printable ASCII, without
quotes, and with every angle bracket closed. A key and a grammar are the
same text in few cases only, as most grammars have blanks where no text of
a term has.
-/

namespace Stylesheet.Grammar

open Text

variable {cs : List Char} {ps : List (List Char)} {c : Char} {a b : String}

/-! ## Shapes -/

/-- A character that can stand between angle brackets. -/
def inAngles (c : Char) : Bool := !(c == '>' || c == '\t' || c == '\n' || c == ' ')

/-- **A reference**: something in angle brackets. -/
def IsReference (cs : List Char) : Prop :=
  ∃ inside, inside ≠ [] ∧ (∀ c ∈ inside, inAngles c = true) ∧ cs = '<' :: inside ++ ['>']

/-- **A piece of a set**: a literal without quotes. -/
structure IsPiece (p : List Char) : Prop where
  /-- It is not empty. -/
  ne_nil : p ≠ []
  /-- It does not begin like a reference. -/
  head_ne : p.head? ≠ some '<'
  /-- It has no characters that end literals, and no quotes. -/
  chars : ∀ c ∈ p, Parser.endsLiteral c = false ∧ c ≠ '"' ∧ c ≠ '\''

/-- Pieces with bars in between. -/
def joinBars : List (List Char) → List Char
  | [] => []
  | [p] => p
  | p :: q :: ps => p ++ ' ' :: '|' :: ' ' :: joinBars (q :: ps)

/-- **Pieces with bars in between**, at least one. -/
def IsAlternation (cs : List Char) : Prop :=
  ∃ ps, ps ≠ [] ∧ (∀ p ∈ ps, IsPiece p) ∧ cs = joinBars ps

/-- **The shapes of texts of terms.** -/
inductive KeyShape : List Char → Prop where
  /-- A reference. -/
  | reference {cs : List Char} : IsReference cs → KeyShape cs
  /-- What begins like a reference. -/
  | angle {cs : List Char} : cs.head? = some '<' → (∀ c ∈ cs, Parser.endsLiteral c = false) →
      KeyShape cs
  /-- What has quotes. -/
  | quoted {cs : List Char} : cs.head? ≠ some '<' → ('"' ∈ cs ∨ '\'' ∈ cs) →
      (' ' ∉ cs ∨ '|' ∈ cs ∨ '\'' ∈ cs ∨ cs.count '"' = 2) → KeyShape cs
  /-- Pieces with bars in between. -/
  | alternation {cs : List Char} : IsAlternation cs → KeyShape cs

/-- **The text of a term.** -/
structure IsKey (key : String) : Prop where
  /-- It is in small letters. -/
  small : ∀ c ∈ key.toList, IsSmall c
  /-- It has one of the shapes. -/
  shape : KeyShape key.toList

/-- **A plain character**: printable ASCII, and no quote. -/
def IsPlain (c : Char) : Prop := 0x20 ≤ c.toNat ∧ c.toNat < 0x7F ∧ c ≠ '"' ∧ c ≠ '\''

instance (c : Char) : Decidable (IsPlain c) := inferInstanceAs (Decidable (_ ∧ _))

/-- **The text of a term in a plain grammar.** -/
structure IsPlainKey (key : String) : Prop where
  /-- It is in small letters. -/
  small : ∀ c ∈ key.toList, IsSmall c
  /-- Its characters are plain. -/
  plain : ∀ c ∈ key.toList, IsPlain c
  /-- It is a reference, or it has pieces. -/
  shape : IsReference key.toList ∨ IsAlternation key.toList

/-- **A plain text**, with every angle bracket closed. -/
structure IsPlainText (cs : List Char) : Prop where
  /-- Its characters are plain. -/
  plain : ∀ c ∈ cs, IsPlain c
  /-- Angle brackets are those of references. -/
  closed : ∀ rest, rest <:+ cs → rest.head? = some '<' → Parser.reference rest ≠ none

/-! ## Joining -/

theorem joinBars_cons (p : List Char) (h : ps ≠ []) :
    joinBars (p :: ps) = p ++ ' ' :: '|' :: ' ' :: joinBars ps := by
  obtain ⟨q, qs, rfl⟩ := List.exists_cons_of_ne_nil h
  rfl

theorem joinBars_append {qs : List (List Char)} (hps : ps ≠ []) (hqs : qs ≠ []) :
    joinBars (ps ++ qs) = joinBars ps ++ ' ' :: '|' :: ' ' :: joinBars qs := by
  induction ps with
  | nil => exact absurd rfl hps
  | cons p ps ih =>
    cases ps with
    | nil => exact joinBars_cons p hqs
    | cons q ps =>
      rw [List.cons_append, joinBars_cons p (List.append_ne_nil_of_right_ne_nil _ hqs),
        ih (List.cons_ne_nil q ps), joinBars_cons p (List.cons_ne_nil q ps)]
      simp

theorem IsAlternation.join {ds : List Char} (h : IsAlternation cs) (h' : IsAlternation ds) :
    IsAlternation (cs ++ ' ' :: '|' :: ' ' :: ds) := by
  obtain ⟨ps, hps, hpieces, rfl⟩ := h
  obtain ⟨qs, hqs, hpieces', rfl⟩ := h'
  refine ⟨ps ++ qs, List.append_ne_nil_of_left_ne_nil hps _, fun p hp => ?_,
    (joinBars_append hps hqs).symm⟩
  rcases List.mem_append.mp hp with hp | hp
  · exact hpieces p hp
  · exact hpieces' p hp

theorem joinBars_head_ne (hps : ps ≠ []) (h : ∀ p ∈ ps, IsPiece p) :
    (joinBars ps).head? ≠ some '<' := by
  obtain ⟨p, ps, rfl⟩ := List.exists_cons_of_ne_nil hps
  have hp := h p List.mem_cons_self
  obtain ⟨c, cs, rfl⟩ := List.exists_cons_of_ne_nil hp.ne_nil
  have hhead := hp.head_ne
  cases ps with
  | nil => exact hhead
  | cons q ps => exact hhead

theorem IsAlternation.head_ne (h : IsAlternation cs) : cs.head? ≠ some '<' := by
  obtain ⟨ps, hps, hpieces, rfl⟩ := h
  exact joinBars_head_ne hps hpieces

theorem KeyShape.ne_nil (h : KeyShape cs) : cs ≠ [] := by
  rintro rfl
  cases h with
  | reference h =>
    obtain ⟨inside, -, -, h⟩ := h
    cases h
  | angle h => cases h
  | quoted _ h => simp at h
  | alternation h =>
    obtain ⟨ps, hps, hpieces, h⟩ := h
    obtain ⟨p, ps, rfl⟩ := List.exists_cons_of_ne_nil hps
    have hne := (hpieces p List.mem_cons_self).ne_nil
    cases ps with
    | nil => exact hne h.symm
    | cons q ps => exact hne (List.append_eq_nil_iff.mp h.symm).1

theorem toList_join (a b : String) :
    (a ++ " | " ++ b).toList = a.toList ++ ' ' :: '|' :: ' ' :: b.toList := by
  simp

theorem toList_intercalate_bars (ts : List String) :
    (" | ".intercalate ts).toList = joinBars (ts.map String.toList) := by
  induction ts with
  | nil => rfl
  | cons t ts ih =>
    cases ts with
    | nil => rw [String.intercalate_singleton, List.map_singleton, joinBars]
    | cons u ts =>
      rw [String.intercalate_cons_cons, toList_join, ih]
      rfl

theorem mem_joinBars (h : c ∈ joinBars ps) : c = ' ' ∨ c = '|' ∨ ∃ p ∈ ps, c ∈ p := by
  induction ps with
  | nil => cases h
  | cons p ps ih =>
    cases ps with
    | nil => exact .inr (.inr ⟨p, List.mem_cons_self, h⟩)
    | cons q ps =>
      rw [joinBars_cons p (List.cons_ne_nil q ps)] at h
      simp only [List.mem_append, List.mem_cons] at h
      rcases h with h | h | h | h | h
      · exact .inr (.inr ⟨p, List.mem_cons_self, h⟩)
      · exact .inl h
      · exact .inr (.inl h)
      · exact .inl h
      · rcases ih h with h | h | ⟨p', hp', h⟩
        · exact .inl h
        · exact .inr (.inl h)
        · exact .inr (.inr ⟨p', List.mem_cons_of_mem _ hp', h⟩)

/-- What is true of the blank, the bar and two texts is true of the
texts with a bar in between. -/
theorem forall_mem_join {p : Char → Prop} (hblank : p ' ') (hbar : p '|')
    (ha : ∀ c ∈ a.toList, p c) (hb : ∀ c ∈ b.toList, p c) :
    ∀ c ∈ (a ++ " | " ++ b).toList, p c := by
  intro c hc
  rw [toList_join] at hc
  simp only [List.mem_append, List.mem_cons] at hc
  rcases hc with hc | rfl | rfl | rfl | hc
  · exact ha c hc
  · exact hblank
  · exact hbar
  · exact hblank
  · exact hb c hc

theorem IsReference.head (h : IsReference cs) : cs.head? = some '<' := by
  obtain ⟨inside, -, -, rfl⟩ := h
  rfl

/-- **Two texts of sets make up one.** -/
theorem IsKey.join (ha : IsKey a) (hb : IsKey b) (ha' : a.toList.head? ≠ some '<')
    (hb' : b.toList.head? ≠ some '<') : IsKey (a ++ " | " ++ b) := by
  refine ⟨forall_mem_join (isSmall_of_mark (by decide)) (isSmall_of_mark (by decide)) ha.small
    hb.small, ?_⟩
  have hcases : ∀ {s : String}, IsKey s → s.toList.head? ≠ some '<' →
      ('"' ∈ s.toList ∨ '\'' ∈ s.toList) ∨ IsAlternation s.toList := by
    intro s hs hhead
    cases hs.shape with
    | reference h => exact absurd h.head hhead
    | angle h _ => exact absurd h hhead
    | quoted _ h _ => exact .inl h
    | alternation h => exact .inr h
  have hhead : (a ++ " | " ++ b).toList.head? ≠ some '<' := by
    obtain ⟨c, cs, hcs⟩ := List.exists_cons_of_ne_nil ha.shape.ne_nil
    rw [hcs] at ha'
    rw [toList_join, hcs]
    exact ha'
  have hbar : '|' ∈ (a ++ " | " ++ b).toList := by
    rw [toList_join]
    simp
  rcases hcases ha ha' with hquote | hpieces
  · refine .quoted hhead ?_ (.inr (.inl hbar))
    rw [toList_join]
    simp only [List.mem_append]
    exact hquote.imp .inl .inl
  · rcases hcases hb hb' with hquote | hpieces'
    · refine .quoted hhead ?_ (.inr (.inl hbar))
      rw [toList_join]
      simp only [List.mem_append, List.mem_cons]
      exact hquote.imp (fun h => .inr (.inr (.inr (.inr h)))) fun h => .inr (.inr (.inr (.inr h)))
    · rw [toList_join]
      exact .alternation (hpieces.join hpieces')

theorem IsPlainKey.join (ha : IsPlainKey a) (hb : IsPlainKey b) (ha' : a.toList.head? ≠ some '<')
    (hb' : b.toList.head? ≠ some '<') : IsPlainKey (a ++ " | " ++ b) := by
  refine ⟨forall_mem_join (isSmall_of_mark (by decide)) (isSmall_of_mark (by decide)) ha.small
    hb.small, forall_mem_join (by decide) (by decide) ha.plain hb.plain, .inr ?_⟩
  have hpieces := ha.shape.resolve_left fun h => ha' h.head
  have hpieces' := hb.shape.resolve_left fun h => hb' h.head
  rw [toList_join]
  exact hpieces.join hpieces'

/-! ## Leaves -/

theorem isMark_of_endsLiteral (h : Parser.endsLiteral c = true) : IsMark c := by
  have hall : (" \t\n?*+#\x7b\x7d()[]|&".toList.all fun c => decide (IsMark c)) = true := by decide
  exact of_decide_eq_true (List.all_eq_true.mp hall c (List.contains_iff_mem.mp h))

theorem endsLiteral_lower {s : String} (h : ∀ c ∈ s.toList, Parser.endsLiteral c = false) :
    ∀ c ∈ (lower s).toList, Parser.endsLiteral c = false := by
  intro c hc
  by_contra hends
  have hends : Parser.endsLiteral c = true := by simpa using hends
  have hmem := (mem_lower_mark (isMark_of_endsLiteral hends)).mp hc
  rw [h c hmem] at hends
  cases hends

theorem isPiece_lower (hne : cs ≠ []) (hhead : cs.head? ≠ some '<')
    (hchars : ∀ c ∈ cs, Parser.endsLiteral c = false ∧ c ≠ '"' ∧ c ≠ '\'') :
    IsPiece (lower (String.ofList cs)).toList := by
  have hlist : (String.ofList cs).toList = cs := String.toList_ofList
  refine ⟨lower_ne_empty (by rwa [hlist]), ?_, fun c hc => ⟨?_, ?_, ?_⟩⟩
  · rwa [ne_eq, head?_lower_mark (by decide), hlist]
  · refine endsLiteral_lower (fun d hd => ?_) c hc
    rw [hlist] at hd
    exact (hchars d hd).1
  · rintro rfl
    rw [mem_lower_mark (by decide), hlist] at hc
    exact (hchars _ hc).2.1 rfl
  · rintro rfl
    rw [mem_lower_mark (by decide), hlist] at hc
    exact (hchars _ hc).2.2 rfl

namespace Parser

variable {cs rest inside : List Char} {term : Term} {c quote : Char} {ws : List (List Char)}

/-! ### What the leaves read -/

/-- What a run of characters has taken. -/
theorem run_eq {p : Char → Bool} {taken : List Char} (h : run p cs = some (taken, rest)) :
    taken ≠ [] ∧ (∀ c ∈ taken, p c = true) ∧ cs = taken ++ rest := by
  unfold run at h
  dsimp only at h
  split_ifs at h with hne
  cases h
  refine ⟨by simpa using hne, List.all_eq_true.mp List.all_takeWhile, ?_⟩
  obtain ⟨left, hleft⟩ := List.takeWhile_prefix (l := cs) p
  calc cs = cs.takeWhile p ++ left := hleft.symm
    _ = cs.takeWhile p ++ (cs.takeWhile p ++ left).drop (cs.takeWhile p).length := by
      rw [List.drop_left]
    _ = cs.takeWhile p ++ cs.drop (cs.takeWhile p).length := by rw [hleft]

/-- What a run of characters takes. -/
theorem run_append {p : Char → Bool} {taken : List Char} (hne : taken ≠ [])
    (htaken : ∀ c ∈ taken, p c = true) (hrest : ∀ c, rest.head? = some c → p c = false) :
    run p (taken ++ rest) = some (taken, rest) := by
  have hstop : rest.takeWhile p = [] := by
    cases rest with
    | nil => rfl
    | cons c rest => rw [List.takeWhile_cons, hrest c rfl, if_neg (by decide)]
  have htake : (taken ++ rest).takeWhile p = taken := by
    rw [List.takeWhile_append_of_pos htaken, hstop, List.append_nil]
  unfold run
  dsimp only
  rw [htake, if_neg (by simpa using hne), List.drop_left]

theorem expect_eq (h : expect c cs = some rest) : cs = c :: rest := by
  unfold expect at h
  split_ifs at h with hhead
  cases h
  cases cs with
  | nil => cases hhead
  | cons d cs =>
    obtain rfl : d = c := by simpa using hhead
    rfl

theorem reference_eq (h : reference cs = some (term, rest)) :
    ∃ inside, inside ≠ [] ∧ (∀ c ∈ inside, inAngles c = true) ∧
      cs = '<' :: inside ++ '>' :: rest ∧
      term = .reference (lower (String.ofList ('<' :: inside ++ ['>']))) := by
  obtain ⟨left, hopen, h⟩ := Option.bind_eq_some_iff.mp h
  obtain ⟨⟨inside, left'⟩, hinside, h⟩ := Option.bind_eq_some_iff.mp h
  obtain ⟨after, hclose, h⟩ := Option.bind_eq_some_iff.mp h
  cases h
  obtain ⟨hne, hchars, rfl⟩ := run_eq hinside
  exact ⟨inside, hne, hchars, by rw [expect_eq hopen, expect_eq hclose]; rfl, rfl⟩

theorem reference_append (hne : inside ≠ []) (hchars : ∀ c ∈ inside, inAngles c = true) :
    reference ('<' :: inside ++ '>' :: rest) =
      some (.reference (lower (String.ofList ('<' :: inside ++ ['>']))), rest) := by
  have hrun : run (fun c => !(c == '>' || c == '\t' || c == '\n' || c == ' '))
      (inside ++ '>' :: rest) = some (inside, '>' :: rest) := by
    refine run_append hne hchars ?_
    rintro c ⟨⟩
    rfl
  have hopen : expect '<' ('<' :: inside ++ '>' :: rest) = some (inside ++ '>' :: rest) := rfl
  have hclose : expect '>' ('>' :: rest) = some rest := rfl
  unfold reference
  simp only [hopen, hrun, hclose, Option.bind_eq_bind, Option.bind_some]
  rfl

/-- **The text of a reference** in small letters is a reference. -/
theorem isReference_lower (hne : inside ≠ []) (hchars : ∀ c ∈ inside, inAngles c = true) :
    IsReference (lower (String.ofList ('<' :: inside ++ ['>']))).toList := by
  obtain ⟨small, hsmall, hne', hcount⟩ :=
    toList_lower_between (x := '<') (y := '>') (by decide) (by decide) hne
  refine ⟨small, hne', fun c hc => ?_, hsmall⟩
  by_contra hc'
  have hends : c = '>' ∨ c = '\t' ∨ c = '\n' ∨ c = ' ' := by
    unfold inAngles at hc'
    grind
  have hmark : IsMark c := by rcases hends with rfl | rfl | rfl | rfl <;> decide
  have hmem : c ∈ inside := by
    rw [← List.count_pos_iff, ← hcount c hmark]
    exact List.count_pos_iff.mpr hc
  exact hc' (hchars c hmem)

theorem reference_isKey (h : reference cs = some (term, rest)) : term.Regular IsKey := by
  obtain ⟨inside, hne, hchars, -, rfl⟩ := reference_eq h
  exact .reference ⟨fun _ => isSmall_of_mem_lower, .reference (isReference_lower hne hchars)⟩

/-- A quoted text, with no quote of its kind inside. -/
theorem quotedBy_eq {text : List Char} (h : quotedBy quote cs = some (text, rest)) :
    ∃ inside, quote ∉ inside ∧ text = quote :: inside ++ [quote] := by
  obtain ⟨left, -, h⟩ := Option.bind_eq_some_iff.mp h
  obtain ⟨after, -, h⟩ := Option.bind_eq_some_iff.mp h
  cases h
  refine ⟨left.takeWhile (· != quote), fun hmem => ?_, rfl⟩
  have hne := List.all_eq_true.mp List.all_takeWhile _ hmem
  simp at hne

theorem keyShape_quoted (hquote : quote = '"' ∨ quote = '\'') (hinside : quote ∉ inside) :
    KeyShape (lower (String.ofList (quote :: inside ++ [quote]))).toList := by
  have hlist : (String.ofList (quote :: inside ++ [quote])).toList = quote :: inside ++ [quote] :=
    String.toList_ofList
  have hmark : IsMark quote := by rcases hquote with rfl | rfl <;> decide
  have hmem : quote ∈ (lower (String.ofList (quote :: inside ++ [quote]))).toList := by
    rw [mem_lower_mark hmark, hlist]
    exact List.mem_cons_self
  refine .quoted ?_ ?_ ?_
  · rw [ne_eq, head?_lower_mark (by decide), hlist]
    rcases hquote with rfl | rfl <;> simp
  · rcases hquote with rfl | rfl
    · exact .inl hmem
    · exact .inr hmem
  · rcases hquote with rfl | rfl
    · refine .inr (.inr (.inr ?_))
      rw [count_lower _ hmark, hlist]
      simp [List.count_eq_zero.mpr hinside]
    · exact .inr (.inr (.inl hmem))

/-- **The text of a literal without quotes.** -/
theorem keyShape_run (hne : cs ≠ []) (hchars : ∀ c ∈ cs, (!endsLiteral c) = true) :
    KeyShape (lower (String.ofList cs)).toList := by
  have hlist : (String.ofList cs).toList = cs := String.toList_ofList
  have hends : ∀ c ∈ cs, endsLiteral c = false := fun c hc => by simpa using hchars c hc
  have hsmall : ∀ c ∈ (lower (String.ofList cs)).toList, endsLiteral c = false :=
    endsLiteral_lower (by rwa [hlist])
  by_cases hangle : (lower (String.ofList cs)).toList.head? = some '<'
  · exact .angle hangle hsmall
  by_cases hquote : '"' ∈ (lower (String.ofList cs)).toList ∨
      '\'' ∈ (lower (String.ofList cs)).toList
  · exact .quoted hangle hquote (.inl fun hblank => absurd (hsmall ' ' hblank) (by decide))
  · rw [head?_lower_mark (by decide), hlist] at hangle
    rw [mem_lower_mark (by decide), mem_lower_mark (by decide), hlist] at hquote
    refine .alternation ⟨[_], List.cons_ne_nil _ _, ?_, rfl⟩
    rintro p hp
    obtain rfl := List.mem_singleton.mp hp
    exact isPiece_lower hne hangle fun c hc => ⟨hends c hc,
      fun h => hquote (.inl (h ▸ hc)), fun h => hquote (.inr (h ▸ hc))⟩

theorem literal_isKey (h : literal cs = some (term, rest)) : term.Regular IsKey := by
  obtain ⟨⟨text, left⟩, htext, h⟩ := Option.bind_eq_some_iff.mp h
  cases h
  refine .words ⟨fun _ => isSmall_of_mem_lower, ?_⟩
  rcases Option.or_eq_some_iff.mp htext with hquoted | ⟨-, htext⟩
  · obtain ⟨inside, hinside, rfl⟩ := quotedBy_eq hquoted
    exact keyShape_quoted (.inl rfl) hinside
  rcases Option.or_eq_some_iff.mp htext with hquoted | ⟨-, hrun⟩
  · obtain ⟨inside, hinside, rfl⟩ := quotedBy_eq hquoted
    exact keyShape_quoted (.inr rfl) hinside
  · obtain ⟨hne, hchars, -⟩ := run_eq hrun
    exact keyShape_run hne hchars

theorem longestRun_eq {entries : List (List Char × List Char)}
    (h : longestRun entries = some (ws, rest)) :
    ws ≠ [] ∧ ∀ w ∈ ws, ∃ entry ∈ entries, w = entry.1 := by
  induction entries with
  | nil => cases h
  | cons entry entries ih =>
    unfold longestRun at h
    split_ifs at h
    · cases h
      refine ⟨by simp, fun w hw => ?_⟩
      rcases List.mem_cons.mp (List.mem_reverse.mp hw) with rfl | hw
      · exact ⟨entry, List.mem_cons_self, rfl⟩
      · obtain ⟨entry', hentry', rfl⟩ := List.mem_map.mp hw
        exact ⟨entry', List.mem_cons_of_mem _ hentry', rfl⟩
    · obtain ⟨hne, hws⟩ := ih h
      refine ⟨hne, fun w hw => ?_⟩
      obtain ⟨entry', hentry', rfl⟩ := hws w hw
      exact ⟨entry', List.mem_cons_of_mem _ hentry', rfl⟩

/-- **The words of a run.** -/
theorem wordRun_eq (h : wordRun cs = some (term, rest)) :
    ∃ ws : List (List Char), ws ≠ [] ∧ (∀ w ∈ ws, w ≠ [] ∧ ∀ c ∈ w, isWordChar c = true) ∧
      term = .words (" | ".intercalate (ws.map fun w => lower (String.ofList w))) := by
  obtain ⟨⟨ws, left⟩, hrun, h⟩ := Option.bind_eq_some_iff.mp h
  cases h
  obtain ⟨hne, hws⟩ := longestRun_eq hrun
  refine ⟨ws, hne, fun w hw => ?_, rfl⟩
  obtain ⟨entry, hentry, rfl⟩ := hws w hw
  obtain ⟨left', -, hword⟩ := word_of_mem_wordsFrom (List.mem_reverse.mp hentry)
  obtain ⟨hne, hchars, -⟩ := run_eq hword
  exact ⟨hne, hchars⟩

/-- What ends literals ends words. -/
theorem isWordChar_of_endsLiteral (h : endsLiteral c = true) : isWordChar c = false := by
  have hall : (" \t\n?*+#\x7b\x7d()[]|&".toList.all fun c => !isWordChar c) = true := by decide
  have hword := List.all_eq_true.mp hall c (List.contains_iff_mem.mp h)
  simpa using hword

theorem isAlternation_words (hne : ws ≠ [])
    (hws : ∀ w ∈ ws, w ≠ [] ∧ ∀ c ∈ w, isWordChar c = true) :
    IsAlternation (" | ".intercalate (ws.map fun w => lower (String.ofList w))).toList := by
  refine ⟨ws.map fun w => (lower (String.ofList w)).toList, by simpa using hne, ?_, ?_⟩
  · intro p hp
    obtain ⟨w, hw, rfl⟩ := List.mem_map.mp hp
    obtain ⟨hne, hchars⟩ := hws w hw
    have hword : ∀ c, isWordChar c = true →
        endsLiteral c = false ∧ c ≠ '"' ∧ c ≠ '\'' ∧ c ≠ '<' := by
      intro c hc
      refine ⟨?_, ?_, ?_, ?_⟩
      · by_contra hends
        have hends : endsLiteral c = true := by simpa using hends
        rw [isWordChar_of_endsLiteral hends] at hc
        cases hc
      all_goals
        rintro rfl
        exact absurd hc (by decide)
    refine isPiece_lower hne ?_ fun c hc => ?_
    · intro hhead
      exact (hword _ (hchars _ (List.mem_of_mem_head? hhead))).2.2.2 rfl
    · obtain ⟨h, h', h'', -⟩ := hword c (hchars c hc)
      exact ⟨h, h', h''⟩
  · rw [toList_intercalate_bars, List.map_map]
    rfl

theorem isSmall_words (ws : List (List Char)) :
    ∀ c ∈ (" | ".intercalate (ws.map fun w => lower (String.ofList w))).toList, IsSmall c := by
  intro c hc
  rw [toList_intercalate_bars] at hc
  rcases mem_joinBars hc with rfl | rfl | ⟨p, hp, hc⟩
  · exact isSmall_of_mark (by decide)
  · exact isSmall_of_mark (by decide)
  · obtain ⟨w, -, rfl⟩ : ∃ w ∈ ws, (lower (String.ofList w)).toList = p := by simpa using hp
    exact isSmall_of_mem_lower hc

/-- **The texts in the terms of any grammar** are keys. -/
theorem readable_isKey : Readable (fun _ => True) IsKey Anywhere where
  toTracking := tracking_anywhere
  rest _ _ _ _ := trivial
  wordRun cs term rest _ h := by
    obtain ⟨ws, hne, hws, rfl⟩ := wordRun_eq h
    exact ⟨.words ⟨isSmall_words ws, .alternation (isAlternation_words hne hws)⟩, trivial⟩
  reference _ _ _ _ h := ⟨reference_isKey h, trivial⟩
  literal _ _ _ _ _ h := ⟨literal_isKey h, trivial⟩

/-! ### What the leaves read in plain texts -/

theorem isPlain_lower (h : ∀ c ∈ cs, IsPlain c) :
    ∀ c ∈ (lower (String.ofList cs)).toList, IsPlain c := by
  have hlist : (String.ofList cs).toList = cs := String.toList_ofList
  have hascii : (String.ofList cs).toList.all (·.toNat < 0x80) = true := by
    rw [hlist, List.all_eq_true]
    intro c hc
    exact decide_eq_true (Nat.lt_trans (h c hc).2.1 (by decide))
  have hlower : ∀ n < 0x7F, IsPlain (Char.ofNat n) → IsPlain (Char.ofNat n).toLower := by
    decide +kernel
  intro c hc
  rw [lower, if_pos hascii, asciiLower, String.toList_map, hlist] at hc
  obtain ⟨d, hd, rfl⟩ := List.mem_map.mp hc
  have hplain := hlower d.toNat (h d hd).2.1
  rw [Char.ofNat_toNat] at hplain
  exact hplain (h d hd)

theorem isPlain_of_isWordChar (h : isWordChar c = true) : IsPlain c := by
  have hascii : c.toNat < 0x7F := by
    unfold isWordChar Char.isAlphanum Char.isAlpha Char.isUpper Char.isLower Char.isDigit at h
    simp only [Bool.or_eq_true, Bool.and_eq_true, decide_eq_true_eq, beq_iff_eq, ge_iff_le,
      UInt32.le_iff_toNat_le, Char.toNat_val] at h
    rcases h with (((⟨-, h⟩ | ⟨-, h⟩) | ⟨-, h⟩) | rfl) | rfl
    · exact Nat.lt_of_le_of_lt h (by decide)
    · exact Nat.lt_of_le_of_lt h (by decide)
    · exact Nat.lt_of_le_of_lt h (by decide)
    · decide
    · decide
  have hplain : ∀ n < 0x7F, isWordChar (Char.ofNat n) = true → IsPlain (Char.ofNat n) := by
    decide +kernel
  have hc := hplain c.toNat hascii
  rw [Char.ofNat_toNat] at hc
  exact hc h

theorem reference_isPlainKey (hplain : ∀ c ∈ cs, IsPlain c) (h : reference cs = some (term, rest)) :
    term.Regular IsPlainKey := by
  obtain ⟨inside, hne, hchars, rfl, rfl⟩ := reference_eq h
  refine .reference ⟨fun _ => isSmall_of_mem_lower, isPlain_lower fun c hc => hplain c ?_,
    .inl (isReference_lower hne hchars)⟩
  simp only [List.mem_append, List.mem_cons] at hc ⊢
  tauto

theorem quotedBy_eq_none (h : quote ∉ cs) : quotedBy quote cs = none := by
  cases hquoted : quotedBy quote cs with
  | none => rfl
  | some result =>
    obtain ⟨left, hopen, -⟩ := Option.bind_eq_some_iff.mp hquoted
    rw [expect_eq hopen] at h
    exact absurd List.mem_cons_self h

theorem literal_isPlainKey (hcs : IsPlainText cs) (hnone : reference cs = none)
    (h : literal cs = some (term, rest)) : term.Regular IsPlainKey := by
  obtain ⟨⟨text, left⟩, htext, h⟩ := Option.bind_eq_some_iff.mp h
  cases h
  rw [quotedBy_eq_none fun hmem => (hcs.plain _ hmem).2.2.1 rfl,
    quotedBy_eq_none fun hmem => (hcs.plain _ hmem).2.2.2 rfl, Option.none_or,
    Option.none_or] at htext
  obtain ⟨hne, hchars, rfl⟩ := run_eq htext
  have hplain : ∀ c ∈ text, IsPlain c := fun c hc => hcs.plain c (List.mem_append_left _ hc)
  refine .words ⟨fun _ => isSmall_of_mem_lower, isPlain_lower hplain,
    .inr ⟨[_], List.cons_ne_nil _ _, ?_, rfl⟩⟩
  rintro p hp
  obtain rfl := List.mem_singleton.mp hp
  refine isPiece_lower hne ?_ fun c hc => ⟨by simpa using hchars c hc, (hplain c hc).2.2⟩
  intro hhead
  refine hcs.closed _ (List.suffix_refl _) ?_ hnone
  obtain ⟨d, ds, rfl⟩ := List.exists_cons_of_ne_nil hne
  exact hhead

theorem isPlain_words (hws : ∀ w ∈ ws, w ≠ [] ∧ ∀ c ∈ w, isWordChar c = true) :
    ∀ c ∈ (" | ".intercalate (ws.map fun w => lower (String.ofList w))).toList, IsPlain c := by
  intro c hc
  rw [toList_intercalate_bars] at hc
  rcases mem_joinBars hc with rfl | rfl | ⟨p, hp, hc⟩
  · decide
  · decide
  · obtain ⟨w, hw, rfl⟩ : ∃ w ∈ ws, (lower (String.ofList w)).toList = p := by simpa using hp
    exact isPlain_lower (fun c hc => isPlain_of_isWordChar ((hws w hw).2 c hc)) c hc

/-- **The texts in the terms of a plain grammar** are plain keys. -/
theorem readable_isPlainKey : Readable IsPlainText IsPlainKey Anywhere where
  toTracking := tracking_anywhere
  rest cs rest hsuffix h := by
    refine ⟨fun c hc => h.plain c (hsuffix.subset hc), fun rest' hrest' => ?_⟩
    exact h.closed rest' (hrest'.trans hsuffix)
  wordRun cs term rest _ h := by
    obtain ⟨ws, hne, hws, rfl⟩ := wordRun_eq h
    exact ⟨.words ⟨isSmall_words ws, isPlain_words hws, .inr (isAlternation_words hne hws)⟩, trivial⟩
  reference _ _ _ hcs h := ⟨reference_isPlainKey hcs.plain h, trivial⟩
  literal _ _ _ hcs hnone h := ⟨literal_isPlainKey hcs hnone h, trivial⟩

end Parser

/-! ## Plain grammars -/

/-- **A plain grammar**: a plain text that is no mere beginning of a
reference. -/
structure IsPlainGrammar (text : String) : Prop where
  /-- The text is plain. -/
  plain : IsPlainText text.toList
  /-- Where it begins with an angle bracket it is a reference, or it has a
  character that ends literals. -/
  long : text.toList.head? = some '<' → IsReference text.toList ∨
    ∃ c ∈ text.toList, Parser.endsLiteral c = true

/-- **A long grammar**: a plain text with a character that ends
literals. -/
structure IsLongGrammar (text : String) : Prop where
  /-- The text is plain. -/
  plain : IsPlainText text.toList
  /-- It has a character that ends literals. -/
  long : ∃ c ∈ text.toList, Parser.endsLiteral c = true

theorem IsLongGrammar.isPlainGrammar {text : String} (h : IsLongGrammar text) :
    IsPlainGrammar text := ⟨h.plain, fun _ => .inr h.long⟩

/-- Whether an angle bracket before a text is closed in it, with
something in between. -/
def closesAngle : Bool → List Char → Bool
  | _, [] => false
  | filled, c :: cs =>
    if Nat.beq c.toNat '>'.toNat then filled
    else Nat.blt ' '.toNat c.toNat && closesAngle true cs

/-- Whether the angle brackets of a text are those of references. -/
def anglesClosed : List Char → Bool
  | [] => true
  | c :: cs => (!Nat.beq c.toNat '<'.toNat || closesAngle false cs) && anglesClosed cs

/-- Whether a character is plain. -/
def isPlain (c : Char) : Bool :=
  Nat.ble 0x20 c.toNat && Nat.blt c.toNat 0x7F && !Nat.beq c.toNat '"'.toNat &&
    !Nat.beq c.toNat '\''.toNat

/-- Whether a text is plain. -/
def isPlainText (cs : List Char) : Bool := cs.all isPlain && anglesClosed cs

/-- Whether a text is in angle brackets. -/
def isReference (cs : List Char) : Bool :=
  (cs.drop 1).dropLast.all inAngles && decide ((cs.drop 1).dropLast ≠ []) &&
    (cs.drop 1).getLast? == some '>'

/-- Whether a text has a blank or the sign of a multiplier. -/
def isLong (cs : List Char) : Bool := cs.any [' ', '|', '\x7b', '#', '+', '?', '*'].contains

/-- Whether a grammar is plain. -/
def isPlainGrammar (cs : List Char) : Bool :=
  isPlainText cs && (cs.head? != some '<' || isLong cs || isReference cs)

theorem closesAngle_eq {filled : Bool} (h : closesAngle filled cs = true) :
    ∃ inside rest, (filled = false → inside ≠ []) ∧ (∀ c ∈ inside, inAngles c = true) ∧
      cs = inside ++ '>' :: rest := by
  induction cs generalizing filled with
  | nil => cases h
  | cons c cs ih =>
    rw [closesAngle] at h
    split_ifs at h with hclose
    · obtain rfl : c = '>' := Char.toNat_inj.mp (Nat.beq_eq.mp hclose)
      exact ⟨[], cs, by simp [h], by simp, rfl⟩
    · rw [Bool.and_eq_true, Nat.blt_eq] at h
      obtain ⟨inside, rest, -, hchars, rfl⟩ := ih h.2
      refine ⟨c :: inside, rest, fun _ => List.cons_ne_nil _ _, ?_, rfl⟩
      intro d hd
      rcases List.mem_cons.mp hd with rfl | hd
      · have hne : ∀ e : Char, e.toNat ≤ ' '.toNat → d ≠ e := by
          rintro e he rfl
          exact absurd h.1 (Nat.not_lt.mpr he)
        have hclose' : d ≠ '>' := by
          rintro rfl
          exact hclose rfl
        simp [inAngles, hclose', hne '\t' (by decide), hne '\n' (by decide), hne ' ' (by decide)]
      · exact hchars d hd

theorem closed_of_anglesClosed (h : anglesClosed cs = true) :
    ∀ rest, rest <:+ cs → rest.head? = some '<' → Parser.reference rest ≠ none := by
  induction cs with
  | nil =>
    intro rest hrest hhead
    rw [List.suffix_nil.mp hrest] at hhead
    cases hhead
  | cons c cs ih =>
    intro rest hrest hhead
    rw [anglesClosed, Bool.and_eq_true, Bool.or_eq_true] at h
    rcases List.suffix_cons_iff.mp hrest with rfl | hrest
    · obtain rfl : c = '<' := by simpa using hhead
      rcases h.1 with hne | hclosed
      · exact absurd hne (by decide)
      · obtain ⟨inside, rest, hne, hchars, rfl⟩ := closesAngle_eq hclosed
        rw [← List.cons_append, Parser.reference_append (hne rfl) hchars]
        exact Option.some_ne_none _
    · exact ih h.2 rest hrest hhead

theorem isPlain_sound (h : isPlain c = true) : IsPlain c := by
  simp only [isPlain, Bool.and_eq_true, Nat.ble_eq, Nat.blt_eq, Bool.not_eq_true',
    ← Bool.not_eq_true, Nat.beq_eq] at h
  obtain ⟨⟨⟨hlow, hhigh⟩, hquote⟩, hquote'⟩ := h
  exact ⟨hlow, hhigh, fun hc => hquote (congrArg _ hc), fun hc => hquote' (congrArg _ hc)⟩

theorem isPlainText_sound (h : isPlainText cs = true) : IsPlainText cs := by
  rw [isPlainText, Bool.and_eq_true, List.all_eq_true] at h
  exact ⟨fun c hc => isPlain_sound (h.1 c hc), closed_of_anglesClosed h.2⟩

theorem isLong_sound (h : isLong cs = true) : ∃ c ∈ cs, Parser.endsLiteral c = true := by
  obtain ⟨c, hc, hmem⟩ := List.any_eq_true.mp h
  have hall : [' ', '|', '\x7b', '#', '+', '?', '*'].all Parser.endsLiteral = true := by decide
  exact ⟨c, hc, List.all_eq_true.mp hall c (List.contains_iff_mem.mp hmem)⟩

/-- **Plain texts in a row** make up a plain text. -/
theorem IsPlainText.append {ds : List Char} (h : IsPlainText cs) (h' : IsPlainText ds) :
    IsPlainText (cs ++ ds) := by
  refine ⟨fun c hc => ?_, fun rest hrest hhead => ?_⟩
  · rcases List.mem_append.mp hc with hc | hc
    · exact h.plain c hc
    · exact h'.plain c hc
  · obtain ⟨front, hfront⟩ := hrest
    rcases List.append_eq_append_iff.mp hfront with ⟨left, rfl, rfl⟩ | ⟨left, rfl, rfl⟩
    · cases left with
      | nil => exact h'.closed _ (List.suffix_refl _) hhead
      | cons c left =>
        -- the reference ends before the second text begins
        cases href : Parser.reference (c :: left) with
        | none => exact absurd href (h.closed _ (List.suffix_append _ _) hhead)
        | some result =>
          obtain ⟨inside, hne, hchars, hleft, -⟩ := Parser.reference_eq href
          have happend : c :: left ++ ds = '<' :: inside ++ '>' :: (result.2 ++ ds) := by
            rw [hleft, List.append_assoc]
            rfl
          rw [happend, Parser.reference_append hne hchars]
          exact Option.some_ne_none _
    · exact h'.closed rest (List.suffix_append _ _) hhead

theorem isReference_sound (hhead : cs.head? = some '<') (h : isReference cs = true) :
    IsReference cs := by
  obtain ⟨c, cs, rfl⟩ : ∃ c ds, cs = c :: ds := by
    cases cs with
    | nil => cases hhead
    | cons c cs => exact ⟨c, cs, rfl⟩
  obtain rfl : c = '<' := by simpa using hhead
  simp only [isReference, List.drop_succ_cons, List.drop_zero, Bool.and_eq_true, decide_eq_true_eq,
    List.all_eq_true, beq_iff_eq] at h
  obtain ⟨⟨hchars, hinside⟩, hlast⟩ := h
  refine ⟨cs.dropLast, hinside, hchars, ?_⟩
  rw [List.cons_append, List.dropLast_append_getLast? '>' hlast]

theorem isPlainGrammar_ofList (h : isPlainGrammar cs = true) :
    IsPlainGrammar (String.ofList cs) := by
  rw [isPlainGrammar, Bool.and_eq_true, Bool.or_eq_true, Bool.or_eq_true] at h
  refine ⟨?_, ?_⟩ <;> rw [String.toList_ofList]
  · exact isPlainText_sound h.1
  · intro hhead
    rcases h.2 with (hne | hlong) | href
    · rw [hhead] at hne
      simp at hne
    · exact .inr (isLong_sound hlong)
    · exact .inl (isReference_sound hhead href)

theorem isLongGrammar_ofList (h : (isPlainText cs && isLong cs) = true) :
    IsLongGrammar (String.ofList cs) := by
  rw [Bool.and_eq_true] at h
  refine ⟨?_, ?_⟩ <;> rw [String.toList_ofList]
  · exact isPlainText_sound h.1
  · exact isLong_sound h.2

/-- **A long grammar and a text after it.** -/
theorem IsLongGrammar.append_ofList {text : String} (h : IsLongGrammar text)
    (h' : isPlainText cs = true) : IsLongGrammar (text ++ String.ofList cs) := by
  obtain ⟨c, hc, hends⟩ := h.long
  refine ⟨?_, c, ?_, hends⟩ <;> rw [String.toList_append, String.toList_ofList]
  · exact h.plain.append (isPlainText_sound h')
  · exact List.mem_append_left _ hc

end Stylesheet.Grammar
