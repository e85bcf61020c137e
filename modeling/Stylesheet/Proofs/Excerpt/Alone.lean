import Stylesheet.Proofs.Excerpt.Value
import Stylesheet.Proofs.Lookahead.Block

/-!
# Values by themselves

The text of a value says all there is to know of it: read by itself, it gives
the value again, moved to the start. So what is known of a text that was the
value of one declaration is known of all others with the same text.

A value is read where nothing is ahead, and it can be cut off after its last
part. What comes before its first part does not matter either, since blanks
and comments are passed over.
-/

/-!
## Where a value ends

A value of a declaration ends before a mark, a semicolon, a closing bracket or
a brace, or with the source. Each of these ends every token before it, and so
do the blanks and comments that may come in between. So the value can be cut
off after its last part: the excerpt has the same parts, and ends there
(`EndsAt`).
-/

namespace Stylesheet

open Parse (State)
open Parse.State (Onward Beside Level)
open Reader (toStart)
open Lexeme (Fenced)

namespace Lexeme

variable {cs : List Char}

/-! ## Kinds of tokens -/

/-- **Whether a value ends before a token of a kind.** -/
def endsValue (kind : TokenKind) : Bool :=
  [.eof, .delim, .semicolon, .rBrace, .rParen, .lBrace].contains kind

theorem fenced_of_isFence {c : Char} (h : isFence c = true) (rest : List Char) :
    Fenced (c :: rest) := by
  rintro d hd
  obtain rfl : c = d := Option.some.inj hd
  exact h

/-- Blanks and comments end every token. -/
theorem fenced_of_trivia {lx : Lexeme} (h : trivia? cs = some lx) : Fenced cs := by
  cases cs with
  | nil => exact fun _ hc => by cases hc
  | cons c rest =>
    refine fenced_of_isFence ?_ rest
    rw [trivia?_cons] at h
    by_cases hspace : Text.isSpace c = true
    · unfold Text.isSpace at hspace
      simp only [Bool.or_eq_true, beq_iff_eq] at hspace
      rcases hspace with (rfl | rfl) | rfl <;> rfl
    · rw [if_neg hspace] at h
      split_ifs at h with hopen
      rw [of_decide_eq_true (Bool.and_eq_true_iff.mp hopen).1]
      rfl

/-- **A token before which a value ends**, and a comma, ends every token. -/
theorem fenced_of_first
    (h : (endsValue (first cs).kind || (first cs).kind == .comma) = true) : Fenced cs := by
  by_cases heof : (first cs).kind = .eof
  · have hnil : cs = [] := Classical.byContradiction fun hne => first_kind_ne_eof hne heof
    rw [hnil]
    exact fun _ hc => by cases hc
  · have hmark : isMark (first cs).kind = true := by
      revert h heof
      cases (first cs).kind <;> decide
    obtain ⟨c, rest, rfl, hkind, -⟩ := first_of_isMark hmark
    refine fenced_of_isFence ?_ rest
    revert h
    generalize (first (c :: rest)).kind = kind at hkind
    unfold TokenKind.ofChar? at hkind
    split at hkind <;> first
      | exact fun _ => rfl
      | (obtain rfl := Option.some.inj hkind; exact fun h => by cases h)
      | cases hkind

end Lexeme

namespace Reader

variable {r : Reader} {mode : Mode}

/-- What is passed over before such a token ends every token, too. -/
theorem fenced_of_lex (hcomments : mode.comments = false)
    (h : Lexeme.endsValue (r.lex mode).1.kind = true) : Fenced r.rest := by
  rcases r.lex_cases mode with ⟨lx, htrivia, -⟩ | ⟨-, hlex⟩
  · exact Lexeme.fenced_of_trivia htrivia
  · rw [hlex] at h
    refine Lexeme.fenced_of_first ?_
    rw [← Mode.firstOf_eq_first hcomments]
    exact Bool.or_eq_true_iff.mpr (.inl h)

end Reader

namespace Parser

variable {s s' : State} {inner : ExprParser} {ends ends' : List TokenKind}
  {parts v : List ValuePart} {t : Token} {n : Nat}

/-- What a value of a declaration ends before. -/
theorem endsValue_of_endsBefore {hasParts : Bool} (hends : ends ⊆ bracketEnd)
    (h : endsBefore ends false hasParts t = true) : Lexeme.endsValue t.kind = true := by
  unfold endsBefore Token.isEof at h
  simp only [Bool.or_eq_true, Bool.and_eq_true, beq_iff_eq, List.contains_iff_mem] at h
  rcases h with (hkind | hkind) | ⟨⟨-, hkind⟩, -⟩
  · rw [hkind]
    rfl
  · have hbracket := hends hkind
    unfold bracketEnd at hbracket
    simp only [List.mem_cons, List.not_mem_nil, or_false] at hbracket
    rcases hbracket with hkind | hkind | hkind | hkind <;> rw [hkind] <;> rfl
  · rw [hkind]
    rfl

/-! ## The end of the last part -/

/-- **The parts of a value end** at a state: what follows ends every token,
the last part stops there, and if the text is cut off there the same parts are
read, up to its end, even where less ends a value. -/
structure EndsAt (inner : ExprParser) (ends : List TokenKind) (n : Nat)
    (parts : List ValuePart) (s : State) (v : List ValuePart) (e : State) : Prop where
  /-- Whole tokens lead there. -/
  lexes : Lexes s.stream.reader.rest e.stream.reader.rest
  /-- What follows ends every token. -/
  fenced : Fenced e.stream.reader.rest
  /-- The parts that were there are among them. -/
  suffix : parts <:+ v
  /-- The first part is that of the next token, if one was read. -/
  first : parts = [] → v = [] ∨
    ∃ first, v.getLast? = some first ∧ first.location = (s.stream.get true false).1.location
  /-- The last part stops there, if one was read. -/
  stop : v = parts ∧ e = s ∨ ∃ last, v.head? = some last ∧ last.stop = e.stream.reader.location
  /-- The excerpt has the same parts. -/
  echo : ∀ {lead : List Char} {u : State}, Beside lead e.stream.reader.rest s u →
    (∀ p ∈ parts, p.Within (Text.byteLength lead)
      (Text.byteLength lead + Text.byteLength u.stream.source)) →
    ∃ u' w, rounds (exprStep inner ends false) n (shift (toStart lead) parts) u =
        (.ok (shift (toStart lead) v), u') ∧ u'.stream.current.kind = .eof ∧
      u'.stream.source = u.stream.source ∧ w.stream.source = u.stream.source ∧
      Beside lead e.stream.reader.rest e w ∧
      ∀ p ∈ v, p.Within (Text.byteLength lead)
        (Text.byteLength lead + Text.byteLength u.stream.source)

/-- **A value ends after its last part.** -/
theorem rounds_endsAt (hinner : Echoes inner) (hends : ends ⊆ bracketEnd)
    (hsub : ends' ⊆ ends) (hbare : s.stream.ahead = [])
    (hfilters : s.options.ieFilters = false) (hn : s.stream.reader.rest.length < n)
    (h : rounds (exprStep inner ends false) n parts s = (.ok v, s')) :
    ∃ e, EndsAt inner ends' n parts s v e := by
  induction n generalizing parts s with
  | zero => exact absurd hn (Nat.not_lt_zero _)
  | succ n ih =>
    rcases rounds_eq_ok.mp h with hdone | ⟨parts', s₁, hyield, hrest⟩
    · -- the value ends here
      obtain ⟨hends', rfl, -⟩ := exprStep_eq_done.mp hdone
      have hfenced : Fenced s.stream.reader.rest := by
        have hkind := endsValue_of_endsBefore hends hends'
        rw [(State.get_eq hbare true false).1] at hkind
        exact Reader.fenced_of_lex rfl hkind
      refine ⟨s, .refl _, hfenced, List.suffix_refl _, Or.inl, Or.inl ⟨rfl, rfl⟩,
        fun {lead u} hu hparts => ?_⟩
      have hnil : u.stream.reader.rest = [] := by
        have hlength := congrArg List.length hu.reader.rest_eq
        rw [List.length_append] at hlength
        exact List.length_eq_zero_iff.mp (by omega)
      obtain ⟨honward', hcurrent'⟩ := State.onward_afterGet hu.bare' true false
      have heof : (u.stream.get true false).1.kind = .eof := by
        rw [(State.get_eq hu.bare' true false).1]
        exact Reader.lex_of_nil hnil
      refine ⟨u.afterNext, u, rounds_eq_ok.mpr (Or.inl (exprStep_eq_done.mpr ⟨?_, rfl, rfl⟩)), ?_,
        honward'.source_eq, rfl, hu, hparts⟩
      · unfold endsBefore Token.isEof
        rw [heof]
        rfl
      · rw [hcurrent']
        exact heof
    · -- another part is read, and the value ends after it
      have honward := exprStep_onward hinner hbare hfilters hyield
      obtain ⟨hends', part, hpart, rfl⟩ := exprStep_eq_yield.mp hyield
      obtain ⟨hnext, hcurrent⟩ := State.onward_afterGet hbare true false
      obtain ⟨hmore, hlocation, hstop⟩ := partOf_onward hinner hnext.poised hfilters hcurrent hpart
      have hlt : s₁.stream.reader.rest.length < n := by
        have hne : s.stream.reader.rest ≠ [] := by
          intro hnil
          refine hends' ?_
          unfold endsBefore Token.isEof
          rw [(State.get_eq hbare true false).1, Reader.lex_of_nil hnil]
          rfl
        have hread : (s.afterGet true false).stream.reader.rest.length <
            s.stream.reader.rest.length := by
          rw [(State.get_eq hbare true false).2]
          exact s.stream.reader.lex_rest_lt rfl hne
        have := hmore.length_le
        omega
      obtain ⟨e, he⟩ := ih honward.poised.bare (honward.options_eq ▸ hfilters) hlt hrest
      refine ⟨e, honward.lexes.trans he.lexes, he.fenced, (List.suffix_cons _ _).trans he.suffix,
        ?_, Or.inr ?_, fun {lead u} hu hparts => ?_⟩
      · rintro rfl
        obtain ⟨more, rfl⟩ := he.suffix
        exact Or.inr ⟨part, List.getLast?_concat, hlocation⟩
      · rcases he.stop with ⟨rfl, rfl⟩ | hlast
        · exact ⟨part, rfl, hstop⟩
        · exact hlast
      · obtain ⟨u₁, part', hyield', hu₁, hcons, -, hpart⟩ := exprStep_yield_echo hinner hsub
          he.fenced hu hyield he.lexes.length_le
        obtain ⟨rfl, -⟩ := List.cons.inj hcons
        have hsource := hu.source_eq_of_onward honward hu₁.toBeside
        obtain ⟨u', w, hrest', heof, hu', hw, hbeside, hv⟩ := he.echo hu₁.toBeside (by
          rw [hsource]
          exact List.forall_mem_cons.mpr ⟨hpart, hparts⟩)
        rw [hsource] at hu' hw hv
        exact ⟨u', w, rounds_eq_ok.mpr (Or.inr ⟨_, u₁, hyield', hrest'⟩), heof, hu', hw, hbeside,
          hv⟩

/-! ## Cutting off a value -/

/-- The source stays the same. -/
theorem rounds_source {raw : Bool} (hinner : Echoes inner) (hbare : s.stream.ahead = [])
    (hfilters : s.options.ieFilters = false)
    (h : rounds (exprStep inner ends raw) n parts s = (.ok v, s')) :
    s'.stream.source = s.stream.source := by
  cases n with
  | zero =>
    cases h
    rfl
  | succ n =>
    rcases rounds_eq_ok.mp h with hdone | ⟨parts', s₁, hyield, hrest⟩
    · exact (exprStep_onward hinner hbare hfilters hdone).source_eq
    · have honward := exprStep_onward hinner hbare hfilters hyield
      exact (honward.trans
        (rounds_onward hinner honward.poised (honward.options_eq ▸ hfilters) hrest)).source_eq

/-- **A value can be cut off**: it takes a piece of the source that starts
where it starts and is its text, and the piece by itself is read as the same
value, up to its end. -/
theorem exprTo_cut {depth : Nat} {v : Value} {lead : List Char} (hends : ends ⊆ bracketEnd)
    (hsub : ends' ⊆ ends) (hbare : s.stream.ahead = [])
    (hfilters : s.options.ieFilters = false) (hbudget : s.stream.reader.rest.length < s.budget)
    (hlocation : s.stream.reader.location = Location.start.advance lead)
    (hstart : (s.stream.get true false).1.location = s.stream.reader.location)
    (h : exprTo (depth + 1) ends false s = (.ok (some v), s')) :
    ∃ x a, s.stream.reader.rest = x ++ a ∧ Lexes (x ++ a) a ∧
      v.location = Location.start.advance lead ∧
      ∀ {u : State}, Beside lead a s u → u.stream.source = x → v.text = String.ofList x ∧
        ∃ u', exprTo (depth + 1) ends' false u = (.ok (some (shift (toStart lead) v)), u') ∧
          u'.stream.current.kind = .eof := by
  obtain ⟨parts, hrounds, hv⟩ := exprTo_eq_ok.mp h
  have hinner := exprTo_echoes depth
  obtain ⟨e, he⟩ := rounds_endsAt hinner hends hsub hbare hfilters hbudget hrounds
  obtain ⟨x, hx⟩ := he.lexes.isSuffix
  have hne : parts ≠ [] := by
    rintro rfl
    cases hv
  obtain ⟨first, hfirst, hplace⟩ := (he.first rfl).resolve_left hne
  obtain ⟨last, hlast, hstop⟩ := he.stop.resolve_left fun h => hne h.1
  have hvalueOf : v = ValueOf.ofParts parts.reverse s'.stream.source := by
    unfold valueOf at hv
    rw [if_neg fun h => hne (List.isEmpty_iff.mp h)] at hv
    exact Option.some.inj hv
  have hlocation' : v.location = Location.start.advance lead := by
    rw [hvalueOf, ← hlocation, ← hstart, ← hplace]
    show (parts.reverse.head?.map (·.location)).getD .start = _
    rw [List.head?_reverse, hfirst]
    rfl
  refine ⟨x, e.stream.reader.rest, hx.symm, hx ▸ he.lexes, hlocation', fun {u} hu hux => ?_⟩
  obtain ⟨u', w, hrounds', heof, hu', hw, hbeside, hwithin⟩ :=
    he.echo hu fun p hp => absurd hp List.not_mem_nil
  have hsource' : s'.stream.source = lead ++ (u.stream.source ++ e.stream.reader.rest) := by
    rw [rounds_source hinner hbare hfilters hrounds]
    exact hu.reader.source_eq
  refine ⟨?_, u', exprTo_eq_ok.mpr ⟨shift (toStart lead) parts, ?_, ?_⟩, heof⟩
  · have hstop' : v.stop.offset = Text.byteLength lead + Text.byteLength x := by
      have hend : v.stop = e.stream.reader.location := by
        rw [hvalueOf, ← hstop]
        show (parts.reverse.getLast?.map (·.stop)).getD _ = _
        rw [List.getLast?_reverse, hlast]
        rfl
      obtain ⟨hle, read, hread, -, hplace'⟩ := And.intro hbeside.reader.rest_eq hbeside.reader.read
      have hnil : w.stream.reader.rest = [] :=
        List.append_cancel_right ((List.nil_append _).trans hle).symm
      have hsource : w.stream.source = w.stream.reader.source := rfl
      rw [hend, hplace', Location.offset_advance, Location.offset_advance_start, ← hux, ← hw,
        hsource, hread, hnil, List.append_nil]
    have htext : v.text = String.ofList (Text.slice s'.stream.source v.location.offset
        v.stop.offset) := by
      rw [hvalueOf]
      rfl
    rw [htext, hlocation', hstop', Location.offset_advance_start, hsource', hux,
      Text.slice_append]
  · rw [hu.budget_eq]
    exact hrounds'
  · rw [hu', valueOf_shift _ hwithin, ← hsource', ← hv]
    rfl

end Parser

/-! ## What comes before a token -/

/-- **Passing over what is hidden** before the next token leads to where it
starts. -/
theorem Reader.exists_advance_lex (r : Reader) (mode : Mode) :
    ∃ n, r.lex mode = (r.advance n).lex mode ∧
      ((r.advance n).lex mode).1.location = (r.advance n).location := by
  refine lex_induction mode (P := fun r => ∃ n, r.lex mode = (r.advance n).lex mode ∧
    ((r.advance n).lex mode).1.location = (r.advance n).location)
    (fun r lx _ _ hlex ih => ?_) (fun r _ hlex => ?_) r
  · obtain ⟨n, hn, hlocation⟩ := ih
    rw [advance_advance] at hn hlocation
    exact ⟨lx.size + n, hlex.trans hn, hlocation⟩
  · refine ⟨0, rfl, ?_⟩
    show (r.lex mode).1.location = r.location
    rw [hlex]
    rfl

/-- Readers that cut the same token are as good as each other. -/
theorem Stream.get_of_lex {st : Stream} {r : Reader} {placeholders blanks : Bool}
    (hbare : st.ahead = [])
    (h : st.reader.lex ⟨blanks, placeholders, false⟩ = r.lex ⟨blanks, placeholders, false⟩) :
    st.get placeholders blanks = Stream.get { st with reader := r } placeholders blanks := by
  obtain ⟨q, behind, ahead⟩ := st
  obtain rfl : ahead = [] := hbare
  rw [get_bare, get_bare, h]

/-- Every character has a byte. -/
theorem Text.length_le_byteLength (cs : List Char) : cs.length ≤ byteLength cs := by
  induction cs with
  | nil => exact Nat.le_refl 0
  | cons c cs ih =>
    have := c.utf8Size_pos
    rw [byteLength_cons, List.length_cons]
    omega

/-! ## Reading a value alone -/

namespace Parser

variable {v : Value} {u' : State}

/-- What ends a value that stands alone. -/
def aloneEnd : List TokenKind := [.semicolon, .rBrace, .delim]

/-- Nothing is left over at the end of the source. -/
theorem expectEnd_of_eof {s : State} (h : s.stream.current.kind = .eof) :
    expectEnd s = (.ok (), s) := by
  unfold expectEnd
  refine (bind_ok (show current s = (.ok s.stream.current, s) from rfl)).trans ?_
  rw [if_neg (by rw [h]; exact Bool.false_ne_true)]
  refine (bind_ok (show current s = (.ok s.stream.current, s) from rfl)).trans ?_
  have heof : s.stream.current.isEof = true := by
    unfold Token.isEof
    rw [h]
    rfl
  dsimp only
  rw [if_pos heof]
  rfl

/-- **A value alone** is what is read of its text, up to the end. -/
theorem parseValue_eq_ok {text : String} {b : Nat}
    (hb : (State.initial text {} .fresh none).IsEnough b)
    (h : expr aloneEnd false ((State.initial text {} .fresh none).withBudget b) =
      (.ok (some v), u')) (heof : u'.stream.current.kind = .eof) : parseValue text = .ok v := by
  set s := State.initial text {} .fresh none
  have hs : s.IsSound := State.isSound_initial text {} .fresh
  have hreads := Runs.reads (fun d => Runs.expr (d := d) aloneEnd false) hs
    (State.stands_false (n := 0) (Nat.zero_le _))
  have halike := hreads.alike b hb
  rw [h] at halike
  obtain ⟨hanswer, hstate⟩ := Prod.mk.inj halike
  have hvalue : expr aloneEnd false s = (.ok (some v), (expr aloneEnd false s).2) :=
    Prod.ext hanswer.symm rfl
  have hcurrent : (expr aloneEnd false s).2.stream.current.kind = .eof := by
    rw [← heof, hstate]
    rfl
  have hsingle : singleValue s = (.ok v, (expr aloneEnd false s).2) := by
    refine (bind_ok hvalue).trans ?_
    exact bind_eq_ok.mpr ⟨(), (expr aloneEnd false s).2, expectEnd_of_eof hcurrent, rfl⟩
  show (singleValue s).1 = .ok v
  rw [hsingle]

end Parser

/-- **A value that was read in a run** is read from its text alone. -/
theorem Value.IsRead.alone {o : Options} {source : List Char} {v : Value}
    (h : v.IsRead o (normalizeNewlines source)) (hfilters : o.ieFilters = false) :
    parseValue v.text = .ok (shift (.between v.location .start) v) := by
  obtain ⟨s, ends, hsite, hends, hv⟩ := h
  obtain ⟨n, hlex, hstart⟩ := s.stream.reader.exists_advance_lex ⟨false, true, false⟩
  -- what is passed over before the value can be left out
  set r := s.stream.reader.advance n
  set s₁ := s.withStream { s.stream with reader := r }
  have hget := Stream.get_of_lex hsite.bare hlex
  have hbound : Text.byteLength s.stream.source + 64 ≤ s.budget := hsite.isSound.budget
  have hexpr : Parser.expr ends false s = Parser.expr ends false s₁ :=
    Parser.expr_of_next (Parser.next_congr (s := s) hget) rfl (by omega)
  obtain ⟨lead, hlead, hlocation⟩ : r.IsAt := hsite.isSound.stream.isAt.advance n
  have hsource : r.source = normalizeNewlines source := hsite.source_eq
  have hbytes : Text.byteLength s.stream.source =
      Text.byteLength lead + Text.byteLength r.rest := by
    rw [← Text.byteLength_append, ← hlead]
    rfl
  obtain ⟨depth, hdepth⟩ : ∃ depth, s.budget = depth + 1 := ⟨s.budget - 1, by omega⟩
  have hrun : Parser.exprTo (depth + 1) ends false s₁ =
      (.ok (some v), (Parser.expr ends false s₁).2) := by
    rw [← hdepth, ← hv, hexpr]
    rfl
  have hfirst : (s₁.stream.get true false).1.location = r.location := by
    rw [(State.get_eq (s := s₁) hsite.bare true false).1]
    exact hstart
  have hlength : r.rest.length < s₁.budget := by
    have hle := Text.length_le_byteLength r.rest
    show r.rest.length < s.budget
    omega
  have hbracket : ends ⊆ Parser.bracketEnd := by rcases hends with rfl | rfl <;> decide
  have halone : Parser.aloneEnd ⊆ ends := by rcases hends with rfl | rfl <;> decide
  obtain ⟨x, a, hrest, hlexes, hplace, hcut⟩ := Parser.exprTo_cut (s := s₁) hbracket halone
    hsite.bare (hsite.options_eq ▸ hfilters) hlength hlocation hfirst hrun
  replace hrest : r.rest = x ++ a := hrest
  -- the text is read from its start with the same budget
  set u := (State.initial (String.ofList x) {} .fresh none).withBudget s.budget
  have hnormal : normalizeNewlines (String.ofList x).toList = x := by
    rw [String.toList_ofList]
    refine normalizeNewlines_of_forall fun c hc => ?_
    have hmem : c ∈ normalizeNewlines source := by
      rw [← hsource, hlead, hrest]
      exact List.mem_append_right _ (List.mem_append_left _ hc)
    exact ne_lineEnd_of_mem_normalizeNewlines hmem
  have hreader : r.Beside lead a u.stream.reader := by
    refine ⟨?_, ?_, ⟨[], ?_, rfl, hlocation⟩, ?_⟩
    · show r.source = lead ++ (normalizeNewlines (String.ofList x).toList ++ a)
      rw [hnormal, hlead, hrest]
    · show r.rest = Text.suffixAt (normalizeNewlines (String.ofList x).toList) 0 ++ a
      rw [hnormal, Text.suffixAt_zero, hrest]
    · exact (Text.suffixAt_zero _).symm
    · show Lexes (Text.suffixAt (normalizeNewlines (String.ofList x).toList) 0 ++ a) a
      rw [hnormal, Text.suffixAt_zero]
      exact hlexes
  have hbeside : Beside lead a s₁ u :=
    ⟨hreader, hsite.bare, rfl, rfl, hsite.options_eq ▸ hfilters, rfl⟩
  obtain ⟨htext, u', hu', heof⟩ := hcut hbeside hnormal
  rw [htext, hplace]
  refine Parser.parseValue_eq_ok (b := s.budget) ?_ ?_ heof
  · show Text.byteLength (normalizeNewlines (String.ofList x).toList) + 64 ≤ s.budget
    rw [hrest, Text.byteLength_append] at hbytes
    rw [hnormal]
    omega
  · rw [← hdepth] at hu'
    exact hu'

/-! ## Declared values -/

/-- The declarations that events report. -/
def declarationsOf (events : List Event) : List Declaration :=
  events.filterMap fun e =>
    match e.kind with
    | .property d => some d
    | _ => none

theorem mem_declarationsOf {events : List Event} {d : Declaration} (h : d ∈ declarationsOf events) :
    ∃ e ∈ events, e.kind = .property d := by
  obtain ⟨e, he, hd⟩ := List.mem_filterMap.mp h
  refine ⟨e, he, ?_⟩
  split at hd
  · next hkind => rw [hkind, Option.some.inj hd]
  · cases hd

/-- **The token at the place of a property's name**, in the source. -/
def PropertyName.tokenIn (source : List Char) (name : PropertyName) : Token :=
  (Lexeme.first (Text.suffixAt source name.location.offset)).place name.location
    (Text.suffixAt source name.location.offset)

/-- It is the only token there. -/
theorem Token.IsCut.eq_tokenIn {source : List Char} {t : Token} {name : PropertyName}
    (h : t.IsCut source) (hlocation : t.location = name.location) : t = name.tokenIn source := by
  obtain ⟨before, rest, rfl, rfl⟩ := h
  have hplace : Location.start.advance before = name.location := hlocation
  have hrest : Text.suffixAt (before ++ rest) name.location.offset = rest := by
    rw [← hplace, Location.offset_advance_start, Text.suffixAt_append]
  unfold PropertyName.tokenIn
  rw [hrest, ← hplace]

/-- **The text of a declared value stands for itself.** Whatever stylesheet
it is declared in, unless its property is a custom one, and however it ends
there, parsing the text alone succeeds, and gives the value moved to the
start. -/
theorem values_alone (text : String) (options : Options) (hfilters : options.ieFilters = false) :
    ∀ d ∈ declarationsOf (parseSheet text options).events,
      (d.property.tokenIn (normalizeNewlines text.toList)).isCustomIdent = false →
      parseValue d.value.text = .ok (shift (.between d.value.location .start) d.value) := by
  intro d hd hname
  obtain ⟨e, he, hkind⟩ := mem_declarationsOf hd
  have horderly := (sheet_isOrderly text options .fresh).2 e (List.mem_reverse.mp he)
  unfold Event.IsOrderly at horderly
  rw [hkind] at horderly
  refine (horderly.1 fun t ht hlocation => ?_).alone hfilters
  rw [ht.eq_tokenIn hlocation]
  exact hname

/-- A value between a blank and a comment. -/
theorem values_alone_important :
    ∃ d ∈ declarationsOf (parseSheet "a\x7bb: c(\"d\")/**/!important\x7d" {}).events,
      d.value.text = "c(\"d\")" ∧
        parseValue d.value.text = .ok (shift (.between d.value.location .start) d.value) := by
  have hnames : ∀ d ∈ declarationsOf (parseSheet "a\x7bb: c(\"d\")/**/!important\x7d" {}).events,
      (d.property.tokenIn (normalizeNewlines
        "a\x7bb: c(\"d\")/**/!important\x7d".toList)).isCustomIdent = false := by
    decide +kernel
  have hmem : "c(\"d\")" ∈ (declarationsOf (parseSheet "a\x7bb: c(\"d\")/**/!important\x7d"
      {}).events).map (·.value.text) := by decide +kernel
  obtain ⟨d, hd, htext⟩ := List.mem_map.mp hmem
  exact ⟨d, hd, htext, values_alone _ {} rfl d hd (hnames d hd)⟩

end Stylesheet
