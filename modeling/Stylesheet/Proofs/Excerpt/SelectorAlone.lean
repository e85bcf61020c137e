import Stylesheet.Proofs.Excerpt.Alone
import Stylesheet.Proofs.Excerpt.Escaped
import Stylesheet.Proofs.Excerpt.Groups

/-!
# Selectors by themselves

A selector of a rule can be cut out of the text it was read from: it takes the
characters between its two places, and these by themselves give the selector
again, moved to the start.

What comes after a selector of a rule is a comma or the brace of the block,
with blanks, comments and placeholders before it. Each of these ends every
token, with one exception. A newline that is escaped counts as a blank, but its
backslash does not end a token: `#` before one is an identifier without a name,
and at the end of a text it is none. So no escaped newline may come right after
the selector.
-/

namespace Stylesheet

open Parse (State)
open Parse.State (Onward Beside Inside Steady Meets Sees Carries Arrives onward_afterGet)
open Reader (toStart)
open Lexeme (Fenced)

/-! ## What comes after a selector -/

/-- **A newline that is escaped comes next.** -/
def EscapesNewline (cs : List Char) : Prop := ['\\', '\n'] <+: cs

instance (cs : List Char) : Decidable (EscapesNewline cs) := inferInstanceAs (Decidable (_ <+: _))

namespace Lexeme

variable {cs : List Char}

/-- The tokens that come after a selector of a rule. -/
def afterSelector : List TokenKind := [.uvar, .whitespace, .comma, .lBrace]

/-- **What comes after a selector of a rule ends every token**, unless it is a
newline that is escaped. -/
theorem fenced_of_afterSelector (h : afterSelector.contains (first cs).kind = true)
    (hescaped : ¬EscapesNewline cs) : Fenced cs := by
  rcases first_cases cs with rfl | ⟨lx, htrivia, -⟩ | ⟨rest, rfl, -, -⟩ | ⟨-, -, hcontent⟩
  · exact fun _ hc => by cases hc
  · exact fenced_of_trivia htrivia
  · exact absurd ⟨rest, rfl⟩ hescaped
  · refine fenced_of_first ?_
    have huvar := hcontent.uvar
    have hblank := hcontent.whitespace
    revert h huvar hblank
    cases (first cs).kind <;> decide

end Lexeme

namespace Parser

variable {group : GroupParser} {s s' e : State} {t : Token}

/-- What comes after the last compound of a selector. -/
theorem kind_of_leftOver (hleft : LeftOver s s') (hends : s'.EndsSelector) :
    Lexeme.afterSelector.contains s.stream.current.kind = true := by
  have hkinds : ∀ kind : TokenKind, ([.uvar, .whitespace].contains kind = true ∨
      [.comma, .lBrace].contains kind = true) → Lexeme.afterSelector.contains kind = true := by
    intro kind
    cases kind <;> decide
  rcases hleft with hkind | rfl
  · exact hkinds _ (Or.inl hkind)
  · unfold State.EndsSelector at hends
    split_ifs at hends with hplaceholder
    · exact hkinds _ (Or.inl (by rw [eq_of_beq hplaceholder]; rfl))
    · exact hkinds _ (Or.inr hends)

/-- **What comes after a selector of a rule** ends every token before it. -/
theorem fenced_of_leftOver (hbare : e.stream.ahead = [])
    (hleft : LeftOver (e.afterGet false true) s') (hends : s'.EndsSelector)
    (hescaped : ¬EscapesNewline e.stream.reader.rest) : Fenced e.stream.reader.rest := by
  have hkind := kind_of_leftOver hleft hends
  rw [(onward_afterGet hbare false true).2, (State.get_eq hbare false true).1] at hkind
  rcases e.stream.reader.lex_cases ⟨true, false, false⟩ with ⟨lx, htrivia, -⟩ | ⟨-, hlex⟩
  · exact Lexeme.fenced_of_trivia htrivia
  · rw [hlex] at hkind
    refine Lexeme.fenced_of_afterSelector ?_ hescaped
    rw [← @Mode.firstOf_eq_first ⟨true, false, false⟩ rfl]
    exact hkind

/-! ## Cutting off a selector -/

/-- **A selector that starts with a combinator** is relative. -/
theorem selectorRest_relative {found : Option Selector} (hs : 0 < s.budget)
    (hcombinator : combinatorKinds.contains t.kind = true)
    (h : selectorRest group t (some ⟨[], t.stop, some t⟩) s = (.ok found, s')) :
    ∃ selector, found = some selector ∧ selector.isRelative = true := by
  obtain ⟨sofar, hrounds, rfl⟩ := selectorRest_eq_ok.mp h
  refine ⟨_, rfl, ?_⟩
  obtain ⟨n, hn⟩ : ∃ n, s.budget = n + 1 := ⟨s.budget - 1, by omega⟩
  rw [hn] at hrounds
  have hstep : ∀ {r : ForInStep SelectorSoFar} {s₁ : State},
      selectorStep group ⟨[], t.stop, some t⟩ s = (.ok r, s₁) →
        ∃ c stop, r = .yield (SelectorSoFar.push ⟨[], t.stop, none⟩ (combinatorOf t) c stop) := by
    intro r s₁ h
    rw [selectorStep_of_pending] at h
    unfold stepAt at h
    rw [if_pos hcombinator] at h
    exact afterCombinator_extends h
  rcases rounds_eq_ok.mp hrounds with hdone | ⟨sofar₁, s₁, hyield, hrest⟩
  · obtain ⟨c, stop, h⟩ := hstep hdone
    cases h
  · obtain ⟨c, stop, h⟩ := hstep hyield
    cases h
    obtain ⟨more, hmore⟩ := selectorRounds_suffix hrest
    have hitems : sofar.items.reverse =
        .combinator (combinatorOf t) :: .compound c :: more.reverse := by
      rw [← hmore, List.reverse_append]
      rfl
    unfold selectorOf Selector.isRelative
    rw [hitems]

/-- **A selector can be cut off**: it ends with a token, and an excerpt that
ends there gives the selector, up to its end. -/
structure CutsAt (group : GroupParser) (t : Token) (s s' : State) (selector : Selector)
    (e : State) : Prop
    extends Arrives (Sees t) s e selector.stop fun lead _ u w => AtEnd w → ∃ u',
      selectorFrom group false (shift (toStart lead) t) u =
        (.ok (some (shift (toStart lead) selector)), u') ∧ u'.stream.current.kind = .eof where
  /-- The selector starts with the token. -/
  location_eq : selector.location = t.location
  /-- It is made of characters of the source. -/
  text_eq : selector.text = String.ofList
    (Text.slice s.stream.source selector.location.offset selector.stop.offset)
  /-- Nothing more belongs to it. -/
  leftOver : LeftOver (e.afterGet false true) s'

/-- **A selector that is not relative** can be cut off after its last
compound. -/
theorem selectorFrom_cutsAt (hgroup : Echoing group) {selector : Selector} (hs : s.Steady)
    (hstop : s.stream.reader.location = t.stop)
    (hsource : s'.stream.source = s.stream.source) (hrelative : selector.isRelative = false)
    (h : selectorFrom group true t s = (.ok (some selector), s')) :
    ¬startsNone t = true ∧ ∃ e, CutsAt group t s s' selector e := by
  have hroomy := hs.roomy
  unfold selectorFrom at h
  split_ifs at h with hcombinator
  · obtain ⟨_, ⟨⟩, hrelative'⟩ := selectorRest_relative (by omega)
      (Bool.and_eq_true_iff.mp hcombinator).2 h
    cases hrelative'.symm.trans hrelative
  obtain ⟨_ | ⟨c, stop⟩, s₁, hcompound, hrun⟩ := bind_eq_ok.mp h
  · cases hrun
  have hstart : ¬startsNone t = true := by
    intro hnone
    rw [compound_eq, if_pos hnone] at hcompound
    cases hcompound
  obtain ⟨e₀, rfl, he₀⟩ := compound_run hgroup hs hstop hcompound
  obtain ⟨sofar, hrounds, hselector⟩ := selectorRest_eq_ok.mp hrun
  obtain rfl := Option.some.inj hselector
  have hnext := Carries.next (he₀.onward.steady hs) false true
  refine ⟨hstart, ?_⟩
  -- once the rest is read from the excerpt, so is the selector
  have hcuts : ∀ {e : State}, LeftOver (e.afterGet false true) s' →
      (Arrives (Sees t) s e sofar.stop fun lead x u w => AtEnd w → ∃ m u',
        compound group (some (shift (toStart lead) t)) u =
            (.ok (some (Selector.moveCompound (toStart lead) c, shift (toStart lead) stop)), m) ∧
          rounds (selectorStep group) m.budget
            (shift (toStart lead) ⟨[.compound c], stop, none⟩) m =
              (.ok (shift (toStart lead) sofar), u') ∧
          u'.stream.current.kind = .eof ∧ u'.stream.source = w.stream.source) →
      CutsAt group t s s' (selectorOf t sofar s'.stream.source) e := by
    intro e hleft he
    refine ⟨he.imp fun {lead x after u w} _ hu hw hin hrest hend => ?_, rfl, ?_, hleft⟩
    · obtain ⟨m, u', hcompound', hrounds', heof, hsource'⟩ := hrest hend
      have hle := (hw.beside hin).reader.offset_le.2
      have hwsource : w.stream.reader.source = x := hw.source_eq hin
      rw [he.stop_eq, hwsource] at hle
      refine ⟨u', (@selectorFrom_of_compound _ _ _ _ _ false _ Bool.false_ne_true
        hcompound').trans (selectorRest_eq_ok.mpr ⟨_, hrounds', ?_⟩), heof⟩
      rw [hsource', hsource, ← he.onward.source_eq]
      exact congrArg some (selectorOf_shift hw hin hu.2 hle).symm
    · rw [← hsource]
      rfl
  rcases selectorRounds_arrives hgroup (hnext.onward.steady (he₀.onward.steady hs)) hrounds with
    ⟨rfl, hleft⟩ | ⟨e, hleft, he⟩
  · -- there is but one compound
    refine ⟨e₀, hcuts hleft (he₀.weaken fun lead x u w hcompound' hend => ⟨_, _, hcompound',
      selectorRounds_of_end ?_, hend.current_kind, w.stream.get_source false true⟩)⟩
    rw [hend.current_kind]
    rfl
  · refine ⟨e, hcuts hleft (((he₀.toCarries.trans hnext).budgeted.arrives he).weaken
      fun lead x u w ⟨v, ⟨hbudget, _, hcompound', hv, _⟩, hrest⟩ hend => ?_)⟩
    obtain ⟨u', hrounds', heof⟩ := hrest hend
    rw [← hbudget] at hrounds'
    exact ⟨v, u', hv ▸ hcompound', hrounds', heof⟩

/-! ## Reading a selector alone -/

/-- **A selector alone** is what is read of its text, up to the end. How deep
its lists may nest does not matter if that is enough. -/
theorem parseSelector_eq_ok {text : String} {b depth : Nat} {selector : Selector} {u' : State}
    (hb : (State.initial text {} .fresh none).IsEnough b)
    (hdepth : Text.byteLength (normalizeNewlines text.toList) ≤ depth)
    (ht : ((State.initial text {} .fresh none).stream.get false false).1 = t)
    (hstart : ¬startsNone t = true)
    (h : selectorFrom (groupTo depth) false t
      (((State.initial text {} .fresh none).withBudget b).afterGet false false) =
        (.ok (some selector), u')) (heof : u'.stream.current.kind = .eof) :
    parseSelector text = .ok selector := by
  set s := State.initial text {} .fresh none
  have hs : s.IsSound := State.isSound_initial text {} .fresh
  have hbudget : Text.byteLength s.stream.source + 64 ≤ s.budget := hs.budget
  have hgroups : RunsGroup (Text.byteLength s.stream.source) (groupTo s.budget)
      (groupTo depth) := Reads.groupTo (by omega) hdepth
  have hreads := Reads.selectorWith (n := 0) (m := 0) hgroups hs (by omega) (Nat.le_refl 0)
    (Nat.zero_le _) none (fun h => absurd rfl h) false
  -- the answer does not depend on the budget
  have hrun : selectorWith (groupTo depth) none false (s.withBudget b) =
      (.ok (some selector), u') := by
    rw [selectorWith_eq]
    refine (bind_ok (next_apply false false (s.withBudget b))).trans ?_
    rw [show ((s.withBudget b).stream.get false false).1 = t from ht]
    exact h
  have halike := hreads.alike b hb
  rw [hrun] at halike
  obtain ⟨hanswer, hstate⟩ := Prod.mk.inj halike
  set s₁ := (selectorWith (groupTo s.budget) none false s).2
  have hcurrent : s₁.stream.current.kind = .eof := by
    rw [← heof, hstate]
    rfl
  have hselector : selectorFrom (groupTo s.budget) false t (s.afterGet false false) =
      (.ok (some selector), s₁) := by
    have hwith : selectorWith (groupTo s.budget) none false s = (.ok (some selector), s₁) :=
      Prod.ext hanswer.symm rfl
    rw [selectorWith_eq] at hwith
    have hfrom := (bind_ok (next_apply false false s)).symm.trans hwith
    rw [show (s.stream.get false false).1 = t from ht] at hfrom
    exact hfrom
  have hplain : ¬(t.kind == .uvar) = true := by
    intro hplaceholder
    refine hstart ?_
    unfold startsNone
    rw [eq_of_beq hplaceholder, Bool.or_eq_true]
    exact Or.inr rfl
  have hsingle : singleSelector s = (.ok selector, s₁) := by
    refine (bind_ok (next_apply false false s)).trans ?_
    rw [show (s.stream.get false false).1 = t from ht]
    refine bind_eq_ok.mpr ⟨some selector, s₁, ?_, ?_⟩
    · show selectorWith (groupTo s.budget) (some t) false (s.afterGet false false) = _
      rw [selectorWith_eq]
      dsimp only
      rw [if_neg hplain]
      exact hselector
    · exact bind_eq_ok.mpr ⟨(), s₁, expectEnd_of_eof hcurrent, rfl⟩
  show (singleSelector s).1 = .ok selector
  rw [hsingle]

end Parser

/-- Readers at the same place of the same source stand beside the same
readers. -/
theorem Reader.Beside.congr {lead after : List Char} {r r' q : Reader}
    (h : r.Beside lead after q) (hsource : r'.source = r.source)
    (hlocation : r'.location = r.location) : r'.Beside lead after q where
  source_eq := hsource.trans h.source_eq
  rest_eq := by
    rw [r'.rest_eq, hsource, hlocation, ← r.rest_eq]
    exact h.rest_eq
  read := hlocation ▸ h.read
  lexes := h.lexes

/-- **A token with which a compound can start** is the next one where it
stands. -/
theorem Reader.lex_of_start {lead rest : List Char} {t : Token}
    (ht : t = (Lexeme.first rest).place (Location.start.advance lead) rest)
    (hstart : ¬Parser.startsNone t = true) {r : Reader} (hrest : r.rest = rest)
    (hlocation : r.location = Location.start.advance lead) :
    (r.lex ⟨false, false, false⟩).1 = t ∧ (r.lex ⟨false, false, false⟩).2.location = t.stop := by
  rcases r.lex_cases ⟨false, false, false⟩ with ⟨lx, htrivia, -⟩ | ⟨-, hlex⟩
  · -- no compound starts with what is passed over
    have hfirst : Lexeme.first rest = lx := by
      unfold Lexeme.first
      rw [← hrest, htrivia]
      rfl
    refine absurd ?_ hstart
    have hkind : t.kind = lx.kind := by rw [ht, hfirst]; rfl
    unfold Parser.startsNone
    rw [hkind, Bool.or_eq_true]
    refine Or.inr ?_
    rcases (Lexeme.trivia?_kind htrivia).1 with hkind | hkind | hkind <;> rw [hkind] <;> rfl
  · rw [hlex, @Mode.firstOf_eq_first ⟨false, false, false⟩ rfl, hrest, hlocation, ht]
    refine ⟨rfl, ?_⟩
    show r.location.advance (r.rest.take _) = _
    rw [hrest, hlocation]
    rfl

namespace Parser

variable {s s' : State} {t : Token}

/-- **A selector that is read after its first token** is read from its text
alone. -/
theorem selectorFrom_alone {depth : Nat} {source : List Char} {selector : Selector}
    (hs : s.Steady) (hsource : s.stream.source = normalizeNewlines source)
    (hbudget : Text.byteLength s.stream.source + 64 ≤ depth + 1) (hdepth : s.budget = depth + 1)
    (ht : t.IsCut s.stream.source) (hstop : s.stream.reader.location = t.stop)
    (hsource' : s'.stream.source = s.stream.source) (hends : s'.EndsSelector)
    (hrelative : selector.isRelative = false)
    (hescaped : ¬EscapesNewline (Text.suffixAt s.stream.source selector.stop.offset))
    (h : selectorFrom (groupTo depth) true t s = (.ok (some selector), s')) :
    parseSelector selector.text = .ok (shift (.between selector.location .start) selector) := by
  obtain ⟨hstart, e, he⟩ :=
    selectorFrom_cutsAt (groupTo_echoing depth) hs hstop hsource' hrelative h
  have hfenced : Fenced e.stream.reader.rest := by
    refine fenced_of_leftOver he.onward.poised.bare he.leftOver hends ?_
    have hesource : e.stream.reader.source = s.stream.source := he.onward.source_eq
    rw [e.stream.reader.rest_eq, hesource, he.stop_eq]
    exact hescaped
  obtain ⟨lead, rest, hsplit, htoken⟩ := ht
  have hlocation : t.location = Location.start.advance lead := by rw [htoken]; rfl
  -- the state before the first token
  set r := Reader.atPlace s.stream.source (Location.start.advance lead) none
  have hrest : r.rest = rest := by
    show Text.suffixAt s.stream.source (Location.start.advance lead).offset = rest
    rw [Location.offset_advance_start, hsplit, Text.suffixAt_append]
  set s₀ := s.withStream ⟨r, [], []⟩
  rw [hsplit, Text.byteLength_append] at hbudget
  have hlength : rest.length + 1 < s.budget := by
    have hle := Text.length_le_byteLength rest
    omega
  have hs₀ : s₀.Steady := ⟨⟨rfl, rfl⟩, hs.filters, by
    show r.rest.length + 1 < s.budget
    rw [hrest]
    exact hlength⟩
  obtain ⟨hfirst, hafter⟩ := Reader.lex_of_start htoken hstart hrest rfl
  obtain ⟨hget, hreader⟩ := State.get_eq (s := s₀) rfl false false
  have honward := (onward_afterGet (s := s₀) rfl false false).1
  have hreader' : s.stream.reader.source = (s₀.afterGet false false).stream.reader.source ∧
      s.stream.reader.location = (s₀.afterGet false false).stream.reader.location := by
    refine ⟨honward.source_eq.symm, ?_⟩
    rw [hreader]
    exact hstop.trans hafter.symm
  have hrests : s.stream.reader.rest = (s₀.afterGet false false).stream.reader.rest := by
    rw [Reader.rest_eq, Reader.rest_eq, hreader'.1, hreader'.2]
  have hlexes : Lexes rest e.stream.reader.rest := by
    rw [← hrest]
    exact honward.lexes.trans (hrests ▸ he.onward.lexes)
  obtain ⟨x, hx⟩ := hlexes.isSuffix
  rw [← hx, Text.byteLength_append] at hbudget
  -- the text is read from its start with the same budget
  have hnormal : normalizeNewlines (String.ofList x).toList = x := by
    rw [String.toList_ofList]
    refine normalizeNewlines_of_forall fun c hc => ?_
    have hmem : c ∈ normalizeNewlines source := by
      rw [← hsource, hsplit, ← hx]
      exact List.mem_append_right _ (List.mem_append_left _ hc)
    exact ne_lineEnd_of_mem_normalizeNewlines hmem
  set u := (State.initial (String.ofList x) {} .fresh none).withBudget s.budget
  have hbeside : r.Beside lead e.stream.reader.rest u.stream.reader := by
    refine ⟨?_, ?_, ⟨[], ?_, rfl, rfl⟩, ?_⟩
    · show s.stream.source = lead ++ (normalizeNewlines (String.ofList x).toList ++ _)
      rw [hnormal, hx, hsplit]
    · show r.rest = Text.suffixAt (normalizeNewlines (String.ofList x).toList) 0 ++ _
      rw [hnormal, Text.suffixAt_zero, hx, hrest]
    · exact (Text.suffixAt_zero _).symm
    · show Lexes (Text.suffixAt (normalizeNewlines (String.ofList x).toList) 0 ++ _) _
      rw [hnormal, Text.suffixAt_zero, hx]
      exact hlexes
  have hmeets : Meets lead x e.stream.reader.rest s₀ u :=
    ⟨hs₀, fun _ => ⟨hbeside, rfl, rfl, rfl, hs.filters, rfl⟩, fun _ => hnormal⟩
  have hin : (s₀.afterGet false false).Inside e.stream.reader.rest := by
    unfold State.Inside
    rw [← hrests]
    exact he.onward.length_le
  obtain ⟨htrails, hsame, -⟩ := hmeets.afterGet hfenced (honward.inside hin) false false
  have hmeets' : Meets lead x e.stream.reader.rest s (u.afterGet false false) := by
    have hlevel := htrails.beside hin
    exact ⟨hs, fun _ => ⟨hlevel.reader.congr hreader'.1 hreader'.2, hs.bare, hlevel.bare', rfl,
      hs.filters, rfl⟩, fun _ => htrails.source_eq hin⟩
  have hlo : Text.byteLength lead ≤ t.location.offset := by
    rw [hlocation, Location.offset_advance_start]
  obtain ⟨w, hw, hrun⟩ := he.echo hfenced ⟨hmeets', hlo⟩ (Nat.le_refl _)
  have hwbeside := hw.beside (Nat.le_refl _)
  have hnil : w.stream.reader.rest = [] :=
    List.append_cancel_right ((List.nil_append _).trans hwbeside.reader.rest_eq).symm
  obtain ⟨u', hselector, heof⟩ := hrun ⟨hwbeside.bare', hnil⟩
  have htext : selector.text = String.ofList x := by
    obtain ⟨read, hread, -, hplace⟩ := hwbeside.reader.read
    have hwsource : w.stream.reader.source = x := hw.source_eq (Nat.le_refl _)
    rw [hnil, List.append_nil, hwsource] at hread
    have hoffset : (Location.start.advance lead).offset = Text.byteLength lead :=
      Location.offset_advance_start lead
    rw [he.text_eq, he.location_eq, ← he.stop_eq, hplace, ← hread, hlocation,
      Location.offset_advance (Location.start.advance lead), hoffset, hsplit, ← hx,
      Text.slice_append]
  rw [htext, he.location_eq, hlocation]
  refine @parseSelector_eq_ok _ _ s.budget depth _ _ ?_ ?_ ?_ ?_ hselector heof
  · show Text.byteLength (normalizeNewlines (String.ofList x).toList) + 64 ≤ s.budget
    rw [hnormal]
    omega
  · rw [hnormal]
    omega
  · show (u.stream.get false false).1 = _
    rw [hsame hin, hget]
    exact congrArg _ hfirst
  · exact hstart

end Parser

/-- **A sound state with nothing ahead** is one from which selectors can be
read. -/
theorem Parse.State.IsSound.steady {s : State} (hs : s.IsSound) (hbare : s.stream.ahead = [])
    (hflush : s.stream.Flush) (hfilters : s.options.ieFilters = false) : s.Steady where
  bare := hbare
  flush := by
    unfold Stream.current Stream.current?
    cases hbehind : s.stream.behind with
    | nil => rfl
    | cons t behind =>
      refine hflush t ?_
      unfold Stream.window
      rw [hbehind, hbare, List.append_nil, List.getLast?_reverse]
      rfl
  filters := hfilters
  roomy := by
    obtain ⟨before, hbefore, -⟩ := hs.stream.isAt
    have hbudget : Text.byteLength s.stream.reader.source + 64 ≤ s.budget := hs.budget
    have hle := Text.length_le_byteLength s.stream.reader.rest
    rw [hbefore, Text.byteLength_append] at hbudget
    omega

/-- **A selector that no escaped newline touches** where it would be taken for
something else: none comes right after the selector, and its first two compounds
are not joined by a blank that one comes after. -/
structure Selector.IsApart (source : List Char) (s : Selector) : Prop where
  /-- None comes right after the selector. -/
  after : ¬EscapesNewline (Text.suffixAt source s.stop.offset)
  /-- None comes after a blank that joins the first two compounds. -/
  blank : s.isParted source = false

/-- **A selector that was read in a run** is read from its text alone. -/
theorem Selector.IsRead.alone {o : Options} {source : List Char} {selector : Selector}
    (h : selector.IsRead o (normalizeNewlines source)) (hfilters : o.ieFilters = false)
    (hrelative : selector.isRelative = false) (hapart : selector.IsApart (normalizeNewlines source)) :
    parseSelector selector.text = .ok (shift (.between selector.location .start) selector) := by
  obtain ⟨s, first, depth, s', hsite, hbudget, hrun, hsource', hends⟩ := h
  have hsource := hsite.source_eq
  rw [Parser.selectorWith_eq] at hrun
  -- the rest, from wherever nothing is ahead
  have hrest : ∀ {t : Token} {s₁ : State}, s₁.IsSound → s₁.Steady →
      s₁.stream.source = normalizeNewlines source → s₁.budget = depth + 1 →
      t.IsCut s₁.stream.source → s₁.stream.reader.location = t.stop →
      Parser.selectorFrom (Parser.groupTo depth) true t s₁ = (.ok (some selector), s') →
      parseSelector selector.text = .ok (shift (.between selector.location .start) selector) :=
    fun {t s₁} hs hsteady hsource hbudget ht hstop hrun =>
      Parser.selectorFrom_alone hsteady hsource (hbudget ▸ hs.budget) hbudget ht hstop
        (hsource'.trans hsource.symm) hends hrelative (hsource ▸ hapart.after) hrun
  cases hsite with
  | bare hsite hflush hfirst =>
    have hs := hsite.isSound
    have hsteady := hs.steady hsite.bare hflush (hsite.options_eq ▸ hfilters)
    have hnext : (Parser.next false false >>= Parser.selectorFrom (Parser.groupTo depth) true) s =
        (.ok (some selector), s') →
        parseSelector selector.text = .ok (shift (.between selector.location .start) selector) := by
      intro hrun
      have hgot := hs.stream.get false false
      obtain ⟨honward, hcurrent⟩ := onward_afterGet hsite.bare false false
      have hcut : (s.stream.get false false).1.IsCut (s.afterGet false false).stream.source := by
        rw [honward.source_eq]
        exact hgot.isCut
      exact hrest (hs.withStream hgot.isSound hgot.source_eq).isSound (honward.steady hsteady)
        (honward.source_eq.trans hsource) (honward.budget_eq.trans hbudget) hcut
        (honward.poised.flush.trans (congrArg Token.stop hcurrent)) hrun
    cases first with
    | none => exact hnext hrun
    | some t =>
      obtain ⟨ht, hstop⟩ := hfirst t rfl
      dsimp only at hrun
      split_ifs at hrun
      · exact hnext hrun
      · exact hrest hs hsteady hsource hbudget (hsource ▸ ht) hstop hrun
  | @escaped t r behind s hs hoptions _ ht hname hcustom hat hstop hblank hseen hstream =>
    have hplain : ¬(t.kind == .uvar) = true := by
      rcases hname with hkind | hkind <;> rw [hkind] <;> decide
    dsimp only at hrun
    rw [if_neg hplain] at hrun
    have hr : r.source = s.stream.source := by rw [hstream]; rfl
    have hbare := Parser.selectorFrom_of_escaped hs hname hcustom hat hstop hr hblank hseen hstream
      hbudget (hsource ▸ hapart.blank) hrun
    have hcut : t.IsCut r.source := by
      rw [hr, hsource]
      exact ht
    have hsound := (hs.stream.bare (congrArg Stream.behind hstream) hat hr hstop).take 2
    have hs₁ := (hs.withStream hsound hr).isSound
    exact hrest hs₁ (hs₁.steady rfl (Stream.flush_bare hstop) (hoptions ▸ hfilters))
      (hr.trans hsource) hbudget hcut hstop hbare

/-! ## Selectors of rules -/

end Stylesheet
