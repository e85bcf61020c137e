import Stylesheet.Proofs.Excerpt.Value

/-!
# Parsers that read an excerpt as they read the text

A run on a text and one on an excerpt of it agree until the run on the text
leaves the excerpt. `Mirrors` says so of a parser: if it succeeds, it has read
whole tokens, and if it ends inside the excerpt it comes to the same result
there, moved to the start. The rules below follow the constructs that parsers
are written with, so that most parsers are seen to do so line by line.

A parser that looks at a token beyond the excerpt finds the end there instead.
The runs part then, and the one on the excerpt waits (`Trails`).
-/

namespace Stylesheet

open Parse (State)
open Parse.State (Onward Beside Level Poised)
open Reader (toStart)
open Lexeme (Fenced)

/-- A blank ends every token. -/
theorem Lexeme.fenced_blank {rest : List Char} : Fenced (' ' :: rest) := by
  rintro _ ⟨⟩
  rfl

/-- **A token that lies in an excerpt** `x` after what leads up to it. -/
abbrev Token.LiesIn (lead x : List Char) (t : Token) : Prop :=
  t.Within (Text.byteLength lead) (Text.byteLength lead + Text.byteLength x)

namespace Parse.State

variable {lead x after : List Char} {s s' u : State}

/-- **A state inside an excerpt**: what comes after the excerpt is still to be
read. -/
def Inside (after : List Char) (s : State) : Prop := after.length ≤ s.stream.reader.rest.length

/-- Whoever reads on to a state inside the excerpt has not left it. -/
theorem Onward.inside (h : Onward s s') (hin : s'.Inside after) : s.Inside after :=
  Nat.le_trans hin h.length_le

/-- **A state from which selectors can be read**: nothing is ahead, old filters
are not asked for, and the budget is more than what is left. -/
structure Steady (s : State) : Prop extends Poised s where
  /-- Old filters are not asked for. -/
  filters : s.options.ieFilters = false
  /-- The budget is large enough. -/
  roomy : s.stream.reader.rest.length + 1 < s.budget

theorem Onward.steady (h : Onward s s') (hs : s.Steady) : s'.Steady where
  toPoised := h.poised
  filters := h.options_eq ▸ hs.filters
  roomy := by
    rw [h.budget_eq]
    exact Nat.lt_of_le_of_lt (Nat.succ_le_succ h.length_le) hs.roomy

/-- **A run on a text meets one on an excerpt** `x` as long as it is inside. -/
structure Meets (lead x after : List Char) (s u : State) : Prop where
  /-- Selectors can be read from the state. -/
  steady : s.Steady
  /-- The runs are beside each other. -/
  beside : s.Inside after → Beside lead after s u
  /-- The excerpt is all there is to read in the other run. -/
  source_eq : s.Inside after → u.stream.source = x

/-- What is longer than what is left of the text comes after no state. So whole
tokens are read whatever an excerpt would be. -/
theorem Meets.outside (hs : s.Steady) : Meets [] [] (' ' :: s.stream.reader.rest) s s :=
  ⟨hs, fun hin => absurd hin (Nat.not_succ_le_self _),
    fun hin => absurd hin (Nat.not_succ_le_self _)⟩

/-- **The runs have the same token at hand**, as long as the one on the text is
inside the excerpt. -/
structure Faces (lead x after : List Char) (s u : State) : Prop extends Meets lead x after s u where
  /-- The runs are level. -/
  level : s.Inside after → Level lead after s u

/-- **The run on the excerpt waits at its end** for one that has left it. -/
structure Trails (lead x after : List Char) (s u : State) : Prop extends Faces lead x after s u
    where
  /-- The end of the excerpt is at hand. -/
  ended : ¬s.Inside after → u.stream.current.kind = .eof

theorem Faces.of_level (hs : s.Steady) (h : s.Inside after → Level lead after s u)
    (hsource : s.Inside after → u.stream.source = x) : Faces lead x after s u :=
  ⟨⟨hs, fun hin => (h hin).toBeside, hsource⟩, h⟩

/-- The token at hand lies in the excerpt. -/
theorem Faces.liesIn (h : Faces lead x after s u) (hin : s.Inside after) :
    s.stream.current.LiesIn lead x := by
  rw [← h.source_eq hin]
  exact (h.level hin).within

/-- **The runs meet behind a token** of the excerpt. -/
def Sees (t : Token) (lead x after : List Char) (s u : State) : Prop :=
  Meets lead x after s u ∧ Text.byteLength lead ≤ t.location.offset

/-- **What is cut out of the text** between two places of the excerpt is cut out
of the excerpt. -/
theorem Meets.slice_eq (h : Meets lead x after s u) (hin : s.Inside after) {start stop : Location}
    (hstart : Text.byteLength lead ≤ start.offset)
    (hstop : stop.offset ≤ Text.byteLength lead + Text.byteLength x) :
    Text.slice u.stream.source (shift (toStart lead) start).offset
        (shift (toStart lead) stop).offset =
      Text.slice s.stream.source start.offset stop.offset := by
  have hsource : s.stream.source = lead ++ (u.stream.source ++ after) :=
    (h.beside hin).reader.source_eq
  rw [hsource, offset_shift_toStart, offset_shift_toStart]
  exact Text.slice_within after hstart (h.source_eq hin ▸ hstop)

/-- **What is asked for next** is the same token, or the excerpt ends. -/
theorem Meets.afterGet (ha : Fenced after) (h : Meets lead x after s u) (hin : s.Inside after)
    (placeholders blanks : Bool) :
    Trails lead x after (s.afterGet placeholders blanks) (u.afterGet placeholders blanks) ∧
      ((s.afterGet placeholders blanks).Inside after → (u.stream.get placeholders blanks).1 =
        shift (toStart lead) (s.stream.get placeholders blanks).1) ∧
      (¬(s.afterGet placeholders blanks).Inside after →
        (u.stream.get placeholders blanks).1.kind = .eof) := by
  have hu := h.beside hin
  have hsource : (u.afterGet placeholders blanks).stream.source = x :=
    (u.stream.get_source placeholders blanks).trans (h.source_eq hin)
  have heof : ¬(s.afterGet placeholders blanks).Inside after →
      (u.stream.get placeholders blanks).1.kind = .eof := by
    intro hout
    unfold Inside at hout
    rw [(get_eq hu.bare placeholders blanks).2] at hout
    rw [(get_eq hu.bare' placeholders blanks).1]
    exact hu.reader.lex_beyond ha rfl (Nat.lt_of_not_le hout)
  refine ⟨⟨.of_level ((onward_afterGet hu.bare _ _).1.steady h.steady)
    (fun hin' => (hu.afterGet ha _ _ hin').2) fun _ => hsource, fun hout => ?_⟩,
    fun hin' => (hu.afterGet ha _ _ hin').1, heof⟩
  rw [(onward_afterGet hu.bare' placeholders blanks).2]
  exact heof hout

/-! ## Runs that carry over -/

/-- **A run that carries over to an excerpt** that holds what was read. If the
runs stand in one relation where it starts, they stand in another where it ends,
and something is told of the run on the excerpt. -/
structure Carries (P Q : List Char → List Char → List Char → State → State → Prop) (s s' : State)
    (told : List Char → List Char → State → State → Prop) : Prop where
  /-- Whole tokens are read. -/
  onward : Onward s s'
  /-- What is told of an excerpt. -/
  echo : ∀ {lead x after : List Char} {u : State}, Fenced after → P lead x after s u →
    s'.Inside after → ∃ u', Q lead x after s' u' ∧ told lead x u u'

/-- **A run that carries over, and stops at a place.** -/
structure Arrives (P : List Char → List Char → List Char → State → State → Prop) (s e : State)
    (stop : Location) (told : List Char → List Char → State → State → Prop) : Prop
    extends Carries P Meets s e told where
  /-- The reader is where the run stops. -/
  stop_eq : e.stream.reader.location = stop

section Runs

variable {P Q R : List Char → List Char → List Char → State → State → Prop} {m e : State}
  {stop : Location} {told told' : List Char → List Char → State → State → Prop}

namespace Carries

theorem refl (hs : s.Steady) (htold : ∀ lead x u, told lead x u u) : Carries P P s s told :=
  ⟨.refl hs.toPoised, fun _ hu _ => ⟨_, hu, htold _ _ _⟩⟩

/-- What is told follows from where the runs start and end, too. -/
theorem imp (h : Carries P Q s s' told)
    (himp : ∀ {lead x after : List Char} {u u' : State}, Fenced after → P lead x after s u →
      Q lead x after s' u' → s'.Inside after → told lead x u u' → told' lead x u u') :
    Carries P Q s s' told' :=
  ⟨h.onward, fun ha hu hin =>
    (h.echo ha hu hin).imp fun _ ⟨hu', htold⟩ => ⟨hu', himp ha hu hu' hin htold⟩⟩

theorem weaken (h : Carries P Q s s' told)
    (himp : ∀ lead x u u', told lead x u u' → told' lead x u u') : Carries P Q s s' told' :=
  h.imp fun _ _ _ _ => himp _ _ _ _

theorem trans (h : Carries P Q s m told) (h' : Carries Q R m s' told') :
    Carries P R s s' fun lead x u u' => ∃ v, told lead x u v ∧ told' lead x v u' where
  onward := h.onward.trans h'.onward
  echo ha hu hin := by
    obtain ⟨v, hv, htold⟩ := h.echo ha hu (h'.onward.inside hin)
    obtain ⟨u', hu', htold'⟩ := h'.echo ha hv hin
    exact ⟨u', hu', v, htold, htold'⟩

/-- More may be known where the runs start, -/
theorem of_start (h : Carries P Q s s' told)
    (himp : ∀ {lead x after : List Char} {u : State}, s.Inside after → R lead x after s u →
      P lead x after s u) : Carries R Q s s' told :=
  ⟨h.onward, fun ha hu hin => h.echo ha (himp (h.onward.inside hin) hu) hin⟩

/-- and less where they end. -/
theorem at_end (h : Carries P Q s s' told)
    (himp : ∀ {lead x after : List Char} {u u' : State}, Q lead x after s' u' →
      told lead x u u' → R lead x after s' u') : Carries P R s s' told :=
  ⟨h.onward, fun ha hu hin =>
    (h.echo ha hu hin).imp fun _ ⟨hu', htold⟩ => ⟨himp hu' htold, htold⟩⟩

theorem faces (h : Carries Meets Q s s' told) : Carries Faces Q s s' told :=
  h.of_start fun _ => (·.toMeets)

theorem meets (h : Carries P Faces s s' told) : Carries P Meets s s' told :=
  h.at_end fun hu' _ => hu'.toMeets

theorem arrives (h : Carries P Q s m told) (h' : Arrives Q m e stop told') :
    Arrives P s e stop fun lead x u w => ∃ v, told lead x u v ∧ told' lead x v w :=
  ⟨h.trans h'.toCarries, h'.stop_eq⟩

/-- **A request for a token.** -/
theorem next (hs : s.Steady) (placeholders blanks : Bool) :
    Carries Meets Faces s (s.afterGet placeholders blanks) fun lead x u u' =>
      u' = u.afterGet placeholders blanks ∧ (u.stream.get placeholders blanks).1 =
        shift (toStart lead) (s.stream.get placeholders blanks).1 ∧
          (s.stream.get placeholders blanks).1.LiesIn lead x := by
  obtain ⟨honward, hcurrent⟩ := onward_afterGet hs.bare placeholders blanks
  refine ⟨honward, fun ha hu hin => ?_⟩
  obtain ⟨htrails, hsame, -⟩ := hu.afterGet ha (honward.inside hin) placeholders blanks
  exact ⟨_, htrails.toFaces, rfl, hsame hin, hcurrent ▸ htrails.liesIn hin⟩

/-- The token that was handed out is seen. -/
theorem next_sees (hs : s.Steady) (placeholders blanks : Bool) :
    Carries Meets (Sees (s.stream.get placeholders blanks).1) s (s.afterGet placeholders blanks)
      fun lead _ u u' => u' = u.afterGet placeholders blanks ∧
        (u.stream.get placeholders blanks).1 =
          shift (toStart lead) (s.stream.get placeholders blanks).1 :=
  ((next hs placeholders blanks).at_end fun hu' ⟨_, _, hlies⟩ =>
    ⟨hu'.toMeets, hlies.lo_le⟩).weaken fun _ _ _ _ ⟨hu', htoken, _⟩ => ⟨hu', htoken⟩

end Carries

namespace Arrives

theorem imp (h : Arrives P s e stop told)
    (himp : ∀ {lead x after : List Char} {u w : State}, Fenced after → P lead x after s u →
      Meets lead x after e w → e.Inside after → told lead x u w → told' lead x u w) :
    Arrives P s e stop told' := ⟨h.toCarries.imp himp, h.stop_eq⟩

theorem weaken (h : Arrives P s e stop told)
    (himp : ∀ lead x u w, told lead x u w → told' lead x u w) : Arrives P s e stop told' :=
  ⟨h.toCarries.weaken himp, h.stop_eq⟩

theorem of_start (h : Arrives P s e stop told)
    (himp : ∀ {lead x after : List Char} {u : State}, s.Inside after → R lead x after s u →
      P lead x after s u) : Arrives R s e stop told := ⟨h.toCarries.of_start himp, h.stop_eq⟩

/-- What is told where a token lies in the excerpt. -/
theorem sees {t : Token} (h : Arrives Meets s e stop fun lead x u w =>
    Text.byteLength lead ≤ t.location.offset → told lead x u w) :
    Arrives (Sees t) s e stop told :=
  (h.of_start fun _ => And.left).imp fun _ hu _ _ htold => htold hu.2

end Arrives

end Runs

end Parse.State

open Parse.State (Inside Steady Meets Faces Trails Alike)

namespace Parser

variable {s s' : State} {kinds : List TokenKind} {t : Token}

/-! ## Requests -/

/-- What is demanded of the stream is its answer. -/
theorem demand_apply (f : Stream → Except Diagnostic Token × Stream) (s : State) :
    demand f s = ((f s.stream).1, { s with stream := (f s.stream).2 }) := by
  show ofExcept (f s.stream).1 { s with stream := (f s.stream).2 } = _
  cases (f s.stream).1 <;> rfl

theorem next_apply (placeholders blanks : Bool) (s : State) : next placeholders blanks s =
    (.ok (s.stream.get placeholders blanks).1, s.afterGet placeholders blanks) := rfl

/-- **A token of some kinds that is asked for** is the next one, or the next one
is taken back. -/
theorem matchKinds_apply (kinds : List TokenKind) (s : State) : matchKinds kinds s =
    if kinds.contains (s.stream.get false true).1.kind = true
      then (.ok (some (s.stream.get false true).1), s.afterGet false true)
      else (.ok none, { s with stream := (s.stream.get false true).2.back }) := by
  show (Except.ok (Stream.accept (s.stream.get false true) (kinds.contains ·.kind)).1,
    { s with stream := (Stream.accept (s.stream.get false true) (kinds.contains ·.kind)).2 }) = _
  unfold Stream.accept
  split_ifs <;> rfl

/-- **What is demanded** is a token that passes a test, if there is an answer. -/
theorem demand_eq_ok_iff {f : Stream → Except Diagnostic Token × Stream} {K : Token → Prop}
    {v : Token} {stream : Stream} (hpos : K v → f s.stream = (.ok v, stream))
    (hneg : ¬K v → ∃ e, (f s.stream).1 = .error e) :
    demand f s = (.ok t, s') ↔ t = v ∧ K t ∧ s' = { s with stream } := by
  rw [demand_apply]
  by_cases hv : K v
  · rw [hpos hv]
    constructor
    · rintro ⟨⟩
      exact ⟨rfl, hv, rfl⟩
    · rintro ⟨rfl, -, rfl⟩
      rfl
  · obtain ⟨e, he⟩ := hneg hv
    constructor
    · exact fun h => by cases he.symm.trans (Prod.mk.inj h).1
    · rintro ⟨rfl, h, -⟩
      exact absurd h hv

/-- **A token of some kinds that is demanded** comes next. -/
theorem mustMatch_eq_ok_iff : mustMatch kinds s = (.ok t, s') ↔
    t = (s.stream.get false true).1 ∧ kinds.contains t.kind = true ∧
      s' = s.afterGet false true := by
  unfold mustMatch
  refine demand_eq_ok_iff (K := fun t => kinds.contains t.kind = true) (fun h => ?_)
    (fun h => ?_) <;>
    unfold Stream.mustMatch Stream.matchKinds Stream.accept
  · rw [if_pos h]
  · rw [if_neg h]
    exact ⟨_, rfl⟩

/-- As `mustMatch_eq_ok_iff`, where blanks are passed over. -/
theorem mustMatchSmart_eq_ok_iff : mustMatchSmart kinds s = (.ok t, s') ↔
    t = (s.stream.get false (kinds.contains .whitespace)).1 ∧ kinds.contains t.kind = true ∧
      s' = s.afterGet false (kinds.contains .whitespace) := by
  unfold mustMatchSmart
  refine demand_eq_ok_iff (K := fun t => kinds.contains t.kind = true) (fun h => ?_)
    (fun h => ?_) <;>
    unfold Stream.mustMatchSmart Stream.matchSmart Stream.accept
  · rw [if_pos h]
  · rw [if_neg h]
    exact ⟨_, rfl⟩

end Parser

/-! ## Mirrors -/

/-- **A parser of a text and its mirror on an excerpt** `x`, which stands between
`lead` and `after`. Where the one succeeds it has read whole tokens. If it is
inside the excerpt then, its result is as it should be, the other comes to what
`F` makes of it, and the runs are level. -/
def Mirrors {α : Type} (lead x after : List Char) (p q : Parser α) (s u : State) (F : α → α)
    (J : α → Prop) : Prop :=
  ∀ a s', p s = (.ok a, s') → Onward s s' ∧ (s'.Inside after → J a ∧
    ∃ u', q u = (.ok (F a), u') ∧ Level lead after s' u' ∧ u'.stream.source = x)

namespace Mirrors

variable {α β : Type} {lead x after : List Char} {p q : Parser α} {f g : α → Parser β}
  {s u : State} {F : α → α} {G : β → β} {J K : α → Prop} {J' : β → Prop}

/-! ### Constructs -/

theorem weaken (h : Mirrors lead x after p q s u F J) (himp : ∀ a, J a → K a) :
    Mirrors lead x after p q s u F K := fun a s' hrun =>
  ⟨(h a s' hrun).1, fun hin => ((h a s' hrun).2 hin).imp (himp a) id⟩

theorem pure {a b : α} (h : Faces lead x after s u) (hF : F a = b)
    (hJ : s.Inside after → J a) :
    Mirrors lead x after (Pure.pure a) (Pure.pure b) s u F J := by
  rintro _ _ ⟨⟩
  exact ⟨.refl h.steady.toPoised, fun hin => ⟨hJ hin, u, by rw [hF]; rfl, h.level hin,
    h.source_eq hin⟩⟩

/-- What does not succeed mirrors anything. -/
theorem of_failure (h : ∀ a s', p s ≠ (.ok a, s')) : Mirrors lead x after p q s u F J :=
  fun a s' hrun => absurd hrun (h a s')

theorem failAt (expected : String) (t : Token) (expected' : String) (t' : Token) :
    Mirrors lead x after (Parser.failAt expected t : Parser α) (Parser.failAt expected' t') s u F
      J := of_failure fun _ _ => by rintro ⟨⟩

theorem bind (h : Mirrors lead x after p q s u F J) (hs : s.Steady)
    (hf : ∀ a {s₁ u₁ : State}, Faces lead x after s₁ u₁ → Onward s s₁ →
      (s₁.Inside after → J a) → Mirrors lead x after (f a) (g (F a)) s₁ u₁ G J') :
    Mirrors lead x after (p >>= f) (q >>= g) s u G J' := by
  intro b s' hrun
  obtain ⟨a, s₁, hfirst, hrest⟩ := Parser.bind_eq_ok.mp hrun
  obtain ⟨honward, hmirror⟩ := h a s₁ hfirst
  by_cases hin : s₁.Inside after
  · obtain ⟨hJ, u₁, hfirst', hlevel, hsource⟩ := hmirror hin
    obtain ⟨hmore, hrest'⟩ := hf a (.of_level (honward.steady hs) (fun _ => hlevel)
      fun _ => hsource) honward (fun _ => hJ) b s' hrest
    refine ⟨honward.trans hmore, fun hin' => ?_⟩
    obtain ⟨hJ', u', hrun', hlevel'⟩ := hrest' hin'
    exact ⟨hJ', u', Parser.bind_eq_ok.mpr ⟨F a, u₁, hfirst', hrun'⟩, hlevel'⟩
  · -- outside of the excerpt any state will do
    obtain ⟨hmore, -⟩ := @hf a _ u (.of_level (honward.steady hs) (fun h => absurd h hin)
      fun h => absurd h hin) honward (fun h => absurd h hin) b s' hrest
    exact ⟨honward.trans hmore, fun hin' => absurd (hmore.inside hin') hin⟩

theorem ite {c : Prop} [Decidable c] {p' q' : Parser α}
    (hpos : c → Mirrors lead x after p q s u F J)
    (hneg : ¬c → Mirrors lead x after p' q' s u F J) :
    Mirrors lead x after (if c then p else p') (if c then q else q') s u F J := by
  split_ifs with h
  · exact hpos h
  · exact hneg h

/-! ### Tokens -/

/-- A parser that hands out the next token if it passes a test. -/
theorem of_get (ha : Fenced after) (h : Meets lead x after s u) (placeholders blanks : Bool)
    {p : Parser Token} {K : Token → Prop}
    (hp : ∀ {s s' : State} {t : Token}, p s = (.ok t, s') ↔
      t = (s.stream.get placeholders blanks).1 ∧ K t ∧ s' = s.afterGet placeholders blanks)
    (hK : ∀ t, K t → K (shift (toStart lead) t)) :
    Mirrors lead x after p p s u (shift (toStart lead)) fun t => t.LiesIn lead x ∧ K t := by
  intro t s' hrun
  obtain ⟨rfl, ht, rfl⟩ := hp.mp hrun
  obtain ⟨honward, hcurrent⟩ := State.onward_afterGet h.steady.bare placeholders blanks
  refine ⟨honward, fun hin => ?_⟩
  obtain ⟨htrails, hsame, -⟩ := h.afterGet ha (honward.inside hin) placeholders blanks
  refine ⟨⟨?_, ht⟩, u.afterGet placeholders blanks, hp.mpr ⟨(hsame hin).symm, hK _ ht, rfl⟩,
    htrails.level hin, htrails.source_eq hin⟩
  rw [← hcurrent]
  exact htrails.toFaces.liesIn hin

theorem next (ha : Fenced after) (h : Meets lead x after s u) (placeholders blanks : Bool) :
    Mirrors lead x after (Parser.next placeholders blanks) (Parser.next placeholders blanks) s u
      (shift (toStart lead)) (Token.LiesIn lead x) := by
  refine (of_get (K := fun _ => True) ha h placeholders blanks ?_ fun _ => id).weaken
    fun _ => And.left
  intro s s' t
  constructor
  · rintro ⟨⟩
    exact ⟨rfl, trivial, rfl⟩
  · rintro ⟨rfl, -, rfl⟩
    rfl

theorem mustMatch (ha : Fenced after) (h : Meets lead x after s u) (kinds : List TokenKind) :
    Mirrors lead x after (Parser.mustMatch kinds) (Parser.mustMatch kinds) s u
      (shift (toStart lead)) fun t => t.LiesIn lead x ∧ kinds.contains t.kind = true :=
  of_get ha h false true Parser.mustMatch_eq_ok_iff fun _ => id

theorem mustMatchSmart (ha : Fenced after) (h : Meets lead x after s u)
    (kinds : List TokenKind) :
    Mirrors lead x after (Parser.mustMatchSmart kinds) (Parser.mustMatchSmart kinds) s u
      (shift (toStart lead)) fun t => t.LiesIn lead x ∧ kinds.contains t.kind = true :=
  of_get ha h false (kinds.contains .whitespace) Parser.mustMatchSmart_eq_ok_iff fun _ => id

theorem current (h : Faces lead x after s u) :
    Mirrors lead x after Parser.current Parser.current s u (shift (toStart lead))
      (Token.LiesIn lead x) := by
  rintro _ _ ⟨⟩
  refine ⟨.refl h.steady.toPoised, fun hin => ⟨h.liesIn hin, u, ?_, h.level hin, h.source_eq hin⟩⟩
  rw [← (h.level hin).current]
  rfl

/-! ### The rest of the state -/

/-- The source between two places of the excerpt. -/
theorem slice (h : Faces lead x after s u) {start stop start' stop' : Location}
    (hstart : s.Inside after → Text.byteLength lead ≤ start.offset)
    (hstop : s.Inside after → stop.offset ≤ Text.byteLength lead + Text.byteLength x)
    (hstart' : s.Inside after → start' = shift (toStart lead) start)
    (hstop' : s.Inside after → stop' = shift (toStart lead) stop) :
    Mirrors lead x after (Parser.slice start.offset stop.offset)
      (Parser.slice start'.offset stop'.offset) s u id fun _ => True := by
  rintro _ _ ⟨⟩
  refine ⟨.refl h.steady.toPoised, fun hin => ⟨trivial, u, ?_, h.level hin, h.source_eq hin⟩⟩
  rw [hstart' hin, hstop' hin]
  exact congrArg (fun text => (Except.ok (String.ofList text), u))
    (h.slice_eq hin (hstart hin) (hstop hin))

/-- A change that reading does not look at. -/
theorem update (h : Faces lead x after s u) {m : State → State} (hm : ∀ s, Alike s (m s)) :
    Mirrors lead x after (Parser.update m) (Parser.update m) s u id fun _ => True := by
  rintro _ _ ⟨⟩
  refine ⟨(hm s).onward h.steady.toPoised, fun hin => ?_⟩
  have hin' : s.Inside after := ((hm s).onward h.steady.toPoised).inside hin
  refine ⟨trivial, m u, rfl, (h.level hin').of_alike (hm s) (hm u), ?_⟩
  rw [(hm u).stream_eq]
  exact h.source_eq hin'

theorem setPair (h : Faces lead x after s u) (pair : Option TokenKind) :
    Mirrors lead x after (Parser.update fun s => { s with pair := pair })
      (Parser.update fun s => { s with pair := pair }) s u id fun _ => True :=
  update h fun _ => ⟨rfl, rfl, rfl⟩

theorem expr (ha : Fenced after) (h : Faces lead x after s u) (ends : List TokenKind)
    (raw : Bool) : Mirrors lead x after (Parser.expr ends raw) (Parser.expr ends raw) s u
      (shift (toStart lead)) fun _ => True := by
  intro v s' hrun
  have hechoes := Parser.exprTo_echoes s.budget
  have honward := hechoes.onward ends raw h.steady.toPoised h.steady.filters hrun
  refine ⟨honward, fun hin => ?_⟩
  have hlevel := h.level (honward.inside hin)
  obtain ⟨u', hrun', hlevel'⟩ := hechoes.echo ends raw ha h.steady.toPoised hlevel hrun hin
  refine ⟨trivial, u', ?_, hlevel', ?_⟩
  · show Parser.exprTo u.budget ends raw u = _
    rw [hlevel.budget_eq]
    exact hrun'
  · rw [hlevel.toBeside.source_eq_of_onward honward hlevel'.toBeside]
    exact h.source_eq (honward.inside hin)

end Mirrors

end Stylesheet
