import Stylesheet.Proofs.Ending.Reading
import Stylesheet.Proofs.Ending.References
import Stylesheet.Proofs.Matching.Catalog

/-!
# Making a matcher ends

A making without bounds ends with what the bounded one comes to, in every
catalog that comes about (`Unbounded.run_compile`). The induction is on how far
the references of a grammar can be followed (`Grounded`); within one grammar
it is on its term.

The words that are put together in a set are made a matcher of by their text,
and this is the one place where a reference could turn up that no grammar has.
It does not: no words in a catalog that comes about begin like a reference
(`Catalog.IsSound`).
-/

namespace Stylesheet.Grammar

open Text

/-! ## Catalogs that come about -/

/-- **A matcher that is no set of words**, or one whose text does not begin like
a reference. -/
def Matcher.IsSound (m : Matcher) : Prop :=
  ∀ words text, m = .words words text → text.toList.head? ≠ some '<'

/-- **A catalog of such matchers.** -/
def Catalog.IsSound (catalog : Catalog) : Prop :=
  ∀ text m, catalog.find? text = some m → m.IsSound

/-- **The catalogs that come about**: from the empty one on, grammars and
single terms are made matchers of, whether that succeeds or not. -/
inductive Catalog.Reached : Catalog → Prop where
  /-- Nothing has been made. -/
  | empty : Catalog.empty.Reached
  /-- The matcher of a grammar is asked for. -/
  | compile {catalog : Catalog} (text : String) : catalog.Reached →
      (catalog.compile text).2.Reached
  /-- The matcher of a single term is asked for. -/
  | term {catalog : Catalog} (text : String) : catalog.Reached → (catalog.term text).2.Reached

theorem Catalog.IsSound.insert {catalog : Catalog} (h : catalog.IsSound) (text : String)
    {m : Matcher} (hm : m.IsSound) : (catalog.insert text m).IsSound := by
  intro text' m' hfind
  have hlookup : ((text, m) :: catalog.entries).lookup text' = some m' := hfind
  rw [List.lookup_cons] at hlookup
  split at hlookup
  · cases hlookup
    exact hm
  · exact h text' m' hlookup

theorem Matcher.isSound_of_not_words {m : Matcher} (h : m.isWords = false) : m.IsSound := by
  rintro words text rfl
  cases h

theorem isSound_combine {wrap : List Matcher → Matcher} {ms : List Matcher}
    (hwrap : (wrap ms).isWords = false) (h : ∀ m ∈ ms, m.IsSound) :
    (combine wrap ms).IsSound := by
  rcases combine_cases wrap ms with hms | ⟨m, rfl, hm⟩
  · rw [hms]
    exact Matcher.isSound_of_not_words hwrap
  · rw [hm]
    exact h m List.mem_cons_self

/-- **Words with bars in between** begin like a reference only if the first do. -/
theorem head?_intercalate_bars {texts : List String}
    (h : ∀ text ∈ texts, text.toList.head? ≠ some '<') :
    (" | ".intercalate texts).toList.head? ≠ some '<' := by
  rw [toList_intercalate_bars]
  match texts with
  | [] =>
    rintro ⟨⟩
  | [text] => exact h text List.mem_cons_self
  | text :: next :: texts =>
    have htext := h text List.mem_cons_self
    rw [List.map_cons, List.map_cons, joinBars]
    cases hcs : text.toList with
    | nil =>
      rintro ⟨⟩
    | cons c cs =>
      rw [hcs] at htext
      exact htext

namespace Unbounded

/-! ## Makings that end -/

section Rules

variable {α β : Type} {catalog next : Catalog}

theorem run_bind_ok {x : Making α} {a : α} (h : x.run.run catalog = some (.ok a, next))
    (f : α → Making β) : (x >>= f).run.run catalog = (f a).run.run next :=
  congrArg (fun answer : Option (Except Diagnostic α × Catalog) => answer.bind fun p =>
    (ExceptT.bindCont f p.1 : StateT Catalog Option (Except Diagnostic β)).run p.2) h

/-- **A making that ends** as a bounded one does, in every catalog that is
sound; the catalog stays sound, and what is made is as it should be. -/
structure EndsAs (Q : α → Prop) (x : Nat → Making α) (y : Compiling α) : Prop where
  /-- What the bounded making keeps and yields. -/
  makes : Compiling.Makes False Catalog.IsSound Q y
  /-- It ends alike. -/
  ends : ∀ catalog : Catalog, catalog.IsSound →
    Ends (fun depth => (x depth).run.run catalog) (y.run.run catalog)

variable {Q : α → Prop} {Q' : β → Prop} {x : Nat → Making α} {y : Compiling α}

theorem EndsAs.pure {a : α} (h : Q a) : EndsAs Q (fun _ => Pure.pure a) (Pure.pure a) :=
  ⟨.pure h, fun _ _ => .known _⟩

theorem EndsAs.throw (e : Diagnostic) :
    EndsAs Q (fun _ => MonadExcept.throw e) (MonadExcept.throw e) :=
  ⟨.throw id e, fun _ _ => .known _⟩

/-- One more call. -/
theorem EndsAs.call (h : EndsAs Q (fun depth => x (depth + 1)) y) : EndsAs Q x y :=
  ⟨h.makes, fun catalog hcatalog => .call (h.ends catalog hcatalog)⟩

theorem EndsAs.bind {f : Nat → α → Making β} {g : α → Compiling β} (h : EndsAs Q x y)
    (hf : ∀ a, Q a → EndsAs Q' (fun depth => f depth a) (g a)) :
    EndsAs Q' (fun depth => x depth >>= f depth) (y >>= g) := by
  refine ⟨h.makes.bind fun a ha => (hf a ha).makes, fun catalog hcatalog => ?_⟩
  obtain ⟨hkeeps, hyields, -⟩ := h.makes catalog hcatalog
  have hends := h.ends catalog hcatalog
  rcases hrun : y.run.run catalog with ⟨e | a, next⟩ <;> rw [hrun] at hkeeps hyields hends
  · rw [Compiling.run_bind_error hrun]
    exact hends.bind (.known _)
  · rw [Compiling.run_bind_ok hrun]
    exact hends.bind ((hf a (hyields a rfl)).ends next hkeeps)

/-- The remembered matcher of a text, or one that is made now and then
remembered. -/
def memo (text : String) (make : Making Matcher) : Making Matcher := do
  match (← get).find? text with
  | some m => return m
  | none =>
    let m ← make
    modify (·.insert text m)
    return m

theorem EndsAs.memo {text : String} {make : Nat → Making Matcher} {make' : Compiling Matcher}
    (h : EndsAs Matcher.IsSound make make') :
    EndsAs Matcher.IsSound (fun depth => memo text (make depth)) (Compiling.memo text make') := by
  refine ⟨h.makes.memo (fun catalog m hcatalog hfind => hcatalog text m hfind)
    fun catalog m hcatalog hm => hcatalog.insert text hm, fun catalog hcatalog => ?_⟩
  have hget : (get : Making Catalog).run.run catalog = some (.ok catalog, catalog) := rfl
  unfold Unbounded.memo
  simp only [run_bind_ok hget]
  cases hfind : catalog.find? text with
  | some m =>
    rw [Compiling.run_memo_found hfind]
    exact .known _
  | none =>
    have hends := h.ends catalog hcatalog
    rcases hrun : make'.run.run catalog with ⟨e | m, next⟩ <;> rw [hrun] at hends
    · rw [Compiling.run_memo_error hfind hrun]
      exact hends.bind (.known _)
    · rw [Compiling.run_memo_ok hfind hrun]
      exact hends.bind (.known _)

end Rules

/-! ## Terms -/

section Terms

variable {followed : String → Compiling Matcher} {text key : String}

/-- **What is followed from a text ends**. -/
def FollowedEnds (followed : String → Compiling Matcher) (key : String) : Prop :=
  ∀ grammar, FollowsTo key grammar →
    EndsAs Matcher.IsSound (fun depth => compile depth grammar) (followed grammar)

theorem makeTerm_ends (h : FollowedEnds followed key) :
    EndsAs Matcher.IsSound (fun depth => makeTerm depth text key)
      (Grammar.makeTerm followed text key) := by
  have hstarts : Text.startsWith key "<" = true ↔ key.toList.head? = some '<' := by
    unfold Text.startsWith
    cases key.toList with
    | nil => exact iff_of_false (by decide) (by decide)
    | cons c cs =>
      change (('<' == c) && List.isPrefixOf [] cs) = true ↔ some c = some '<'
      rw [List.isPrefixOf_nil_left, Bool.and_true, beq_iff_eq, Option.some.injEq]
      exact eq_comm
  refine .call ?_
  simp only [makeTerm]
  unfold Grammar.makeTerm
  cases hstart : Text.startsWith key "<" with
  | false =>
    refine .pure ?_
    rintro _ _ ⟨⟩ hhead
    rw [hstarts.mpr hhead] at hstart
    cases hstart
  | true =>
    simp only [Bool.not_true, Bool.false_eq_true, if_false]
    cases (Text.stripStart "<fn:" text).bind (Text.stripEnd ">") with
    | some name =>
      dsimp only
      cases Property.functionGroup? name with
      | some group => exact .pure (Matcher.isSound_of_not_words rfl)
      | none => exact .throw _
    | none =>
      dsimp only
      cases hbasic : BasicType.ofName? key with
      | some type => exact .pure (Matcher.isSound_of_not_words rfl)
      | none =>
        dsimp only
        cases hgrammar : referenceGrammar? key with
        | none => exact .throw _
        | some grammar =>
          refine (h grammar ⟨hstarts.mp hstart, hbasic, hgrammar⟩).bind fun inner hinner => .pure ?_
          split_ifs
          · exact Matcher.isSound_of_not_words rfl
          · exact hinner

theorem term_ends (h : FollowedEnds followed (lower text)) :
    EndsAs Matcher.IsSound (fun depth => term depth text) (termWith followed text) := by
  refine .call ?_
  simp only [term]
  exact (makeTerm_ends h).memo

/-- Words are followed nowhere. -/
theorem followedEnds_words (h : text.toList.head? ≠ some '<') :
    FollowedEnds followed (lower text) := by
  intro grammar hfollows
  exact absurd ((head?_lower_mark isMark_angle).mp hfollows.angle) h

/-- **Words are put together** by their texts, and those are words again. -/
theorem oneOf_ends {ms : List Matcher} (hms : ∀ m ∈ ms, m.IsSound) :
    EndsAs Matcher.IsSound (fun depth => do
      let (sets, others) := ms.partition Matcher.isWords
      if sets.isEmpty then return combine .oneOf others
      else
        let words ← term depth (" | ".intercalate (sets.filterMap wordsText?))
        return combine .oneOf (words :: others)) (makeOneOf followed ms) := by
  unfold makeOneOf
  rw [List.partition_eq_filter_filter]
  have hothers : ∀ m ∈ ms.filter (not ∘ Matcher.isWords), m.IsSound :=
    fun m hm => hms m (List.mem_of_mem_filter hm)
  dsimp only
  split_ifs with hsets
  · exact .pure (isSound_combine rfl hothers)
  · have htexts : ∀ text ∈ (ms.filter Matcher.isWords).filterMap wordsText?,
        text.toList.head? ≠ some '<' := by
      intro text htext
      obtain ⟨m, hm, hmtext⟩ := List.mem_filterMap.mp htext
      cases m with
      | words words text' =>
        cases hmtext
        exact hms _ (List.mem_of_mem_filter hm) words text rfl
      | _ => cases hmtext
    refine (term_ends (followedEnds_words (head?_intercalate_bars htexts))).bind
      fun words hwords => .pure (isSound_combine rfl ?_)
    exact List.forall_mem_cons.mpr ⟨hwords, hothers⟩

theorem repeated_ends {inner : Matcher} {m : Multiplier} :
    EndsAs Matcher.IsSound (fun depth => do
      if m.comma then
        let comma ← term depth ","
        return .repeated inner m (some (.sequence [comma, inner]))
      else return .repeated inner m none) (makeRepeated followed inner m) := by
  unfold makeRepeated
  split_ifs
  · exact (term_ends (followedEnds_words (by decide))).bind fun comma _ =>
      .pure (Matcher.isSound_of_not_words rfl)
  · exact .pure (Matcher.isSound_of_not_words rfl)

mutual
theorem build_ends : ∀ t : Term, (∀ key ∈ t.leaves, FollowedEnds followed (lower key)) →
    EndsAs Matcher.IsSound (fun depth => build depth t) (Grammar.build followed t)
  | .words text, h => by
    refine .call ?_
    simp only [build, Grammar.build]
    exact term_ends (h text List.mem_cons_self)
  | .reference name, h => by
    refine .call ?_
    simp only [build, Grammar.build]
    exact term_ends (h name List.mem_cons_self)
  | .function name none, h => by
    refine .call ?_
    simp only [build, Grammar.build, buildBody, pure_bind]
    exact .pure (Matcher.isSound_of_not_words rfl)
  | .function name (some body), h => by
    refine .call ?_
    simp only [build, Grammar.build, buildBody, bind_assoc, pure_bind]
    exact (build_ends body h).bind fun m _ => .pure (Matcher.isSound_of_not_words rfl)
  | .oneOf members, h => by
    refine .call ?_
    simp only [build, Grammar.build]
    exact (buildAll_ends members h).bind fun ms hms => oneOf_ends hms
  | .someOf members, h => by
    refine .call ?_
    simp only [build, Grammar.build]
    exact (buildAll_ends members h).bind fun ms hms => .pure (isSound_combine rfl hms)
  | .allOf members, h => by
    refine .call ?_
    simp only [build, Grammar.build]
    exact (buildAll_ends members h).bind fun ms hms => .pure (isSound_combine rfl hms)
  | .sequence members, h => by
    refine .call ?_
    simp only [build, Grammar.build]
    exact (buildAll_ends members h).bind fun ms hms => .pure (isSound_combine rfl hms)
  | .repeated t m, h => by
    refine .call ?_
    simp only [build, Grammar.build]
    exact (build_ends t h).bind fun inner _ => repeated_ends
  | .bracketed t, h => by
    refine .call ?_
    simp only [build, Grammar.build]
    exact (build_ends t h).bind fun m _ => .pure (Matcher.isSound_of_not_words rfl)

theorem buildAll_ends : ∀ ts : List Term,
    (∀ key ∈ leavesOfAll ts, FollowedEnds followed (lower key)) →
    EndsAs (fun ms => ∀ m ∈ ms, m.IsSound) (fun depth => buildAll depth ts)
      (Grammar.buildAll followed ts)
  | [], _ => by
    refine .call ?_
    simp only [buildAll, Grammar.buildAll]
    exact .pure (List.forall_mem_nil _)
  | t :: ts, h => by
    refine .call ?_
    simp only [buildAll, Grammar.buildAll]
    refine (build_ends t fun key hkey => h key (List.mem_append_left _ hkey)).bind fun m hm => ?_
    refine (buildAll_ends ts fun key hkey => h key (List.mem_append_right _ hkey)).bind
      fun ms hms => .pure ?_
    exact List.forall_mem_cons.mpr ⟨hm, hms⟩
end

end Terms

/-! ## Grammars -/

/-- The bounded making of what was read. -/
def buildRead (followed : String → Compiling Matcher) :
    Except Diagnostic Term → Compiling Matcher
  | .ok t => Grammar.build followed t
  | .error e => throw e

/-- **The matcher of a grammar** whose references end within some steps. -/
theorem compile_ends {steps : Nat} : ∀ {text : String}, Grounded steps text →
    EndsAs Matcher.IsSound (fun depth => compile depth text) (compileTo steps text) := by
  induction steps with
  | zero => exact fun h => absurd h id
  | succ steps ih =>
    intro text h
    have hmake : EndsAs Matcher.IsSound (fun depth => make depth text)
        (buildRead (compileTo steps) (Term.ofString text)) := by
      have hread : EndsAs (fun t => t = Term.ofString text)
          (fun depth => (liftM (read depth text) : Making (Except Diagnostic Term)))
          (pure (Term.ofString text)) :=
        ⟨.pure rfl, fun catalog _ => ((read_ends text).bind
          (.known (Term.ofString text, catalog))).bind
            (.known (Except.ok (Term.ofString text), catalog))⟩
      refine .call ?_
      simp only [make]
      refine EndsAs.bind (g := buildRead (compileTo steps)) hread ?_
      rintro _ rfl
      cases hterm : Term.ofString text with
      | error e => exact .throw e
      | ok t =>
        exact build_ends t fun key hkey grammar hfollows =>
          ih (h grammar ⟨t, hterm, key, hkey, hfollows⟩)
    refine .call ?_
    simp only [compile]
    exact hmake.memo

theorem compile_endsAs (text : String) :
    EndsAs Matcher.IsSound (fun depth => compile depth text) (Grammar.compile text) := by
  have hsteps := length_referenceOrder
  unfold Grammar.compile
  generalize referenceDepth = steps at hsteps ⊢
  exact compile_ends (grounded hsteps text)

theorem term_endsAs (text : String) :
    EndsAs Matcher.IsSound (fun depth => term depth text) (Grammar.term text) := by
  have hsteps := length_referenceOrder
  unfold Grammar.term
  generalize referenceDepth = steps at hsteps ⊢
  exact term_ends fun _ hfollows => compile_ends (hfollows.grounded hsteps).succ

end Unbounded

theorem Catalog.Reached.isSound {catalog : Catalog} (h : catalog.Reached) : catalog.IsSound := by
  induction h with
  | empty =>
    intro text m hfind
    cases hfind
  | compile text _ ih => exact ((Unbounded.compile_endsAs text).makes _ ih).1
  | term text _ ih => exact ((Unbounded.term_endsAs text).makes _ ih).1

namespace Unbounded

variable {catalog : Catalog}

/-- **Making the matcher of a grammar ends** with what the bounded making
comes to. -/
theorem run_compile (h : catalog.Reached) (text : String) :
    Ends (fun depth => (compile depth text).run.run catalog) (catalog.compile text) :=
  (compile_endsAs text).ends catalog h.isSound

/-- **Making the matcher of a term ends** alike. -/
theorem run_term (h : catalog.Reached) (text : String) :
    Ends (fun depth => (term depth text).run.run catalog) (catalog.term text) :=
  (term_endsAs text).ends catalog h.isSound

end Unbounded

end Stylesheet.Grammar
