import Stylesheet.Proofs.Matching.Sets

/-!
# Matching is sound

Matchers are made with a catalog, which is asked for a text whether it is a
whole grammar or the text of a term. A catalog is right if what it
remembers is right both ways (`Catalog.IsRight`): as a grammar where the
text is one of the tables, and as the text of a term where it can be one.
Every making keeps this, and what it makes of a term is `Made` from it
(`build_makes`, `compileTo_makes`). Together with `Made.sound` it follows
that matching is sound, whatever has been made before
(`Matcher.run_accepts`).

A grammar that is not plain may be the text of one of its own terms, and
not mean the same as that. It is remembered last, so this does no harm: from
then on only plain texts are asked for.
-/

namespace Stylesheet.Grammar

open Text

/-! ## Makings -/

namespace Compiling

section Rules

variable {α β : Type} {I : Catalog → Prop} {Q : α → Prop} {Q' : β → Prop} {text : String}
  {catalog next : Catalog} {e : Diagnostic}

variable {x : Compiling α} {make : Compiling Matcher}

theorem run_bind_ok {a : α} (h : x.run.run catalog = (.ok a, next)) (f : α → Compiling β) :
    (x >>= f).run.run catalog = (f a).run.run next :=
  congrArg (fun p : Except Diagnostic α × Catalog =>
    (ExceptT.bindCont f p.1 : StateM Catalog (Except Diagnostic β)).run p.2) h

theorem run_bind_error (h : x.run.run catalog = (.error e, next)) (f : α → Compiling β) :
    (x >>= f).run.run catalog = (.error e, next) :=
  congrArg (fun p : Except Diagnostic α × Catalog =>
    (ExceptT.bindCont f p.1 : StateM Catalog (Except Diagnostic β)).run p.2) h

/-- What is remembered is not made again. -/
theorem run_memo_found {m : Matcher} (h : catalog.find? text = some m) (make : Compiling Matcher) :
    (memo text make).run.run catalog = (.ok m, catalog) := by
  have hget : (get : Compiling Catalog).run.run catalog = (.ok catalog, catalog) := rfl
  unfold memo
  rw [run_bind_ok hget, h]
  rfl

/-- What is not remembered is made, and then remembered. -/
theorem run_memo_ok {m : Matcher} (h : catalog.find? text = none)
    (hmake : make.run.run catalog = (.ok m, next)) :
    (memo text make).run.run catalog = (.ok m, next.insert text m) := by
  have hget : (get : Compiling Catalog).run.run catalog = (.ok catalog, catalog) := rfl
  unfold memo
  rw [run_bind_ok hget, h]
  exact run_bind_ok hmake _

theorem run_memo_error (h : catalog.find? text = none)
    (hmake : make.run.run catalog = (.error e, next)) :
    (memo text make).run.run catalog = (.error e, next) := by
  have hget : (get : Compiling Catalog).run.run catalog = (.ok catalog, catalog) := rfl
  unfold memo
  rw [run_bind_ok hget, h]
  exact run_bind_error hmake _

/-- **What a making keeps, yields and needs**: the catalog stays as it should
be, what is made is as it should be, and something is made at least where
`ok`. -/
def Makes (ok : Prop) (I : Catalog → Prop) (Q : α → Prop) (x : Compiling α) : Prop :=
  ∀ catalog, I catalog → I (x.run.run catalog).2 ∧
    (∀ a, (x.run.run catalog).1 = .ok a → Q a) ∧ (ok → ∃ a, (x.run.run catalog).1 = .ok a)

variable {ok : Prop}

theorem Makes.pure {a : α} (h : Q a) : Makes ok I Q (Pure.pure a : Compiling α) := by
  intro catalog hI
  refine ⟨hI, ?_, fun _ => ⟨a, rfl⟩⟩
  rintro _ ⟨⟩
  exact h

theorem Makes.throw (h : ¬ok) (e : Diagnostic) :
    Makes ok I Q (MonadExcept.throw e : Compiling α) := by
  intro catalog hI
  refine ⟨hI, ?_, fun hok => absurd hok h⟩
  rintro _ ⟨⟩

theorem Makes.bind {f : α → Compiling β} (hx : Makes ok I Q x)
    (hf : ∀ a, Q a → Makes ok I Q' (f a)) : Makes ok I Q' (x >>= f) := by
  intro catalog hI
  obtain ⟨hkeeps, hyields, hmakes⟩ := hx catalog hI
  rcases hfirst : x.run.run catalog with ⟨e | a, next⟩ <;> rw [hfirst] at hkeeps hyields hmakes
  · rw [run_bind_error hfirst]
    refine ⟨hkeeps, ?_, fun hok => ?_⟩
    · rintro _ ⟨⟩
    · obtain ⟨_, ⟨⟩⟩ := hmakes hok
  · rw [run_bind_ok hfirst]
    exact hf a (hyields a rfl) next hkeeps

theorem Makes.mono {ok' : Prop} {Q' : α → Prop} (hx : Makes ok I Q x) (hok : ok' → ok)
    (h : ∀ a, Q a → Q' a) : Makes ok' I Q' x :=
  fun catalog hI => ⟨(hx catalog hI).1, fun a ha => h a ((hx catalog hI).2.1 a ha),
    fun h => (hx catalog hI).2.2 (hok h)⟩

theorem Makes.weaken {ok' : Prop} (hx : Makes ok I Q x) (hok : ok' → ok) : Makes ok' I Q x :=
  hx.mono hok fun _ => id

/-- What is found and what is made has to be as it should be, and it has to
be remembered as it should be. -/
theorem Makes.memo {Q : Matcher → Prop} (hmake : Makes ok I Q make)
    (hfound : ∀ catalog m, I catalog → catalog.find? text = some m → Q m)
    (hinsert : ∀ catalog m, I catalog → Q m → I (catalog.insert text m)) :
    Makes ok I Q (Compiling.memo text make) := by
  intro catalog hI
  cases hfind : catalog.find? text with
  | some m =>
    rw [run_memo_found hfind]
    refine ⟨hI, ?_, fun _ => ⟨m, rfl⟩⟩
    rintro _ ⟨⟩
    exact hfound catalog m hI hfind
  | none =>
    obtain ⟨hkeeps, hyields, hmakes⟩ := hmake catalog hI
    rcases hrun : make.run.run catalog with ⟨e | m, next⟩ <;> rw [hrun] at hkeeps hyields hmakes
    · rw [run_memo_error hfind hrun]
      refine ⟨hkeeps, ?_, fun hok => ?_⟩
      · rintro _ ⟨⟩
      · obtain ⟨_, ⟨⟩⟩ := hmakes hok
    · rw [run_memo_ok hfind hrun]
      refine ⟨hinsert next m hkeeps (hyields m rfl), ?_, fun _ => ⟨m, rfl⟩⟩
      rintro _ ⟨⟩
      exact hyields m rfl

end Rules

end Compiling

/-! ## What is remembered -/

/-- **A matcher that was made from a grammar.** -/
def MadeFrom (text : String) (m : Matcher) : Prop :=
  ∃ term, Term.ofString text = .ok term ∧ Made term m

/-- **A matcher that is right for a text**, whichever way the text is met. -/
structure IsRight (R K : String → Prop) (text : String) (m : Matcher) : Prop where
  /-- As a grammar. -/
  read : R text → MadeFrom text m
  /-- As the text of a term. -/
  key : K text → Made (.words text) m

/-- **A catalog in which what is remembered is right**, of texts of some
kind. -/
def Catalog.IsRight (A R K : String → Prop) (catalog : Catalog) : Prop :=
  ∀ text m, catalog.find? text = some m → A text ∧ Grammar.IsRight R K text m

section Right

variable {A R K : String → Prop} {catalog : Catalog} {text : String} {m : Matcher} {term : Term}

theorem Catalog.isRight_empty : Catalog.empty.IsRight A R K := by
  intro text m h
  cases h

theorem Catalog.IsRight.insert (h : catalog.IsRight A R K) (htext : A text)
    (hm : Grammar.IsRight R K text m) : (catalog.insert text m).IsRight A R K := by
  intro text' m' hfind
  have hlookup : ((text, m) :: catalog.entries).lookup text' = some m' := hfind
  rw [List.lookup_cons] at hlookup
  split at hlookup
  · next hsame =>
    cases hlookup
    obtain rfl : text' = text := by simpa using hsame
    exact ⟨htext, hm⟩
  · exact h text' m' hlookup

/-- **A key that is read as itself** is right both ways if it is right one
way. -/
theorem IsReread.madeFrom_iff (h : IsReread text) : MadeFrom text m ↔ Made (.words text) m := by
  obtain ⟨term, hterm, hiff⟩ := h
  constructor
  · rintro ⟨term', hterm', hmade⟩
    cases hterm.symm.trans hterm'
    exact (hiff m).mp hmade
  · exact fun hmade => ⟨term, hterm, (hiff m).mpr hmade⟩

theorem IsRight.of_made (hK : KeyClass R K) (hkey : K text) (h : Made (.words text) m) :
    IsRight R K text m :=
  ⟨fun hread => (hK.reread text hkey hread).madeFrom_iff.mpr h, fun _ => h⟩

theorem IsRight.of_madeFrom (hK : KeyClass R K) (hread : R text) (h : MadeFrom text m) :
    IsRight R K text m :=
  ⟨fun _ => h, fun hkey => (hK.reread text hkey hread).madeFrom_iff.mp h⟩

end Right

/-! ## References that can be followed -/

/-- **A grammar that can be read**, and whose references can be followed to
a depth. -/
def Followable : Nat → String → Prop
  | 0, _ => False
  | n + 1, text => ∃ term, Term.ofString text = .ok term ∧
      ∀ key ∈ term.leaves, ∃ leaf, Leaf.ofKey? (lower key) = some leaf ∧
        ∀ grammar, leaf = .grammar grammar → Followable n grammar

/-- **A text that stands for something**, which can be followed to a depth. -/
def Resolves (n : Nat) (key : String) : Prop :=
  ∃ leaf, Leaf.ofKey? (lower key) = some leaf ∧
    ∀ grammar, leaf = .grammar grammar → Followable n grammar

/-- Words stand for themselves. -/
theorem IsSetText.resolves {K : String → Prop} {text : String}
    (hsmall : ∀ c ∈ text.toList, IsSmall c) (h : IsSetText K text) (n : Nat) :
    Resolves n text := by
  obtain ⟨key, hkey, hleaf⟩ := Option.bind_eq_some_iff.mp (leaf_words hsmall h.2)
  cases hkey
  exact ⟨_, hleaf, nofun⟩

/-! ## Making matchers of terms -/

section Build

open Compiling

variable {A R K : String → Prop} {followed : String → Compiling Matcher} {term : Term}
  {terms : List Term} {text : String} {ms : List Matcher} {n : Nat}

/-- What `followed` has to do: make the matchers of the grammars of the
tables, at least of those that can be followed to a depth. -/
def Follows (I : Catalog → Prop) (n : Nat) (followed : String → Compiling Matcher) : Prop :=
  ∀ grammar, IsTableText grammar →
    Makes (Followable n grammar) I (MadeFrom grammar) (followed grammar)

theorem makeTerm_makes {I : Catalog → Prop} (hfollowed : Follows I n followed)
    (hsmall : ∀ c ∈ text.toList, IsSmall c) :
    Makes (Resolves n text) I (Made (.words text)) (makeTerm followed text text) := by
  have hkey : (Term.words text).key? = some text := congrArg some (lower_eq_self hsmall)
  have hleaf : (Term.words text).leaf? = Leaf.ofKey? text := by
    rw [Term.leaf?, hkey, Option.bind_some]
  have hunknown : Leaf.ofKey? text = none → ¬Resolves n text := by
    rintro hnone ⟨leaf, hsome, -⟩
    rw [lower_eq_self hsmall, hnone] at hsome
    cases hsome
  unfold makeTerm
  split
  · next hstart =>
    refine .pure (.words (hleaf.trans ?_))
    rw [Leaf.ofKey?, if_pos hstart]
  next hstart =>
  split
  · next name hname =>
    split
    · next group hgroup =>
      refine .pure (.group (hleaf.trans ?_))
      rw [Leaf.ofKey?, if_neg hstart, hname]
      exact congrArg (Option.map Leaf.group) hgroup
    · next hgroup =>
      refine .throw (hunknown ?_) _
      rw [Leaf.ofKey?, if_neg hstart, hname]
      exact congrArg (Option.map Leaf.group) hgroup
  next hname =>
  split
  · next type htype =>
    refine .pure (.basic (hleaf.trans ?_))
    rw [Leaf.ofKey?, if_neg hstart, hname, htype]
  next htype =>
  split
  · next hgrammar =>
    refine .throw (hunknown ?_) _
    rw [Leaf.ofKey?, if_neg hstart, hname, htype]
    exact congrArg (Option.map Leaf.grammar) hgrammar
  · next grammar hgrammar =>
    have hof : Leaf.ofKey? text = some (.grammar grammar) := by
      rw [Leaf.ofKey?, if_neg hstart, hname, htype]
      exact congrArg (Option.map Leaf.grammar) hgrammar
    have hfollow : Resolves n text → Followable n grammar := by
      rintro ⟨leaf, hsome, hgrammars⟩
      rw [lower_eq_self hsmall, hof] at hsome
      cases hsome
      exact hgrammars grammar rfl
    have htable := isTableText_of_mem _ (Leaf.grammar_mem hof)
    refine ((hfollowed grammar htable).weaken hfollow).bind ?_
    rintro inner ⟨term, hterm, hmade⟩
    exact .pure (.grammar hkey (hleaf.trans hof) hterm hmade)

variable (hK : KeyClass R K) (hkeys : ∀ key, K key → A key)
  (hfollowed : Follows (Catalog.IsRight A R K) n followed)

include hK hkeys hfollowed

theorem termWith_makes (htext : K text) :
    Makes (Resolves n text) (Catalog.IsRight A R K) (Made (.words text))
      (termWith followed text) := by
  have hsmall := hK.small text htext
  unfold termWith
  dsimp only
  rw [lower_eq_self hsmall]
  refine .memo (makeTerm_makes hfollowed hsmall) ?_ ?_
  · exact fun catalog m hI hfind => (hI text m hfind).2.key htext
  · exact fun catalog m hI hmade => hI.insert (hkeys text htext) (.of_made hK htext hmade)

/-- **Alternatives**, the words among them as one set. -/
theorem makeOneOf_makes {ok : Prop} (hms : MadeAll terms ms)
    (hset : ms.any Matcher.isWords = true → IsSetText K (joinedText ms)) :
    Makes ok (Catalog.IsRight A R K) (Made (.oneOf terms)) (makeOneOf followed ms) := by
  unfold makeOneOf
  rw [List.partition_eq_filter_filter]
  dsimp only
  split_ifs with hsets
  · -- no words
    have hnone : ∀ m ∈ ms, m.isWords = false := by
      have hfilter := List.filter_eq_nil_iff.mp (List.isEmpty_iff.mp hsets)
      exact fun m hm => by simpa using hfilter m hm
    have hothers : ms.filter (not ∘ Matcher.isWords) = ms :=
      List.filter_eq_self.mpr fun m hm => by simp [hnone m hm]
    rw [hothers]
    refine .pure (.oneOf hms.length_eq hms.made ?_)
    exact List.any_eq_false.mpr fun m hm => by simp [hnone m hm]
  · have hany : ms.any Matcher.isWords = true := by
      obtain ⟨m, hm⟩ := List.exists_mem_of_ne_nil _ fun hnil => hsets (List.isEmpty_iff.mpr hnil)
      exact List.any_eq_true.mpr ⟨m, List.mem_of_mem_filter hm, (List.mem_filter.mp hm).2⟩
    have htexts : (ms.filter Matcher.isWords).filterMap wordsText? = ms.filterMap wordsText? := by
      rw [List.filterMap_filter]
      refine congrArg (List.filterMap · ms) (funext fun m => ?_)
      cases m <;> rfl
    have hset := hset hany
    have hsmall := hK.small _ hset.1
    rw [htexts]
    refine ((termWith_makes hK hkeys hfollowed hset.1).weaken fun _ =>
      hset.resolves hsmall n).bind fun m hm => .pure ?_
    rw [(made_words_iff hsmall hset.2).mp hm]
    exact .oneOfWords hms.length_eq hms.made hany

/-- **A repeated matcher.** -/
theorem makeRepeated_makes {ok : Prop} {m : Matcher} {times : Multiplier} (hm : Made term m)
    (hmin : times.marker = some .optional → times.min = 0) :
    Makes ok (Catalog.IsRight A R K) (Made (.repeated term times))
      (makeRepeated followed m times) := by
  unfold makeRepeated
  split_ifs with hcomma
  · have hset : IsSetText K "," := ⟨hK.comma, by decide⟩
    refine ((termWith_makes hK hkeys hfollowed hK.comma).weaken fun _ =>
      hset.resolves (hK.small _ hK.comma) n).bind fun comma hmade => .pure ?_
    exact .commaRepeated hm hmade hcomma hmin
  · exact .pure (.repeated hm (by simpa using hcomma) hmin)

omit hK hkeys hfollowed in
theorem buildAll_makes {I : Catalog → Prop}
    (h : ∀ term ∈ terms, Makes (∀ key ∈ term.leaves, Resolves n key) I (Made term)
      (build followed term)) :
    Makes (∀ key ∈ leavesOfAll terms, Resolves n key) I (MadeAll terms)
      (buildAll followed terms) := by
  induction terms with
  | nil => exact .pure .nil
  | cons term terms ih =>
    rw [buildAll]
    have hfirst : Makes (∀ key ∈ leavesOfAll (term :: terms), Resolves n key) I (Made term)
        (build followed term) :=
      (h term List.mem_cons_self).weaken fun hall key hkey =>
        hall key (List.mem_append_left _ hkey)
    have hrest : Makes (∀ key ∈ leavesOfAll (term :: terms), Resolves n key) I (MadeAll terms)
        (buildAll followed terms) :=
      (ih fun t ht => h t (List.mem_cons_of_mem _ ht)).weaken fun hall key hkey =>
        hall key (List.mem_append_right _ hkey)
    exact hfirst.bind fun m hm => hrest.bind fun ms hms => .pure (.cons hm hms)

/-- **What is made of a term** was made from it, and something is made if
all its texts stand for something. -/
theorem build_makes (hmakable : term.Makable K) :
    Makes (∀ key ∈ term.leaves, Resolves n key) (Catalog.IsRight A R K) (Made term)
      (build followed term) := by
  induction hmakable with
  | @words text htext =>
    rw [build]
    exact (termWith_makes hK hkeys hfollowed htext).weaken fun hall =>
      hall text List.mem_cons_self
  | @reference name hname =>
    rw [build]
    exact (termWith_makes hK hkeys hfollowed hname).mono (fun hall => hall name List.mem_cons_self)
      fun m hm => hm.of_key_eq rfl rfl
  | @function name body _ ih =>
    rw [build]
    cases body with
    | none =>
      rw [buildBody]
      exact .pure .anyCall
    | some body =>
      rw [buildBody]
      refine Makes.bind (Q := fun made => ∃ m, made = some m ∧ Made body m)
        ((ih body rfl).bind fun m hm => .pure ⟨m, rfl, hm⟩) ?_
      rintro _ ⟨m, rfl, hm⟩
      exact .pure (.function hm)
  | oneOf _ hsets ih =>
    rw [build]
    exact (buildAll_makes ih).bind fun ms hms =>
      makeOneOf_makes hK hkeys hfollowed hms (hsets ms hms)
  | someOf _ ih =>
    rw [build]
    exact (buildAll_makes ih).bind fun ms hms => .pure (.someOf hms.length_eq hms.made)
  | allOf _ ih =>
    rw [build]
    exact (buildAll_makes ih).bind fun ms hms => .pure (.allOf hms.length_eq hms.made)
  | sequence _ ih =>
    rw [build]
    exact (buildAll_makes ih).bind fun ms hms => .pure (.sequence hms.length_eq hms.made)
  | repeated _ hmin ih =>
    rw [build]
    exact Makes.bind ih fun m hm => makeRepeated_makes hK hkeys hfollowed hm hmin
  | bracketed _ ih =>
    rw [build]
    exact Makes.bind ih fun m hm => .pure (.bracketed hm)

/-- **The matcher of a grammar**, where `followed` makes those of the
references in it. -/
theorem memo_build_makes (htext : A text) (hread : R text)
    (hmakable : ∀ term, Term.ofString text = .ok term → term.Makable K) :
    Makes (Followable (n + 1) text) (Catalog.IsRight A R K) (MadeFrom text)
      (Compiling.memo text do
        match Term.ofString text with
        | .ok term => build followed term
        | .error e => throw e) := by
  refine .memo ?_ ?_ ?_
  · cases hterm : Term.ofString text with
    | ok term =>
      refine (build_makes hK hkeys hfollowed (hmakable term hterm)).mono ?_
        fun m hm => ⟨term, hterm, hm⟩
      rintro ⟨term', hterm', hall⟩
      cases hterm.symm.trans hterm'
      exact hall
    | error e =>
      refine .throw ?_ _
      rintro ⟨term, hterm', -⟩
      cases hterm.symm.trans hterm'
  · exact fun catalog m hI hfind => (hI text m hfind).2.read hread
  · exact fun catalog m hI hm => hI.insert htext (.of_madeFrom hK hread hm)

end Build

/-! ## Making matchers of grammars -/

section Compile

open Compiling

variable {A R K : String → Prop} {catalog : Catalog} {text : String} {m : Matcher}

/-- **The matcher of a grammar of the tables**, whose references are
followed to a depth. -/
theorem compileTo_makes (hK : KeyClass R K) (hkeys : ∀ key, K key → A key)
    (htables : ∀ text, IsTableText text → A text) (depth : Nat) :
    Follows (Catalog.IsRight A R K) depth (compileTo depth) := by
  induction depth with
  | zero => exact fun grammar _ => .throw id _
  | succ depth ih =>
    intro grammar htable
    rw [compileTo]
    exact memo_build_makes hK hkeys ih (htables grammar htable) (hK.grammar grammar htable)
      fun term hterm => hK.table grammar term htable hterm

/-- **A catalog of plain texts**: what it remembers is right, and of plain
texts and grammars of the tables only. -/
def Catalog.IsPlain (catalog : Catalog) : Prop :=
  catalog.IsRight (fun text => IsTableText text ∨ IsPlainKey text) IsTableText IsPlainKey

theorem Catalog.IsPlain.compile (h : catalog.IsPlain) (htext : IsTableText text) :
    (catalog.compile text).2.IsPlain :=
  (compileTo_makes isPlainKey_class (fun _ => .inr) (fun _ => .inl) _ text htext catalog h).1

/-- What a catalog remembers does not have to be plain to be right. -/
theorem Catalog.IsRight.compile (h : catalog.IsRight (fun _ => True) IsTableText IsPlainKey)
    (htext : IsTableText text) :
    (catalog.compile text).2.IsRight (fun _ => True) IsTableText IsPlainKey ∧
      ∀ m, (catalog.compile text).1 = .ok m → MadeFrom text m :=
  (compileTo_makes isPlainKey_class (fun _ _ => trivial) (fun _ _ => trivial) _ text htext catalog
    h).imp_right And.left

theorem Catalog.compile_found (h : catalog.find? text = some m) :
    catalog.compile text = (.ok m, catalog) := by
  unfold Catalog.compile Grammar.compile compileTo
  exact run_memo_found h _

/-- A grammar that is not remembered is read, and then its matcher is
made. -/
theorem Catalog.compile_missing (h : catalog.find? text = none)
    (hm : (catalog.compile text).1 = .ok m) : ∃ term next, Term.ofString text = .ok term ∧
      (build (compileTo referenceDepth) term).run.run catalog = (.ok m, next) ∧
      (catalog.compile text).2 = next.insert text m := by
  unfold Catalog.compile Grammar.compile compileTo at hm ⊢
  cases hterm : Term.ofString text with
  | error e =>
    rw [hterm] at hm
    have hrun : (memo text (throw e)).run.run catalog = (.error e, catalog) := run_memo_error h rfl
    cases (congrArg Prod.fst hrun).symm.trans hm
  | ok term =>
    rw [hterm] at hm
    dsimp only at hm ⊢
    rcases hrun : (build (compileTo referenceDepth) term).run.run catalog with ⟨e | m', next⟩
    · rw [run_memo_error h hrun] at hm
      cases hm
    · rw [run_memo_ok h hrun] at hm ⊢
      cases hm
      exact ⟨term, next, rfl, hrun, rfl⟩

/-- In a catalog of plain texts any key is remembered as one. -/
theorem Catalog.IsPlain.isRight (h : catalog.IsPlain) : catalog.IsRight (fun _ => True) IsTableText IsKey := by
  intro key m hfind
  obtain ⟨hplain | hplain, hright⟩ := h key m hfind
  · exact ⟨trivial, hright.read, fun hkey => hright.key (hkey.isPlainKey hplain)⟩
  · exact ⟨trivial, hright.read, fun _ => hright.key hplain⟩

/-- **The matcher of any grammar** that a catalog of plain texts comes up
with was made from it, and what is remembered afterwards is right. -/
theorem Catalog.IsPlain.compile_any (h : catalog.IsPlain) (hm : (catalog.compile text).1 = .ok m) :
    MadeFrom text m ∧ (catalog.compile text).2.IsRight (fun _ => True) IsTableText IsPlainKey := by
  cases hfind : catalog.find? text with
  | some found =>
    rw [Catalog.compile_found hfind] at hm ⊢
    cases hm
    obtain ⟨htable | hkey, hright⟩ := h text m hfind
    · exact ⟨hright.read htable, fun key m hkey => ⟨trivial, (h key m hkey).2⟩⟩
    · exact ⟨hkey.isReread.madeFrom_iff.mpr (hright.key hkey), fun key m hkey => ⟨trivial, (h key m hkey).2⟩⟩
  | none =>
    obtain ⟨term, next, hterm, hrun, hafter⟩ := Catalog.compile_missing hfind hm
    have hregular : term.Regular IsKey := Term.ofString_regular Parser.readable_isKey trivial hterm
    have hmakable := hregular.makable isKey_sets
    have hbuild := build_makes (A := fun _ => True) isKey_class (fun _ _ => trivial)
      (compileTo_makes isKey_class (fun _ _ => trivial) (fun _ _ => trivial) referenceDepth)
      hmakable catalog h.isRight
    rw [hrun] at hbuild
    have hmade : MadeFrom text m := ⟨term, hterm, hbuild.2.1 m rfl⟩
    refine ⟨hmade, ?_⟩
    rw [hafter]
    refine Catalog.IsRight.insert (fun key m hfind => ?_) trivial
      ⟨fun _ => hmade, fun hkey => hkey.isReread.madeFrom_iff.mp hmade⟩
    have hright := (hbuild.1 key m hfind).2
    exact ⟨trivial, hright.read, fun hkey => hright.key hkey.isKey⟩

end Compile

/-! ## Histories of a catalog -/

/-- **What becomes of a catalog** in which matchers of plain grammars and of
those in the tables are made. Nothing else is asked for when declarations
are checked. -/
inductive Catalog.Becomes (catalog : Catalog) : Catalog → Prop where
  /-- Nothing is made. -/
  | refl : catalog.Becomes catalog
  /-- One more matcher is made. -/
  | compile {later : Catalog} {text : String} :
      catalog.Becomes later → IsTableText text → catalog.Becomes (later.compile text).2

section Histories

variable {catalog later : Catalog}

theorem Catalog.IsPlain.becomes (h : catalog.IsPlain) (hlater : catalog.Becomes later) :
    later.IsPlain := by
  induction hlater with
  | refl => exact h
  | compile _ htext ih => exact ih.compile htext

theorem Catalog.IsRight.becomes (h : catalog.IsRight (fun _ => True) IsTableText IsPlainKey)
    (hlater : catalog.Becomes later) : later.IsRight (fun _ => True) IsTableText IsPlainKey := by
  induction hlater with
  | refl => exact h
  | compile _ htext ih => exact (ih.compile htext).1

theorem Catalog.IsRight.madeFrom_of_toOption (h : catalog.IsRight (fun _ => True) IsTableText IsPlainKey)
    {grammar : String} {body : Matcher} (htable : IsTableText grammar)
    (hbody : (catalog.compile grammar).1.toOption = some body) : MadeFrom grammar body := by
  refine (h.compile htable).2 body ?_
  generalize (catalog.compile grammar).1 = result at hbody ⊢
  cases result with
  | error e => cases hbody
  | ok m =>
    cases hbody
    rfl

/-- The surroundings that a catalog makes can be relied on. -/
theorem Catalog.IsRight.faithful (h : catalog.IsRight (fun _ => True) IsTableText IsPlainKey)
    (parts : List ValuePart) : (Matching.surroundings catalog parts).Faithful := by
  have hresolve : ∀ grammar body, grammar ∈ tableGrammars →
      (catalog.compile grammar).1.toOption = some body → MadeFrom grammar body :=
    fun grammar _ hmem => h.madeFrom_of_toOption (isTableText_of_mem grammar hmem)
  unfold Matching.surroundings
  constructor
  · dsimp only
    exact hresolve
  · exact Made.inside_accepts hresolve _

/-- **Matching is sound**. Whatever grammar a catalog makes a matcher of, the
grammar can be read, and the parts that a match takes, from any place in
any parts, belong to its term. Matchers of other grammars may have been made
before, and others after it. -/
theorem Matcher.run_accepts {grammar : String} {m : Matcher} {before after : Catalog}
    (hbefore : Catalog.empty.Becomes before) (hm : (before.compile grammar).1 = .ok m)
    (hafter : (before.compile grammar).2.Becomes after) :
    ∃ term, Term.ofString grammar = .ok term ∧
      ∀ (it : Cursor) (n : Nat) (reached : Cursor), m.run after it = (some n, reached) →
        it.pos ≤ reached.pos ∧
          Accepts it.tryAttr term ((it.parts.take reached.pos).drop it.pos) := by
  have hplain : before.IsPlain := Catalog.IsPlain.becomes Catalog.isRight_empty hbefore
  obtain ⟨⟨term, hterm, hmade⟩, hright⟩ := hplain.compile_any hm
  refine ⟨term, hterm, fun it n reached hrun => ?_⟩
  obtain ⟨ps, htakes, haccepts⟩ :=
    hmade.sound ((hright.becomes hafter).faithful it.parts) it n reached hrun
  rw [htakes.eq_slice] at haccepts
  exact ⟨htakes.pos_eq ▸ Nat.le_add_right _ _, haccepts⟩

/-- A word as a part of a value. -/
def wordPart (word : String) : ValuePart :=
  .ofToken ⟨.ident, .ident word 0 false, word, .start, .start⟩

set_option maxRecDepth 10000 in
/-- Two words are a sequence of two words. -/
theorem Matcher.run_accepts_pair : ∃ term, Term.ofString "a b" = .ok term ∧
    Accepts false term [wordPart "a", wordPart "b"] := by
  have hm : (Catalog.empty.compile "a b").1 =
      .ok (.sequence [.words ["a"] "a", .words ["b"] "b"]) := by with_unfolding_all rfl
  obtain ⟨term, hterm, haccepts⟩ := Matcher.run_accepts .refl hm .refl
  have hrun : Matcher.run (.sequence [.words ["a"] "a", .words ["b"] "b"])
      (Catalog.empty.compile "a b").2 (.start [wordPart "a", wordPart "b"]) =
      (some 1, ⟨[wordPart "a", wordPart "b"], 2, false, none, []⟩) := by with_unfolding_all rfl
  exact ⟨term, hterm, (haccepts _ _ _ hrun).2⟩

end Histories

end Stylesheet.Grammar
