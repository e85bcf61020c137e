import Stylesheet.Proofs.Excerpt.Scanners
import Stylesheet.Proofs.HiddenTokens
import Stylesheet.Proofs.LetterCase

/-!
# Marks of vendors

A name that begins with a dash is divided at its second dash: what comes up to
there is the mark of a vendor, and what follows is the name proper. Both are
said in small letters, and written together they are always the whole name
(`vendor_marks`).

For at-keywords the place of the second dash is looked for in the small form of
the name. For functions it is looked for in the name as it was written, beyond
the first two characters, and taken for a place of the small form. That goes
well as long as the vendor's name takes as many bytes in small letters, and does
not begin with a dash that an escape hides; in all other cases the name is
divided at the wrong place.
-/

namespace Stylesheet

namespace Text

/-! ## The small form of a text with dashes -/

/-- No character counts as one in a word across a dash. -/
theorem casedComesFirst_dash (cs ds : List Char) :
    casedComesFirst (cs ++ '-' :: ds) = casedComesFirst cs := by
  have hdash : inRanges caseIgnorableRanges '-' = false ∧ inRanges casedRanges '-' = false := by
    decide +kernel
  unfold casedComesFirst
  induction cs with
  | nil =>
    rw [List.nil_append, List.dropWhile_cons_of_neg (by rw [hdash.1]; exact Bool.false_ne_true)]
    exact hdash.2
  | cons c cs ih =>
    rw [List.cons_append]
    by_cases hc : inRanges caseIgnorableRanges c = true
    · rw [List.dropWhile_cons_of_pos hc, List.dropWhile_cons_of_pos hc]
      exact ih
    · rw [List.dropWhile_cons_of_neg hc, List.dropWhile_cons_of_neg hc]

/-- What a character becomes depends on whether there is a word around it. -/
theorem smallForm_congr {before before' cs cs' : List Char} (c : Char)
    (hbefore : casedComesFirst before = casedComesFirst before')
    (hcs : casedComesFirst cs = casedComesFirst cs') :
    smallForm before c cs = smallForm before' c cs' := by
  unfold smallForm
  rw [hbefore, hcs]

/-- What stands before a dash has no say in what comes after it. -/
theorem lowerAfter_dash (before after cs : List Char) :
    lowerAfter (before ++ '-' :: after) cs = lowerAfter before cs := by
  induction cs generalizing before with
  | nil => rfl
  | cons c cs ih =>
    rw [lowerAfter_cons, lowerAfter_cons, ← List.cons_append, ih,
      smallForm_congr c (casedComesFirst_dash before after) rfl]

/-- **The small form of a text with a dash** has the small forms of what stands
on both sides of it. -/
theorem lowerAfter_append_dash (before cs ds : List Char) :
    lowerAfter before (cs ++ '-' :: ds) = lowerAfter before cs ++ '-' :: lowerAfter [] ds := by
  induction cs generalizing before with
  | nil =>
    rw [List.nil_append, lowerAfter_cons, smallForm_of_isSmall (isSmall_of_mark (by decide))]
    exact congrArg ('-' :: ·) (lowerAfter_dash [] before ds)
  | cons c cs ih =>
    rw [List.cons_append, lowerAfter_cons, lowerAfter_cons, ih, List.append_assoc,
      smallForm_congr c rfl (casedComesFirst_dash cs ds)]

/-- A dash stands in a small form if it stands in the text. -/
theorem mem_lowerAfter_dash (before cs : List Char) :
    '-' ∈ lowerAfter before cs ↔ '-' ∈ cs := by
  rw [← List.count_pos_iff, ← List.count_pos_iff, count_lowerAfter before cs (by decide)]

/-- **A text divided at a byte offset** is its two parts, written together. -/
theorem eq_of_cut {s : String} {n : Nat} {front back : String} (hback : fromByte? s n = some back)
    (hfront : uptoByte? s n = some front) :
    s.toList = front.toList ++ back.toList ∧ byteLength front.toList = n := by
  obtain ⟨ds, hds, rfl⟩ := Option.map_eq_some_iff.mp hfront
  obtain ⟨es, hes, rfl⟩ := Option.map_eq_some_iff.mp hback
  obtain ⟨rest, hs, rfl⟩ := takeBytes?_eq_some hds
  rw [hs, dropBytes?_append] at hes
  obtain rfl := Option.some.inj hes
  rw [String.toList_ofList, String.toList_ofList]
  exact ⟨hs, rfl⟩

end Text

/-- **The mark of a vendor**: a dash, at least one character that is none, and
a dash. -/
def IsVendorMark (mark : String) : Prop :=
  ∃ vendor : List Char, mark.toList = '-' :: (vendor ++ ['-']) ∧ vendor ≠ [] ∧ '-' ∉ vendor

namespace Lexeme

open Text

/-! ## Dividing a name -/

/-- **A divided name** is its two parts, written together. -/
theorem splitVendor_eq_some {name bare mark : String} {n : Nat}
    (h : splitVendor name n = (bare, some mark)) :
    name.toList = mark.toList ++ bare.toList ∧ byteLength mark.toList = n ∧ n ≠ 0 := by
  unfold splitVendor at h
  split_ifs at h with hzero
  · cases h
  · split at h
    · next rest front hrest hfront =>
      obtain ⟨rfl, ⟨⟩⟩ := Prod.mk.inj h
      exact ⟨(eq_of_cut hrest hfront).1, (eq_of_cut hrest hfront).2, hzero⟩
    · cases h

/-- **Where the mark of a function ends**, if there is one: right after a dash
beyond the first two characters. -/
theorem vendorEnd_ne_zero {c : Char} {name : List Char} (h : vendorEnd ('-' :: c :: name) ≠ 0) :
    ∃ inner rest, name = inner ++ '-' :: rest ∧ '-' ∉ inner ∧
      vendorEnd ('-' :: c :: name) = byteLength ('-' :: c :: inner) + 1 := by
  unfold vendorEnd at h ⊢
  cases hindex : indexOf? ['-'] (('-' :: c :: name).drop 2) with
  | none =>
    rw [hindex] at h
    exact absurd rfl h
  | some n =>
    obtain ⟨inner, rest, hname, hinner, rfl⟩ := indexOf?_singleton.mp hindex
    obtain rfl : name = inner ++ '-' :: rest := hname
    refine ⟨inner, rest, rfl, hinner, ?_⟩
    dsimp only
    rw [show ('-' :: c :: (inner ++ '-' :: rest)).take (2 + inner.length) = '-' :: c :: inner by
      rw [Nat.add_comm, List.take_succ_cons, List.take_succ_cons, List.take_left]]

/-- **Where the mark of an at-keyword ends**, if there is one: right after the
second dash, with something between the two. -/
theorem atVendorEnd_ne_zero {name : List Char} (h : atVendorEnd name ≠ 0) :
    ∃ vendor rest, name = '-' :: (vendor ++ '-' :: rest) ∧ vendor ≠ [] ∧ '-' ∉ vendor ∧
      atVendorEnd name = byteLength vendor + 2 := by
  unfold atVendorEnd at h ⊢
  split at h
  · next rest =>
    split at h
    · next n hindex =>
      obtain ⟨vendor, back, rfl, hvendor, hn⟩ := indexOf?_singleton.mp hindex
      refine ⟨vendor, back, rfl, List.ne_nil_of_length_pos (hn ▸ Nat.succ_pos n), hvendor, ?_⟩
      rw [show n + 1 = vendor.length from hn.symm, List.take_left]
    · exact absurd rfl h
  · exact absurd rfl h

/-- **At-keywords are divided at their second dash.** -/
theorem splitVendor_at {name bare mark : String}
    (h : splitVendor name (atVendorEnd name.toList) = (bare, some mark)) :
    IsVendorMark mark ∧ name = mark ++ bare := by
  obtain ⟨hname, hbytes, hpos⟩ := splitVendor_eq_some h
  obtain ⟨vendor, rest, hsplit, hne, hvendor, hend⟩ := atVendorEnd_ne_zero hpos
  have hmark : mark.toList = '-' :: (vendor ++ ['-']) := by
    refine (append_eq_append_of_byteLength (b := bare.toList) (d := rest) ?_ ?_).1
    · rw [← hname, hsplit, List.cons_append, List.append_assoc]
      rfl
    · rw [hbytes, hend, byteLength_cons, byteLength_append]
      show _ = 1 + (byteLength vendor + 1)
      omega
  exact ⟨⟨vendor, hmark, hne, hvendor⟩, by rw [← String.toList_inj, hname, String.toList_append]⟩

/-- **When a function is divided at its second dash**: the vendor's name has to
take as many bytes in small letters, and must not begin with a dash. -/
theorem splitVendor_function {vendor rest : List Char} (hne : vendor ≠ [])
    (htail : '-' ∉ vendor.tail) {bare mark : String}
    (h : splitVendor (lower (String.ofList ('-' :: (vendor ++ '-' :: rest))))
      (byteLength ('-' :: vendor) + 1) = (bare, some mark)) :
    IsVendorMark mark ↔
      vendor.head? ≠ some '-' ∧ byteLength (lowerAfter [] vendor) = byteLength vendor := by
  obtain ⟨hname, hbytes, -⟩ := splitVendor_eq_some h
  have hsmall : mark.toList ++ bare.toList =
      '-' :: (lowerAfter [] vendor ++ '-' :: lowerAfter [] rest) := by
    rw [← hname, toList_lower, String.toList_ofList, lowerAfter_cons,
      smallForm_of_isSmall (isSmall_of_mark (by decide)), List.singleton_append,
      lowerAfter_append_dash, show ['-'] = [] ++ '-' :: [] from rfl, lowerAfter_dash]
  have hmem : vendor.head? ≠ some '-' ↔ '-' ∉ lowerAfter [] vendor := by
    rw [mem_lowerAfter_dash]
    obtain ⟨c, inner, rfl⟩ := List.exists_cons_of_ne_nil hne
    rw [List.mem_cons, not_or, List.head?_cons, Ne, Option.some.injEq]
    exact ⟨fun hc => ⟨Ne.symm hc, htail⟩, fun hc => Ne.symm hc.1⟩
  have hdash : byteLength ['-'] = 1 := rfl
  constructor
  · rintro ⟨between, hmark, hbetween, hnot⟩
    rw [hmark, List.cons_append, List.append_assoc, List.cons.injEq] at hsmall
    have hhead : '-' ∉ lowerAfter [] vendor := by
      refine hmem.mp fun hc => ?_
      obtain ⟨inner, rfl⟩ : ∃ inner, vendor = '-' :: inner := by
        obtain ⟨c, inner, rfl⟩ := List.exists_cons_of_ne_nil hne
        obtain rfl := Option.some.inj hc
        exact ⟨inner, rfl⟩
      obtain ⟨d, between, rfl⟩ := List.exists_cons_of_ne_nil hbetween
      rw [lowerAfter_cons, smallForm_of_isSmall (isSmall_of_mark (by decide))] at hsmall
      obtain rfl : d = '-' := (List.cons.inj hsmall.2).1
      exact hnot List.mem_cons_self
    refine ⟨hmem.mpr hhead, ?_⟩
    have hsame : between = lowerAfter [] vendor := by
      have hsplit : between ++ '-' :: bare.toList =
          lowerAfter [] vendor ++ '-' :: lowerAfter [] rest := hsmall.2
      have hindex := indexOf?_singleton.mpr ⟨between, bare.toList, hsplit.symm, hnot, rfl⟩
      have hindex' := indexOf?_singleton.mpr
        ⟨lowerAfter [] vendor, lowerAfter [] rest, rfl, hhead, rfl⟩
      exact List.append_inj_left hsplit (Option.some.inj (hindex.symm.trans hindex'))
    rw [hmark, byteLength_cons, byteLength_append, hdash, hsame, byteLength_cons] at hbytes
    omega
  · rintro ⟨hhead, hlength⟩
    refine ⟨lowerAfter [] vendor, ?_, ?_, hmem.mp hhead⟩
    · refine (append_eq_append_of_byteLength (b := bare.toList) (d := lowerAfter [] rest) ?_ ?_).1
      · rw [hsmall, List.cons_append, List.append_assoc]
        rfl
      · rw [hbytes, byteLength_cons, byteLength_cons, byteLength_append, hdash, hlength]
        omega
    · obtain ⟨c, inner, rfl⟩ := List.exists_cons_of_ne_nil hne
      rw [lowerAfter_cons]
      exact List.append_ne_nil_of_left_ne_nil (smallForm_ne_nil _ _ _) _

/-! ## Tokens with a mark -/

/-- **The mark of a vendor** that a token carries. -/
def markOf (lx : Lexeme) : Option String :=
  match lx.payload with
  | .function _ vendor _ | .at _ vendor => vendor
  | _ => none

variable {cs : List Char} {mark : String}

theorem numeric_markOf (cs : List Char) : (numeric cs).markOf = none := by
  rw [numeric_eq]
  unfold Figures.withUnit
  extract_lets scanned unit
  split_ifs <;> rfl

theorem codeRange?_markOf {lx : Lexeme} (h : codeRange? cs = some lx) : lx.markOf = none := by
  unfold codeRange? at h
  extract_lets first size after firstOk at h
  split_ifs at h <;>
  · obtain rfl := Option.some.inj h
    rfl

theorem trivia?_markOf {lx : Lexeme} (h : trivia? cs = some lx) : lx.markOf = none := by
  cases cs with
  | nil => cases h
  | cons c rest =>
    rw [trivia?_cons] at h
    split_ifs at h <;> obtain rfl := Option.some.inj h
    · rfl
    · unfold commentOf
      split <;> rfl

/-- **A name carries a mark** only if it is called. -/
theorem identLike_markOf (h : (identLike cs).markOf = some mark) : ∃ bare,
    isCalled cs = true ∧
      splitVendor (lower (String.ofList (scanName 0 cs).value)) (vendorPosOf cs) =
        (bare, some mark) ∧
      identLike cs = ⟨.function, .function bare (some mark) false, (scanName 0 cs).size + 1⟩ := by
  cases hcalled : isCalled cs with
  | true =>
    rw [identLike_of_called hcalled] at h ⊢
    unfold callOf at h ⊢
    split at h
    · cases h
    · next huri =>
      have hmark : (splitVendor _ (vendorPosOf cs)).2 = some mark := h
      exact ⟨_, rfl, Prod.ext rfl hmark, by rw [hmark]⟩
  | false =>
    rw [identLike_of_name hcalled] at h
    unfold filterOf? at h
    split_ifs at h
    · cases hindex : indexOf? ['('] ((cs.drop (scanName 0 cs).size).takeWhile (· != '\n')) <;>
        rw [hindex] at h <;> cases h
    · cases h

theorem quoted_markOf (quote : Char) (rest : List Char) : (quoted quote rest).markOf = none := by
  unfold quoted
  extract_lets s
  split_ifs <;> rfl

/-- **A punctuation mark carries a mark** only if it begins an at-keyword. -/
theorem punctuation_markOf {c : Char} {rest : List Char}
    (h : (punctuation c rest).markOf = some mark) : ∃ bare, c = '@' ∧
      splitVendor (lower (String.ofList (scanName 0 rest).value))
        (atVendorEnd (lower (String.ofList (scanName 0 rest).value)).toList) =
        (bare, some mark) ∧
      punctuation c rest = ⟨.at, .at bare (some mark), (scanName 0 rest).size + 1⟩ := by
  unfold punctuation at h ⊢
  dsimp only at h ⊢
  generalize lower (String.ofList (scanName 0 rest).value) = small at h ⊢
  split_ifs at h ⊢
  all_goals try (simp only [markOf, reduceCtorEq] at h)
  · cases (quoted_markOf c rest).symm.trans h
  · next hat =>
    rw [Bool.and_eq_true, beq_iff_eq] at hat
    refine ⟨(splitVendor small (atVendorEnd small.toList)).1, hat.1, ?_, ?_⟩ <;> rw [← h]

/-- **A token carries a mark** only if it is a function or an at-keyword whose
name is divided. -/
theorem first_markOf (h : (first cs).markOf = some mark) :
    (∃ bare, isCalled cs = true ∧
      splitVendor (lower (String.ofList (scanName 0 cs).value)) (vendorPosOf cs) =
        (bare, some mark) ∧
      first cs = ⟨.function, .function bare (some mark) false, (scanName 0 cs).size + 1⟩) ∨
    ∃ rest bare, cs = '@' :: rest ∧
      splitVendor (lower (String.ofList (scanName 0 rest).value))
        (atVendorEnd (lower (String.ofList (scanName 0 rest).value)).toList) =
        (bare, some mark) ∧
      first cs = ⟨.at, .at bare (some mark), (scanName 0 rest).size + 1⟩ := by
  unfold first at h ⊢
  cases htrivia : trivia? cs with
  | some lx =>
    rw [htrivia, Option.getD_some, trivia?_markOf htrivia] at h
    cases h
  | none =>
    rw [htrivia, Option.getD_none] at h
    rw [Option.getD_none]
    cases cs with
    | nil => cases h
    | cons c rest =>
      unfold significant at h ⊢
      dsimp only at h ⊢
      split_ifs at h ⊢
      · cases (numeric_markOf _).symm.trans h
      · left
        unfold dashed at h ⊢
        split_ifs at h ⊢ <;> first | exact identLike_markOf h | cases h
      · cases hcode : codeRange? (c :: rest) with
        | none =>
          rw [hcode] at h
          cases h
        | some lx =>
          rw [hcode] at h
          cases (codeRange?_markOf hcode).symm.trans h
      · exact .inl (identLike_markOf h)
      · obtain ⟨bare, rfl, hsplit, hlx⟩ := punctuation_markOf h
        exact .inr ⟨rest, bare, rfl, hsplit, hlx⟩

end Lexeme

/-! ## The tokens of a source -/

namespace Token

/-- **The name that a token spells**, with its escapes decoded. The sign of an
at-keyword is no part of it. -/
def spelled (t : Token) : List Char :=
  (Lexeme.scanName 0 (if t.kind == .at then t.text.toList.drop 1 else t.text.toList)).value

end Token

namespace Lexeme

open Text

variable {cs : List Char}

/-- **A name by itself** is the name that the text starts with, and so is one
with what follows it, unless a newline is parted from its backslash. -/
theorem scanName_take {n : Nat} (hn : (scanName 0 cs).size ≤ n)
    (hnot : (cs.take n).drop (scanName 0 cs).size ≠ ['\\']) :
    scanName 0 (cs.take n) = scanName 0 cs := by
  have hle : (scanName 0 cs).size ≤ cs.length := scanName_eq ▸ Scanner.size_le _ 0 cs
  have hsplit : cs.take n ++ cs.drop n = cs := List.take_append_drop n cs
  have hscan := @scanName_excerpt (cs.take n) (cs.drop n) 0
  rw [hsplit] at hscan
  exact hscan (by rw [List.length_take]; omega) fun hparted => hnot hparted.1

/-- **Where the name of a function is divided.** -/
theorem vendorPosOf_ne_zero (h : vendorPosOf cs ≠ 0) :
    ∃ vendor rest, (scanName 0 cs).value = '-' :: (vendor ++ '-' :: rest) ∧ vendor ≠ [] ∧
      '-' ∉ vendor.tail ∧ vendorPosOf cs = byteLength ('-' :: vendor) + 1 := by
  unfold vendorPosOf at h ⊢
  split_ifs at h ⊢ with hdash
  swap
  · exact absurd rfl h
  obtain ⟨hhead, -⟩ := Bool.and_eq_true _ _ |>.mp hdash
  obtain ⟨cs, rfl⟩ : ∃ ds, cs = '-' :: ds := List.head?_eq_some_iff.mp (eq_of_beq hhead)
  have hvalue : (scanName 0 ('-' :: cs)).value = '-' :: (scanName 0 cs).value := by
    rw [scanName_char (by decide)]
    rfl
  rw [hvalue] at h ⊢
  cases hname : (scanName 0 cs).value with
  | nil =>
    rw [hname] at h
    exact absurd rfl h
  | cons c name =>
    rw [hname] at h
    obtain ⟨inner, rest, rfl, hinner, hend⟩ := vendorEnd_ne_zero h
    exact ⟨c :: inner, rest, rfl, List.cons_ne_nil _ _, hinner, hend⟩

end Lexeme

open Text Lexeme

theorem Token.vendor_place (lx : Lexeme) (loc : Location) (cs : List Char) :
    (lx.place loc cs).vendor = lx.markOf := rfl

theorem Token.spelled_place (lx : Lexeme) (loc : Location) (cs : List Char) :
    (lx.place loc cs).spelled =
      (scanName 0 (if lx.kind == .at then (cs.take lx.size).drop 1 else cs.take lx.size)).value := by
  unfold spelled place
  rw [String.toList_ofList]

/-- **The first token of a text**, if it carries a mark. -/
theorem vendor_first {cs : List Char} {mark : String} {loc : Location} {t : Token}
    (ht : t = (first cs).place loc cs) (h : t.vendor = some mark) :
    mark ++ t.name = lower (String.ofList t.spelled) ∧ (t.kind = .at → IsVendorMark mark) ∧
      (t.kind = .function → ∃ vendor rest, t.spelled = '-' :: (vendor ++ '-' :: rest) ∧
        vendor ≠ [] ∧ '-' ∉ vendor.tail ∧
        (IsVendorMark mark ↔ vendor.head? ≠ some '-' ∧
          byteLength (lower (String.ofList vendor)).toList = byteLength vendor)) := by
  rw [ht, Token.vendor_place] at h
  rcases first_markOf h with ⟨bare, hcalled, hsplit, hfirst⟩ | ⟨rest, bare, rfl, hsplit, hfirst⟩
  · rw [hfirst] at ht
    have hkind : t.kind = .function := ht ▸ rfl
    have hbare : t.name = bare := ht ▸ rfl
    have hbracket : (cs.take ((scanName 0 cs).size + 1)).drop (scanName 0 cs).size = ['('] := by
      obtain ⟨args, hargs⟩ := List.head?_eq_some_iff.mp (eq_of_beq hcalled)
      rw [List.drop_take, hargs, Nat.add_sub_cancel_left]
      rfl
    have hspelled : t.spelled = (scanName 0 cs).value := by
      rw [ht, Token.spelled_place]
      show (scanName 0 (cs.take ((scanName 0 cs).size + 1))).value = _
      rw [scanName_take (Nat.le_succ _) (by rw [hbracket]; decide)]
    obtain ⟨hwhole, -, hpos⟩ := splitVendor_eq_some hsplit
    obtain ⟨vendor, rest, hname, hne, htail, hend⟩ := vendorPosOf_ne_zero hpos
    refine ⟨?_, fun hat => ?_, fun _ => ⟨vendor, rest, hspelled.trans hname, hne, htail, ?_⟩⟩
    · rw [← String.toList_inj, hspelled, hwhole, hbare, String.toList_append]
    · rw [hkind] at hat
      cases hat
    · rw [hname, hend] at hsplit
      rw [toList_lower, String.toList_ofList]
      exact splitVendor_function hne htail hsplit
  · rw [hfirst] at ht
    have hkind : t.kind = .at := ht ▸ rfl
    have hbare : t.name = bare := ht ▸ rfl
    have hspelled : t.spelled = (scanName 0 rest).value := by
      rw [ht, Token.spelled_place]
      show (scanName 0 (rest.take (scanName 0 rest).size)).value = _
      rw [scanName_take (Nat.le_refl _) (by rw [List.drop_take, Nat.sub_self, List.take_zero]; simp)]
    obtain ⟨hclean, hwhole⟩ := splitVendor_at hsplit
    refine ⟨?_, fun _ => hclean, fun hfunction => ?_⟩
    · rw [hspelled, hwhole, hbare]
    · rw [hkind] at hfunction
      cases hfunction

/-- **Marks of vendors.** Whatever token of a source carries a mark, the mark
and the name proper, written together, are the small form of the name that the
token spells. The mark of an at-keyword is one of a vendor: a dash, something
without dashes, and a dash. That of a function is one exactly if the vendor's
name, which goes up to the first dash beyond its first character, does not begin
with a dash and takes as many bytes in small letters. -/
theorem vendor_marks (text : String) :
    let tokens := (Stream.ofString text).allTokens.1
    (∀ t ∈ tokens, ∀ mark, t.vendor = some mark →
      mark ++ t.name = lower (String.ofList t.spelled)) ∧
    (∀ t ∈ tokens, ∀ mark, t.kind = .at → t.vendor = some mark → IsVendorMark mark) ∧
    ∀ t ∈ tokens, ∀ mark, t.kind = .function → t.vendor = some mark →
      ∃ vendor rest, t.spelled = '-' :: (vendor ++ '-' :: rest) ∧ vendor ≠ [] ∧
        '-' ∉ vendor.tail ∧
        (IsVendorMark mark ↔ vendor.head? ≠ some '-' ∧
          byteLength (lower (String.ofList vendor)).toList = byteLength vendor) := by
  intro tokens
  have hfirst : ∀ t ∈ tokens, ∃ loc rest, t = (first rest).place loc rest := by
    intro t ht
    rw [show tokens = tokensOf 0 .start _ from Stream.allTokens_ofString text] at ht
    obtain ⟨before, rest, -, -, ht⟩ := mem_tokensOf ht
    rw [firstOf_everything] at ht
    exact ⟨_, rest, ht⟩
  refine ⟨fun t ht mark h => ?_, fun t ht mark hkind h => ?_, fun t ht mark hkind h => ?_⟩ <;>
    obtain ⟨loc, rest, hplace⟩ := hfirst t ht
  · exact (vendor_first hplace h).1
  · exact (vendor_first hplace h).2.1 hkind
  · exact (vendor_first hplace h).2.2 hkind

/-- A kelvin sign takes three bytes and its small letter takes one, so the mark
of `-K-foo`, written with that sign, goes on into the name. -/
theorem vendor_mark_torn :
    ((Stream.ofString "-\u212a-foo(").allTokens.1.map fun t => (t.kind, t.vendor, t.name)) =
      [(.function, some "-k-fo", "o")] ∧ ¬IsVendorMark "-k-fo" := by
  refine ⟨by decide +kernel, ?_⟩
  rintro ⟨vendor, h, -⟩
  have hlast := congrArg List.getLast? h
  rw [List.getLast?_cons, List.getLast?_concat] at hlast
  cases hlast

end Stylesheet
