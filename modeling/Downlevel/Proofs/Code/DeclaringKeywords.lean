/-
Downlevel.Proofs.Code.DeclaringKeywords — which words become `var`.

`DeclaresAt` says of a stretch that it is a declaring keyword: `const` or `let`
in code, with a blank behind it and no character of an identifier on either
side. Which characters make up identifiers is a parameter. `Renames` says that a
text comes of another by putting `var` for each of these keywords and for
nothing else.

With the characters of words in this place, the rule renames
(`renames_degrade?`). The dollar sign is none of them, though identifiers have
it, so the end of `$let` is taken for a keyword. What the rule gives is what
one wants exactly where the two classes agree on the character before each
keyword (`renames_isIdentifier_iff`): as the old text shows through in the new
one, different keywords make different texts (`eq_of_patchFrom_eq`).
-/
import Downlevel.Proofs.Code.PlainDeclarations
import Downlevel.Proofs.Pattern.NameEnds

namespace Downlevel.Code.Declarations

open Pattern

/-! ## Declaring keywords -/

/-- A declaring keyword stands there, where identifiers are made of characters
of a class: as a whole word in code with a blank behind it. -/
structure DeclaresAt (isPart : Char → Bool) (source : List Char) (s : Span) : Prop where
  keyword : slice source s.start s.stop = "const".toList
    ∨ slice source s.start s.stop = "let".toList
  code : (ofText source).InCode s.start
  before : ∀ c ∈ (source.take s.start).getLast?, isPart c = false
  behind : ∀ c ∈ (source.drop s.stop).head?, isPart c = false
  blank : ∃ c ∈ (source.drop s.stop).head?, Text.isBlank c = true

/-- The new word for a keyword. -/
def varFor (s : Span) : Replacement := ⟨s, "var".toList⟩

/-- A text comes of another by putting `var` for its declaring keywords, each of
them and nothing else. There is none if there are no such keywords. -/
def Renames (isPart : Char → Bool) (source : List Char) (out : Option (List Char)) : Prop :=
  ∃ spans : List Span, (∀ s, s ∈ spans ↔ DeclaresAt isPart source s)
    ∧ InOrder 0 (spans.map varFor)
    ∧ out = if spans = [] then none else some ((ofText source).patch (spans.map varFor))

section Declares

variable {isPart isPart' : Char → Bool} {source : List Char} {s t : Span} {i : Nat}
  {keyword after : List Char} {first : Char}

theorem DeclaresAt.exists_drop (h : DeclaresAt isPart source s) :
    ∃ keyword first after, (keyword = "const".toList ∨ keyword = "let".toList)
      ∧ source.drop s.start = keyword ++ first :: after ∧ Text.isBlank first = true
      ∧ s.stop = s.start + keyword.length := by
  obtain ⟨first, hfirst, hblank⟩ := h.blank
  obtain ⟨after, hafter⟩ := List.head?_eq_some_iff.mp hfirst
  have hstop : s.stop + 1 ≤ source.length :=
    length_of_drop (w := [first]) hafter (List.cons_ne_nil first [])
  have hlength : s.stop = s.start + (slice source s.start s.stop).length := by
    have hpos : 0 < (slice source s.start s.stop).length := by
      rcases h.keyword with hword | hword <;> rw [hword] <;> decide
    rw [slice, List.length_take, List.length_drop] at hpos ⊢
    omega
  refine ⟨slice source s.start s.stop, first, after, h.keyword, ?_, hblank, hlength⟩
  rw [← hafter, slice_append_drop source (by omega)]

theorem declaresAt_of_drop (hkeyword : keyword = "const".toList ∨ keyword = "let".toList)
    (hdrop : source.drop i = keyword ++ first :: after) (hfirst : Text.isBlank first = true)
    (hpart : isPart first = false) (hcode : (ofText source).InCode i)
    (hbefore : ∀ c ∈ (source.take i).getLast?, isPart c = false) :
    DeclaresAt isPart source ⟨i, i + keyword.length⟩ := by
  have hbehind := drop_add_of_drop hdrop
  refine ⟨by rwa [slice_of_drop hdrop], hcode, hbefore, fun c hc => ?_, first, ?_, hfirst⟩
  · rw [hbehind] at hc
    obtain rfl : first = c := Option.some.inj hc
    exact hpart
  · rw [hbehind]
    rfl

/-- Only what comes before a keyword depends on the class, if no blank belongs
to it. -/
theorem DeclaresAt.of_before (h : DeclaresAt isPart source s)
    (hblank : ∀ c, Text.isBlank c = true → isPart' c = false)
    (hbefore : ∀ c ∈ (source.take s.start).getLast?, isPart' c = false) :
    DeclaresAt isPart' source s := by
  refine ⟨h.keyword, h.code, hbefore, fun c hc => ?_, h.blank⟩
  obtain ⟨d, hd, hdblank⟩ := h.blank
  obtain rfl : c = d := Option.some.inj (hc.symm.trans hd)
  exact hblank c hdblank

/-- A keyword as the empty class sees it. -/
theorem DeclaresAt.anywhere (h : DeclaresAt isPart source s) :
    DeclaresAt (fun _ => false) source s :=
  h.of_before (fun _ _ => rfl) fun _ _ => rfl

theorem DeclaresAt.standsAt (h : DeclaresAt Text.isWord source s) :
    Degradation.declarationKeywords.StandsAt (source.take s.start).getLast?
      (source.drop s.start) := by
  obtain ⟨keyword, first, after, hkeyword, hdrop, hfirst, -⟩ := h.exists_drop
  refine ⟨?_, keyword, first, after, hkeyword, hdrop, hfirst⟩
  cases hlast : (source.take s.start).getLast? with
  | none => rfl
  | some c => exact h.before c hlast

/-- What a keyword starts with, which is not what `var` starts with. -/
theorem DeclaresAt.exists_cons (h : DeclaresAt isPart source s) :
    ∃ c rest, source.drop s.start = c :: rest ∧ (c = 'c' ∨ c = 'l') ∧ c ≠ 'v' := by
  obtain ⟨keyword, first, after, rfl | rfl, hdrop, -⟩ := h.exists_drop
  · exact ⟨'c', _, hdrop, .inl rfl, by decide⟩
  · exact ⟨'l', _, hdrop, .inr rfl, by decide⟩

theorem DeclaresAt.lt_length (h : DeclaresAt isPart source s) : s.start < source.length := by
  obtain ⟨c, rest, hdrop, -⟩ := h.exists_cons
  exact length_of_drop (w := [c]) hdrop (List.cons_ne_nil c [])

/-- One keyword at most starts at a place. -/
theorem DeclaresAt.eq_of_start_eq (h : DeclaresAt isPart source s)
    (h' : DeclaresAt isPart' source t) (hstart : s.start = t.start) : s = t := by
  obtain ⟨start, stop⟩ := s
  obtain ⟨start', stop'⟩ := t
  obtain ⟨keyword, first, after, hkeyword, hdrop, -, hstop⟩ := h.exists_drop
  obtain ⟨keyword', first', after', hkeyword', hdrop', -, hstop'⟩ := h'.exists_drop
  dsimp only at *
  subst hstart
  have heq : keyword = keyword' := by
    rw [hdrop] at hdrop'
    rcases hkeyword with rfl | rfl <;> rcases hkeyword' with rfl | rfl <;>
      first | rfl | simp at hdrop'
  rw [hstop, hstop', heq]

end Declares

/-! ## What the rule replaces -/

section Replaced

variable {text : List Char} {place offset : Nat} {m : Match} {replacements : List Replacement}
  {r : Replacement}

/-- The keyword at the start of what is replaced. The blanks behind it are kept. -/
def keywordOf (r : Replacement) : Span :=
  ⟨r.span.start, r.span.stop - (r.text.length - "var".toList.length)⟩

/-- A replacement that puts `var` for a keyword and keeps the blanks behind it. -/
structure IsRenaming (text : List Char) (r : Replacement) : Prop where
  declares : DeclaresAt Text.isWord text (keywordOf r)
  kept : ∃ gap, r.text = "var".toList ++ gap
    ∧ text.drop (keywordOf r).stop = gap ++ text.drop r.span.stop
    ∧ r.span.stop = (keywordOf r).stop + gap.length ∧ ∀ c ∈ gap, Text.isBlank c = true

/-- No word goes on from the character before a match. -/
theorem isWord_before_of_findFrom? (hplace : place ≤ text.length)
    (hm : declaration.findFrom? text place = some m) :
    ∀ c ∈ (text.take m.start).getLast?, Text.isWord c = false := by
  obtain ⟨c, hc, -⟩ := matchAt?_of_findFrom? hplace hm
  obtain ⟨w, c, hw, -⟩ := run_spells declaration _ some c hc
  obtain ⟨u, -, c₂, -, hu, -⟩ := hw.of_append
  obtain ⟨edges, keyword, c₁, -, hedge, hkeyword⟩ := hu.of_append
  have hle : m.start ≤ text.length := by
    have hmatch := findFrom?_some hplace hm
    omega
  have hcursor : Cursor.ofOffset text m.start
      = ⟨m.start, (text.take m.start).getLast?, text.drop m.start, []⟩ := by
    have hplaced := Cursor.ofOffset_length (text.take m.start) (text.drop m.start)
    rwa [List.take_append_drop, List.length_take_of_le hle] at hplaced
  rw [hcursor] at hedge
  cases hedge with
  | boundary hboundary =>
  have hword : (text.drop m.start).head?.any Text.isWord = true := by
    have hrest : text.drop m.start = keyword ++ c₂.rest := hkeyword.rest_eq
    rw [hrest]
    rcases hkeyword.of_or with h | h <;> rw [h.of_literal] <;> rfl
  intro d hd
  rw [Cursor.atBoundary, hword, Option.mem_def.mp hd] at hboundary
  simpa using hboundary

theorem isRenaming_of_mem (h : replacements? (ofText text) = some replacements)
    (hr : r ∈ replacements) : IsRenaming text r := by
  obtain ⟨place, m, hplace, hm, hcode, hrule, hspan⟩ := exists_match h hr
  obtain ⟨keyword, gap, rest, hdeclaration, hdrop, hstop, hgap⟩ := exists_of_findFrom? hplace hm
  rw [replacement?, hgap] at hrule
  have htext : r.text = "var".toList ++ gap := (Option.some.inj hrule).symm
  have hkeyword : keywordOf r = ⟨m.start, m.start + keyword.length⟩ := by
    rw [keywordOf, htext, hspan, hstop, List.length_append, List.length_append,
      Nat.add_sub_cancel_left, ← Nat.add_assoc, Nat.add_sub_cancel]
  have hwhole := drop_add_of_drop hdrop
  rw [List.append_assoc] at hdrop
  have hbehind := drop_add_of_drop hdrop
  refine ⟨?_, gap, htext, ?_, ?_, hdeclaration.blank⟩
  · obtain ⟨first, more, rfl⟩ := List.exists_cons_of_ne_nil hdeclaration.ne_nil
    have hfirst := hdeclaration.blank first List.mem_cons_self
    rw [hkeyword]
    exact declaresAt_of_drop hdeclaration.keyword hdrop hfirst
      (Text.isWord_eq_false_of_isBlank hfirst) hcode (isWord_before_of_findFrom? hplace hm)
  · rw [hkeyword, hspan]
    show text.drop (m.start + keyword.length) = gap ++ text.drop m.stop
    rw [hstop]
    exact hbehind.trans (congrArg (gap ++ ·) hwhole.symm)
  · rw [hkeyword, hspan, hstop, List.length_append, Nat.add_assoc]

theorem IsRenaming.start_le_stop (h : IsRenaming text r) :
    (keywordOf r).start ≤ (keywordOf r).stop ∧ (keywordOf r).stop ≤ r.span.stop := by
  obtain ⟨gap, -, -, hstop, -⟩ := h.kept
  obtain ⟨keyword, -, -, -, -, -, hlength⟩ := h.declares.exists_drop
  omega

theorem inOrder_keywords (h : ∀ r ∈ replacements, IsRenaming text r)
    (horder : InOrder offset replacements) :
    InOrder offset ((replacements.map keywordOf).map varFor) := by
  induction replacements generalizing offset with
  | nil => trivial
  | cons r rest ih =>
    obtain ⟨hr, hrest⟩ := List.forall_mem_cons.mp h
    obtain ⟨hstart, hstop⟩ := hr.start_le_stop
    exact ⟨horder.1, hstart, (ih hrest horder.2.2).weaken hstop⟩

/-- Keeping the blanks is the same as leaving them alone. -/
theorem patchFrom_keywords (h : ∀ r ∈ replacements, IsRenaming text r)
    (horder : InOrder offset replacements) :
    patchFrom text offset ((replacements.map keywordOf).map varFor)
      = patchFrom text offset replacements := by
  induction replacements generalizing offset with
  | nil => rfl
  | cons r rest ih =>
    obtain ⟨hr, hrest⟩ := List.forall_mem_cons.mp h
    obtain ⟨gap, htext, hgap, hstop, -⟩ := hr.kept
    have hlater := horder.2.2
    have hskip := patchFrom_skip hgap (hstop ▸ inOrder_keywords hrest hlater)
    rw [List.map_cons, List.map_cons, patchFrom, patchFrom]
    show slice text offset r.span.start ++ "var".toList
      ++ patchFrom text (keywordOf r).stop ((rest.map keywordOf).map varFor) = _
    rw [hskip, ← hstop, ih hrest hlater, htext]
    simp only [List.append_assoc]

/-- The letters that keywords start with stand in front only. -/
theorem eq_zero_of_getElem? {keyword : List Char} {n : Nat} {c : Char}
    (hkeyword : keyword = "const".toList ∨ keyword = "let".toList) (hc : keyword[n]? = some c)
    (hstarter : c = 'c' ∨ c = 'l') : n = 0 := by
  have htail : ∀ d ∈ keyword.tail, d ≠ 'c' ∧ d ≠ 'l' := by
    rcases hkeyword with rfl | rfl <;> decide
  cases n with
  | zero => rfl
  | succ n =>
    have hmem : c ∈ keyword.tail := List.mem_of_getElem? (i := n) (by rwa [List.getElem?_tail])
    obtain ⟨hconst, hlet⟩ := htail c hmem
    exact absurd hstarter (not_or.mpr ⟨hconst, hlet⟩)

/-- A keyword starts where it is replaced: none starts within another, or among
the blanks behind it. -/
theorem IsRenaming.eq_keywordOf (h : IsRenaming text r) {s : Span}
    (hs : DeclaresAt Text.isWord text s) (hstart : r.span.start ≤ s.start)
    (hstop : s.start < r.span.stop) : s = keywordOf r := by
  refine hs.eq_of_start_eq h.declares ?_
  obtain ⟨n, hn⟩ := Nat.exists_eq_add_of_le hstart
  obtain ⟨gap, -, hgap, hend, hblank⟩ := h.kept
  obtain ⟨keyword, first, after, hkeyword, hdrop, -, hlength⟩ := h.declares.exists_drop
  obtain ⟨c, rest, hc, hstarter, -⟩ := hs.exists_cons
  have hall : text.drop r.span.start = keyword ++ (gap ++ text.drop r.span.stop) := by
    have hbehind : text.drop (keywordOf r).stop = first :: after := by
      rw [hlength, drop_add_of_drop hdrop]
    rw [← hgap, hbehind]
    exact hdrop
  have hplace : (keyword ++ (gap ++ text.drop r.span.stop))[n]? = some c := by
    rw [← hall, List.getElem?_drop, ← hn, ← List.head?_drop, hc]
    rfl
  have hnstop : n < keyword.length + gap.length := by
    have hsame : (keywordOf r).start = r.span.start := rfl
    omega
  by_cases hinside : n < keyword.length
  · rw [List.getElem?_append_left hinside] at hplace
    have hfirst := eq_zero_of_getElem? hkeyword hplace hstarter
    show s.start = r.span.start
    omega
  · rw [List.getElem?_append_right (by omega), List.getElem?_append_left (by omega)] at hplace
    have hcblank := hblank c (List.mem_of_getElem? hplace)
    rcases hstarter with rfl | rfl <;> exact absurd hcblank (by decide)

end Replaced

/-- **The rule renames** what no word goes on before. -/
theorem renames_degrade? (source : List Char) : Renames Text.isWord source (degrade? source) := by
  obtain ⟨replacements, hfound⟩ := exists_replacements? source
  have horder := inOrder_of_replacementsFrom? hfound
  have hrenaming : ∀ r ∈ replacements, IsRenaming source r :=
    fun _ hr => isRenaming_of_mem hfound hr
  refine ⟨replacements.map keywordOf, fun s => ⟨fun hs => ?_, fun hs => ?_⟩,
    inOrder_keywords hrenaming horder, ?_⟩
  · obtain ⟨r, hr, rfl⟩ := List.mem_map.mp hs
    exact (hrenaming r hr).declares
  · have hle := Nat.le_of_lt hs.lt_length
    have hmatch := declaration_matchesAt hs.standsAt
    rw [List.take_append_drop, List.length_take_of_le hle] at hmatch
    obtain ⟨r, hr, hstart, hstop⟩ := exists_replacement hfound hmatch hs.code (Nat.zero_le _) hle
    rw [(hrenaming r hr).eq_keywordOf hs hstart hstop]
    exact List.mem_map_of_mem hr
  · have hpatch : (ofText source).patch ((replacements.map keywordOf).map varFor)
        = (ofText source).patch replacements := patchFrom_keywords hrenaming horder
    simp only [degrade?, hfound, hpatch, List.map_eq_nil_iff]

/-! ## What the new text shows -/

section Shown

variable {isPart isPart' : Char → Bool} {text source : List Char} {offset : Nat} {x : Span}
  {xs ys : List Span} {later : List Replacement}

/-- A text that still has a keyword is none that has lost it. -/
theorem patchFrom_varFor_ne (hx : DeclaresAt isPart text x) (hoffset : offset ≤ x.start)
    (hlater : InOrder (x.start + 1) later) (rest : List Replacement) :
    patchFrom text offset (varFor x :: rest) ≠ patchFrom text offset later := by
  obtain ⟨c, after, hdrop, -, hc⟩ := hx.exists_cons
  have hlength : (slice text offset x.start).length = x.start - offset := by
    have hlt := hx.lt_length
    rw [slice, List.length_take, List.length_drop]
    omega
  have hend : offset + (slice text offset x.start).length = x.start := by omega
  have hbefore : patchFrom text offset later
      = slice text offset x.start ++ patchFrom text x.start later := by
    have hskip := @patchFrom_skip text offset later _ _ (slice_append_drop text hoffset).symm
    rw [hend] at hskip
    exact hskip (hlater.weaken (Nat.le_succ _))
  have hat : patchFrom text x.start later = c :: patchFrom text (x.start + 1) later :=
    patchFrom_skip (w := [c]) hdrop hlater
  rw [hbefore, hat, patchFrom, List.append_assoc]
  intro heq
  have hfirst := List.append_cancel_left heq
  exact hc (List.cons.inj hfirst).1.symm

/-- **Different keywords make different texts.** -/
theorem eq_of_patchFrom_eq (hx : ∀ s ∈ xs, DeclaresAt isPart text s)
    (hy : ∀ s ∈ ys, DeclaresAt isPart' text s) (hxs : InOrder offset (xs.map varFor))
    (hys : InOrder offset (ys.map varFor))
    (h : patchFrom text offset (xs.map varFor) = patchFrom text offset (ys.map varFor)) :
    xs = ys := by
  induction xs generalizing ys offset with
  | nil =>
    cases ys with
    | nil => rfl
    | cons y ys =>
      have hnil : InOrder (y.start + 1) [] := trivial
      exact absurd h.symm (patchFrom_varFor_ne (hy y List.mem_cons_self) hys.1 hnil _)
  | cons x xs ih =>
    obtain ⟨hx, hxs'⟩ := List.forall_mem_cons.mp hx
    cases ys with
    | nil =>
      have hnil : InOrder (x.start + 1) [] := trivial
      exact absurd h (patchFrom_varFor_ne hx hxs.1 hnil _)
    | cons y ys =>
      obtain ⟨hy, hys'⟩ := List.forall_mem_cons.mp hy
      rcases Nat.lt_trichotomy x.start y.start with hlt | heq | hgt
      · have hlater : InOrder (x.start + 1) ((y :: ys).map varFor) := ⟨hlt, hys.2⟩
        exact absurd h (patchFrom_varFor_ne hx hxs.1 hlater _)
      · obtain rfl := hx.eq_of_start_eq hy heq
        rw [List.map_cons, List.map_cons, patchFrom, patchFrom] at h
        rw [ih hxs' hys' hxs.2.2 hys.2.2 (List.append_cancel_left h)]
      · have hlater : InOrder (y.start + 1) ((x :: xs).map varFor) := ⟨hgt, hxs.2⟩
        exact absurd h.symm (patchFrom_varFor_ne hy hys.1 hlater _)

variable {out : Option (List Char)}

/-- What is renamed can be read off the result. -/
theorem Renames.declaresAt_iff (h : Renames isPart source out) (h' : Renames isPart' source out)
    (s : Span) : DeclaresAt isPart source s ↔ DeclaresAt isPart' source s := by
  obtain ⟨xs, hx, hxs, hout⟩ := h
  obtain ⟨ys, hy, hys, hout'⟩ := h'
  have heq : xs = ys := by
    rw [hout'] at hout
    split at hout
    · next hynil =>
      split at hout
      · next hxnil => rw [hxnil, hynil]
      · cases hout
    · split at hout
      · cases hout
      · exact eq_of_patchFrom_eq (fun s hs => (hx s).mp hs) (fun s hs => (hy s).mp hs) hxs hys
          (Option.some.inj hout).symm
  rw [← hx, ← hy, heq]

theorem Renames.congr (h : Renames isPart source out)
    (hiff : ∀ s, DeclaresAt isPart source s ↔ DeclaresAt isPart' source s) :
    Renames isPart' source out := by
  obtain ⟨spans, hspans, horder, hout⟩ := h
  exact ⟨spans, fun s => (hspans s).trans (hiff s), horder, hout⟩

theorem Renames.eq_none (h : Renames isPart source out)
    (hnone : ∀ s, ¬ DeclaresAt isPart source s) : out = none := by
  obtain ⟨spans, hspans, -, rfl⟩ := h
  exact if_pos (List.eq_nil_iff_forall_not_mem.mpr fun s hs => hnone s ((hspans s).mp hs))

end Shown

/-! ## The rule -/

/-- The rule finds nothing in what it gave. -/
theorem degrade?_eq_none_of_degrade? {source out : List Char} (h : degrade? source = some out) :
    degrade? out = none := by
  refine (renames_degrade? out).eq_none fun s hs => not_occursIn h ?_
  refine ⟨out.take s.start, out.drop s.start, (List.take_append_drop _ _).symm, ?_, hs.standsAt⟩
  rw [List.length_take_of_le (Nat.le_of_lt hs.lt_length)]
  exact hs.code

/-- **The rule renames the keywords that are whole identifiers** exactly where
the character before each keyword belongs to identifiers and to words alike. -/
theorem renames_isIdentifier_iff (source : List Char) :
    Renames Text.isIdentifier source (degrade? source)
      ↔ ∀ s, DeclaresAt (fun _ => false) source s →
        ∀ c ∈ (source.take s.start).getLast?, Text.isWord c = Text.isIdentifier c := by
  constructor
  · intro h s hs c hc
    have hiff := h.declaresAt_iff (renames_degrade? source) s
    have hbefore : ∀ {isPart : Char → Bool}, isPart c = false →
        ∀ d ∈ (source.take s.start).getLast?, isPart d = false := by
      intro isPart hpart d hd
      obtain rfl : c = d := Option.some.inj (hc.symm.trans hd)
      exact hpart
    -- a class that does not have the character takes the keyword, so the other one does
    have hword : Text.isWord c = false → Text.isIdentifier c = false := by
      intro hword
      have hs := hs.of_before (fun _ => Text.isWord_eq_false_of_isBlank) (hbefore hword)
      exact (hiff.mpr hs).before c hc
    have hidentifier : Text.isIdentifier c = false → Text.isWord c = false := by
      intro hidentifier
      have hs := hs.of_before (fun _ => Text.isIdentifier_eq_false_of_isBlank)
        (hbefore hidentifier)
      exact (hiff.mp hs).before c hc
    cases hclass : Text.isWord c with
    | false => exact (hword hclass).symm
    | true =>
      refine (eq_true_of_ne_false fun hnot => ?_).symm
      exact Bool.noConfusion (hclass.symm.trans (hidentifier hnot))
  · intro hagree
    refine (renames_degrade? source).congr fun s => ⟨fun hs => ?_, fun hs => ?_⟩
    · refine hs.of_before (fun _ => Text.isIdentifier_eq_false_of_isBlank) fun c hc => ?_
      rw [← hagree s hs.anywhere c hc]
      exact hs.before c hc
    · refine hs.of_before (fun _ => Text.isWord_eq_false_of_isBlank) fun c hc => ?_
      rw [hagree s hs.anywhere c hc]
      exact hs.before c hc

/-- **What becomes `var`**: every `const` and `let` in code that has a blank
behind it and no character of a word before it, and nothing else; so nothing is
left to do afterwards. It is every such keyword that is a whole identifier, and
no other, exactly where no dollar sign or other character that only one of the
two classes has stands before a keyword. -/
theorem keywords_become_var (source : List Char) :
    Renames Text.isWord source (degrade? source)
      ∧ (degrade? source).bind degrade? = none
      ∧ (Renames Text.isIdentifier source (degrade? source)
        ↔ ∀ s, DeclaresAt (fun _ => false) source s →
          ∀ c ∈ (source.take s.start).getLast?, Text.isWord c = Text.isIdentifier c) := by
  refine ⟨renames_degrade? source, ?_, renames_isIdentifier_iff source⟩
  cases h : degrade? source with
  | none => rfl
  | some out => exact degrade?_eq_none_of_degrade? h

/-- The end of an identifier with a dollar sign is taken for a keyword. -/
theorem dollar_sign_before_keyword :
    degrade? "$let = 5;".toList = some "$var = 5;".toList
      ∧ ¬ Renames Text.isIdentifier "$let = 5;".toList (degrade? "$let = 5;".toList) := by
  have hout : degrade? "$let = 5;".toList = some "$var = 5;".toList := by decide +kernel
  refine ⟨hout, fun h => ?_⟩
  have hnone : degrade? "$let = 5;".toList = none := by
    refine h.eq_none fun s hs => ?_
    -- only the sign stands before a letter that a keyword starts with
    have hplace : ∀ i < 9, ("$let = 5;".toList[i]? = some 'c' ∨ "$let = 5;".toList[i]? = some 'l') →
        i = 1 := by decide
    obtain ⟨c, rest, hdrop, hc, -⟩ := hs.exists_cons
    have hget : "$let = 5;".toList[s.start]? = some c := by
      rw [← List.head?_drop, hdrop]
      rfl
    have hstart := hplace s.start hs.lt_length (by rw [hget]; simpa using hc)
    exact absurd (hs.before '$' (by rw [hstart]; rfl)) (by decide)
  rw [hout] at hnone
  cases hnone

end Downlevel.Code.Declarations
