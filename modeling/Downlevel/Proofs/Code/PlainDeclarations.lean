/-
Downlevel.Proofs.Code.PlainDeclarations — a text with plain declarations.

Every keyword that declares in code is replaced (`declaration_matchesAt`), and
what comes in its place is read as code like the keyword (`fits`). So no
declaring keyword is left (`not_occursIn`), also where the rule declines
(`not_occursIn_of_eq_none`), and no other construct arises
(`not_occursIn_of_not`).
-/
import Downlevel.Code.Declarations
import Downlevel.Proofs.Code.Patched

namespace Downlevel.Code.Declarations

open Pattern

/-! ## Declaring keywords -/

/-- A keyword with blanks behind it. -/
structure IsDeclaration (keyword gap : List Char) : Prop where
  keyword : keyword = "const".toList ∨ keyword = "let".toList
  blank : ∀ c ∈ gap, Text.isBlank c = true
  ne_nil : gap ≠ []

theorem exists_of_spells {a b : Cursor} {w : List Char} (h : Spells declaration a w b) :
    ∃ keyword gap, IsDeclaration keyword gap ∧ w = keyword ++ gap
      ∧ b.groups = ⟨1, a.offset + keyword.length, b.offset⟩ :: a.groups := by
  obtain ⟨u, blanks, c₂, rfl, hu, hblanks⟩ := h.of_append
  obtain ⟨edges, keyword, c₁, rfl, hedges, hkeyword⟩ := hu.of_append
  obtain ⟨c₃, hgap, rfl⟩ := hblanks.of_group
  cases hedges
  have hword : keyword = "const".toList ∨ keyword = "let".toList := by
    rcases hkeyword.of_or with h | h
    · exact .inl h.of_literal
    · exact .inr h.of_literal
  refine ⟨keyword, blanks, ⟨hword, ?_, ?_⟩, rfl, ?_⟩
  · cases hgap with
    | seq hone hmore =>
      obtain ⟨c, rfl, hc⟩ := hone.of_char
      exact List.forall_mem_cons.mpr ⟨hc, hmore.of_star_char⟩
  · cases hgap with
    | seq hone hmore =>
      obtain ⟨c, rfl, -⟩ := hone.of_char
      exact List.cons_ne_nil c _
  · rw [Cursor.record, hgap.groups_eq rfl, hkeyword.groups_eq rfl, hkeyword.offset_eq]

theorem exists_of_findFrom? {text : List Char} {place : Nat} {m : Match}
    (hplace : place ≤ text.length) (hm : declaration.findFrom? text place = some m) :
    ∃ keyword gap rest, IsDeclaration keyword gap
      ∧ text.drop m.start = keyword ++ gap ++ rest
      ∧ m.stop = m.start + (keyword ++ gap).length ∧ m.groupText? text 1 = some gap := by
  obtain ⟨a, w, b, hw, hstart, hrest, hnone, hstop, hgroups⟩ := findFrom?_spells hplace hm
  obtain ⟨keyword, gap, hdeclaration, rfl, hrecorded⟩ := exists_of_spells hw
  have hlength := hw.offset_eq
  rw [hstart, hstop] at hlength
  rw [hw.rest_eq] at hrest
  refine ⟨keyword, gap, b.rest, hdeclaration, hrest.symm, hlength, ?_⟩
  have hgap := slice_of_drop (drop_add_of_drop (hrest.symm.trans (List.append_assoc _ _ _)))
  rw [Nat.add_assoc, ← List.length_append, ← hlength] at hgap
  simpa [Match.groupText?, Match.group?, ← hgroups, hrecorded, hstart, hstop] using hgap

/-- The pattern matches wherever a declaring keyword stands. -/
theorem declaration_matchesAt {u v : List Char}
    (h : Degradation.declarationKeywords.StandsAt u.getLast? v) :
    declaration.MatchesAt (u ++ v) u.length := by
  obtain ⟨hbefore, keyword, first, after, hkeyword, rfl, hfirst⟩ := h
  have hedge : ∀ k : Cursor → Option Cursor,
      edge.run ⟨u.length, u.getLast?, keyword ++ first :: after, []⟩ k
        = k ⟨u.length, u.getLast?, keyword ++ first :: after, []⟩ := by
    intro k
    rw [edge, run, if_pos]
    rcases hkeyword with rfl | rfl <;> simp [Cursor.atBoundary, hbefore] <;> decide
  have hgap : ∀ c : Cursor, c.rest = first :: after →
      ∃ r, (Pattern.group 1 gap).run c some = some r := by
    intro c hrest
    have hone : (Pattern.group 1 gap).run c some
        = (star blank).run (c.behind [first] after) fun c' => some (c'.record 1 c.offset) := by
      show blank.run c (fun c' => (star blank).run c' fun c' => some (c'.record 1 c.offset)) = _
      exact run_char hrest hfirst
    rw [hone]
    refine ⟨_, @run_star_char _ _ _ _ (after.takeWhile Text.isBlank)
      (after.dropWhile Text.isBlank) _ ?_ ?_ ?_ rfl⟩
    · exact List.takeWhile_append_dropWhile.symm
    · exact List.all_eq_true.mp List.all_takeWhile
    · intro x hx
      have hend := List.head?_dropWhile_not Text.isBlank after
      rwa [hx] at hend
  rw [MatchesAt, Cursor.ofOffset_length, matchAt?, declaration, run_append, run_append, hedge]
  rcases hkeyword with rfl | rfl
  · obtain ⟨r, hr⟩ := hgap (Cursor.behind
      ⟨u.length, u.getLast?, "const".toList ++ first :: after, []⟩ "const".toList (first :: after))
      rfl
    rw [run_or_eq_left ((@run_literal _ _ _ "const" _ rfl).trans hr)]
    rfl
  · obtain ⟨r, hr⟩ := hgap (Cursor.behind ⟨u.length, u.getLast?, "let".toList ++ first :: after, []⟩
      "let".toList (first :: after)) rfl
    rw [run_or_eq_right (run_literal_eq_none (x := 'c') rfl (by simp)),
      (@run_literal _ _ _ "let" _ rfl).trans hr]
    rfl

/-! ## Replacements -/

/-- What is replaced: a declaring keyword in code, with the blanks behind it. -/
theorem exists_of_replacements? {text : List Char} {replacements : List Replacement}
    (h : replacements? (ofText text) = some replacements) {r : Replacement}
    (hr : r ∈ replacements) :
    ∃ keyword gap rest, IsDeclaration keyword gap
      ∧ text.drop r.span.start = keyword ++ gap ++ rest
      ∧ r.span.stop = r.span.start + (keyword ++ gap).length ∧ r.text = "var".toList ++ gap
      ∧ (ofText text).InCode r.span.start := by
  obtain ⟨place, m, hplace, hm, hcode, hrule, hspan⟩ := exists_match h hr
  obtain ⟨keyword, gap, rest, hdeclaration, hrest, hstop, hgap⟩ := exists_of_findFrom? hplace hm
  rw [replacement?, hgap] at hrule
  rw [hspan]
  exact ⟨keyword, gap, rest, hdeclaration, hrest, hstop, (Option.some.inj hrule).symm, hcode⟩

theorem isPlain_of_isBlank {w : List Char} (h : ∀ c ∈ w, Text.isBlank c = true) :
    Segment.IsPlain w := isPlain_of_forall (by decide) h

/-- Blanks hold no construct, and neither does the new keyword. -/
theorem cleanOn_var {rule : Degradation} {m : Mode} {p : Option Char} {gap rest : List Char}
    (hgap : ∀ c ∈ gap, Text.isBlank c = true) : CleanOn rule m p ("var".toList ++ gap) rest := by
  refine cleanOn_of_forall fun c hc => ?_
  rcases List.mem_append.mp hc with hc | hc
  · exact (by decide : ∀ c ∈ "var".toList, Degradation.isStarter c = false) c hc
  · exact Degradation.isStarter_eq_false_of_isBlank (hgap c hc)

theorem fits (rule : Degradation) {text : List Char} {replacements : List Replacement}
    (h : replacements? (ofText text) = some replacements) :
    ∀ r ∈ replacements, r.Fits rule text := by
  intro r hr
  obtain ⟨keyword, gap, rest, hdeclaration, hdrop, hstop, htext, hcode⟩ :=
    exists_of_replacements? h hr
  have hword : ∃ c more, keyword = c :: more ∧ Mode.isPending c = false
      ∧ Text.isDigit c = false ∧ c ≠ '=' := by
    rcases hdeclaration.keyword with rfl | rfl
    · exact ⟨'c', _, rfl, by decide⟩
    · exact ⟨'l', _, rfl, by decide⟩
  obtain ⟨c, more, hcons, hpending, hdigit, hassign⟩ := hword
  have hmild : ∀ d ∈ keyword, Mode.isMild d = true := by
    rcases hdeclaration.keyword with rfl | rfl <;> decide
  have hhead : text.drop r.span.start = c :: (more ++ (gap ++ rest)) := by
    rw [hdrop, hcons, List.append_assoc, List.cons_append]
  have hlength := length_of_drop hdrop (by simp [hdeclaration.ne_nil])
  -- keyword and blanks are read as code, the old ones and the new ones
  have hread : ∀ m : Mode, ∀ word : List Char, (∀ d ∈ word, Mode.isMild d = true) → word ≠ [] →
      m.isCode = true → m.scan (word ++ gap) = .code := by
    intro m word hword hne hm
    have hsettle : m.settle = .code := by
      cases m <;> first | rfl | cases hm
    rw [Mode.scan_append, Mode.scan_of_mild hword hne, hsettle,
      Mode.scan_of_plain (isPlain_of_isBlank hdeclaration.blank)]
  have hcode : (modeAt text r.span.start).isCode = true :=
    (inCode_iff_modeAt hhead hpending).mp hcode
  refine ⟨by omega, fun q w rest hw _ hstands => ?_, fun m p rest _ => ?_, fun m p hm => ?_⟩
  · rw [htext] at hstands
    refine hstands.of_break (c := 'v') hw (by decide) fun d hd => ?_
    rw [hhead] at hd
    obtain rfl : c = d := Option.some.inj hd
    exact ⟨hdigit, hassign⟩
  · rw [htext]
    exact cleanOn_var hdeclaration.blank
  · have hm : m.isCode = true := by
      rw [← Mode.isCode_settle, hm, Mode.isCode_settle, hcode]
    have hlast : ∀ word : List Char,
        (word ++ gap).getLast? = some (gap.getLast hdeclaration.ne_nil) := by
      intro word
      rw [List.getLast?_append, List.getLast?_eq_some_getLast hdeclaration.ne_nil, Option.some_or]
    rw [hstop, modeAt_add hdrop, lastBefore?_add hdrop (by simp [hdeclaration.ne_nil]), htext,
      hread _ _ hmild (by simp [hcons]) hcode, hread _ _ (by decide) (by decide) hm, hlast, hlast]
    exact .refl ..

/-- **No declaring keyword is left.** -/
theorem not_occursIn_patch {text : List Char} {replacements : List Replacement}
    (h : replacements? (ofText text) = some replacements) :
    ¬ Degradation.declarationKeywords.OccursIn ((ofText text).patch replacements) := by
  rw [not_occursIn_iff]
  refine cleanOn_patchFrom (Nat.zero_le _) (inOrder_of_replacementsFrom? h) (fits _ h) ?_ (.refl ..)
  rintro u v rfl - hbetween hu hstands
  obtain ⟨c, more, rfl, hc⟩ := hstands.exists_starter
  have hcode := (inCode_iff_isCode (v := more) (Degradation.isPending_of_isStarter hc)).mpr hu
  obtain ⟨r, hr, hstart, hstop⟩ := exists_replacement h (declaration_matchesAt hstands) hcode
    (Nat.zero_le _) (by simp [ofText])
  have := hbetween r hr
  omega

/-! ## The rule -/

/-- The rule never gives up on a match. -/
theorem exists_replacements? (text : List Char) :
    ∃ replacements, replacements? (ofText text) = some replacements := by
  rw [replacements?, Code.replacements?]
  fun_induction replacementsFrom? (ofText text) declaration declaration_consuming
    (replacement? (ofText text)) 0 with
  | case1 => exact ⟨[], rfl⟩
  | case2 offset inside m hm literal hliteral ih => exact ih
  | case3 offset inside m hm hliteral hnone => cases hnone
  | case4 offset inside m hm hliteral word hword ih =>
    obtain ⟨later, hlater⟩ := ih
    exact ⟨_, congrArg (Option.map _) hlater⟩
  | case5 => exact ⟨[], rfl⟩

theorem exists_patch {source out : List Char} (h : degrade? source = some out) :
    ∃ replacements, replacements? (ofText source) = some replacements
      ∧ out = (ofText source).patch replacements := by
  obtain ⟨replacements, hfound⟩ := exists_replacements? source
  simp only [degrade?, hfound] at h
  split at h
  · cases h
  · exact ⟨replacements, hfound, (Option.some.inj h).symm⟩

theorem not_occursIn {source out : List Char} (h : degrade? source = some out) :
    ¬ Degradation.declarationKeywords.OccursIn out := by
  obtain ⟨replacements, hfound, rfl⟩ := exists_patch h
  exact not_occursIn_patch hfound

/-- **The rule declines only where no keyword declares.** -/
theorem not_occursIn_of_eq_none {source : List Char} (h : degrade? source = none) :
    ¬ Degradation.declarationKeywords.OccursIn source := by
  obtain ⟨replacements, hfound⟩ := exists_replacements? source
  simp only [degrade?, hfound] at h
  split at h
  · next hnil =>
    subst hnil
    exact not_occursIn_patch hfound
  · cases h

/-- No other construct arises. -/
theorem not_occursIn_of_not {rule : Degradation} {source out : List Char}
    (h : degrade? source = some out) (hclean : ¬ rule.OccursIn source) : ¬ rule.OccursIn out := by
  obtain ⟨replacements, hfound, rfl⟩ := exists_patch h
  exact Code.not_occursIn_patch hclean (inOrder_of_replacementsFrom? hfound) (fits rule hfound)

end Downlevel.Code.Declarations
