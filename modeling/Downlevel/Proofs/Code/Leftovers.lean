/-
Downlevel.Proofs.Code.Leftovers — what a rule leaves of its own construct.

Three of the rules hand back a text only when their construct does not occur in
its code. They search for it from left to right, and a match that starts in a
literal may lie over a place behind it, where the construct stands. No such
place is in code: the characters that a match begins with are mild, so the
literal does not end among them (`not_inCode_of_occurs`). So nothing of the
construct is left, except for an optional link at the very end of a text, for
which the search wants one more character. Such a link was there before
(`suffix_of_patch`), and if it stood in a literal, it still does
(`not_inCode_of_patch`).

The rule for declarations does not look at its result. It replaces every
place in code where its pattern matches (`exists_replacement`).
-/
import Downlevel.Proofs.Code.GuardModes
import Downlevel.Proofs.Pattern.Search

namespace Downlevel.Code

open Pattern (MatchesAt Spells Cursor)

/-! ## Searching for what is left -/

section Occurs

variable {p : Pattern} {text u v : List Char}

/-- What the pattern spells begins with mild characters, all but the last of
at least two. -/
structure StartsMild (p : Pattern) : Prop where
  two_le : 2 ≤ p.minLength
  mild : ∀ {a b : Cursor} {w : List Char}, Spells p a w b → ∀ c ∈ w.dropLast, Mode.isMild c = true

namespace StartsMild

theorem exists_cons {a b : Cursor} {w : List Char} (hp : StartsMild p) (h : Spells p a w b)
    (hw : 2 ≤ w.length) : ∃ c more, w = c :: more ∧ Mode.isPending c = false := by
  cases w with
  | nil => simp at hw
  | cons c more =>
    cases more with
    | nil => simp at hw
    | cons d more =>
      exact ⟨c, d :: more, rfl, Mode.isPending_of_isMild (hp.mild h c List.mem_cons_self)⟩

/-- Where the pattern matches, it shows from the text before whether one is in
code. -/
theorem inCode_iff (hp : StartsMild p) (h : p.MatchesAt (u ++ v) u.length) :
    (ofText (u ++ v)).InCode u.length ↔ (Mode.code.scan u).isCode = true := by
  rw [MatchesAt, Cursor.ofOffset_length] at h
  obtain ⟨b, hb⟩ := Option.isSome_iff_exists.mp h
  obtain ⟨w, b', hw, hsome⟩ := Pattern.run_spells p _ some b hb
  obtain rfl := Option.some.inj hsome
  obtain ⟨passed, -, hoffset, hle⟩ := Pattern.matchAt?_some hb
  have hlength : 2 ≤ w.length := by
    have := hw.offset_eq
    have := hp.two_le
    omega
  obtain ⟨c, more, rfl, hc⟩ := hp.exists_cons hw hlength
  have hv : v = c :: more ++ b'.rest := hw.rest_eq
  rw [hv, List.cons_append, inCode_iff_isCode hc]

/-- **A search that finds nothing in code misses nothing**: a place that lies
under a match from within a literal is in that literal as well. -/
theorem not_inCode_of_occurs (hp : StartsMild p) (hoccurs : (ofText (u ++ v)).occurs p = false)
    (h : p.MatchesAt (u ++ v) u.length) : ¬ (ofText (u ++ v)).InCode u.length := by
  intro hcode
  have htwo := hp.two_le
  obtain ⟨m, hm, hstart, hstop, start, hle, hfound⟩ :=
    Pattern.exists_covering (by omega) h (Nat.zero_le _) (by simp)
  have hliteral : ¬ (ofText (u ++ v)).InCode m.start := by
    have hmatch := List.any_eq_false.mp hoccurs m hm
    simpa [InCode] using hmatch
  have hspan := Pattern.findFrom?_some hle hfound
  obtain ⟨a, w, b, hw, ha, hrest, -, hb, -⟩ := Pattern.findFrom?_spells hle hfound
  have hoffset := hw.offset_eq
  have hdrop := hw.rest_eq
  -- the text up to the match, and the match up to the place
  obtain ⟨front, x, rfl, hfront⟩ : ∃ front x, u = front ++ x ∧ front.length = m.start :=
    ⟨u.take m.start, u.drop m.start, (List.take_append_drop m.start u).symm,
      List.length_take_of_le hstart⟩
  rw [List.length_append] at hstop
  rw [hrest, ← hfront, List.append_assoc, List.drop_left' rfl] at hdrop
  have hlong : x.length < w.length := by omega
  obtain ⟨y, rfl⟩ : ∃ y, w = x ++ y := by
    rcases List.append_eq_append_iff.mp hdrop with ⟨y, hw, -⟩ | ⟨y, hx, -⟩
    · exact ⟨y, hw⟩
    · rw [hx, List.length_append] at hlong
      omega
  have hy : y ≠ [] := by
    rintro rfl
    rw [List.append_nil] at hlong
    exact Nat.lt_irrefl _ hlong
  have hx : ∀ c ∈ x, Mode.isMild c = true := by
    intro c hc
    refine hp.mild hw c ?_
    rw [List.dropLast_append_of_ne_nil hy]
    exact List.mem_append_left _ hc
  obtain ⟨c, more, hcons, hc⟩ := hp.exists_cons hw (by omega)
  have hinside :
      (ofText (front ++ x ++ v)).InCode m.start ↔ (Mode.code.scan front).isCode = true := by
    rw [← hfront, List.append_assoc, hdrop, hcons, List.cons_append, inCode_iff_isCode hc]
  rw [hp.inCode_iff h, Mode.scan_append] at hcode
  rw [hinside] at hliteral
  by_cases hnil : x = []
  · subst hnil
    exact hliteral hcode
  · rw [Mode.scan_of_mild hx hnil, Mode.isCode_settle] at hcode
    exact hliteral hcode

end StartsMild

end Occurs

/-! ## The results of the rules -/

section Results

variable {u v after source out : List Char} {p : Option Char}

/-- A rule that looks for its construct in what came out, with a pattern that
matches where the construct stands in code. -/
theorem not_occursIn_of_occurs {rule : Degradation} {leftover : Pattern}
    (hp : StartsMild leftover) (hoccurs : (ofText out).occurs leftover = false)
    (hmatches : ∀ u v, out = u ++ v → (ofText out).InCode u.length →
      rule.StandsAt u.getLast? v → leftover.MatchesAt (u ++ v) u.length) :
    ¬ rule.OccursIn out := by
  rintro ⟨u, v, rfl, hcode, hstands⟩
  exact hp.not_inCode_of_occurs hoccurs (hmatches u v rfl hcode hstands) hcode

theorem OptionalAccess.startsMild_leftover : StartsMild OptionalAccess.leftover := by
  refine ⟨by decide, fun h => ?_⟩
  obtain ⟨u, v, _, rfl, hu, hv⟩ := h.of_append
  obtain ⟨c, rfl, -⟩ := hv.of_char
  rw [hu.of_literal, List.dropLast_concat]
  decide

theorem Nullish.startsMild_leftover : StartsMild Nullish.leftover := by
  refine ⟨by decide, fun h => ?_⟩
  obtain ⟨u, v, _, rfl, hu, hv⟩ := h.of_append
  rw [hu.of_literal]
  rcases hv.of_or with hv | hv
  · obtain ⟨c, rfl, -⟩ := hv.of_char
    rw [List.dropLast_concat]
    decide
  · cases hv
    decide

theorem Arrows.startsMild_leftover : StartsMild Arrows.leftover := by
  refine ⟨by decide, fun h => ?_⟩
  rw [h.of_literal]
  decide

theorem OptionalAccess.leftover_matchesAt {c : Char} (hc : Text.isDigit c = false) :
    OptionalAccess.leftover.MatchesAt (u ++ '?' :: '.' :: c :: after) u.length := by
  rw [MatchesAt, Cursor.ofOffset_length, Pattern.matchAt?, OptionalAccess.leftover,
    Pattern.run_append, @Pattern.run_literal _ _ _ _ (c :: after) rfl,
    Pattern.run_char rfl (by rw [hc]; rfl)]
  rfl

theorem Nullish.leftover_matchesAt (hafter : after.head? ≠ some '=') :
    Nullish.leftover.MatchesAt (u ++ '?' :: '?' :: after) u.length := by
  rw [MatchesAt, Cursor.ofOffset_length, Pattern.matchAt?, Nullish.leftover,
    Pattern.run_append, @Pattern.run_literal _ _ _ _ after rfl]
  cases after with
  | nil => rfl
  | cons c after =>
    have hc : ("=".toList.contains c) = false := by
      simpa using hafter
    have hnoneOf : (Pattern.noneOf "=").run
        (Cursor.behind ⟨u.length, u.getLast?, '?' :: '?' :: c :: after, []⟩ "??".toList
          (c :: after)) some = _ := Pattern.run_char rfl (by rw [hc]; rfl)
    rw [Pattern.run_or_eq_left hnoneOf]
    rfl

theorem Arrows.leftover_matchesAt :
    Arrows.leftover.MatchesAt (u ++ '=' :: '>' :: after) u.length := by
  rw [MatchesAt, Cursor.ofOffset_length, Pattern.matchAt?, Arrows.leftover,
    @Pattern.run_literal _ _ _ _ after rfl]
  rfl

/-- Behind the last replacement, the text goes on as it did. -/
theorem exists_of_patchFrom (text : List Char) (offset : Nat) {replacements : List Replacement}
    (h : replacements ≠ []) : ∃ front, ∃ r ∈ replacements,
      patchFrom text offset replacements = front ++ r.text ++ text.drop r.span.stop := by
  induction replacements generalizing offset with
  | nil => exact absurd rfl h
  | cons r rest ih =>
    rw [patchFrom]
    cases rest with
    | nil => exact ⟨Pattern.slice text offset r.span.start, r, List.mem_cons_self, rfl⟩
    | cons r' rest =>
      obtain ⟨front, last, hlast, hpatch⟩ := ih r.span.stop (List.cons_ne_nil r' rest)
      refine ⟨Pattern.slice text offset r.span.start ++ r.text ++ front, last,
        List.mem_cons_of_mem r hlast, ?_⟩
      simp only [hpatch, List.append_assoc]

/-- An optional link at the end of a text was there before: a guard chain ends
with a parenthesis. -/
theorem OptionalAccess.suffix_of_patch {text : List Char} {replacements : List Replacement}
    (hfound : OptionalAccess.replacements? (ofText text) = some replacements)
    (hsome : replacements ≠ []) (h : ['?', '.'] <:+ (ofText text).patch replacements) :
    ['?', '.'] <:+ text := by
  obtain ⟨front, r, hr, hpatch⟩ := exists_of_patchFrom text 0 hsome
  obtain ⟨c, -, -, -, htext, -⟩ := OptionalAccess.exists_of_replacements? hfound hr
  obtain ⟨guards, hguards⟩ : ∃ guards, OptionalAccess.guardChain c.text = guards ++ [')'] :=
    ⟨_, rfl⟩
  refine List.IsSuffix.trans ?_ (List.drop_suffix r.span.stop text)
  have hsuffix : ['?', '.'] <:+ front ++ guards ++ ([')'] ++ text.drop r.span.stop) := by
    have hall : (ofText text).patch replacements
        = front ++ guards ++ ([')'] ++ text.drop r.span.stop) := by
      rw [patch, ofText, hpatch, htext, hguards]
      simp
    rwa [hall] at h
  refine List.suffix_of_suffix_length_le hsuffix
    ((List.suffix_append _ _).trans (List.suffix_append _ _)) ?_
  -- a shorter rest would put the parenthesis among the last two characters
  obtain ⟨x, hx⟩ := hsuffix
  have hreverse := congrArg List.reverse hx
  cases htail : text.drop r.span.stop with
  | nil => simp [htail] at hreverse
  | cons c tail =>
    cases tail with
    | nil => simp [htail] at hreverse
    | cons d tail => exact Nat.le_add_left 2 _

/-- **A link at the end that stood in a literal** still does: the reader comes to
it as before. -/
theorem OptionalAccess.not_inCode_of_patch {replacements : List Replacement}
    (hfound : OptionalAccess.replacements? (ofText (u ++ ['?', '.'])) = some replacements)
    (hpair : ∀ r ∈ replacements, (ofText (u ++ ['?', '.'])).BracketsPair r.span)
    (hpatch : (ofText (u ++ ['?', '.'])).patch replacements = v ++ ['?', '.'])
    (h : ¬ (ofText (u ++ ['?', '.'])).InCode u.length) :
    ¬ (ofText (v ++ ['?', '.'])).InCode v.length := by
  have hlink : ∀ m : Mode, m.scan ['?', '.'] = m.settle :=
    fun m => Mode.scan_of_mild (by decide) (by decide)
  have hscan := OptionalAccess.scan_patch hfound hpair
  rw [hpatch, Mode.scan_append, Mode.scan_append, hlink, hlink] at hscan
  have hplace : ∀ w : List Char,
      (ofText (w ++ ['?', '.'])).InCode w.length ↔ (Mode.code.scan w).isCode = true :=
    fun w => inCode_iff_isCode (by decide)
  rwa [hplace, ← Mode.isCode_settle, hscan, Mode.isCode_settle, ← hplace]

theorem OptionalAccess.not_occursIn (h : OptionalAccess.degrade? source = some out)
    (hend : ['?', '.'] <:+ source → ¬ (ofText source).InCode (source.length - 2)
      ∧ ∀ pass ∈ OptionalAccess.passes source, ∀ r ∈ pass.replacements,
        pass.code.BracketsPair r.span) :
    ¬ Degradation.optionalMemberAccess.OccursIn out := by
  obtain ⟨replacements, hsome, hfound, hpasses, rfl, hoccurs⟩ := OptionalAccess.exists_pass h
  refine not_occursIn_of_occurs OptionalAccess.startsMild_leftover hoccurs ?_
  rintro u v huv hcode ⟨after, rfl, hdigit⟩
  cases after with
  | cons c after => exact OptionalAccess.leftover_matchesAt (hdigit c rfl)
  | nil =>
    have hsuffix : ['?', '.'] <:+ source :=
      OptionalAccess.suffix_of_patch hfound hsome (huv ▸ List.suffix_append u _)
    obtain ⟨hliteral, hpair⟩ := hend hsuffix
    rw [hpasses, List.forall_mem_singleton] at hpair
    obtain ⟨front, rfl⟩ := hsuffix
    rw [List.length_append] at hliteral
    rw [huv] at hcode
    exact absurd hcode (OptionalAccess.not_inCode_of_patch hfound hpair huv hliteral)

theorem Nullish.not_occursIn (h : Nullish.degrade? source = some out) :
    ¬ Degradation.nullishCoalescing.OccursIn out := by
  rw [Nullish.degrade?] at h
  split at h
  · split at h
    · cases h
    · next hclean =>
      cases h
      refine not_occursIn_of_occurs Nullish.startsMild_leftover (Bool.eq_false_iff.mpr hclean) ?_
      rintro u v - - ⟨after, rfl, hafter⟩
      exact Nullish.leftover_matchesAt hafter
  · cases h

theorem Arrows.not_occursIn (h : Arrows.degrade? source = some out) :
    ¬ Degradation.arrowFunctions.OccursIn out := by
  rw [Arrows.degrade?] at h
  split at h
  · cases h
  · next hclean =>
    cases h
    refine not_occursIn_of_occurs Arrows.startsMild_leftover
      (Bool.eq_false_iff.mpr (not_or.mp hclean).2) ?_
    rintro u v - - ⟨after, rfl⟩
    exact Arrows.leftover_matchesAt

end Results

end Downlevel.Code
