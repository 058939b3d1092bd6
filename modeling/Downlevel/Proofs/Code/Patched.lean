/-
Downlevel.Proofs.Code.Patched — constructs in a text with replacements made.

A pass leaves what stands between its replacements and puts new texts in
between. `Fits` says of one replacement what keeps a construct from arising:
none starts in the new text, none starts before it and reaches into it that did
not stand there before, and behind it the reader goes on in step. Where all
replacements fit and the text between them is clean, so is the result
(`cleanOn_patchFrom`). Where every new text takes the reader as far as the old
one, the result is read to the same mode (`scan_patchFrom`).

Every place in code where the pattern of a rule matches lies in one of its
replacements (`exists_replacement`).
-/
import Downlevel.Proofs.Code.Constructs
import Downlevel.Proofs.Code.Passes
import Downlevel.Proofs.Pattern.Search

namespace Downlevel.Code

open Pattern (slice MatchesAt)

/-! ## What is replaced -/

/-- **A rule misses no match in code.** -/
theorem exists_replacement {code : Code} {p : Pattern} {consuming : 0 < p.minLength}
    {find : Pattern.Match → Option (List Char)} {offset place : Nat}
    {replacements : List Replacement}
    (h : code.replacementsFrom? p consuming find offset = some replacements)
    (hmatch : p.MatchesAt code.text place) (hcode : code.InCode place) (hoffset : offset ≤ place)
    (hplace : place ≤ code.text.length) :
    ∃ r ∈ replacements, r.span.start ≤ place ∧ place < r.span.stop := by
  fun_induction replacementsFrom? code p consuming find offset generalizing replacements with
  | case1 offset inside hnone =>
    obtain ⟨m, hm, -⟩ := Pattern.exists_findFrom?_le hmatch hoffset hplace
    rw [hnone] at hm
    cases hm
  | case2 offset inside m hm literal hliteral ih =>
    obtain ⟨m', hm', hstart⟩ := Pattern.exists_findFrom?_le hmatch hoffset hplace
    obtain rfl : m = m' := Option.some.inj (hm.symm.trans hm')
    have hinside := literalAt?_some hliteral
    have hliteral := inCode_iff.mp hcode literal (List.mem_of_find?_eq_some hliteral)
    exact ih h (by omega)
  | case3 => cases h
  | case4 offset inside m hm hliteral text htext ih =>
    obtain ⟨m', hm', hstart⟩ := Pattern.exists_findFrom?_le hmatch hoffset hplace
    obtain rfl : m = m' := Option.some.inj (hm.symm.trans hm')
    obtain ⟨later, hlater, rfl⟩ := Option.map_eq_some_iff.mp h
    by_cases hstop : place < m.stop
    · exact ⟨_, List.mem_cons_self, hstart, hstop⟩
    · obtain ⟨r, hr, hcovers⟩ := ih hlater (by omega)
      exact ⟨r, List.mem_cons_of_mem _ hr, hcovers⟩
  | case5 offset outside => omega

theorem InOrder.le_start {offset : Nat} {replacements : List Replacement} {r : Replacement}
    (h : InOrder offset replacements) (hr : r ∈ replacements) : offset ≤ r.span.start := by
  induction replacements generalizing offset with
  | nil => cases hr
  | cons first rest ih =>
    obtain ⟨hstart, hstop, hrest⟩ := h
    rcases List.mem_cons.mp hr with rfl | hr
    · exact hstart
    · exact Nat.le_trans (Nat.le_trans hstart hstop) (ih hrest hr)

/-! ## Replacements that fit -/

/-- The mode in which a place of a text is reached. -/
def modeAt (text : List Char) (offset : Nat) : Mode := Mode.code.scan (text.take offset)

/-- The character before a place. -/
def lastBefore? (text : List Char) (offset : Nat) : Option Char := (text.take offset).getLast?

section Places

variable {text w rest : List Char} {i j : Nat}

theorem slice_append_drop (text : List Char) (h : i ≤ j) :
    slice text i j ++ text.drop j = text.drop i := by
  rw [slice, ← Nat.add_sub_of_le h, ← List.drop_drop, Nat.add_sub_cancel_left,
    List.take_append_drop]

theorem take_append_slice (h : i ≤ j) : text.take i ++ slice text i j = text.take j := by
  rw [slice, ← List.take_add, Nat.add_sub_of_le h]

theorem take_add_of_drop (h : text.drop i = w ++ rest) :
    text.take (i + w.length) = text.take i ++ w := by
  rw [List.take_add, h, List.take_left' rfl]

theorem modeAt_add (h : text.drop i = w ++ rest) :
    modeAt text (i + w.length) = (modeAt text i).scan w := by
  rw [modeAt, take_add_of_drop h, Mode.scan_append, modeAt]

theorem scan_slice (h : i ≤ j) : (modeAt text i).scan (slice text i j) = modeAt text j := by
  rw [modeAt, ← Mode.scan_append, take_append_slice h, modeAt]

theorem lastBefore?_add (h : text.drop i = w ++ rest) (hw : w ≠ []) :
    lastBefore? text (i + w.length) = w.getLast? := by
  rw [lastBefore?, take_add_of_drop h, List.getLast?_append, List.getLast?_eq_some_getLast hw,
    Option.some_or]

theorem inCode_iff_modeAt {c : Char} (h : text.drop i = c :: rest)
    (hc : Mode.isPending c = false) :
    (ofText text).InCode i ↔ (modeAt text i).isCode = true := by
  have hi : i ≤ text.length :=
    Nat.le_of_add_right_le (length_of_drop (w := [c]) h (List.cons_ne_nil c []))
  have hplace := inCode_iff_isCode (u := text.take i) (v := rest) hc
  rwa [← h, List.take_append_drop, List.length_take_of_le hi] at hplace

end Places

variable {rule : Degradation} {text : List Char} {offset : Nat} {replacements : List Replacement}
  {m : Mode} {p : Option Char}

/-- Where every new text takes the reader as far as the old one did, the whole
text does. -/
theorem scan_patchFrom (horder : InOrder offset replacements)
    (hscan : ∀ r ∈ replacements,
      (modeAt text r.span.start).scan r.text = modeAt text r.span.stop) :
    (modeAt text offset).scan (patchFrom text offset replacements) = Mode.code.scan text := by
  induction replacements generalizing offset with
  | nil => rw [patchFrom, modeAt, ← Mode.scan_append, List.take_append_drop]
  | cons r rest ih =>
    obtain ⟨hr, hrest⟩ := List.forall_mem_cons.mp hscan
    obtain ⟨hstart, -, hlater⟩ := horder
    rw [patchFrom, Mode.scan_append, Mode.scan_append, scan_slice hstart, hr, ih hlater hrest]

/-- A replacement that lets no construct arise. -/
structure Replacement.Fits (rule : Degradation) (text : List Char) (r : Replacement) : Prop where
  inside : r.span.stop ≤ text.length
  ends : ∀ q w rest, w ≠ [] → w <:+ text.take r.span.start →
    rule.StandsAt q (w ++ (r.text ++ rest)) → rule.StandsAt q (w ++ text.drop r.span.start)
  clean : ∀ (m : Mode) p rest, m.settle = (modeAt text r.span.start).settle →
    CleanOn rule m p r.text rest
  resumes : ∀ (m : Mode) p, m.settle = (modeAt text r.span.start).settle →
    InStep rule (modeAt text r.span.stop) (m.scan r.text) (lastBefore? text r.span.stop)
      (r.text.getLast?.or p) (text.drop r.span.stop)

/-- A part of a text that holds no construct, place by place. -/
theorem cleanOn_of_places {i : Nat} {u after : List Char}
    (hplaces : ∀ v w, u = v ++ w → w ≠ [] → (Mode.code.scan (text.take i ++ v)).isCode = true →
      ¬ rule.StandsAt (text.take i ++ v).getLast? (w ++ after)) :
    CleanOn rule (modeAt text i) (lastBefore? text i) u after := by
  intro v w huv hw hv
  have hplace := hplaces v w huv hw (by rwa [Mode.scan_append])
  rwa [List.getLast?_append] at hplace

/-- **Replacements that fit keep a text clean**, if it is clean between them. -/
theorem cleanOn_patchFrom (hinside : offset ≤ text.length) (horder : InOrder offset replacements)
    (hfits : ∀ r ∈ replacements, r.Fits rule text)
    (hkept : ∀ u v, text = u ++ v → offset ≤ u.length →
      (∀ r ∈ replacements, u.length < r.span.start ∨ r.span.stop ≤ u.length) →
      (Mode.code.scan u).isCode = true → ¬ rule.StandsAt u.getLast? v)
    (hstep : InStep rule (modeAt text offset) m (lastBefore? text offset) p (text.drop offset)) :
    CleanOn rule m p (patchFrom text offset replacements) [] := by
  induction replacements generalizing offset m p with
  | nil =>
    rw [patchFrom]
    have hclean :
        CleanOn rule (modeAt text offset) (lastBefore? text offset) (text.drop offset) [] := by
      refine cleanOn_of_places fun v w huv _ hv => ?_
      rw [List.append_nil]
      refine hkept _ w ?_ (by simp [List.length_take_of_le hinside]) (List.forall_mem_nil _) hv
      rw [List.append_assoc, ← huv, List.take_append_drop]
    exact hclean.move (by rwa [List.append_nil]) fun _ _ _ _ h => h
  | cons r rest ih =>
    obtain ⟨hr, hrest⟩ := List.forall_mem_cons.mp hfits
    obtain ⟨hstart, hstop, hlater⟩ := horder
    have hdrop := slice_append_drop text hstart
    have hle := hr.inside
    rw [← hdrop] at hstep
    rw [patchFrom, List.append_assoc, cleanOn_append, cleanOn_append]
    have hadvance := hstep.advance
    rw [scan_slice hstart] at hadvance
    refine ⟨?_, hr.clean _ _ _ hadvance.settle.symm, ?_⟩
    · have hclean : CleanOn rule (modeAt text offset) (lastBefore? text offset)
          (slice text offset r.span.start) (text.drop r.span.start) := by
        refine cleanOn_of_places fun v w huv hw hv => ?_
        have hlength := congrArg List.length huv
        have hpos := List.length_pos_iff.mpr hw
        rw [slice, List.length_take, List.length_drop, List.length_append] at hlength
        have hplace : (text.take offset ++ v).length < r.span.start := by
          rw [List.length_append, List.length_take]
          omega
        refine hkept _ _ ?_ (by simp [List.length_take_of_le hinside]) ?_ hv
        · rw [List.append_assoc, ← List.append_assoc v, ← huv, hdrop, List.take_append_drop]
        · refine List.forall_mem_cons.mpr ⟨.inl hplace, fun r' hr' => .inl ?_⟩
          have := hlater.le_start hr'
          omega
      refine hclean.move hstep fun q w hw hsuffix hstands => ?_
      rw [List.append_nil] at hstands
      refine hr.ends q w _ hw (hsuffix.trans ?_) hstands
      rw [← take_append_slice hstart]
      exact List.suffix_append _ _
    · refine ih hle hlater hrest (fun u v huv hu hbetween => ?_)
        (hr.resumes _ _ hadvance.settle.symm)
      exact hkept u v huv (by omega) (List.forall_mem_cons.mpr ⟨.inr hu, hbetween⟩)

/-- A pass over a clean text leaves a clean text, if its replacements fit. -/
theorem not_occursIn_patch (hclean : ¬ rule.OccursIn text) (horder : InOrder 0 replacements)
    (hfits : ∀ r ∈ replacements, r.Fits rule text) :
    ¬ rule.OccursIn ((ofText text).patch replacements) := by
  rw [not_occursIn_iff] at hclean ⊢
  refine cleanOn_patchFrom (Nat.zero_le _) horder hfits (fun u v huv _ _ hu hstands => ?_)
    (.refl ..)
  obtain ⟨c, more, rfl, -⟩ := hstands.exists_starter
  refine hclean u _ huv (List.cons_ne_nil c more) hu ?_
  rwa [List.append_nil, Option.or_none]

end Downlevel.Code
