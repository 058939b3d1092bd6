/-
Downlevel.Proofs.Framework.Scores — what the score of a framework depends on.

Over exact fractions the weights add up without rounding. So it does not matter
in which order two events are weighed (`Tally.weigh_comm`), and no event counts
against a framework: it can only raise the sum, and an import or markup that was
seen stays seen (`Tally.le_weigh`). The last step, with its bonus for markup, its
discount without an import and its cap, goes along with that order
(`Tally.finish_mono`), although the bonus depends on other evidence and the
discount is lifted by a single event.

`IsRanking` says what a list of scored frameworks is to be, without a sort.
-/
import Mathlib.Algebra.Order.Field.Rat
import Mathlib.Algebra.Order.Ring.Rat
import Mathlib.Data.List.Induction
import Mathlib.Tactic.NormNum
import Downlevel.Framework
import Downlevel.Proofs.StableSort

namespace Downlevel

/-! ## Weights -/

namespace EvidenceWeights

/-- The weights as fractions. -/
def exact : EvidenceWeights ℚ := ⟨0, 1 / 2, 1 / 10, 3 / 20, 1 / 5, 1 / 10, 3 / 4, 1⟩

/-- No evidence counts against a framework, and the discount is one. -/
structure IsFair (w : EvidenceWeights ℚ) : Prop where
  none_eq : w.none = 0
  importOf_nonneg : 0 ≤ w.importOf
  hook_nonneg : 0 ≤ w.hook
  reactive_nonneg : 0 ≤ w.reactive
  component_nonneg : 0 ≤ w.component
  markup_nonneg : 0 ≤ w.markup
  withoutImport_nonneg : 0 ≤ w.withoutImport
  withoutImport_le_one : w.withoutImport ≤ 1
  full_nonneg : 0 ≤ w.full

theorem exact_isFair : exact.IsFair := by
  constructor <;> simp only [exact] <;> norm_num

end EvidenceWeights

/-! ## Weighing -/

namespace Tally

variable {w : EvidenceWeights ℚ} {t u : Tally ℚ}

/-- **Two pieces of evidence weigh the same in either order.** -/
theorem weigh_comm (w : EvidenceWeights ℚ) (t : Tally ℚ) (a b : FrameworkProfile.Evidence) :
    (t.weigh w a).weigh w b = (t.weigh w b).weigh w a := by
  obtain ⟨score, imported, markup⟩ := t
  cases imported <;> cases a <;> cases b <;> simp [weigh, add_right_comm]

/-- At least as much was seen. -/
structure Le (t u : Tally ℚ) : Prop where
  score_le : t.score ≤ u.score
  imported : t.imported = true → u.imported = true
  markup : t.markup = true → u.markup = true

/-- No evidence takes anything back. -/
theorem le_weigh (hw : w.IsFair) (t : Tally ℚ) (e : FrameworkProfile.Evidence) :
    t.Le (t.weigh w e) := by
  cases e with
  | importOf =>
    by_cases himported : t.imported = true
    · rw [weigh, if_pos himported]
      exact ⟨le_refl _, id, id⟩
    · rw [weigh, if_neg himported]
      exact ⟨le_add_of_nonneg_right hw.importOf_nonneg, fun _ => rfl, id⟩
  | hook => exact ⟨le_add_of_nonneg_right hw.hook_nonneg, id, id⟩
  | reactive => exact ⟨le_add_of_nonneg_right hw.reactive_nonneg, id, id⟩
  | component => exact ⟨le_add_of_nonneg_right hw.component_nonneg, id, id⟩
  | markup => exact ⟨le_refl _, id, fun _ => rfl⟩
  | nothing => exact ⟨le_refl _, id, id⟩

theorem weigh_nonneg (hw : w.IsFair) (h : 0 ≤ t.score) (e : FrameworkProfile.Evidence) :
    0 ≤ (t.weigh w e).score :=
  h.trans (le_weigh hw t e).score_le

/-! ## Finishing -/

/-- What markup adds. -/
def bonus (w : EvidenceWeights ℚ) (t : Tally ℚ) : ℚ :=
  if t.markup ∧ w.none < t.score then w.markup else 0

/-- The share of the sum that counts. -/
def share (w : EvidenceWeights ℚ) (t : Tally ℚ) : ℚ := if t.imported then 1 else w.withoutImport

theorem finish_eq (w : EvidenceWeights ℚ) (t : Tally ℚ) :
    t.finish w = min ((t.score + t.bonus w) * t.share w) w.full := by
  have hbonus : (if t.markup ∧ w.none < t.score then t.score + w.markup else t.score)
      = t.score + t.bonus w := by
    rw [bonus]
    split
    · rfl
    · rw [add_zero]
  have hshare : ∀ score, (if t.imported then score else score * w.withoutImport)
      = score * t.share w := by
    intro score
    rw [share]
    split
    · rw [mul_one]
    · rfl
  simp only [finish, hbonus, hshare, min_def]

theorem bonus_nonneg (hw : w.IsFair) (t : Tally ℚ) : 0 ≤ t.bonus w := by
  rw [bonus]
  split
  · exact hw.markup_nonneg
  · exact le_refl 0

/-- Markup beside other evidence stays so. -/
theorem bonus_mono (hw : w.IsFair) (h : t.Le u) : t.bonus w ≤ u.bonus w := by
  by_cases hmarkup : t.markup ∧ w.none < t.score
  · have hstill : u.markup ∧ w.none < u.score :=
      ⟨h.markup hmarkup.1, hmarkup.2.trans_le h.score_le⟩
    rw [bonus, bonus, if_pos hmarkup, if_pos hstill]
  · rw [bonus, if_neg hmarkup]
    exact bonus_nonneg hw u

theorem share_nonneg (hw : w.IsFair) (t : Tally ℚ) : 0 ≤ t.share w := by
  rw [share]
  split
  · exact zero_le_one
  · exact hw.withoutImport_nonneg

/-- An import can only lift the discount. -/
theorem share_mono (hw : w.IsFair) (h : t.Le u) : t.share w ≤ u.share w := by
  by_cases himported : t.imported = true
  · rw [share, share, if_pos himported, if_pos (h.imported himported)]
  · rw [share, share, if_neg himported]
    split
    · exact hw.withoutImport_le_one
    · exact le_refl _

theorem finish_nonneg (hw : w.IsFair) (h : 0 ≤ t.score) : 0 ≤ t.finish w := by
  rw [finish_eq]
  have hsum : 0 ≤ t.score + t.bonus w := add_nonneg h (bonus_nonneg hw t)
  exact le_min (mul_nonneg hsum (share_nonneg hw t)) hw.full_nonneg

theorem finish_le_full (w : EvidenceWeights ℚ) (t : Tally ℚ) : t.finish w ≤ w.full := by
  rw [finish_eq]
  exact min_le_right _ _

/-- **Where more was seen the score is not lower.** -/
theorem finish_mono (hw : w.IsFair) (hnonneg : 0 ≤ t.score) (h : t.Le u) :
    t.finish w ≤ u.finish w := by
  have hsum : t.score + t.bonus w ≤ u.score + u.bonus w :=
    add_le_add h.score_le (bonus_mono hw h)
  have hsum_nonneg : 0 ≤ u.score + u.bonus w :=
    add_nonneg (hnonneg.trans h.score_le) (bonus_nonneg hw u)
  rw [finish_eq, finish_eq]
  exact min_le_min_right _ (mul_le_mul hsum (share_mono hw h) (share_nonneg hw t) hsum_nonneg)

end Tally

/-! ## Scores -/

namespace FrameworkProfile

variable {w : EvidenceWeights ℚ} (p : FrameworkProfile)

/-- How far some events have been weighed. -/
def tally (w : EvidenceWeights ℚ) (p : FrameworkProfile) (events : List Event) : Tally ℚ :=
  events.foldl (fun t e => t.weigh w (p.evidence e)) (Tally.start w)

theorem score_eq_finish (events : List Event) : p.score w events = (p.tally w events).finish w :=
  rfl

theorem tally_append_singleton (events : List Event) (e : Event) :
    p.tally w (events ++ [e]) = (p.tally w events).weigh w (p.evidence e) := by
  rw [tally, List.foldl_append]
  rfl

theorem tally_nonneg (hw : w.IsFair) (events : List Event) : 0 ≤ (p.tally w events).score := by
  induction events using List.reverseRecOn with
  | nil => exact hw.none_eq.ge
  | append_singleton events e ih =>
    rw [tally_append_singleton]
    exact Tally.weigh_nonneg hw ih _

theorem score_nonneg (hw : w.IsFair) (events : List Event) : 0 ≤ p.score w events :=
  Tally.finish_nonneg hw (p.tally_nonneg hw events)

theorem score_le_full (events : List Event) : p.score w events ≤ w.full :=
  Tally.finish_le_full w _

/-- **The order of the events does not matter.** -/
theorem score_perm {a b : List Event} (h : a.Perm b) : p.score w a = p.score w b := by
  have htally : p.tally w a = p.tally w b :=
    h.foldl_eq' (fun d _ e _ t => Tally.weigh_comm w t (p.evidence d) (p.evidence e)) _
  rw [score_eq_finish, score_eq_finish, htally]

/-- **One more event, wherever it stands, does not lower a score.** -/
theorem score_le_insert (hw : w.IsFair) (a : List Event) (e : Event) (b : List Event) :
    p.score w (a ++ b) ≤ p.score w (a ++ e :: b) := by
  -- by the order that suits, the new event comes last
  have hlast : (a ++ e :: b).Perm ((a ++ b) ++ [e]) := by
    rw [List.append_assoc]
    exact (List.perm_append_singleton e b).symm.append_left a
  rw [p.score_perm hlast, score_eq_finish, score_eq_finish, tally_append_singleton]
  exact Tally.finish_mono hw (p.tally_nonneg hw _) (Tally.le_weigh hw _ _)

end FrameworkProfile

/-! ## Rankings -/

namespace FrameworkSignal

/-- What a list of frameworks with their scores is to be: those with more than
the least score, in descending order, and those of one score as they stand in
the table. -/
structure IsRanking (least : ℚ) (profiles : List FrameworkProfile) (score : FrameworkProfile → ℚ)
    (ranked : List (FrameworkProfile × ℚ)) : Prop where
  perm : ranked.Perm ((profiles.filter fun p => least < score p).map fun p => (p, score p))
  descending : ranked.Pairwise fun s t => t.2 ≤ s.2
  ties : ∀ x, (ranked.filter fun s => s.2 = x).map Prod.fst
    = profiles.filter fun p => least < score p ∧ score p = x

theorem isRanking_rank (w : EvidenceWeights ℚ) (least : ℚ) (profiles : List FrameworkProfile)
    (events : List Event) :
    IsRanking least profiles (fun p => p.score w events) (rank w least profiles events) := by
  have htrans : ∀ r s t : FrameworkProfile × ℚ, decide (s.2 ≤ r.2) = true →
      decide (t.2 ≤ s.2) = true → decide (t.2 ≤ r.2) = true := by
    intro r s t hrs hst
    rw [decide_eq_true_eq] at *
    exact hst.trans hrs
  have htotal : ∀ s t : FrameworkProfile × ℚ,
      (decide (t.2 ≤ s.2) || decide (s.2 ≤ t.2)) = true := by
    intro s t
    rw [Bool.or_eq_true, decide_eq_true_eq, decide_eq_true_eq]
    exact le_total _ _
  have hlisted : ((profiles.map fun p => (p, p.score w events)).filter fun s => least < s.2)
      = (profiles.filter fun p => least < p.score w events).map fun p => (p, p.score w events) :=
    List.filter_map
  refine ⟨?_, ?_, ?_⟩
  · rw [rank, hlisted]
    exact List.mergeSort_perm _ _
  · refine (List.pairwise_mergeSort htrans htotal _).imp fun h => ?_
    rwa [decide_eq_true_eq] at h
  · intro x
    have hsame : ∀ s t : FrameworkProfile × ℚ, decide (s.2 = x) = true → decide (t.2 = x) = true →
        decide (t.2 ≤ s.2) = true := by
      intro s t hs ht
      rw [decide_eq_true_eq] at *
      rw [hs, ht]
    rw [rank, hlisted, StableSort.filter_mergeSort htrans htotal hsame, List.filter_map,
      List.map_map, List.filter_filter]
    simp [Function.comp_def, and_comm]

/-- **Scores are fair, and the ranking follows them.** Over exact fractions,
for every list of events: the score of a framework lies between zero and one,
does not depend on the order of the events, and is not lowered by one more
event, wherever in the list. Ranked are exactly the frameworks with a score
above three tenths, in descending order, and those of equal scores in the order
of the table. -/
theorem scores_are_fair :
    (∀ (p : FrameworkProfile) (events : List Event),
      0 ≤ p.score .exact events ∧ p.score .exact events ≤ 1)
    ∧ (∀ (p : FrameworkProfile) (a b : List Event), a.Perm b →
        p.score .exact a = p.score .exact b)
    ∧ (∀ (p : FrameworkProfile) (a : List Event) (e : Event) (b : List Event),
        p.score .exact (a ++ b) ≤ p.score .exact (a ++ e :: b))
    ∧ (∀ events : List Event, IsRanking (3 / 10) FrameworkProfile.all
        (fun p => p.score .exact events) (rank .exact (3 / 10) FrameworkProfile.all events)) := by
  have hfair := EvidenceWeights.exact_isFair
  exact ⟨fun p events => ⟨p.score_nonneg hfair events, p.score_le_full events⟩,
    fun p _ _ h => p.score_perm h, fun p => p.score_le_insert hfair,
    fun events => isRanking_rank .exact (3 / 10) FrameworkProfile.all events⟩

/-- Markup with two hooks in front of the import that they come from. -/
def hooksFirst : List Event := [
  .plain .markupElement, .about .call "useState", .about .call "React.useEffect",
  .about .importSource "react"]

/-- The import counts for all that came before it. -/
theorem scores_are_fair_hooksFirst :
    hooksFirst.Perm hooksFirst.reverse
      ∧ FrameworkProfile.react.score .exact hooksFirst = 4 / 5
      ∧ FrameworkProfile.react.score .exact hooksFirst.reverse = 4 / 5
      ∧ FrameworkProfile.react.score .exact (hooksFirst.take 3) = 9 / 40 := by
  have hperm : hooksFirst.Perm hooksFirst.reverse := (List.reverse_perm hooksFirst).symm
  have hscore : FrameworkProfile.react.score .exact hooksFirst = 4 / 5 := by decide +kernel
  exact ⟨hperm, hscore, (scores_are_fair.2.1 _ _ _ hperm).symm.trans hscore, by decide +kernel⟩

end FrameworkSignal

end Downlevel
