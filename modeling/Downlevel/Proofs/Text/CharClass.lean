/-
Downlevel.Proofs.Text.CharClass — classes of characters that exclude each
other.

Two tables of ranges have no code point in common when no range of the one
meets a range of the other, which is decided on the tables
(`has_eq_false_of_areApart`). So a blank is neither a digit nor a word
character, beyond 127 as well as below.
-/
import Downlevel.Proofs.Pattern.Spelling

namespace Downlevel.Text

/-- What holds of the characters of a list is decided along the list, and not by
going through all the characters that there are. -/
instance (priority := high) decidableForallMem (p : Char → Prop) [DecidablePred p]
    (cs : List Char) : Decidable (∀ c ∈ cs, p c) := List.decidableBAll p cs

namespace Property

/-- No range of the one table meets a range of the other. -/
def Ranges.AreApart (a b : Ranges) : Prop := ∀ r ∈ a, ∀ s ∈ b, r.2 < s.1 ∨ s.2 < r.1

instance (a b : Ranges) : Decidable (a.AreApart b) :=
  inferInstanceAs (Decidable (∀ r ∈ a, ∀ s ∈ b, r.2 < s.1 ∨ s.2 < r.1))

theorem has_eq_false_of_areApart {a b : Ranges} {code : Nat} (h : a.AreApart b)
    (ha : a.has code = true) : b.has code = false := by
  rw [Bool.eq_false_iff]
  intro hb
  obtain ⟨r, hr, hcode⟩ := List.any_eq_true.mp ha
  obtain ⟨s, hs, hcode'⟩ := List.any_eq_true.mp hb
  simp only [Bool.and_eq_true, decide_eq_true_eq] at hcode hcode'
  have := h r hr s hs
  omega

end Property

theorem range_of_isAlpha {c : Char} (h : c.isAlpha = true) : 65 ≤ c.toNat ∧ c.toNat ≤ 122 := by
  have hle : ∀ {m n : UInt32}, m ≤ n → m.toNat ≤ n.toNat := fun hmn => hmn
  have hcases : c.isUpper = true ∨ c.isLower = true := (Bool.or_eq_true _ _).mp h
  rcases hcases with hupper | hlower
  · have hval : 'A'.val ≤ c.val ∧ c.val ≤ 'Z'.val := of_decide_eq_true hupper
    exact ⟨hle hval.1, Nat.le_trans (hle hval.2) (by decide)⟩
  · have hval : decide ('a'.val ≤ c.val) = true ∧ decide (c.val ≤ 'z'.val) = true :=
      (Bool.and_eq_true _ _).mp hlower
    exact ⟨Nat.le_trans (by decide) (hle (of_decide_eq_true hval.1)),
      hle (of_decide_eq_true hval.2)⟩

theorem range_of_isDigit {c : Char} (h : c.isDigit = true) : 48 ≤ c.toNat ∧ c.toNat ≤ 57 := by
  have hle : ∀ {m n : UInt32}, m ≤ n → m.toNat ≤ n.toNat := fun hmn => hmn
  have hval : decide ('0'.val ≤ c.val) = true ∧ decide (c.val ≤ '9'.val) = true :=
    (Bool.and_eq_true _ _).mp h
  exact ⟨hle (of_decide_eq_true hval.1), hle (of_decide_eq_true hval.2)⟩

theorem le_toNat_of_isAlphanum {c : Char} (h : c.isAlphanum = true) : 48 ≤ c.toNat := by
  have hcases : c.isAlpha = true ∨ c.isDigit = true := (Bool.or_eq_true _ _).mp h
  rcases hcases with halpha | hdigit
  · exact Nat.le_trans (by decide) (range_of_isAlpha halpha).1
  · exact (range_of_isDigit hdigit).1

theorem toNat_le_of_isBlank {c : Char} (h : isBlank c = true) (hlow : c.toNat < 128) :
    c.toNat ≤ 32 := by
  rw [isBlank, if_pos hlow] at h
  simp only [Bool.or_eq_true, beq_iff_eq, Bool.and_eq_true, decide_eq_true_eq] at h
  rcases h with rfl | h
  · decide
  · omega

theorem whiteSpace_of_isBlank {c : Char} (h : isBlank c = true) (hhigh : ¬ c.toNat < 128) :
    Property.whiteSpace.has c.toNat = true := by
  rwa [isBlank, if_neg hhigh] at h

theorem isDigit_eq_false_of_isBlank {c : Char} (h : isBlank c = true) : isDigit c = false := by
  rw [isDigit]
  split
  · next hlow =>
    have hle := toNat_le_of_isBlank h hlow
    refine Bool.eq_false_iff.mpr fun hdigit => ?_
    have := le_toNat_of_isAlphanum (c := c) (by rw [Char.isAlphanum, hdigit, Bool.or_true])
    omega
  · next hhigh =>
    rw [Property.has_eq_false_of_areApart (by decide +kernel) (whiteSpace_of_isBlank h hhigh),
      Bool.and_false]

theorem isWord_eq_false_of_isBlank {c : Char} (h : isBlank c = true) : isWord c = false := by
  rw [isWord]
  split
  · next hlow =>
    have hle := toNat_le_of_isBlank h hlow
    have hscore : c ≠ '_' := by
      rintro rfl
      exact absurd hle (by decide)
    refine Bool.or_eq_false_iff.mpr ⟨Bool.eq_false_iff.mpr fun hword => ?_, ?_⟩
    · have := le_toNat_of_isAlphanum hword
      omega
    · exact beq_eq_false_iff_ne.mpr hscore
  · next hhigh =>
    have hspace := whiteSpace_of_isBlank h hhigh
    have htable : ∀ table : Property.Ranges, Property.whiteSpace.AreApart table →
        table.has c.toNat = false := fun _ hapart => Property.has_eq_false_of_areApart hapart hspace
    rw [htable Property.alphabetic (by decide +kernel), htable Property.mark (by decide +kernel),
      htable Property.decimalNumber (by decide +kernel),
      htable Property.connectorPunctuation (by decide +kernel),
      htable Property.joinControl (by decide +kernel)]
    simp

theorem isIdentifier_eq_false_of_isBlank {c : Char} (h : isBlank c = true) :
    isIdentifier c = false := by
  have hsigns : c ≠ '_' ∧ c ≠ '$' := by
    constructor <;> rintro rfl <;> exact absurd h (by decide)
  have hnone : isAlphanumeric c = false := by
    rw [isAlphanumeric]
    split
    · next hlow =>
      have hle := toNat_le_of_isBlank h hlow
      refine Bool.eq_false_iff.mpr fun halphanum => ?_
      have := le_toNat_of_isAlphanum halphanum
      omega
    · next hhigh =>
      have hspace := whiteSpace_of_isBlank h hhigh
      have htable : ∀ table : Property.Ranges, Property.whiteSpace.AreApart table →
          table.has c.toNat = false :=
        fun _ hapart => Property.has_eq_false_of_areApart hapart hspace
      rw [htable Property.alphabetic (by decide +kernel),
        htable Property.decimalNumber (by decide +kernel),
        htable Property.otherNumber (by decide +kernel)]
      rfl
  rw [isIdentifier, hnone, beq_eq_false_iff_ne.mpr hsigns.1, beq_eq_false_iff_ne.mpr hsigns.2]
  rfl

end Downlevel.Text

namespace Downlevel.Pattern

theorem isBlank_eq_false_of_isNamePart {c : Char} (h : isNamePart c = true) :
    Text.isBlank c = false := by
  refine Bool.eq_false_iff.mpr fun hblank => ?_
  rw [isNamePart, Text.isWord_eq_false_of_isBlank hblank, Bool.false_or, beq_iff_eq] at h
  subst h
  exact absurd hblank (by decide)

theorem isDigit_eq_false_of_isAlpha {c : Char} (h : c.isAlpha = true) : c.isDigit = false := by
  refine Bool.eq_false_iff.mpr fun hdigit => ?_
  have halpha := Text.range_of_isAlpha h
  have := Text.range_of_isDigit hdigit
  omega

theorem isDigit_eq_false_of_isNameStart {c : Char} (h : isNameStart c = true) :
    Text.isDigit c = false := by
  simp only [isNameStart, Bool.or_eq_true, beq_iff_eq] at h
  rcases h with (h | rfl) | rfl
  · rw [Text.isDigit, if_pos (toNat_lt_of_isAlpha h), isDigit_eq_false_of_isAlpha h]
  · decide
  · decide

end Downlevel.Pattern
