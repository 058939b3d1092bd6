/-
Downlevel.Proofs.Decimal.Shortest — the shortest digits of a double lie in
its rounding interval, and rounding intervals are disjoint.

Everything is said about rational values. A double rounds a rational when
the rational lies between the halfway points to its neighbours
(`Binary.Rounds`):

* `shortest_rounds` — the search for digits never comes back empty, and a
  double rounds the digits that it finds. At seventeen digits the grid is
  finer than the interval is wide, whatever the exponent is;
* `Binary.Rounds.unique` — a rational is rounded by one double only. Two
  neighbours share an end of their intervals, but their mantissas differ
  in parity, so one of the two does not own it.
-/
import Mathlib
import Downlevel.Decimal.Shortest

namespace Downlevel.Decimal

/-! ## Rational values -/

def Fraction.value (a : Fraction) : ℚ := a.num / a.den

def Digits.value (d : Digits) : ℚ := d.digits * 10 ^ d.exponent

theorem Fraction.den_scaled_pos (n : Nat) {base : Nat} (hb : 0 < base) (e : Int) :
    0 < (Fraction.scaled n base e).den := by
  rw [Fraction.scaled]
  exact Nat.pow_pos hb

theorem Fraction.value_scaled (n : Nat) {base : Nat} (hb : 0 < base) (e : Int) :
    (Fraction.scaled n base e).value = n * (base : ℚ) ^ e := by
  have hne : (base : ℚ) ≠ 0 := by exact_mod_cast hb.ne'
  rw [Fraction.scaled, Fraction.value]
  rcases Int.le_total 0 e with he | he
  · obtain ⟨k, rfl⟩ := Int.eq_ofNat_of_zero_le he
    simp
  · obtain ⟨k, hk⟩ := Int.eq_ofNat_of_zero_le (Int.neg_nonneg.mpr he)
    obtain rfl : e = -(k : Int) := by omega
    simp [zpow_neg, div_eq_mul_inv]

theorem Fraction.le_iff {a b : Fraction} (ha : 0 < a.den) (hb : 0 < b.den) :
    a.le b = true ↔ a.value ≤ b.value := by
  have ha' : (0 : ℚ) < a.den := by exact_mod_cast ha
  have hb' : (0 : ℚ) < b.den := by exact_mod_cast hb
  rw [Fraction.le, Fraction.value, Fraction.value, div_le_div_iff₀ ha' hb', decide_eq_true_iff]
  exact_mod_cast Iff.rfl

theorem Fraction.lt_iff {a b : Fraction} (ha : 0 < a.den) (hb : 0 < b.den) :
    a.lt b = true ↔ a.value < b.value := by
  have ha' : (0 : ℚ) < a.den := by exact_mod_cast ha
  have hb' : (0 : ℚ) < b.den := by exact_mod_cast hb
  rw [Fraction.lt, Fraction.value, Fraction.value, div_lt_div_iff₀ ha' hb', decide_eq_true_iff]
  exact_mod_cast Iff.rfl

/-! ## Intervals -/

/-- Between two rationals, with the ends or without them. -/
def Between (closed : Bool) (lower upper q : ℚ) : Prop :=
  if closed then lower ≤ q ∧ q ≤ upper else lower < q ∧ q < upper

theorem Between.le {closed : Bool} {lower upper q : ℚ} (h : Between closed lower upper q) :
    lower ≤ q ∧ q ≤ upper := by
  cases closed with
  | true => exact h
  | false =>
    obtain ⟨h1, h2⟩ := h
    exact ⟨h1.le, h2.le⟩

/-- What is not between two rationals but below the upper one is not above
the lower one. -/
theorem le_lower_of_not_between {closed : Bool} {lower upper q : ℚ}
    (h : ¬ Between closed lower upper q) (hq : q < upper) : q ≤ lower := by
  by_contra hlt
  push Not at hlt
  cases closed with
  | true => exact h ⟨hlt.le, hq.le⟩
  | false => exact h ⟨hlt, hq⟩

theorem upper_le_of_not_between {closed : Bool} {lower upper q : ℚ}
    (h : ¬ Between closed lower upper q) (hq : lower < q) : upper ≤ q := by
  by_contra hlt
  push Not at hlt
  cases closed with
  | true => exact h ⟨hq.le, hlt.le⟩
  | false => exact h ⟨hq, hlt⟩

/-! ## Points of a grid -/

section Grid

variable {value lower upper : Fraction} {closed : Bool} {exponent : Int}

/-- The test by which a grid point is taken. -/
def isInside (lower upper : Fraction) (closed : Bool) (exponent : Int) (d : Nat) : Bool :=
  let point := Fraction.scaled d 10 exponent
  if closed then lower.le point && point.le upper else lower.lt point && point.lt upper

theorem isInside_iff (hl : 0 < lower.den) (hu : 0 < upper.den) (d : Nat) :
    isInside lower upper closed exponent d = true
      ↔ Between closed lower.value upper.value (d * 10 ^ exponent) := by
  have hd : 0 < (Fraction.scaled d 10 exponent).den := Fraction.den_scaled_pos d (by decide) _
  have hv : (Fraction.scaled d 10 exponent).value = d * 10 ^ exponent :=
    Fraction.value_scaled d (by decide) exponent
  cases closed with
  | true =>
    simp only [isInside, Between, if_true, Bool.and_eq_true, Fraction.le_iff hl hd,
      Fraction.le_iff hd hu, hv]
  | false =>
    simp only [isInside, Between, Bool.false_eq_true, if_false, Bool.and_eq_true,
      Fraction.lt_iff hl hd, Fraction.lt_iff hd hu, hv]

/-- The last grid point that is not above the value. -/
def gridBelow (value : Fraction) (exponent : Int) : Nat :=
  (Fraction.scaled 1 10 (-exponent)).num * value.num
    / ((Fraction.scaled 1 10 (-exponent)).den * value.den)

theorem gridBelow_eq_floor (value : Fraction) (exponent : Int) :
    (gridBelow value exponent : Int) = ⌊value.value / 10 ^ exponent⌋ := by
  have hs : (Fraction.scaled 1 10 (-exponent)).value = 10 ^ (-exponent) := by
    rw [Fraction.value_scaled 1 (by decide)]
    simp
  have hv : value.value / 10 ^ exponent
      = (((Fraction.scaled 1 10 (-exponent)).num * value.num : Nat) : ℚ)
        / (((Fraction.scaled 1 10 (-exponent)).den * value.den : Nat) : ℚ) := by
    rw [div_eq_mul_inv, ← zpow_neg, ← hs, Fraction.value, Fraction.value]
    push_cast
    rw [div_mul_div_comm, mul_comm (value.num : ℚ), mul_comm (value.den : ℚ)]
  rw [hv, Rat.floor_natCast_div_natCast]
  simp [gridBelow]

theorem gridBelow_le (value : Fraction) (exponent : Int) :
    gridBelow value exponent * (10 : ℚ) ^ exponent ≤ value.value := by
  have hp : (0 : ℚ) < 10 ^ exponent := by positivity
  have h := Int.floor_le (value.value / 10 ^ exponent)
  rw [← gridBelow_eq_floor, le_div_iff₀ hp] at h
  exact_mod_cast h

theorem lt_gridBelow_succ (value : Fraction) (exponent : Int) :
    value.value < (gridBelow value exponent + 1 : Nat) * (10 : ℚ) ^ exponent := by
  have hp : (0 : ℚ) < 10 ^ exponent := by positivity
  have h := Int.lt_floor_add_one (value.value / 10 ^ exponent)
  rw [← gridBelow_eq_floor, div_lt_iff₀ hp] at h
  exact_mod_cast h

/-- The two grid points around the value, and which of them is taken. -/
theorem gridPoint?_eq (value lower upper : Fraction) (closed : Bool) (exponent : Int) :
    gridPoint? value lower upper closed exponent
      = match isInside lower upper closed exponent (gridBelow value exponent)
            && gridBelow value exponent != 0,
          isInside lower upper closed exponent (gridBelow value exponent + 1) with
        | true, true =>
          if (⟨2 * value.num, value.den⟩ : Fraction).lt
              (Fraction.scaled (2 * gridBelow value exponent + 1) 10 exponent) then
            some ⟨gridBelow value exponent, exponent⟩
          else if (Fraction.scaled (2 * gridBelow value exponent + 1) 10 exponent).lt
              ⟨2 * value.num, value.den⟩ then
            some ⟨gridBelow value exponent + 1, exponent⟩
          else
            some ⟨if gridBelow value exponent % 2 = 0 then gridBelow value exponent
              else gridBelow value exponent + 1, exponent⟩
        | true, false => some ⟨gridBelow value exponent, exponent⟩
        | false, true => some ⟨gridBelow value exponent + 1, exponent⟩
        | false, false => none := rfl

/-- Every grid point that is taken is inside and not zero. -/
theorem gridPoint?_some (hl : 0 < lower.den) (hu : 0 < upper.den) {d : Digits}
    (h : gridPoint? value lower upper closed exponent = some d) :
    d.digits ≠ 0 ∧ Between closed lower.value upper.value d.value := by
  rw [gridPoint?_eq] at h
  have taken : ∀ n : Nat, n ≠ 0 → isInside lower upper closed exponent n = true →
      some (Digits.mk n exponent) = some d →
      d.digits ≠ 0 ∧ Between closed lower.value upper.value d.value := by
    intro n hn hin hd
    obtain rfl := Option.some.inj hd
    exact ⟨hn, (isInside_iff hl hu n).mp hin⟩
  have hsucc : gridBelow value exponent + 1 ≠ 0 := Nat.succ_ne_zero _
  split at h
  · next hb ha =>
    obtain ⟨hb, hne⟩ := Bool.and_eq_true_iff.mp hb
    have hne : gridBelow value exponent ≠ 0 := by simpa using hne
    split at h
    · exact taken _ hne hb h
    · split at h
      · exact taken _ hsucc ha h
      · split at h
        · exact taken _ hne hb h
        · exact taken _ hsucc ha h
  · next hb _ =>
    obtain ⟨hb, hne⟩ := Bool.and_eq_true_iff.mp hb
    exact taken _ (by simpa using hne) hb h
  · next _ ha => exact taken _ hsucc ha h
  · cases h

/-- A grid that starts below the value and is finer than the interval is
wide has a point inside. -/
theorem gridPoint?_isSome (hl : 0 < lower.den) (hu : 0 < upper.den)
    (hlv : lower.value < value.value) (hvu : value.value < upper.value)
    (hstart : (10 : ℚ) ^ exponent ≤ value.value)
    (hfine : (10 : ℚ) ^ exponent < upper.value - lower.value) :
    (gridPoint? value lower upper closed exponent).isSome := by
  have hp : (0 : ℚ) < 10 ^ exponent := by positivity
  have hbelow := gridBelow_le value exponent
  have habove := lt_gridBelow_succ value exponent
  have hne : gridBelow value exponent ≠ 0 := by
    intro h0
    rw [h0] at habove
    simp only [zero_add, Nat.cast_one, one_mul] at habove
    exact absurd hstart (not_le.mpr habove)
  have hin : isInside lower upper closed exponent (gridBelow value exponent) = true
      ∨ isInside lower upper closed exponent (gridBelow value exponent + 1) = true := by
    by_contra hout
    push Not at hout
    rw [ne_eq, isInside_iff hl hu, ne_eq, isInside_iff hl hu] at hout
    have h1 := le_lower_of_not_between hout.1 (hbelow.trans_lt hvu)
    have h2 := upper_le_of_not_between hout.2 (hlv.trans habove)
    push_cast at h2
    linarith
  rw [gridPoint?_eq]
  split
  · split
    · rfl
    · split <;> rfl
  · rfl
  · rfl
  · next hb ha =>
    rcases hin with hin | hin
    · rw [hin] at hb
      simp [hne] at hb
    · rw [hin] at ha
      cases ha

end Grid

/-! ## Orders of magnitude -/

theorem pow_digitCount_le {n : Nat} (hn : n ≠ 0) : 10 ^ (digitCount n - 1) ≤ n := by
  rw [digitCount, if_neg hn]
  rcases Nat.eq_zero_or_pos ((Nat.toDigits 10 n).length - 1) with h | h
  · rw [h]
    simp
    omega
  · have hlen := Nat.length_toDigits_pos (b := 10) (n := n)
    have := (Nat.length_toDigits_le_iff (b := 10) (n := n) (by decide) h).not.mp (by omega)
    omega

theorem lt_pow_digitCount (n : Nat) : n < 10 ^ digitCount n := by
  rw [digitCount]
  split
  · next h => simp [h]
  · exact (Nat.length_toDigits_le_iff (by decide) Nat.length_toDigits_pos).mp (le_refl _)

/-- The leading digit of a positive fraction does not exceed it. -/
theorem pow_magnitude_le {a : Fraction} (hn : 0 < a.num) (hd : 0 < a.den) :
    (10 : ℚ) ^ a.magnitude ≤ a.value := by
  have hd' : (0 : ℚ) < a.den := by exact_mod_cast hd
  have hn' : (0 : ℚ) < a.num := by exact_mod_cast hn
  rw [Fraction.magnitude, Fraction.value]
  split
  · next h =>
    have hfloor : a.floor ≠ 0 := (Nat.div_pos h hd).ne'
    have hcount : 1 ≤ digitCount a.floor := by
      rw [digitCount, if_neg hfloor]
      exact Nat.length_toDigits_pos
    have hpow : 10 ^ (digitCount a.floor - 1) * a.den ≤ a.num :=
      (Nat.mul_le_mul_right _ (pow_digitCount_le hfloor)).trans (Nat.div_mul_le_self _ _)
    obtain ⟨k, hk⟩ := Nat.exists_eq_add_of_le hcount
    rw [hk] at hpow ⊢
    rw [le_div_iff₀ hd']
    simp only [Nat.cast_add, Nat.cast_one, add_sub_cancel_left, zpow_natCast]
    simp only [Nat.add_sub_cancel_left] at hpow
    exact_mod_cast hpow
  · have hlt := lt_pow_digitCount ((a.den - 1) / a.num)
    rw [Nat.div_lt_iff_lt_mul hn] at hlt
    have hle : a.den ≤ 10 ^ digitCount ((a.den - 1) / a.num) * a.num := by omega
    rw [zpow_neg, zpow_natCast, inv_le_iff_one_le_mul₀ (by positivity), div_mul_eq_mul_div,
      one_le_div hd', mul_comm]
    exact_mod_cast hle

/-- Trailing zeros move into the exponent and the value stays. -/
theorem trimmed_value (digits : Nat) (exponent : Int) (h : digits ≠ 0) :
    (Digits.trimmed digits exponent).digits ≠ 0
      ∧ (Digits.trimmed digits exponent).value = digits * 10 ^ exponent := by
  fun_induction Digits.trimmed digits exponent with
  | case1 digits exponent hd ih =>
    obtain ⟨hne, hval⟩ := ih (by omega)
    refine ⟨hne, hval.trans ?_⟩
    have hten : digits = digits / 10 * 10 := by omega
    conv_rhs => rw [hten]
    rw [zpow_add_one₀ (by norm_num)]
    push_cast
    ring
  | case2 digits exponent hd => exact ⟨h, rfl⟩

/-! ## Rounding intervals -/

/-- The value of a double but for its sign, in quarters of the last place. -/
def Binary.quarters (b : Binary) : Fraction := .scaled (4 * b.mantissa) 2 (b.exponent - 2)

/-- The halfway point to the next smaller double. -/
def Binary.lower (b : Binary) : Fraction :=
  .scaled (4 * b.mantissa - if b.narrowBelow then 1 else 2) 2 (b.exponent - 2)

/-- The halfway point to the next larger double. -/
def Binary.upper (b : Binary) : Fraction := .scaled (4 * b.mantissa + 2) 2 (b.exponent - 2)

/-- The rationals that are rounded to a double; the halfway points are
where its mantissa is even. -/
def Binary.Rounds (b : Binary) (q : ℚ) : Prop :=
  Between (b.mantissa % 2 == 0) b.lower.value b.upper.value q

/-- What the parts of a double satisfy. -/
structure Binary.WellFormed (b : Binary) : Prop where
  mantissa_lt : b.mantissa < 2 ^ 53
  exponent_ge : -1074 ≤ b.exponent
  subnormal : b.mantissa < 2 ^ 52 → b.exponent = -1074
  narrow_iff : b.narrowBelow = true ↔ b.mantissa = 2 ^ 52 ∧ -1074 < b.exponent

section Interval

variable {b : Binary}

theorem Binary.lower_value (b : Binary) : b.lower.value
    = (4 * b.mantissa - (if b.narrowBelow then 1 else 2) : Nat) * (2 : ℚ) ^ (b.exponent - 2) := by
  rw [Binary.lower, Fraction.value_scaled _ (by decide)]
  norm_cast

theorem Binary.upper_value (b : Binary) :
    b.upper.value = (4 * b.mantissa + 2 : Nat) * (2 : ℚ) ^ (b.exponent - 2) := by
  rw [Binary.upper, Fraction.value_scaled _ (by decide)]
  norm_cast

theorem Binary.quarters_value (b : Binary) :
    b.quarters.value = (4 * b.mantissa : Nat) * (2 : ℚ) ^ (b.exponent - 2) := by
  rw [Binary.quarters, Fraction.value_scaled _ (by decide)]
  norm_cast

/-- A double lies inside its interval. -/
theorem Binary.quarters_inside (hm : 0 < b.mantissa) :
    b.lower.value < b.quarters.value ∧ b.quarters.value < b.upper.value := by
  have hp : (0 : ℚ) < 2 ^ (b.exponent - 2) := by positivity
  have hlower : 4 * b.mantissa - (if b.narrowBelow then 1 else 2) < 4 * b.mantissa := by
    split <;> omega
  have hupper : 4 * b.mantissa < 4 * b.mantissa + 2 := by omega
  rw [b.lower_value, b.quarters_value, b.upper_value]
  refine ⟨mul_lt_mul_of_pos_right ?_ hp, mul_lt_mul_of_pos_right ?_ hp⟩
  · exact_mod_cast hlower
  · exact_mod_cast hupper

theorem Binary.pow_magnitude_quarters_le (hm : 0 < b.mantissa) :
    (10 : ℚ) ^ b.quarters.magnitude ≤ b.quarters.value := by
  refine pow_magnitude_le ?_ (Fraction.den_scaled_pos _ (by decide) _)
  rw [Binary.quarters, Fraction.scaled]
  exact Nat.mul_pos (by omega) (Nat.pow_pos (by decide))

/-- The search for the digits of a double, with the ends of its interval by
name. -/
theorem shortest_eq (b : Binary) :
    shortest b
      = match (List.range 17).findSome? fun n =>
          gridPoint? b.quarters b.lower b.upper (b.mantissa % 2 == 0)
            (b.quarters.magnitude - Int.ofNat n) with
        | some found => .trimmed found.digits found.exponent
        | none => ⟨0, 0⟩ := rfl

/-- Seventeen digits suffice: their grid is finer than the interval is
wide. -/
theorem pow_magnitude_lt_width (hb : b.WellFormed) (hm : 0 < b.mantissa) :
    (10 : ℚ) ^ (b.quarters.magnitude - 16) < b.upper.value - b.lower.value := by
  have hp : (0 : ℚ) < 2 ^ (b.exponent - 2) := by positivity
  have hmag := b.pow_magnitude_quarters_le hm
  rw [b.quarters_value] at hmag
  have hlt : b.mantissa < 2 ^ 53 := hb.mantissa_lt
  have hwidth : b.mantissa * 4 < 10 ^ 16 * (2 + if b.narrowBelow then 1 else 2) := by
    split
    · next h => have := (hb.narrow_iff.mp h).1; omega
    · omega
  rw [zpow_sub₀ (by norm_num), div_lt_iff₀ (by positivity), b.upper_value, b.lower_value,
    ← sub_mul, Nat.cast_sub (by split <;> omega)]
  refine hmag.trans_lt ?_
  have hq : ((b.mantissa * 4 : Nat) : ℚ)
      < ((10 ^ 16 * (2 + if b.narrowBelow then 1 else 2) : Nat) : ℚ) := by exact_mod_cast hwidth
  have hmul := mul_lt_mul_of_pos_right hq hp
  push_cast at hmul ⊢
  calc (4 * (b.mantissa : ℚ)) * 2 ^ (b.exponent - 2)
      = b.mantissa * 4 * 2 ^ (b.exponent - 2) := by ring
    _ < _ := hmul
    _ = _ := by norm_num; ring

/-- The search finds something, at the last grid if not before. -/
theorem findSome?_gridPoint?_isSome (hb : b.WellFormed) (hm : 0 < b.mantissa) :
    ((List.range 17).findSome? fun n =>
      gridPoint? b.quarters b.lower b.upper (b.mantissa % 2 == 0)
        (b.quarters.magnitude - Int.ofNat n)).isSome := by
  obtain ⟨hlower, hupper⟩ := b.quarters_inside hm
  have hstart : (10 : ℚ) ^ (b.quarters.magnitude - 16) ≤ b.quarters.value :=
    (zpow_le_zpow_right₀ (by norm_num) (Int.sub_le_self _ (by decide))).trans
      (b.pow_magnitude_quarters_le hm)
  rw [List.findSome?_isSome_iff]
  exact ⟨16, by simp, gridPoint?_isSome (Fraction.den_scaled_pos _ (by decide) _)
    (Fraction.den_scaled_pos _ (by decide) _) hlower hupper hstart (pow_magnitude_lt_width hb hm)⟩

/-- A double rounds its shortest digits, and these are not zero. -/
theorem shortest_rounds (hb : b.WellFormed) (hm : 0 < b.mantissa) :
    (shortest b).digits ≠ 0 ∧ b.Rounds (shortest b).value := by
  obtain ⟨found, hfound⟩ := Option.isSome_iff_exists.mp (findSome?_gridPoint?_isSome hb hm)
  obtain ⟨n, -, hn⟩ := List.exists_of_findSome?_eq_some hfound
  obtain ⟨hne, hround⟩ := gridPoint?_some (Fraction.den_scaled_pos _ (by decide) _)
    (Fraction.den_scaled_pos _ (by decide) _) hn
  obtain ⟨htne, htval⟩ := trimmed_value found.digits found.exponent hne
  rw [shortest_eq, hfound]
  refine ⟨htne, ?_⟩
  rw [Binary.Rounds, htval]
  exact hround

/-- A double that is smaller, as exponents and then mantissas tell. -/
def Binary.Precedes (a b : Binary) : Prop :=
  a.exponent < b.exponent ∨ a.exponent = b.exponent ∧ a.mantissa < b.mantissa

/-- An interval ends before the next one begins. Where it ends exactly
there, one of the two is without its ends. -/
theorem Binary.Precedes.upper_le {a b : Binary} (ha : a.WellFormed) (hb : b.WellFormed)
    (h : a.Precedes b) :
    a.upper.value ≤ b.lower.value
      ∧ (a.upper.value < b.lower.value ∨ a.mantissa % 2 ≠ 0 ∨ b.mantissa % 2 ≠ 0) := by
  have hp : (0 : ℚ) < 2 ^ (a.exponent - 2) := by positivity
  have hma := ha.mantissa_lt
  have hea := ha.exponent_ge
  rw [a.upper_value, b.lower_value]
  rcases h with h | ⟨he, hm⟩
  · have hmb : 2 ^ 52 ≤ b.mantissa := by
      by_contra hlt
      have := hb.subnormal (by omega)
      omega
    have hlow : 2 ^ 54 - 1 ≤ 4 * b.mantissa - (if b.narrowBelow then 1 else 2) := by
      split
      · omega
      · next hnarrow =>
        have : b.mantissa ≠ 2 ^ 52 := fun hm => hnarrow (hb.narrow_iff.mpr ⟨hm, by omega⟩)
        omega
    -- one exponent further the scale is at least twice as large
    have hscale : (2 : ℚ) * 2 ^ (a.exponent - 2) ≤ 2 ^ (b.exponent - 2) := by
      rw [mul_comm, ← zpow_add_one₀ (by norm_num)]
      exact zpow_le_zpow_right₀ (by norm_num) (by omega)
    have hend : ((2 ^ 54 - 1 : Nat) : ℚ) * (2 * 2 ^ (a.exponent - 2))
        ≤ (4 * b.mantissa - (if b.narrowBelow then 1 else 2) : Nat)
          * (2 : ℚ) ^ (b.exponent - 2) :=
      mul_le_mul (by exact_mod_cast hlow) hscale (by positivity) (by positivity)
    rw [← mul_assoc] at hend
    refine ⟨le_trans (mul_le_mul_of_nonneg_right ?_ hp.le) hend, ?_⟩
    · have : 4 * a.mantissa + 2 ≤ (2 ^ 54 - 1) * 2 := by omega
      exact_mod_cast this
    · by_cases hodd : a.mantissa % 2 = 0
      · refine .inl (lt_of_lt_of_le (mul_lt_mul_of_pos_right ?_ hp) hend)
        have : 4 * a.mantissa + 2 < (2 ^ 54 - 1) * 2 := by omega
        exact_mod_cast this
      · exact .inr (.inl hodd)
  · have hwide : b.narrowBelow = false := by
      rw [Bool.eq_false_iff]
      intro hnarrow
      obtain ⟨hmb, heb⟩ := hb.narrow_iff.mp hnarrow
      have := ha.subnormal (by omega)
      omega
    simp only [hwide, Bool.false_eq_true, if_false, ← he]
    refine ⟨mul_le_mul_of_nonneg_right ?_ hp.le, ?_⟩
    · have : 4 * a.mantissa + 2 ≤ 4 * b.mantissa - 2 := by omega
      exact_mod_cast this
    · by_cases hnext : b.mantissa = a.mantissa + 1
      · exact .inr (by omega)
      · refine .inl (mul_lt_mul_of_pos_right ?_ hp)
        have : 4 * a.mantissa + 2 < 4 * b.mantissa - 2 := by omega
        exact_mod_cast this

theorem Binary.Precedes.not_both {a b : Binary} (ha : a.WellFormed) (hb : b.WellFormed)
    (h : a.Precedes b) {q : ℚ} (haq : a.Rounds q) : ¬ b.Rounds q := by
  intro hbq
  obtain ⟨hle, hstrict⟩ := h.upper_le ha hb
  have h1 := haq.le.2
  have h2 := hbq.le.1
  rcases hstrict with hlt | hodd | hodd
  · exact absurd (h1.trans_lt hlt) (not_lt.mpr h2)
  · rw [Binary.Rounds, beq_eq_false_iff_ne.mpr hodd] at haq
    exact absurd (haq.2.trans_le hle) (not_lt.mpr h2)
  · rw [Binary.Rounds, beq_eq_false_iff_ne.mpr hodd] at hbq
    exact absurd (hle.trans_lt hbq.1) (not_lt.mpr h1)

/-- **Rounding intervals are disjoint.** A rational is rounded by one
double only. -/
theorem Binary.Rounds.unique {a b : Binary} (ha : a.WellFormed) (hb : b.WellFormed) {q : ℚ}
    (haq : a.Rounds q) (hbq : b.Rounds q) :
    a.mantissa = b.mantissa ∧ a.exponent = b.exponent := by
  have hab : ¬ a.Precedes b := fun h => h.not_both ha hb haq hbq
  have hba : ¬ b.Precedes a := fun h => h.not_both hb ha hbq haq
  simp only [Binary.Precedes, not_or, not_and] at hab hba
  have he : a.exponent = b.exponent := by omega
  have := hab.2 he
  have := hba.2 he.symm
  exact ⟨by omega, he⟩

end Interval

/-! ## The parts of a double -/

theorem toBits_injective {x y : Float} (h : x.toBits = y.toBits) : x = y := by
  obtain ⟨⟨bits, hx⟩⟩ := x
  obtain ⟨⟨bits', hy⟩⟩ := y
  obtain rfl : bits = bits' := h
  rfl

/-- The exponent field of a finite double is not full. -/
theorem exponent_field_ne {x : Float} (h : x.isFinite) :
    x.toBits.toNat / 2 ^ 52 % 2 ^ 11 ≠ 2047 := by
  intro hfull
  have hexp : @Float.Model.UnpackedFloat.unpackExponent Float.Model.Format.binary64
      x.toModel.toBits.toBitVec = -1#11 := by
    apply BitVec.eq_of_toNat_eq
    rw [Float.Model.UnpackedFloat.unpackExponent, BitVec.toNat_cast, BitVec.extractLsb_toNat,
      Nat.shiftRight_eq_div_pow]
    exact hfull
  rw [Float.isFinite, Float.Model.isFinite, Float.Model.unpack,
    Float.Model.UnpackedFloat.unpack] at h
  simp only at h
  rw [if_pos hexp] at h
  split at h <;> cases h

/-- A finite double has parts. -/
theorem Binary.ofFloat?_isSome {x : Float} (h : x.isFinite) : (Binary.ofFloat? x).isSome := by
  rw [Binary.ofFloat?]
  simp only [Nat.pow_eq]
  rw [if_neg (exponent_field_ne h)]
  split <;> rfl

/-- The bits of a double in terms of its parts. -/
theorem Binary.toBits_eq {x : Float} {b : Binary} (h : Binary.ofFloat? x = some b) :
    b.WellFormed ∧ x.toBits.toNat
      = (if b.negative then 2 ^ 63 else 0)
        + if b.mantissa < 2 ^ 52 then b.mantissa
          else (b.exponent + 1075).toNat * 2 ^ 52 + (b.mantissa - 2 ^ 52) := by
  have hbits : x.toBits.toNat < 2 ^ 64 := x.toBits.toNat_lt
  rw [Binary.ofFloat?] at h
  simp only [Nat.pow_eq, Int.ofNat_eq_natCast] at h
  generalize x.toBits.toNat = bits at h hbits
  have hsign : (if (bits / 2 ^ 63 == 1) = true then 2 ^ 63 else 0) = bits / 2 ^ 63 * 2 ^ 63 := by
    split
    · next h1 => rw [beq_iff_eq.mp h1, one_mul]
    · next h1 => have := beq_iff_eq.not.mp h1; omega
  split at h
  · cases h
  · next hfull =>
    split at h
    · next hzero =>
      obtain rfl := Option.some.inj h
      refine ⟨⟨?_, ?_, fun _ => rfl, ?_⟩, ?_⟩
      · dsimp only; omega
      · dsimp only; omega
      · dsimp only; simp
      · dsimp only
        rw [hsign, if_pos (by omega)]
        omega
    · next hzero =>
      obtain rfl := Option.some.inj h
      refine ⟨⟨?_, ?_, ?_, ?_⟩, ?_⟩
      · dsimp only; omega
      · dsimp only; omega
      · dsimp only; omega
      · dsimp only
        simp only [Bool.and_eq_true, beq_iff_eq, bne_iff_ne, ne_eq]
        omega
      · dsimp only
        rw [hsign, if_neg (by omega)]
        omega

theorem Binary.ofFloat?_wellFormed {x : Float} {b : Binary} (h : Binary.ofFloat? x = some b) :
    b.WellFormed :=
  (Binary.toBits_eq h).1

/-- Sign, mantissa and exponent tell doubles apart. -/
theorem Binary.ofFloat?_injective {x y : Float} {a b : Binary} (hx : Binary.ofFloat? x = some a)
    (hy : Binary.ofFloat? y = some b) (hsign : a.negative = b.negative)
    (hm : a.mantissa = b.mantissa) (he : a.exponent = b.exponent) : x = y := by
  refine toBits_injective (UInt64.toNat_inj.mp ?_)
  rw [(Binary.toBits_eq hx).2, (Binary.toBits_eq hy).2, hsign, hm, he]

end Downlevel.Decimal
