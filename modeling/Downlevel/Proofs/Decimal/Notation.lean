/-
Downlevel.Proofs.Decimal.Notation — a written double tells which double it
is.

`textValue` reads digits, a point and an exponent back as a rational; every
notation that `Digits.written` chooses has the value of the digits
(`textValue_written`). Two doubles written alike therefore round one and
the same rational, and that makes them equal (`written?_injective`).

Nothing is said here about reading back to a double, which is done with
less precision: what is told apart is the texts.
-/
import Downlevel.Decimal.Notation
import Downlevel.Proofs.Decimal.Shortest

namespace Downlevel.Decimal

/-! ## Reading back -/

/-- The value of digits with at most one point. -/
def pointedValue (text : List Char) : ℚ :=
  let fraction := (text.dropWhile (· != '.')).drop 1
  Nat.ofDigitChars 10 (text.takeWhile (· != '.') ++ fraction) 0 * 10 ^ (-(fraction.length : Int))

/-- The value of an exponent, which always has a sign. -/
def exponentValue : List Char → Int
  | '-' :: digits => -(Nat.ofDigitChars 10 digits 0 : Int)
  | _ :: digits => Nat.ofDigitChars 10 digits 0
  | [] => 0

/-- The value of a number without a sign of its own. -/
def textValue (text : List Char) : ℚ :=
  pointedValue (text.takeWhile (· != 'e'))
    * 10 ^ exponentValue ((text.dropWhile (· != 'e')).drop 1)

theorem takeWhile_ne_of_notMem {c : Char} {cs : List Char} (h : c ∉ cs) :
    cs.takeWhile (· != c) = cs := by
  apply List.takeWhile_eq_self_iff.mpr
  intro x hx
  simp only [bne_iff_ne, ne_eq]
  rintro rfl
  exact h hx

theorem dropWhile_ne_of_notMem {c : Char} {cs : List Char} (h : c ∉ cs) :
    cs.dropWhile (· != c) = [] := by
  apply List.dropWhile_eq_nil_iff.mpr
  intro x hx
  simp only [bne_iff_ne, ne_eq]
  rintro rfl
  exact h hx

theorem takeWhile_ne_append {c : Char} {cs : List Char} (h : c ∉ cs) (rest : List Char) :
    (cs ++ c :: rest).takeWhile (· != c) = cs := by
  rw [List.takeWhile_append, takeWhile_ne_of_notMem h]
  simp

theorem dropWhile_ne_append {c : Char} {cs : List Char} (h : c ∉ cs) (rest : List Char) :
    (cs ++ c :: rest).dropWhile (· != c) = c :: rest := by
  rw [List.dropWhile_append, dropWhile_ne_of_notMem h]
  simp

theorem pointedValue_whole {whole : List Char} (h : '.' ∉ whole) :
    pointedValue whole = Nat.ofDigitChars 10 whole 0 := by
  rw [pointedValue, takeWhile_ne_of_notMem h, dropWhile_ne_of_notMem h]
  simp

theorem pointedValue_point {whole : List Char} (h : '.' ∉ whole) (fraction : List Char) :
    pointedValue (whole ++ '.' :: fraction)
      = Nat.ofDigitChars 10 (whole ++ fraction) 0 * 10 ^ (-(fraction.length : Int)) := by
  rw [pointedValue, takeWhile_ne_append h, dropWhile_ne_append h]
  simp

theorem textValue_plain {text : List Char} (h : 'e' ∉ text) :
    textValue text = pointedValue text := by
  rw [textValue, takeWhile_ne_of_notMem h, dropWhile_ne_of_notMem h]
  simp [exponentValue]

theorem textValue_exponent {mantissa : List Char} (h : 'e' ∉ mantissa) (exponent : List Char) :
    textValue (mantissa ++ 'e' :: exponent)
      = pointedValue mantissa * 10 ^ exponentValue exponent := by
  rw [textValue, takeWhile_ne_append h, dropWhile_ne_append h]
  simp

/-! ## Digits -/

theorem isDigit_of_mem_ofNat {n : Nat} {c : Char} (h : c ∈ ofNat n) : c.isDigit = true :=
  Nat.isDigit_of_mem_toDigits (by decide) (by decide) h

theorem notMem_ofNat {c : Char} (hc : c.isDigit = false) (n : Nat) : c ∉ ofNat n := by
  intro h
  rw [isDigit_of_mem_ofNat h] at hc
  cases hc

@[simp] theorem ofDigitChars_ofNat (n : Nat) : Nat.ofDigitChars 10 (ofNat n) 0 = n :=
  Nat.ofDigitChars_ten_toDigits

theorem ofNat_injective {n k : Nat} (h : ofNat n = ofNat k) : n = k := by
  rw [← ofDigitChars_ofNat n, h, ofDigitChars_ofNat]

theorem length_ofNat_pos (n : Nat) : 0 < (ofNat n).length := Nat.length_toDigits_pos

theorem mem_zeros {c : Char} {n : Nat} (h : c ∈ zeros n) : c = '0' := List.eq_of_mem_replicate h

/-! ## Values of written digits -/

/-- A point shifts the digits by as many places as stand after it. -/
theorem textValue_point {whole fraction : List Char} (hdot : '.' ∉ whole) (hw : 'e' ∉ whole)
    (hf : 'e' ∉ fraction) :
    textValue (whole ++ '.' :: fraction)
      = Nat.ofDigitChars 10 (whole ++ fraction) 0 * 10 ^ (-(fraction.length : Int)) := by
  rw [textValue_plain (by simp [hw, hf]), pointedValue_point hdot]

/-- The exponent after its mark. -/
def exponentText (lead : Int) : List Char :=
  (if lead < 0 then ['e', '-'] else ['e', '+']) ++ ofNat lead.natAbs

theorem textValue_exponentText {mantissa : List Char} (h : 'e' ∉ mantissa) (lead : Int) :
    textValue (mantissa ++ exponentText lead) = pointedValue mantissa * 10 ^ lead := by
  rw [exponentText]
  split
  · next hlt =>
    have : -((lead.natAbs : Nat) : Int) = lead := by omega
    simp only [List.cons_append, List.nil_append]
    rw [textValue_exponent h, exponentValue, ofDigitChars_ofNat, this]
  · next hge =>
    have : ((lead.natAbs : Nat) : Int) = lead := by omega
    simp only [List.cons_append, List.nil_append]
    rw [textValue_exponent h, exponentValue, ofDigitChars_ofNat, this]
    decide

/-- The layouts among which a text is chosen. -/
theorem Digits.written_eq (range : PositionalRange) (d : Digits) :
    d.written range
      = let lead := d.exponent + (ofNat d.digits).length - 1
        if range.least ≤ lead ∧ lead ≤ range.greatest then
          if 0 ≤ d.exponent then ofNat d.digits ++ zeros d.exponent.toNat ++ '.' :: ['0']
          else if 0 ≤ lead then
            (ofNat d.digits).take (lead.toNat + 1) ++ '.' :: (ofNat d.digits).drop (lead.toNat + 1)
          else ['0'] ++ '.' :: (zeros (-lead - 1).toNat ++ ofNat d.digits)
        else match ofNat d.digits with
          | [] => []
          | [first] => [first] ++ exponentText lead
          | first :: rest => ([first] ++ '.' :: rest) ++ exponentText lead := by
  rw [Digits.written]
  generalize ofNat d.digits = digits
  simp only
  split
  · split
    · rfl
    · split
      · rw [List.append_assoc, List.singleton_append]
      · rfl
  · rw [exponentText]
    cases digits with
    | nil => rfl
    | cons first rest =>
      cases rest with
      | nil => rfl
      | cons second rest => simp only [List.append_assoc, List.cons_append, List.nil_append]

/-- However digits are written, the text has their value. -/
theorem textValue_written (range : PositionalRange) (d : Digits) :
    textValue (d.written range) = d.value := by
  have hdot : '.' ∉ ofNat d.digits := notMem_ofNat (by decide) _
  have he : 'e' ∉ ofNat d.digits := notMem_ofNat (by decide) _
  have hval : Nat.ofDigitChars 10 (ofNat d.digits) 0 = d.digits := ofDigitChars_ofNat _
  have hlen := length_ofNat_pos d.digits
  have hz : ∀ {c : Char} (n : Nat), c ≠ '0' → c ∉ zeros n := by
    intro c n hc hmem
    exact hc (mem_zeros hmem)
  rw [Digits.written_eq, Digits.value]
  simp only
  split
  · split
    · next hexp =>
      obtain ⟨k, hk⟩ := Int.eq_ofNat_of_zero_le hexp
      rw [hk, Int.toNat_natCast,
        textValue_point (by simp [hdot, hz]) (by simp [he, hz]) (by decide),
        Nat.ofDigitChars_append, Nat.ofDigitChars_append, hval, zeros,
        Nat.ofDigitChars_replicate_zero, Nat.ofDigitChars_cons]
      simp
      ring
    · split
      · next hexp hlead =>
        rw [textValue_point (fun h => hdot (List.mem_of_mem_take h))
            (fun h => he (List.mem_of_mem_take h)) (fun h => he (List.mem_of_mem_drop h)),
          List.take_append_drop, hval, List.length_drop]
        congr 2
        omega
      · next hexp hlead =>
        rw [textValue_point (by decide) (by decide) (by simp [he, hz]), Nat.ofDigitChars_append,
          Nat.ofDigitChars_append, zeros, Nat.ofDigitChars_replicate_zero,
          Nat.ofDigitChars_cons, Nat.ofDigitChars_nil, List.length_append, List.length_replicate]
        simp only [Nat.mul_zero, Nat.reduceSub, Char.reduceToNat]
        congr 2
        omega
  · split
    · next h => simp [h] at hlen
    · next first hfirst =>
      rw [hfirst] at hdot he hval
      rw [textValue_exponentText he, pointedValue_whole hdot, hval, hfirst]
      simp
    · next first rest _ hfirst =>
      rw [hfirst, List.mem_cons, not_or] at hdot he
      rw [hfirst] at hval
      rw [textValue_exponentText (by simp [he]), pointedValue_point (by simp [hdot.1]),
        List.singleton_append, hval, mul_assoc, ← zpow_add₀ (by norm_num), hfirst,
        List.length_cons]
      congr 2
      omega

/-! ## Doubles -/

theorem textValue_zero : textValue ['0', '.', '0'] = 0 := by
  rw [show ['0', '.', '0'] = ['0'] ++ '.' :: ['0'] from rfl,
    textValue_point (by decide) (by decide) (by decide)]
  simp [Nat.ofDigitChars_cons]

/-- A double without its sign. -/
def Binary.magnitudeText (b : Binary) : List Char :=
  if b.mantissa = 0 then ['0', '.', '0'] else (shortest b).written dataRange

theorem written?_eq (x : Float) :
    written? x = (Binary.ofFloat? x).map fun b =>
      if b.negative then '-' :: b.magnitudeText else b.magnitudeText := rfl

/-- A character that numbers are written with. -/
def isNumberChar (c : Char) : Bool := c.isDigit || c == '.' || c == 'e' || c == '-' || c == '+'

theorem isNumberChar_of_isDigit {c : Char} (h : c.isDigit = true) : isNumberChar c = true := by
  simp [isNumberChar, h]

theorem isNumberChar_of_mem_exponentText {lead : Int} {c : Char} (h : c ∈ exponentText lead) :
    isNumberChar c = true := by
  rw [exponentText, List.mem_append] at h
  rcases h with h | h
  · split at h <;> rcases List.mem_pair.mp h with rfl | rfl <;> decide
  · exact isNumberChar_of_isDigit (isDigit_of_mem_ofNat h)

theorem e_mem_exponentText (lead : Int) : 'e' ∈ exponentText lead := by
  rw [exponentText]
  split <;> simp

/-- Positive decimals start with a digit and show a point or an exponent. -/
theorem Digits.written_chars (range : PositionalRange) (d : Digits) :
    (∀ c ∈ d.written range, isNumberChar c = true)
      ∧ (∃ first rest, d.written range = first :: rest ∧ first.isDigit = true)
      ∧ ('.' ∈ d.written range ∨ 'e' ∈ d.written range) := by
  have hdigit : ∀ c ∈ ofNat d.digits, c.isDigit = true := by
    intro c hc
    exact isDigit_of_mem_ofNat hc
  have hnumber : ∀ c ∈ ofNat d.digits, isNumberChar c = true := by
    intro c hc
    exact isNumberChar_of_isDigit (hdigit c hc)
  have hzero : ∀ {n : Nat}, ∀ c ∈ zeros n, isNumberChar c = true := by
    intro n c hc
    rw [mem_zeros hc]
    decide
  have hlen := length_ofNat_pos d.digits
  rw [Digits.written_eq]
  simp only
  generalize ofNat d.digits = digits at hdigit hnumber hlen
  obtain ⟨first, rest, rfl⟩ : ∃ first rest, digits = first :: rest :=
    List.exists_cons_of_length_pos hlen
  have hfirst := hdigit first List.mem_cons_self
  split
  · split
    · refine ⟨?_, ⟨first, _, rfl, hfirst⟩, .inl (by simp)⟩
      intro c hc
      simp only [List.mem_append] at hc
      rcases hc with (hc | hc) | hc
      · exact hnumber c hc
      · exact hzero c hc
      · rcases List.mem_pair.mp hc with rfl | rfl <;> decide
    · split
      · refine ⟨?_, ⟨first, _, rfl, hfirst⟩, .inl (by simp)⟩
        intro c hc
        rw [List.mem_append, List.mem_cons] at hc
        rcases hc with hc | rfl | hc
        · exact hnumber c (List.mem_of_mem_take hc)
        · decide
        · exact hnumber c (List.mem_of_mem_drop hc)
      · refine ⟨?_, ⟨'0', _, rfl, by decide⟩, .inl (by simp)⟩
        intro c hc
        rw [List.singleton_append, List.mem_cons, List.mem_cons, List.mem_append] at hc
        rcases hc with rfl | rfl | hc | hc
        · decide
        · decide
        · exact hzero c hc
        · exact hnumber c hc
  · cases rest with
    | nil =>
      refine ⟨?_, ⟨first, _, rfl, hfirst⟩, .inr ?_⟩
      · intro c hc
        rcases List.mem_append.mp hc with hc | hc
        · exact hnumber c hc
        · exact isNumberChar_of_mem_exponentText hc
      · exact List.mem_append_right _ (e_mem_exponentText _)
    | cons second rest =>
      refine ⟨?_, ⟨first, _, rfl, hfirst⟩, .inl (by simp)⟩
      intro c hc
      rw [List.mem_append, List.singleton_append, List.mem_cons, List.mem_cons] at hc
      rcases hc with (rfl | rfl | hc) | hc
      · exact hnumber c List.mem_cons_self
      · decide
      · exact hnumber c (List.mem_cons_of_mem _ hc)
      · exact isNumberChar_of_mem_exponentText hc

theorem Binary.magnitudeText_chars (b : Binary) :
    (∀ c ∈ b.magnitudeText, isNumberChar c = true)
      ∧ (∃ first rest, b.magnitudeText = first :: rest ∧ first.isDigit = true)
      ∧ ('.' ∈ b.magnitudeText ∨ 'e' ∈ b.magnitudeText) := by
  rw [Binary.magnitudeText]
  split
  · refine ⟨?_, ⟨'0', ['.', '0'], rfl, by decide⟩, by decide⟩
    simp [isNumberChar]
  · exact (shortest b).written_chars dataRange

/-- The text of a double shows its value up to rounding. -/
theorem Binary.magnitudeText_value {b : Binary} (hb : b.WellFormed) :
    (b.mantissa = 0 ∧ textValue b.magnitudeText = 0)
      ∨ (0 < b.mantissa ∧ textValue b.magnitudeText ≠ 0
          ∧ b.Rounds (textValue b.magnitudeText)) := by
  rw [Binary.magnitudeText]
  split
  · next h => exact .inl ⟨h, textValue_zero⟩
  · next h =>
    obtain ⟨hne, hround⟩ := shortest_rounds hb (Nat.pos_of_ne_zero h)
    rw [textValue_written]
    refine .inr ⟨Nat.pos_of_ne_zero h, ?_, hround⟩
    rw [Digits.value]
    exact mul_ne_zero (by exact_mod_cast hne) (by positivity)

theorem Binary.magnitudeText_injective {a b : Binary} (ha : a.WellFormed) (hb : b.WellFormed)
    (h : a.magnitudeText = b.magnitudeText) :
    a.mantissa = b.mantissa ∧ a.exponent = b.exponent := by
  rcases Binary.magnitudeText_value ha with ⟨ha0, hva⟩ | ⟨ha0, hva, hra⟩
  · rcases Binary.magnitudeText_value hb with ⟨hb0, hvb⟩ | ⟨hb0, hvb, hrb⟩
    · exact ⟨by omega, by rw [ha.subnormal (by omega), hb.subnormal (by omega)]⟩
    · rw [h] at hva
      exact absurd hva hvb
  · rcases Binary.magnitudeText_value hb with ⟨hb0, hvb⟩ | ⟨hb0, hvb, hrb⟩
    · rw [h] at hva
      exact absurd hvb hva
    · rw [h] at hra
      exact hra.unique ha hb hrb

/-- **Two doubles that are written alike are the same double.** -/
theorem written?_injective {x y : Float} {text : List Char} (hx : written? x = some text)
    (hy : written? y = some text) : x = y := by
  rw [written?_eq] at hx hy
  obtain ⟨a, ha, hta⟩ := Option.map_eq_some_iff.mp hx
  obtain ⟨b, hb, htb⟩ := Option.map_eq_some_iff.mp hy
  obtain ⟨-, ⟨fa, ra, hfa, hda⟩, -⟩ := a.magnitudeText_chars
  obtain ⟨-, ⟨fb, rb, hfb, hdb⟩, -⟩ := b.magnitudeText_chars
  have hsame : a.negative = b.negative ∧ a.magnitudeText = b.magnitudeText := by
    rw [← htb] at hta
    cases hna : a.negative with
    | true =>
      cases hnb : b.negative with
      | true =>
        simp only [hna, hnb, if_true, List.cons.injEq, true_and] at hta
        exact ⟨rfl, hta⟩
      | false =>
        simp only [hna, hnb, if_true, Bool.false_eq_true, if_false, hfb, List.cons.injEq] at hta
        rw [← hta.1] at hdb
        exact absurd hdb (by decide)
    | false =>
      cases hnb : b.negative with
      | true =>
        simp only [hna, hnb, if_true, Bool.false_eq_true, if_false, hfa, List.cons.injEq] at hta
        rw [hta.1] at hda
        exact absurd hda (by decide)
      | false =>
        simp only [hna, hnb, Bool.false_eq_true, if_false] at hta
        exact ⟨rfl, hta⟩
  obtain ⟨hsign, htext⟩ := hsame
  obtain ⟨hm, he⟩ := Binary.magnitudeText_injective (Binary.ofFloat?_wellFormed ha)
    (Binary.ofFloat?_wellFormed hb) htext
  exact Binary.ofFloat?_injective ha hb hsign hm he

end Downlevel.Decimal
