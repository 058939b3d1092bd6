/-
Downlevel.Decimal.Shortest — the fewest decimal digits that read back as
a given double.

A finite double is a whole number times a power of two. The reals that
round to it form an interval whose ends lie halfway to its neighbours;
the ends belong to it exactly when the double's mantissa is even. A
decimal reads back as the double when it lies in that interval.

`shortest` tries grids of one, two, … seventeen significant digits and
stops at the first grid with a point in the interval. Only the two grid
points around the value need testing: if any point of the grid lies in
the interval, one of those two does. Seventeen digits always suffice.
-/

namespace Downlevel.Decimal

/-! ## Binary values -/

/-- A finite double: `mantissa · 2 ^ exponent`, negated when `negative`.
`narrowBelow` holds at a power of two, where the next smaller double is
only half as far away as the next larger one. -/
structure Binary where
  negative : Bool
  mantissa : Nat
  exponent : Int
  narrowBelow : Bool

/-- The parts of a double; none for an infinity or a value that is not a
number. -/
def Binary.ofFloat? (x : Float) : Option Binary :=
  let bits := x.toBits.toNat
  let field : Nat := bits / Nat.pow 2 52 % Nat.pow 2 11
  let fraction : Nat := bits % Nat.pow 2 52
  let negative := bits / Nat.pow 2 63 == 1
  if field = 2047 then none
  else if field = 0 then some ⟨negative, fraction, -1074, false⟩
  else some ⟨negative, fraction + Nat.pow 2 52, Int.ofNat field - 1075, fraction == 0 && field != 1⟩

/-! ## Fractions -/

/-- A fraction of natural numbers. -/
structure Fraction where
  num : Nat
  den : Nat

/-- `n · base ^ e`. -/
def Fraction.scaled (n base : Nat) (e : Int) : Fraction :=
  ⟨n * Nat.pow base e.toNat, Nat.pow base (-e).toNat⟩

def Fraction.le (a b : Fraction) : Bool := a.num * b.den ≤ b.num * a.den

def Fraction.lt (a b : Fraction) : Bool := a.num * b.den < b.num * a.den

def Fraction.floor (a : Fraction) : Nat := a.num / a.den

/-- Number of decimal digits; zero has none. -/
def digitCount (n : Nat) : Nat := if n = 0 then 0 else (Nat.toDigits 10 n).length

/-- The power of ten at the leading digit of a positive fraction. -/
def Fraction.magnitude (a : Fraction) : Int :=
  if a.den ≤ a.num then (digitCount a.floor : Int) - 1
  else -(digitCount ((a.den - 1) / a.num) : Int)

/-! ## Digits -/

/-- The decimal `digits · 10 ^ exponent`. -/
structure Digits where
  digits : Nat
  exponent : Int

/-- Moves trailing zeros of the digits into the exponent. -/
def Digits.trimmed (digits : Nat) (exponent : Int) : Digits :=
  if h : digits ≠ 0 ∧ digits % 10 = 0 then trimmed (digits / 10) (exponent + 1)
  else ⟨digits, exponent⟩
termination_by digits
decreasing_by omega

/-- The point of the grid with spacing `10 ^ exponent` that lies in the
interval of the double and nearest to it; of two equally near ones the
even one. -/
def gridPoint? (value lower upper : Fraction) (closed : Bool) (exponent : Int) : Option Digits :=
  let below := (Fraction.scaled 1 10 (-exponent)).num * value.num
    / ((Fraction.scaled 1 10 (-exponent)).den * value.den)
  let inside (d : Nat) : Bool :=
    let point := Fraction.scaled d 10 exponent
    if closed then lower.le point && point.le upper else lower.lt point && point.lt upper
  let middle := Fraction.scaled (2 * below + 1) 10 exponent
  let double : Fraction := ⟨2 * value.num, value.den⟩
  match inside below && below != 0, inside (below + 1) with
  | true, true =>
    if double.lt middle then some ⟨below, exponent⟩
    else if middle.lt double then some ⟨below + 1, exponent⟩
    else some ⟨if below % 2 = 0 then below else below + 1, exponent⟩
  | true, false => some ⟨below, exponent⟩
  | false, true => some ⟨below + 1, exponent⟩
  | false, false => none

/-- The shortest digits of a positive binary value. -/
def shortest (b : Binary) : Digits :=
  let quarter (n : Nat) := Fraction.scaled n 2 (b.exponent - 2)
  let value := quarter (4 * b.mantissa)
  let lower := quarter (4 * b.mantissa - if b.narrowBelow then 1 else 2)
  let upper := quarter (4 * b.mantissa + 2)
  let point := (List.range 17).findSome? fun n =>
    gridPoint? value lower upper (b.mantissa % 2 == 0) (value.magnitude - Int.ofNat n)
  match point with
  | some found => .trimmed found.digits found.exponent
  | none => ⟨0, 0⟩

end Downlevel.Decimal
