/-
Downlevel.Json.Number — reading the numbers of a JSON text.

A number without fraction and exponent that fits a signed or an unsigned
64-bit word is an integer. Every other number is a double, and so is
minus zero.

Doubles are read by one multiplication or division: the digits are
gathered into a 64-bit significand, which is converted and then scaled by
a power of ten. Digits that no longer fit the significand are dropped:
before the point they still raise the exponent, after it they count for
nothing. The result can therefore differ from the nearest double in its
last bit.
-/
import Downlevel.Json.Basic

namespace Downlevel.Json

/-! ## Scaling -/

/-- The power of ten as a double. -/
def powerOfTen (n : Nat) : Float := Float.ofScientific 1 false n

/-- `significand · 10 ^ exponent`, scaled in steps that stay within the
range of doubles; none when the result is too large. -/
def scaleFrom (f : Float) (exponent : Int) : Option Float :=
  if exponent.natAbs ≤ 308 then
    if 0 ≤ exponent then
      let g := f * powerOfTen exponent.toNat
      if g.isInf then none else some g
    else some (f / powerOfTen exponent.natAbs)
  else if f == 0 then some f
  else if 0 ≤ exponent then none
  else scaleFrom (f / powerOfTen 308) (exponent + 308)
termination_by exponent.natAbs
decreasing_by omega

/-- The double of a signed significand and a decimal exponent. -/
def ofParts? (negative : Bool) (significand : Nat) (exponent : Int) : Option Json :=
  (scaleFrom significand.toUInt64.toFloat exponent).map fun f =>
    .float (if negative then -f else f)

/-! ## Digits -/

/-- The greatest significand. -/
def maxSignificand : Nat := Nat.pow 2 64 - 1

/-- The greatest exponent that is taken at its value. -/
def maxExponent : Nat := Nat.pow 2 31 - 1

/-- Keeps an exponent within a signed 32-bit word. -/
def clampExponent (e : Int) : Int := max (-(Nat.pow 2 31 : Int)) (min e maxExponent)

/-- Gathers leading digits while the number they make stays below the
limit. Gives the number, how many digits were taken and what is left. -/
def takeDigits (limit : Nat) (acc : Nat) (count : Nat) : List Char → Nat × Nat × List Char
  | [] => (acc, count, [])
  | c :: rest =>
    if c.isDigit then
      let next := 10 * acc + (c.toNat - '0'.toNat)
      if next ≤ limit then takeDigits limit next (count + 1) rest else (acc, count, c :: rest)
    else (acc, count, c :: rest)

def startsWithDigit : List Char → Bool
  | c :: _ => c.isDigit
  | [] => false

/-- The exponent part, if there is one, and the end of the number. -/
def readExponent? (negative : Bool) (significand : Nat) (exponent : Int) :
    List Char → Option Json
  | [] => ofParts? negative significand exponent
  | c :: rest =>
    if c = 'e' ∨ c = 'E' then
      let (below, digits) := match rest with
        | '-' :: digits => (true, digits)
        | '+' :: digits => (false, digits)
        | digits => (false, digits)
      if startsWithDigit digits then
        let (shift, _, left) := takeDigits maxExponent 0 0 digits
        if startsWithDigit left then
          -- the exponent is beyond every double
          if left.dropWhile Char.isDigit ≠ [] then none
          else if significand ≠ 0 ∧ !below then none
          else some (.float (if negative then -0.0 else 0.0))
        else if left ≠ [] then none
        else
          let shift : Int := if below then -(shift : Int) else shift
          ofParts? negative significand (clampExponent (exponent + shift))
      else none
    else none

/-- The fraction after the point. -/
def readFraction? (negative : Bool) (significand : Nat) (exponent : Int) (digits : List Char) :
    Option Json :=
  if startsWithDigit digits then
    let (significand, count, left) := takeDigits maxSignificand significand 0 digits
    readExponent? negative significand (exponent - count) (left.dropWhile Char.isDigit)
  else none

/-- What may follow the whole part of a number. -/
def readAfterWhole? (negative : Bool) (significand : Nat) (rest : List Char) : Option Json :=
  match rest with
  | [] =>
    if negative then
      if 0 < significand ∧ significand ≤ Nat.pow 2 63 then some (.int (-significand))
      else some (.float (-significand.toUInt64.toFloat))
    else some (.int significand)
  | '.' :: digits => readFraction? negative significand 0 digits
  | rest => readExponent? negative significand 0 rest

/-- The number that a text is, as a whole. A leading zero stands alone. -/
def number? (text : List Char) : Option Json :=
  let (negative, text) := match text with
    | '-' :: rest => (true, rest)
    | rest => (false, rest)
  match text with
  | '0' :: rest => if startsWithDigit rest then none else readAfterWhole? negative 0 rest
  | digits =>
    if startsWithDigit digits then
      let (significand, _, left) := takeDigits maxSignificand 0 0 digits
      if startsWithDigit left then
        let dropped := (left.takeWhile Char.isDigit).length
        match left.dropWhile Char.isDigit with
        | '.' :: digits => readFraction? negative significand dropped digits
        | rest => readExponent? negative significand dropped rest
      else readAfterWhole? negative significand left
    else none

end Downlevel.Json
