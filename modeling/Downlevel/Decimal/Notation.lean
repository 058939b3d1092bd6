/-
Downlevel.Decimal.Notation — how doubles are written.

Two notations are in use. `written` gives the shortest digits that read
back, positionally where the leading digit stands between five places
after the point and fifteen before it, and with an exponent elsewhere.
`fixed` gives a set number of places of the exact binary value, a half
going to the even neighbour.
-/
import Downlevel.Decimal.Shortest

namespace Downlevel.Decimal

/-- The decimal digits of a natural number. -/
def ofNat (n : Nat) : List Char := Nat.toDigits 10 n

/-- An integer, with a minus sign where it is negative. -/
def ofInt (n : Int) : List Char :=
  if n < 0 then '-' :: ofNat n.natAbs else ofNat n.natAbs

def zeros (n : Nat) : List Char := List.replicate n '0'

/-! ## Shortest notation -/

/-- The exponents of the leading digit that are written positionally. -/
structure PositionalRange where
  least : Int
  greatest : Int

/-- Data numbers are positional from `0.00001` up to sixteen digits before
the point. -/
def dataRange : PositionalRange := ⟨-5, 15⟩

/-- A positive decimal. A positional number always shows a fraction; an
exponent always shows its sign and is not padded. -/
def Digits.written (range : PositionalRange) (d : Digits) : List Char :=
  let digits := ofNat d.digits
  let lead := d.exponent + digits.length - 1
  if range.least ≤ lead ∧ lead ≤ range.greatest then
    if 0 ≤ d.exponent then digits ++ zeros d.exponent.toNat ++ ['.', '0']
    else if 0 ≤ lead then
      digits.take (lead.toNat + 1) ++ ['.'] ++ digits.drop (lead.toNat + 1)
    else ['0', '.'] ++ zeros (-lead - 1).toNat ++ digits
  else
    let mark := if lead < 0 then ['e', '-'] else ['e', '+']
    match digits with
    | [] => []
    | [first] => [first] ++ mark ++ ofNat lead.natAbs
    | first :: rest => [first, '.'] ++ rest ++ mark ++ ofNat lead.natAbs

/-- A finite double as data; none for an infinity or a value that is not
a number. -/
def written? (x : Float) : Option (List Char) :=
  (Binary.ofFloat? x).map fun b =>
    let magnitude := if b.mantissa = 0 then ['0', '.', '0'] else (shortest b).written dataRange
    if b.negative then '-' :: magnitude else magnitude

/-! ## Fixed places -/

/-- The whole number nearest to a fraction; a half goes to the even
neighbour. -/
def Fraction.roundHalfEven (a : Fraction) : Nat :=
  let q := a.num / a.den
  let twice := 2 * (a.num % a.den)
  if twice < a.den then q
  else if a.den < twice then q + 1
  else if q % 2 = 0 then q else q + 1

/-- A double with a fixed number of places, at least one. The sign of a
negative value stays even when only zeros are shown. -/
def fixed (places : Nat) (x : Float) : List Char :=
  match Binary.ofFloat? x with
  | none =>
    if x.isNaN then ['N', 'a', 'N'] else if x < 0 then ['-', 'i', 'n', 'f'] else ['i', 'n', 'f']
  | some b =>
    let exact := Fraction.scaled b.mantissa 2 b.exponent
    let whole := Nat.pow 10 places
    let units := Fraction.roundHalfEven ⟨exact.num * whole, exact.den⟩
    let fraction := ofNat (units % whole)
    let text := ofNat (units / whole) ++ ['.'] ++ zeros (places - fraction.length) ++ fraction
    if b.negative then '-' :: text else text

end Downlevel.Decimal
