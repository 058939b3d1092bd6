/-
Downlevel.Toml.Scalar — numbers and truth values of a TOML text.

A single underscore may stand between two digits. Integers are signed
64-bit words and may be written in base ten with a sign, or in base
sixteen, eight or two without one. A number with a fraction or an exponent
is the nearest double. Infinities and what is not a number have no data
form and are read as null; a number beyond the greatest double is refused,
but one beyond the least is minus infinity.
-/
import Downlevel.Json.Basic

namespace Downlevel.Toml

/-! ## Digits -/

/-- Digits without the underscores between them. -/
def digits? (isDigit : Char → Bool) : List Char → Option (List Char)
  | [] => none
  | [c] => if isDigit c then some [c] else none
  | c :: '_' :: rest => if isDigit c then (digits? isDigit rest).map (c :: ·) else none
  | c :: rest => if isDigit c then (digits? isDigit rest).map (c :: ·) else none

def decimalDigits? : List Char → Option (List Char) := digits? Char.isDigit

/-- Decimal digits of a whole part: a leading zero stands alone. -/
def wholeDigits? (chars : List Char) : Option (List Char) :=
  match decimalDigits? chars with
  | some ('0' :: rest) => if chars = ['0'] then some ('0' :: rest) else none
  | digits => digits

def digitValue (c : Char) : Nat :=
  if c.isDigit then c.toNat - '0'.toNat
  else if 'a' ≤ c then c.toNat - 'a'.toNat + 10
  else c.toNat - 'A'.toNat + 10

/-- The number that digits write in a base. -/
def valueOf (base : Nat) (digits : List Char) : Nat :=
  digits.foldl (fun acc c => acc * base + digitValue c) 0

/-! ## Integers -/

/-- An integer that fits a signed 64-bit word. -/
def word? (n : Int) : Option Json :=
  if -(Nat.pow 2 63 : Int) ≤ n ∧ n < (Nat.pow 2 63 : Int) then some (.int n) else none

def isHexDigit (c : Char) : Bool :=
  c.isDigit || ('a' ≤ c && c ≤ 'f') || ('A' ≤ c && c ≤ 'F')

def isOctalDigit (c : Char) : Bool := '0' ≤ c && c ≤ '7'

def isBinaryDigit (c : Char) : Bool := c == '0' || c == '1'

def based? (base : Nat) (isDigit : Char → Bool) (chars : List Char) : Option Json :=
  (digits? isDigit chars).bind fun digits => word? (valueOf base digits)

/-! ## Doubles -/

/-- The double nearest to `significand · 10 ^ exponent`. Far outside of
the range of doubles only the order of magnitude counts. -/
def nearest (significand : Nat) (exponent : Int) : Float :=
  let magnitude := (Nat.toDigits 10 significand).length + exponent
  if significand = 0 ∨ magnitude < -400 then 0.0
  else if 400 < magnitude then 1.0 / 0.0
  else Float.ofScientific significand (exponent < 0) exponent.natAbs

/-- A double as data. -/
def double? (negative : Bool) (significand : Nat) (exponent : Int) : Option Json :=
  let x := nearest significand exponent
  if x.isInf then if negative then some .null else none
  else some (.float (if negative then -x else x))

/-- The exponent after its mark. -/
def exponent? (chars : List Char) : Option Int :=
  match chars with
  | '-' :: digits => (decimalDigits? digits).map fun d => -(valueOf 10 d : Int)
  | '+' :: digits => (decimalDigits? digits).map fun d => (valueOf 10 d : Int)
  | digits => (decimalDigits? digits).map fun d => (valueOf 10 d : Int)

def isExponentMark (c : Char) : Bool := c == 'e' || c == 'E'

/-- A number without its sign. -/
def unsigned? (negative : Bool) (chars : List Char) : Option Json := do
  let mantissa := chars.takeWhile fun c => !isExponentMark c
  let exponent ←
    match chars.dropWhile fun c => !isExponentMark c with
    | [] => some none
    | _ :: rest => (exponent? rest).map some
  let whole ← wholeDigits? (mantissa.takeWhile (· != '.'))
  match mantissa.dropWhile (· != '.'), exponent with
  | [], none =>
    let n : Int := valueOf 10 whole
    word? (if negative then -n else n)
  | [], some e => double? negative (valueOf 10 whole) e
  | _ :: fraction, e =>
    let fraction ← decimalDigits? fraction
    double? negative (valueOf 10 (whole ++ fraction)) (e.getD 0 - fraction.length)

/-- A number whose sign, if any, has been read. -/
def afterSign? (negative : Bool) (chars : List Char) : Option Json :=
  if chars = ['i', 'n', 'f'] ∨ chars = ['n', 'a', 'n'] then some .null
  else unsigned? negative chars

/-- The value of a word that stands where a value is due. -/
def scalar? (chars : List Char) : Option Json :=
  match chars with
  | ['t', 'r', 'u', 'e'] => some (.bool true)
  | ['f', 'a', 'l', 's', 'e'] => some (.bool false)
  | '+' :: rest => afterSign? false rest
  | '-' :: rest => afterSign? true rest
  | '0' :: 'x' :: rest => based? 16 isHexDigit rest
  | '0' :: 'o' :: rest => based? 8 isOctalDigit rest
  | '0' :: 'b' :: rest => based? 2 isBinaryDigit rest
  | chars => afterSign? false chars

end Downlevel.Toml
