/-
Downlevel.Json.Token — the tokens of a JSON text.

A text is cut into brackets, separators, strings and other scalars. Blanks
separate tokens and are not tokens themselves. Inside a string every
escape of the format is understood; a surrogate that is not one half of a
pair, and a bare control character, are refused.
-/
import Downlevel.Json.Number

namespace Downlevel.Json

inductive Token where
  | openArr
  | closeArr
  | openObj
  | closeObj
  | comma
  | colon
  | str (text : String)
  | scalar (value : Json)

namespace Token

def isBlank (c : Char) : Bool := c == ' ' || c == '\n' || c == '\t' || c == '\r'

/-! ## Strings -/

def hexValue? (c : Char) : Option Nat :=
  if '0' ≤ c ∧ c ≤ '9' then some (c.toNat - '0'.toNat)
  else if 'a' ≤ c ∧ c ≤ 'f' then some (c.toNat - 'a'.toNat + 10)
  else if 'A' ≤ c ∧ c ≤ 'F' then some (c.toNat - 'A'.toNat + 10)
  else none

/-- The code unit written by four hexadecimal digits. -/
def unit? (a b c d : Char) : Option Nat := do
  return (((← hexValue? a) * 16 + (← hexValue? b)) * 16 + (← hexValue? c)) * 16 + (← hexValue? d)

/-- The character of an escape with one letter. -/
def simpleEscape? (c : Char) : Option Char :=
  if c = '"' then some '"'
  else if c = '\\' then some '\\'
  else if c = '/' then some '/'
  else if c = 'b' then some '\x08'
  else if c = 'f' then some '\x0c'
  else if c = 'n' then some '\n'
  else if c = 'r' then some '\r'
  else if c = 't' then some '\t'
  else none

def isHigh (unit : Nat) : Bool := 0xD800 ≤ unit && unit < 0xDC00

def isLow (unit : Nat) : Bool := 0xDC00 ≤ unit && unit < 0xE000

/-- The character of a pair of surrogates. -/
def pairChar (high low : Nat) : Char :=
  Char.ofNat (0x10000 + (high - 0xD800) * 0x400 + (low - 0xDC00))

/-- The four digits after a backslash and the letter `u`, for the second
half of a pair. -/
def lowUnit? : List Char → Option (Nat × List Char)
  | slash :: letter :: a :: b :: c :: d :: rest =>
    if slash = '\\' ∧ letter = 'u' then (unit? a b c d).map (·, rest) else none
  | _ => none

theorem lowUnit?_length {cs rest : List Char} {n : Nat} (h : lowUnit? cs = some (n, rest)) :
    rest.length < cs.length := by
  unfold lowUnit? at h
  split at h
  · split at h
    · simp only [Option.map_eq_some_iff, Prod.mk.injEq] at h
      obtain ⟨_, _, _, rfl⟩ := h
      simp only [List.length_cons]
      omega
    · cases h
  · cases h

/-- The character that an escape after the letter `u` writes, and what
follows it. -/
def unicodeEscape? : List Char → Option (Char × List Char)
  | a :: b :: c :: d :: rest =>
    match unit? a b c d with
    | none => none
    | some high =>
      if isLow high then none
      else if isHigh high then
        match lowUnit? rest with
        | some (low, rest') => if isLow low then some (pairChar high low, rest') else none
        | none => none
      else some (Char.ofNat high, rest)
  | _ => none

theorem unicodeEscape?_length {cs rest : List Char} {c : Char}
    (h : unicodeEscape? cs = some (c, rest)) : rest.length < cs.length := by
  unfold unicodeEscape? at h
  split at h
  · split at h
    · cases h
    · split at h
      · cases h
      · split at h
        · split at h
          · next hl =>
            have := lowUnit?_length hl
            split at h
            · simp only [Option.some.injEq, Prod.mk.injEq] at h
              obtain ⟨_, rfl⟩ := h
              simp only [List.length_cons]
              omega
            · cases h
          · cases h
        · simp only [Option.some.injEq, Prod.mk.injEq] at h
          obtain ⟨_, rfl⟩ := h
          simp only [List.length_cons]
          omega
  · cases h

/-- The characters of a string up to its closing quote, and what follows
the quote. -/
def stringBody? (acc : List Char) (cs : List Char) : Option (List Char × List Char) :=
  match cs with
  | [] => none
  | '"' :: rest => some (acc.reverse, rest)
  | '\\' :: 'u' :: rest =>
    match _h : unicodeEscape? rest with
    | some (c, rest') => stringBody? (c :: acc) rest'
    | none => none
  | '\\' :: e :: rest =>
    match simpleEscape? e with
    | some c => stringBody? (c :: acc) rest
    | none => none
  | c :: rest => if c.toNat < 0x20 ∨ c = '\\' then none else stringBody? (c :: acc) rest
termination_by cs.length
decreasing_by
  · have := unicodeEscape?_length _h
    simp only [List.length_cons]
    omega
  · simp only [List.length_cons]; omega
  · simp

theorem stringBody?_length {acc cs text rest : List Char}
    (h : stringBody? acc cs = some (text, rest)) : rest.length < cs.length := by
  fun_induction stringBody? acc cs with
  | case1 => cases h
  | case2 => cases h; simp
  | case3 acc r c r' hu ih =>
    have := unicodeEscape?_length hu
    have := ih h
    simp only [List.length_cons]
    omega
  | case4 => cases h
  | case5 acc e r hne c hc ih =>
    have := ih h
    simp only [List.length_cons]
    omega
  | case6 => cases h
  | case7 => cases h
  | case8 acc c r _ _ _ _ ih =>
    have := ih h
    simp only [List.length_cons]
    omega

/-! ## Tokens -/

/-- The characters that numbers and the three literal names are made of. -/
def isScalarChar (c : Char) : Bool :=
  c.isAlphanum || c == '-' || c == '+' || c == '.'

/-- The scalar that a run of scalar characters is. -/
def scalar? (word : List Char) : Option Json :=
  if word = ['n', 'u', 'l', 'l'] then some .null
  else if word = ['t', 'r', 'u', 'e'] then some (.bool true)
  else if word = ['f', 'a', 'l', 's', 'e'] then some (.bool false)
  else number? word

/-- A token made of one character. -/
def punctuation? (c : Char) : Option Token :=
  if c = '[' then some .openArr
  else if c = ']' then some .closeArr
  else if c = '\x7b' then some .openObj
  else if c = '\x7d' then some .closeObj
  else if c = ',' then some .comma
  else if c = ':' then some .colon
  else none

theorem length_dropWhile_le (p : Char → Bool) (cs : List Char) :
    (cs.dropWhile p).length ≤ cs.length := by
  induction cs with
  | nil => simp
  | cons c rest ih =>
    rw [List.dropWhile_cons]
    split
    · simp only [List.length_cons]; omega
    · simp

/-- All tokens of a text, last one first on top of those already found. -/
def collect? (found : List Token) (cs : List Char) : Option (List Token) :=
  match cs with
  | [] => some found.reverse
  | c :: rest =>
    if isBlank c then collect? found rest
    else
      match punctuation? c with
      | some token => collect? (token :: found) rest
      | none =>
        if c = '"' then
          match _h : stringBody? [] rest with
          | some (text, rest') => collect? (.str (String.ofList text) :: found) rest'
          | none => none
        else if isScalarChar c then
          match scalar? (c :: rest.takeWhile isScalarChar) with
          | some value => collect? (.scalar value :: found) (rest.dropWhile isScalarChar)
          | none => none
        else none
termination_by cs.length
decreasing_by
  · simp
  · simp
  · have := stringBody?_length _h
    simp only [List.length_cons]
    omega
  · have := length_dropWhile_le isScalarChar rest
    simp only [List.length_cons]
    omega

end Token

end Downlevel.Json
