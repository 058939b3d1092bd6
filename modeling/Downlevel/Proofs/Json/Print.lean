/-
Downlevel.Proofs.Json.Print — the written form of a value tells which value
it is.

`print_injective` is unique decodability: two values in canonical form with
one written form are the same value. The induction is over the first value
and carries what follows it (`printChars_append_inj`); what follows starts
with a comma or a closing bracket, so a number ends where it stops being
one.

* A string ends at its first bare quote, since escaping leaves none
  (`stringBody?_escape` reads it back).
* The first character of a value says of which kind the value is
  (`ofFirst?_printChars`), and no value starts with a closing bracket.
* An integer shows neither a point nor an exponent and a double shows one
  of them, so the two are never written alike.
-/
import Downlevel.Json.Printer
import Downlevel.Json.Token
import Downlevel.Proofs.Decimal.Notation

namespace Downlevel.Json

open Decimal (isNumberChar)

/-! ## Strings -/

theorem unit?_hexDigit {n : Nat} (h : n < 32) :
    Token.unit? '0' '0' (hexDigit (n / 16)) (hexDigit (n % 16)) = some n := by
  have all : ∀ k < 32, Token.unit? '0' '0' (hexDigit (k / 16)) (hexDigit (k % 16)) = some k := by
    decide
  exact all n h

/-- An escape with one letter is read back. -/
theorem stringBody?_simpleEscape {c e : Char} (h : Token.simpleEscape? e = some c)
    (acc rest : List Char) :
    Token.stringBody? acc ('\\' :: e :: rest) = Token.stringBody? (c :: acc) rest := by
  rw [Token.stringBody?.eq_def]
  split
  · next heq => cases heq
  · next heq => cases heq
  · next heq => cases heq; cases h
  · next heq => cases heq; rw [h]
  · next hne heq => cases heq; exact absurd rfl (hne _ _ rfl)

/-- An escaped character is read back. -/
theorem stringBody?_escapeChar (acc : List Char) (c : Char) (rest : List Char) :
    Token.stringBody? acc (escapeChar c ++ rest) = Token.stringBody? (c :: acc) rest := by
  rw [escapeChar]
  split
  · next h => subst h; exact stringBody?_simpleEscape rfl acc rest
  split
  · next h => subst h; exact stringBody?_simpleEscape rfl acc rest
  split
  · next h => subst h; exact stringBody?_simpleEscape rfl acc rest
  split
  · next h => subst h; exact stringBody?_simpleEscape rfl acc rest
  split
  · next h => subst h; exact stringBody?_simpleEscape rfl acc rest
  split
  · next h => subst h; exact stringBody?_simpleEscape rfl acc rest
  split
  · next h => subst h; exact stringBody?_simpleEscape rfl acc rest
  split
  · next hlt =>
    have hu := unit?_hexDigit hlt
    have hlow : Token.isLow c.toNat = false := by simp [Token.isLow]; omega
    have hhigh : Token.isHigh c.toNat = false := by simp [Token.isHigh]; omega
    have hread : Token.unicodeEscape?
        ('0' :: '0' :: hexDigit (c.toNat / 16) :: hexDigit (c.toNat % 16) :: rest)
          = some (c, rest) := by
      simp [Token.unicodeEscape?, hu, hlow, hhigh]
    simp only [List.cons_append, List.nil_append]
    rw [Token.stringBody?]
    split
    · next hr => rw [hread] at hr; cases hr; rfl
    · next hr => rw [hread] at hr; cases hr
  · next hq hb _ _ _ _ _ hlt =>
    simp only [List.cons_append, List.nil_append]
    rw [Token.stringBody?.eq_def]
    split <;> simp_all

/-- A written string is read back up to its closing quote. -/
theorem stringBody?_escape (acc cs rest : List Char) :
    Token.stringBody? acc (escape cs ++ '"' :: rest) = some (acc.reverse ++ cs, rest) := by
  induction cs generalizing acc with
  | nil => simp [escape, Token.stringBody?]
  | cons c cs ih =>
    rw [show escape (c :: cs) = escapeChar c ++ escape cs from List.flatMap_cons,
      List.append_assoc, stringBody?_escapeChar, ih]
    simp

theorem quoted_append_inj {k l : String} {r s : List Char}
    (h : quoted k ++ r = quoted l ++ s) : k = l ∧ r = s := by
  simp only [quoted, List.cons_append, List.append_assoc, List.nil_append, List.cons.injEq,
    true_and] at h
  have hk := stringBody?_escape [] k.toList r
  rw [h, stringBody?_escape] at hk
  simp only [List.reverse_nil, List.nil_append, Option.some.injEq, Prod.mk.injEq] at hk
  exact ⟨String.toList_injective hk.1.symm, hk.2.symm⟩

/-! ## Numbers -/

/-- What follows a value inside a text: nothing, a comma or a closing
bracket. -/
def EndsValue (rest : List Char) : Prop := ∀ c ∈ rest.head?, c = ',' ∨ c = ']' ∨ c = '\x7d'

theorem EndsValue.nil : EndsValue [] := by
  intro c hc
  cases hc

theorem EndsValue.not_numberChar {rest : List Char} (h : EndsValue rest) :
    ∀ c ∈ rest.head?, isNumberChar c = false := by
  intro c hc
  rcases h c hc with rfl | rfl | rfl <;> decide

/-- Texts of one class of characters end where the class does. -/
theorem append_inj_of_class {p : Char → Bool} {x y r s : List Char} (hx : ∀ c ∈ x, p c = true)
    (hy : ∀ c ∈ y, p c = true) (hr : ∀ c ∈ r.head?, p c = false)
    (hs : ∀ c ∈ s.head?, p c = false) (h : x ++ r = y ++ s) : x = y ∧ r = s := by
  have hend : ∀ {t : List Char}, (∀ c ∈ t.head?, p c = false) → t.takeWhile p = [] := by
    intro t ht
    cases t with
    | nil => rfl
    | cons c t => simp [ht c rfl]
  have hxy := congrArg (List.takeWhile p) h
  rw [List.takeWhile_append_of_pos hx, List.takeWhile_append_of_pos hy, hend hr, hend hs,
    List.append_nil, List.append_nil] at hxy
  subst hxy
  exact ⟨rfl, List.append_cancel_left h⟩

theorem isDigit_or_minus_of_mem_ofInt {n : Int} {c : Char} (h : c ∈ Decimal.ofInt n) :
    c.isDigit = true ∨ c = '-' := by
  rw [Decimal.ofInt] at h
  split at h
  · rcases List.mem_cons.mp h with rfl | h
    · exact .inr rfl
    · exact .inl (Decimal.isDigit_of_mem_ofNat h)
  · exact .inl (Decimal.isDigit_of_mem_ofNat h)

theorem ofInt_injective {n k : Int} (h : Decimal.ofInt n = Decimal.ofInt k) : n = k := by
  have hminus : ∀ m : Nat, '-' ∉ Decimal.ofNat m := Decimal.notMem_ofNat (by decide)
  have hne : ∀ m l : Nat, '-' :: Decimal.ofNat m ≠ Decimal.ofNat l := by
    intro m l heq
    exact hminus l (heq ▸ List.mem_cons_self)
  rw [Decimal.ofInt, Decimal.ofInt] at h
  split at h
  · split at h
    · have := Decimal.ofNat_injective (List.cons.inj h).2
      omega
    · exact absurd h (hne _ _)
  · split at h
    · exact absurd h.symm (hne _ _)
    · have := Decimal.ofNat_injective h
      omega

/-- The text of a finite double. -/
theorem floatText_spec {x : Float} (h : x.isFinite) :
    Decimal.written? x = some (floatText x)
      ∧ (∀ c ∈ floatText x, isNumberChar c = true)
      ∧ ('.' ∈ floatText x ∨ 'e' ∈ floatText x)
      ∧ ∃ first rest, floatText x = first :: rest ∧ (first.isDigit = true ∨ first = '-') := by
  obtain ⟨b, hb⟩ := Option.isSome_iff_exists.mp (Decimal.Binary.ofFloat?_isSome h)
  obtain ⟨hchars, ⟨first, rest, hfirst, hdigit⟩, hshows⟩ := b.magnitudeText_chars
  rw [floatText, Decimal.written?_eq, hb]
  simp only [Option.map_some, Option.getD_some, true_and]
  split
  · refine ⟨?_, hshows.imp (List.mem_cons_of_mem _) (List.mem_cons_of_mem _),
      '-', _, rfl, .inr rfl⟩
    intro c hc
    rcases List.mem_cons.mp hc with rfl | hc
    · decide
    · exact hchars c hc
  · exact ⟨hchars, hshows, first, rest, hfirst, .inl hdigit⟩

theorem floatText_injective {x y : Float} (hx : x.isFinite) (hy : y.isFinite)
    (h : floatText x = floatText y) : x = y := by
  have hwx := (floatText_spec hx).1
  have hwy := (floatText_spec hy).1
  rw [h] at hwx
  exact Decimal.written?_injective hwx hwy

/-- An integer is never written like a double. -/
theorem ofInt_ne_floatText {n : Int} {x : Float} (h : x.isFinite) :
    Decimal.ofInt n ≠ floatText x := by
  intro heq
  rcases (floatText_spec h).2.2.1 with hm | hm
  · rw [← heq] at hm
    rcases isDigit_or_minus_of_mem_ofInt hm with hd | hd <;> revert hd <;> decide
  · rw [← heq] at hm
    rcases isDigit_or_minus_of_mem_ofInt hm with hd | hd <;> revert hd <;> decide

/-! ## Kinds of values -/

/-- What kind of value a text goes on to show. Integers and doubles are of
one kind. -/
inductive Kind where
  | null
  | bool (value : Bool)
  | number
  | str
  | arr
  | obj

def kind : Json → Kind
  | .null => .null
  | .bool value => .bool value
  | .int _ => .number
  | .float _ => .number
  | .str _ => .str
  | .arr _ => .arr
  | .obj _ => .obj

/-- The kind that a first character announces, where it announces one. -/
def Kind.ofFirst? (c : Char) : Option Kind :=
  if c.isDigit || c == '-' then some .number
  else if c = 'n' then some .null
  else if c = 't' then some (.bool true)
  else if c = 'f' then some (.bool false)
  else if c = '"' then some .str
  else if c = '[' then some .arr
  else if c = '\x7b' then some .obj
  else none

theorem Kind.ofFirst?_number {c : Char} (h : c.isDigit = true ∨ c = '-') :
    ofFirst? c = some .number := by
  rw [ofFirst?, if_pos]
  rcases h with h | rfl
  · rw [h, Bool.true_or]
  · decide

/-- A value announces its kind. -/
theorem ofFirst?_printChars {j : Json} (hj : j.IsCanonical) :
    ∃ c rest, j.printChars = c :: rest ∧ Kind.ofFirst? c = some j.kind := by
  cases j with
  | null => exact ⟨_, _, rfl, rfl⟩
  | bool value => cases value <;> exact ⟨_, _, rfl, rfl⟩
  | int n =>
    rw [printChars, Decimal.ofInt]
    split
    · exact ⟨_, _, rfl, Kind.ofFirst?_number (.inr rfl)⟩
    · obtain ⟨c, rest, hc⟩ := List.exists_cons_of_length_pos (Decimal.length_ofNat_pos n.natAbs)
      have hdigit : c.isDigit = true :=
        Decimal.isDigit_of_mem_ofNat (n := n.natAbs) (hc ▸ List.mem_cons_self)
      exact ⟨c, rest, hc, Kind.ofFirst?_number (.inl hdigit)⟩
  | float x =>
    obtain ⟨-, -, -, c, rest, hc, hfirst⟩ := floatText_spec hj
    exact ⟨c, rest, hc, Kind.ofFirst?_number hfirst⟩
  | str text => exact ⟨_, _, rfl, rfl⟩
  | arr items => exact ⟨_, _, rfl, rfl⟩
  | obj members => exact ⟨_, _, rfl, rfl⟩

theorem kind_eq_of_printChars {a b : Json} (ha : a.IsCanonical) (hb : b.IsCanonical)
    {r s : List Char} (h : a.printChars ++ r = b.printChars ++ s) : a.kind = b.kind := by
  obtain ⟨c, ra, hca, hka⟩ := ofFirst?_printChars ha
  obtain ⟨d, rb, hdb, hkb⟩ := ofFirst?_printChars hb
  rw [hca, hdb, List.cons_append, List.cons_append] at h
  rw [(List.cons.inj h).1, hkb] at hka
  exact (Option.some.inj hka).symm

/-- No value starts where a list of values ends. -/
theorem printChars_ne_close {j : Json} (hj : j.IsCanonical) {c : Char}
    (hc : Kind.ofFirst? c = none) (r s : List Char) : j.printChars ++ r ≠ c :: s := by
  obtain ⟨d, rest, hd, hk⟩ := ofFirst?_printChars hj
  intro h
  rw [hd, List.cons_append] at h
  rw [(List.cons.inj h).1, hc] at hk
  cases hk

/-! ## Values -/

/-- The text of a number. -/
theorem isNumberChar_of_mem_printChars {j : Json} (hj : j.IsCanonical) (hk : j.kind = .number) :
    ∀ c ∈ j.printChars, isNumberChar c = true := by
  cases j with
  | int n =>
    intro c hc
    rcases isDigit_or_minus_of_mem_ofInt hc with h | rfl
    · exact Decimal.isNumberChar_of_isDigit h
    · decide
  | float x => exact (floatText_spec hj).2.1
  | _ => cases hk

theorem number_eq_of_printChars {a b : Json} (ha : a.IsCanonical) (hb : b.IsCanonical)
    (hka : a.kind = .number) (hkb : b.kind = .number) (h : a.printChars = b.printChars) :
    a = b := by
  cases a with
  | int n =>
    cases b with
    | int k => rw [ofInt_injective h]
    | float y => exact absurd h (ofInt_ne_floatText hb)
    | _ => cases hkb
  | float x =>
    cases b with
    | int k => exact absurd h.symm (ofInt_ne_floatText ha)
    | float y => rw [floatText_injective ha hb h]
    | _ => cases hkb
  | _ => cases hka

theorem number_append_inj {a b : Json} (ha : a.IsCanonical) (hb : b.IsCanonical)
    (hka : a.kind = .number) (hkb : b.kind = .number) {r s : List Char} (hr : EndsValue r)
    (hs : EndsValue s) (h : a.printChars ++ r = b.printChars ++ s) : a = b ∧ r = s := by
  obtain ⟨htext, hrest⟩ := append_inj_of_class (isNumberChar_of_mem_printChars ha hka)
    (isNumberChar_of_mem_printChars hb hkb) hr.not_numberChar hs.not_numberChar h
  exact ⟨number_eq_of_printChars ha hb hka hkb htext, hrest⟩

/-- What stands between an item and the end of its list. -/
def itemsRest : List Json → List Char → List Char
  | [], r => ']' :: r
  | item :: rest, r => ',' :: (printItems (item :: rest) ++ ']' :: r)

theorem printItems_cons (item : Json) (rest : List Json) (r : List Char) :
    printItems (item :: rest) ++ ']' :: r = item.printChars ++ itemsRest rest r := by
  cases rest with
  | nil => rfl
  | cons next rest => simp [printItems, itemsRest]

theorem endsValue_itemsRest (items : List Json) (r : List Char) :
    EndsValue (itemsRest items r) := by
  intro c hc
  cases items with
  | nil => cases hc; exact .inr (.inl rfl)
  | cons _ _ => cases hc; exact .inl rfl

/-- What stands between a member and the end of its object. -/
def membersRest : List (String × Json) → List Char → List Char
  | [], r => '\x7d' :: r
  | member :: rest, r => ',' :: (printMembers (member :: rest) ++ '\x7d' :: r)

theorem printMembers_cons (key : String) (value : Json) (rest : List (String × Json))
    (r : List Char) :
    printMembers ((key, value) :: rest) ++ '\x7d' :: r
      = quoted key ++ ':' :: (value.printChars ++ membersRest rest r) := by
  cases rest with
  | nil => simp [printMembers, membersRest]
  | cons next rest => simp [printMembers, membersRest]

theorem endsValue_membersRest (members : List (String × Json)) (r : List Char) :
    EndsValue (membersRest members r) := by
  intro c hc
  cases members with
  | nil => cases hc; exact .inr (.inr rfl)
  | cons _ _ => cases hc; exact .inl rfl

mutual

/-- A value and what follows it are told by the text of both. -/
theorem printChars_append_inj : ∀ (a : Json) {b : Json} {r s : List Char},
    a.IsCanonical → b.IsCanonical → EndsValue r → EndsValue s →
    a.printChars ++ r = b.printChars ++ s → a = b ∧ r = s
  | .null, b, r, s, ha, hb, _, _, h => by
      have hk := kind_eq_of_printChars ha hb h
      cases b <;> cases hk
      exact ⟨rfl, List.append_cancel_left h⟩
  | .bool value, b, r, s, ha, hb, _, _, h => by
      have hk := kind_eq_of_printChars ha hb h
      cases b <;> cases hk
      exact ⟨rfl, List.append_cancel_left h⟩
  | .int n, b, r, s, ha, hb, hr, hs, h =>
      number_append_inj ha hb rfl (kind_eq_of_printChars ha hb h).symm hr hs h
  | .float x, b, r, s, ha, hb, hr, hs, h =>
      number_append_inj ha hb rfl (kind_eq_of_printChars ha hb h).symm hr hs h
  | .str text, b, r, s, ha, hb, _, _, h => by
      have hk := kind_eq_of_printChars ha hb h
      cases b <;> cases hk
      obtain ⟨rfl, hrest⟩ := quoted_append_inj h
      exact ⟨rfl, hrest⟩
  | .arr items, b, r, s, ha, hb, _, _, h => by
      have hk := kind_eq_of_printChars ha hb h
      cases b <;> cases hk
      simp only [printChars, List.cons_append, List.append_assoc, List.nil_append,
        List.cons.injEq, true_and] at h
      obtain ⟨rfl, hrest⟩ := printItems_append_inj items ha hb h
      exact ⟨rfl, hrest⟩
  | .obj members, b, r, s, ha, hb, _, _, h => by
      have hk := kind_eq_of_printChars ha hb h
      cases b <;> cases hk
      simp only [printChars, List.cons_append, List.append_assoc, List.nil_append,
        List.cons.injEq, true_and] at h
      rw [IsCanonical] at ha hb
      obtain ⟨rfl, hrest⟩ := printMembers_append_inj members ha.2 hb.2 h
      exact ⟨rfl, hrest⟩

theorem printItems_append_inj : ∀ (xs : List Json) {ys : List Json} {r s : List Char},
    ItemsCanonical xs → ItemsCanonical ys →
    printItems xs ++ ']' :: r = printItems ys ++ ']' :: s → xs = ys ∧ r = s
  | [], [], r, s, _, _, h => ⟨rfl, (List.cons.inj h).2⟩
  | [], y :: ys, r, s, _, hys, h => by
      rw [printItems_cons] at h
      exact absurd h.symm (printChars_ne_close hys.1 (by decide) _ _)
  | x :: xs, [], r, s, hxs, _, h => by
      rw [printItems_cons] at h
      exact absurd h (printChars_ne_close hxs.1 (by decide) _ _)
  | x :: xs, y :: ys, r, s, hxs, hys, h => by
      rw [printItems_cons, printItems_cons] at h
      obtain ⟨rfl, hrest⟩ := printChars_append_inj x hxs.1 hys.1 (endsValue_itemsRest xs r)
        (endsValue_itemsRest ys s) h
      obtain ⟨rfl, hend⟩ : xs = ys ∧ r = s := by
        cases xs with
        | nil =>
          cases ys with
          | nil => exact ⟨rfl, (List.cons.inj hrest).2⟩
          | cons _ _ => cases (List.cons.inj hrest).1
        | cons x' xs =>
          cases ys with
          | nil => cases (List.cons.inj hrest).1
          | cons y' ys =>
            exact printItems_append_inj (x' :: xs) hxs.2 hys.2 (List.cons.inj hrest).2
      exact ⟨rfl, hend⟩

theorem printMembers_append_inj : ∀ (xs : List (String × Json)) {ys : List (String × Json)}
    {r s : List Char}, MembersCanonical xs → MembersCanonical ys →
    printMembers xs ++ '\x7d' :: r = printMembers ys ++ '\x7d' :: s → xs = ys ∧ r = s
  | [], [], r, s, _, _, h => ⟨rfl, (List.cons.inj h).2⟩
  | [], (key, value) :: ys, r, s, _, _, h => by
      rw [printMembers_cons] at h
      cases (List.cons.inj h).1
  | (key, value) :: xs, [], r, s, _, _, h => by
      rw [printMembers_cons] at h
      cases (List.cons.inj h).1
  | (key, value) :: xs, (key', value') :: ys, r, s, hxs, hys, h => by
      rw [printMembers_cons, printMembers_cons] at h
      obtain ⟨rfl, hvalue⟩ := quoted_append_inj h
      obtain ⟨rfl, hrest⟩ := printChars_append_inj value hxs.1 hys.1
        (endsValue_membersRest xs r) (endsValue_membersRest ys s) (List.cons.inj hvalue).2
      obtain ⟨rfl, hend⟩ : xs = ys ∧ r = s := by
        cases xs with
        | nil =>
          cases ys with
          | nil => exact ⟨rfl, (List.cons.inj hrest).2⟩
          | cons _ _ => cases (List.cons.inj hrest).1
        | cons x' xs =>
          cases ys with
          | nil => cases (List.cons.inj hrest).1
          | cons y' ys =>
            exact printMembers_append_inj (x' :: xs) hxs.2 hys.2 (List.cons.inj hrest).2
      exact ⟨rfl, hend⟩

end

/-- **Unique decodability**: values in canonical form are told apart by
their written form. -/
theorem print_injective {a b : Json} (ha : a.IsCanonical) (hb : b.IsCanonical)
    (h : a.print = b.print) : a = b := by
  have hchars : a.printChars = b.printChars := String.ofList_injective h
  refine (printChars_append_inj a (r := []) (s := []) ha hb .nil .nil ?_).1
  rw [hchars]

theorem canonicalText_eq_iff {a b : Json} :
    a.canonicalText = b.canonicalText ↔ a.canonical = b.canonical := by
  constructor
  · exact print_injective (canonical_isCanonical a) (canonical_isCanonical b)
  · intro h
    rw [canonicalText, h, canonicalText]

end Downlevel.Json
