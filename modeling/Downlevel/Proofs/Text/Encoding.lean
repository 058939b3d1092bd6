/-
Downlevel.Proofs.Text.Encoding — the bytes of a text.

`bytes` writes a text in UTF-8. A character below 128 is one byte, and no byte of
any other character is below 128. So a test for such a character may be made on
the byte at a place between two characters (`getElem?_bytes_eq_some_iff`), and what
passes over all other bytes passes over whole characters (`skip_char`).

`findByte?` is a search whose answer counts bytes.
-/
import Downlevel.Proofs.Text.Boundaries

namespace Downlevel.Text

variable {c d : Char} {b : UInt8} {u v cs text : List Char} {n : Nat}

/-! ## The bytes of one character -/

theorem utf8EncodeChar_of_lt (h : c.toNat < 128) : String.utf8EncodeChar c = [c.toUInt8] := by
  refine String.utf8EncodeChar_eq_singleton (Char.utf8Size_eq_one_iff.mpr ?_)
  rw [UInt32.le_iff_toNat_le]
  exact Nat.le_of_lt_succ h

theorem utf8Size_of_lt (h : c.toNat < 128) : c.utf8Size = 1 := by
  rw [← String.length_utf8EncodeChar, utf8EncodeChar_of_lt h]
  rfl

theorem toNat_toUInt8_of_lt (h : c.toNat < 128) : c.toUInt8.toNat = c.toNat := by
  rw [Char.toUInt8, UInt32.toNat_toUInt8]
  exact Nat.mod_eq_of_lt (by omega : c.toNat < 256)

theorem toUInt8_inj_of_lt (hc : c.toNat < 128) (hd : d.toNat < 128) :
    c.toUInt8 = d.toUInt8 ↔ c = d := by
  rw [← UInt8.toNat_inj, toNat_toUInt8_of_lt hc, toNat_toUInt8_of_lt hd, Char.toNat_inj]

theorem le_toNat_ofNat (h : 128 ≤ n) (hn : n < 256) : 128 ≤ (UInt8.ofNat n).toNat := by
  rwa [UInt8.toNat_ofNat_of_lt' hn]

/-- A byte of a character from 128 on is no character below. -/
theorem le_of_mem_utf8EncodeChar (hc : 128 ≤ c.toNat) (hb : b ∈ String.utf8EncodeChar c) :
    128 ≤ b.toNat := by
  fun_cases String.utf8EncodeChar c with
  | case1 v h => exact absurd hc (Nat.not_le_of_lt (Nat.lt_succ_of_le h))
  | case2 v _ h =>
    rw [String.utf8EncodeChar, if_neg (by omega), if_pos h] at hb
    simp only [List.mem_cons, List.not_mem_nil, or_false] at hb
    rcases hb with rfl | rfl <;> exact le_toNat_ofNat (by omega) (by omega)
  | case3 v _ _ h =>
    rw [String.utf8EncodeChar, if_neg (by omega), if_neg (by omega), if_pos h] at hb
    simp only [List.mem_cons, List.not_mem_nil, or_false] at hb
    rcases hb with rfl | rfl | rfl <;> exact le_toNat_ofNat (by omega) (by omega)
  | case4 v _ _ h =>
    rw [String.utf8EncodeChar, if_neg (by omega), if_neg (by omega), if_neg h] at hb
    simp only [List.mem_cons, List.not_mem_nil, or_false] at hb
    rcases hb with rfl | rfl | rfl | rfl <;> exact le_toNat_ofNat (by omega) (by omega)

/-! ## The bytes of a text -/

def bytes (cs : List Char) : List UInt8 := cs.flatMap String.utf8EncodeChar

theorem bytes_cons (c : Char) (cs : List Char) :
    bytes (c :: cs) = String.utf8EncodeChar c ++ bytes cs := rfl

theorem bytes_append (u v : List Char) : bytes (u ++ v) = bytes u ++ bytes v :=
  List.flatMap_append

@[simp] theorem length_bytes (cs : List Char) : (bytes cs).length = byteSize cs := by
  induction cs with
  | nil => rfl
  | cons c cs ih =>
    rw [bytes_cons, List.length_append, String.length_utf8EncodeChar, ih, byteSize_cons]

/-- The bytes of a character stand where it starts. -/
theorem getElem?_bytes_add (u v : List Char) (hn : n < c.utf8Size) :
    (bytes (u ++ c :: v))[byteSize u + n]? = (String.utf8EncodeChar c)[n]? := by
  rw [bytes_append, bytes_cons, ← length_bytes, List.getElem?_append_right (Nat.le_add_right _ _),
    Nat.add_sub_cancel_left, List.getElem?_append_left]
  rwa [String.length_utf8EncodeChar]

theorem getElem?_bytes (u v : List Char) (c : Char) :
    (bytes (u ++ c :: v))[byteSize u]? = (String.utf8EncodeChar c)[0]? :=
  getElem?_bytes_add u v c.utf8Size_pos

theorem exists_getElem?_bytes (hn : n < byteSize text) : ∃ b, (bytes text)[n]? = some b :=
  ⟨_, List.getElem?_eq_getElem (by rwa [length_bytes])⟩

/-- **Which byte starts a character**: one below 128 only that character. -/
theorem getElem?_bytes_eq_some_iff (hd : d.toNat < 128) :
    (bytes (u ++ cs))[byteSize u]? = some d.toUInt8 ↔ cs.head? = some d := by
  cases cs with
  | nil => simp
  | cons c v =>
    rw [getElem?_bytes, List.head?_cons, Option.some_inj]
    by_cases hc : c.toNat < 128
    · rw [utf8EncodeChar_of_lt hc, List.getElem?_cons_zero, Option.some_inj,
        toUInt8_inj_of_lt hc hd]
    · refine iff_of_false (fun hbyte => ?_) fun heq => hc (heq ▸ hd)
      have hle := le_of_mem_utf8EncodeChar (Nat.le_of_not_lt hc) (List.mem_of_getElem? hbyte)
      rw [toNat_toUInt8_of_lt hd] at hle
      omega

/-- **What passes over bytes from 128 on** passes over the rest of a character, and
over all of a character from 128 on. -/
theorem skip_char {α : Type} {f : Nat → α}
    (hskip : ∀ i b, (bytes (u ++ c :: v))[i]? = some b → 128 ≤ b.toNat → f i = f (i + 1))
    (hn : 0 < n ∨ 128 ≤ c.toNat) (hle : n ≤ c.utf8Size) :
    f (byteSize u + n) = f (byteSize (u ++ [c])) := by
  rw [byteSize_append, byteSize_cons, byteSize_nil, Nat.add_zero]
  obtain ⟨left, hleft⟩ := Nat.exists_eq_add_of_le hle
  induction left generalizing n with
  | zero => rw [hleft, Nat.add_zero]
  | succ left ih =>
    have hlt : n < (String.utf8EncodeChar c).length := by
      rw [String.length_utf8EncodeChar]
      omega
    have hc : 128 ≤ c.toNat := by
      rcases hn with hn | hc
      · refine Nat.le_of_not_lt fun hc => ?_
        rw [utf8Size_of_lt hc] at hleft
        omega
      · exact hc
    have hbyte := List.getElem?_eq_getElem hlt
    rw [hskip _ _ ((getElem?_bytes_add u v (by omega)).trans hbyte)
      (le_of_mem_utf8EncodeChar hc (List.getElem_mem hlt))]
    exact ih (.inl (Nat.succ_pos n)) (by omega) (by omega)

/-! ## Searches -/

/-- The first byte from which on the text passes a test. -/
def findByte? (test : List Char → Bool) : List Char → Option Nat
  | [] => none
  | c :: rest => if test (c :: rest) then some 0 else (findByte? test rest).map (c.utf8Size + ·)

/-- A search for a character stops behind the characters before it. -/
theorem findByte?_head (p : Char → Bool) (cs : List Char) :
    (findByte? (fun rest => rest.head?.any p) cs).getD (byteSize cs)
      = byteSize (cs.takeWhile fun c => !p c) := by
  induction cs with
  | nil => rfl
  | cons c rest ih =>
    rw [findByte?, List.head?_cons, Option.any_some, List.takeWhile_cons]
    cases hp : p c with
    | true => rfl
    | false =>
      simp only [Bool.false_eq_true, if_false, Bool.not_false, if_true, byteSize_cons, ← ih]
      cases findByte? (fun rest => rest.head?.any p) rest <;> rfl

end Downlevel.Text
