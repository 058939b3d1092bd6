/-
Downlevel.Proofs.Pattern.Search — what a search does not miss.

`search?_some` says where a match may stand that was found. The converse is
that a search stops no later than at the first place where the pattern matches
(`exists_findFrom?_le`). So every such place is covered by one of the matches
that are listed from left to right (`exists_covering`).
-/
import Downlevel.Proofs.Pattern.Greedy

namespace Downlevel.Pattern

variable {p : Pattern} {text u v : List Char} {place offset : Nat}

/-- The cursor between two parts of a text. -/
theorem Cursor.ofOffset_length (u v : List Char) :
    Cursor.ofOffset (u ++ v) u.length = ⟨u.length, u.getLast?, v, []⟩ := by
  rw [Cursor.ofOffset, List.drop_left' rfl]
  by_cases hu : u = []
  · subst hu
    rfl
  · have hpos := List.length_pos_iff.mpr hu
    rw [if_neg (by omega), List.getElem?_append_left (by omega), List.getLast?_eq_getElem?]

/-- The pattern matches at a place of a text. -/
def MatchesAt (p : Pattern) (text : List Char) (place : Nat) : Prop :=
  (p.matchAt? (Cursor.ofOffset text place)).isSome = true

theorem exists_search?_le {before : Option Char}
    (h : (p.matchAt? ⟨offset + u.length, u.getLast?.or before, v, []⟩).isSome = true) :
    ∃ m, p.search? offset before (u ++ v) = some m ∧ m.start ≤ offset + u.length := by
  induction u generalizing offset before with
  | nil =>
    obtain ⟨c, hc⟩ := Option.isSome_iff_exists.mp h
    exact ⟨_, search?_of_matchAt? hc, Nat.le_refl _⟩
  | cons x u ih =>
    rw [List.cons_append, search?]
    split
    · exact ⟨_, rfl, Nat.le_add_right _ _⟩
    · have hlater : (p.matchAt? ⟨offset + 1 + u.length, u.getLast?.or (some x), v, []⟩).isSome
          = true := by
        rw [List.getLast?_cons, List.length_cons, Option.some_or] at h
        rw [Nat.add_right_comm, Nat.add_assoc]
        cases hlast : u.getLast? <;> simpa [hlast] using h
      obtain ⟨m, hm, hle⟩ := ih hlater
      exact ⟨m, hm, by rw [List.length_cons]; omega⟩

/-- **A search stops at the first match**: no later than at any place where
the pattern matches. -/
theorem exists_findFrom?_le (h : p.MatchesAt text place) (hoffset : offset ≤ place)
    (hplace : place ≤ text.length) :
    ∃ m, p.findFrom? text offset = some m ∧ m.start ≤ place := by
  obtain ⟨w, v, rfl, rfl⟩ : ∃ w v, text = w ++ v ∧ w.length = place :=
    ⟨text.take place, text.drop place, (List.take_append_drop place text).symm,
      List.length_take_of_le hplace⟩
  obtain ⟨front, u, rfl, rfl⟩ : ∃ front u, w = front ++ u ∧ front.length = offset :=
    ⟨w.take offset, w.drop offset, (List.take_append_drop offset w).symm,
      List.length_take_of_le hoffset⟩
  rw [MatchesAt, Cursor.ofOffset_length, List.length_append, List.getLast?_append] at h
  obtain ⟨m, hm, hle⟩ := exists_search?_le h
  refine ⟨m, ?_, by rwa [List.length_append]⟩
  rw [findFrom?, List.append_assoc, Cursor.ofOffset_length]
  exact hm

/-- A match at the place where a search starts is what it finds. -/
theorem findFrom?_of_matchAt? {c : Cursor}
    (h : p.matchAt? (Cursor.ofOffset text place) = some c) :
    p.findFrom? text place = some ⟨place, c.offset, c.groups⟩ :=
  search?_of_matchAt? h

/-- A search passes over a place where nothing matches. -/
theorem findFrom?_succ (h : ¬ p.MatchesAt text place) (hplace : place < text.length) :
    p.findFrom? text place = p.findFrom? text (place + 1) := by
  obtain ⟨w, x, v, rfl, rfl⟩ : ∃ w x v, text = w ++ x :: v ∧ w.length = place :=
    ⟨text.take place, text[place], text.drop (place + 1), by simp,
      List.length_take_of_le (Nat.le_of_lt hplace)⟩
  have hnone : p.matchAt? ⟨w.length, w.getLast?, x :: v, []⟩ = none := by
    rwa [MatchesAt, Cursor.ofOffset_length, Option.not_isSome_iff_eq_none] at h
  have hnext : Cursor.ofOffset (w ++ x :: v) (w.length + 1) = ⟨w.length + 1, some x, v, []⟩ := by
    have hplaced := Cursor.ofOffset_length (w ++ [x]) v
    simpa using hplaced
  rw [findFrom?, findFrom?, Cursor.ofOffset_length, hnext]
  dsimp only
  rw [search?, hnone]

/-- Every place where a pattern matches lies in one of the matches that are
listed, if none of them is empty. -/
theorem exists_covering (hconsuming : 0 < p.minLength) (h : p.MatchesAt text place)
    (hoffset : offset ≤ place) (hplace : place ≤ text.length) :
    ∃ m ∈ p.allFrom text offset, m.start ≤ place ∧ place < m.stop
      ∧ ∃ start, start ≤ text.length ∧ p.findFrom? text start = some m := by
  fun_induction allFrom p text offset with
  | case1 offset inside m hm ih =>
    obtain ⟨m', hm', hstart⟩ := exists_findFrom?_le h hoffset hplace
    obtain rfl : m = m' := Option.some.inj (hm.symm.trans hm')
    by_cases hstop : place < m.stop
    · exact ⟨m, List.mem_cons_self, hstart, hstop, offset, inside, hm⟩
    · have hmatch := findFrom?_some inside hm
      obtain ⟨m', hmem, hcovers⟩ := ih (by split <;> omega)
      exact ⟨m', List.mem_cons_of_mem m hmem, hcovers⟩
  | case2 offset inside hnone =>
    obtain ⟨m, hm, -⟩ := exists_findFrom?_le h hoffset hplace
    rw [hnone] at hm
    cases hm
  | case3 offset outside => omega

end Downlevel.Pattern
