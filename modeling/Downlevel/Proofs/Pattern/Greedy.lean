/-
Downlevel.Proofs.Pattern.Greedy — runs that can go one way only.

Where the characters at a cursor leave a pattern no choice, its run is the
run of what comes after it, at the cursor behind those characters
(`Cursor.behind`). A repetition of one class of characters takes all of them
that there are, provided that what comes after it accepts the place behind
them (`run_star_char`). So names and brackets are matched to their ends.
-/
import Downlevel.Proofs.Pattern.Spelling

namespace Downlevel.Pattern

/-! ## Cursors -/

/-- The place behind some characters, with what is left there. -/
def Cursor.behind (c : Cursor) (w rest : List Char) : Cursor :=
  { c with offset := c.offset + w.length, before := w.getLast?.or c.before, rest := rest }

namespace Cursor

variable (c : Cursor) (w rest : List Char)

@[simp] theorem behind_offset : (c.behind w rest).offset = c.offset + w.length := rfl

@[simp] theorem behind_rest : (c.behind w rest).rest = rest := rfl

@[simp] theorem behind_groups : (c.behind w rest).groups = c.groups := rfl

@[simp] theorem ofOffset_offset (text : List Char) (offset : Nat) :
    (ofOffset text offset).offset = offset := rfl

@[simp] theorem ofOffset_rest (text : List Char) (offset : Nat) :
    (ofOffset text offset).rest = text.drop offset := rfl

theorem behind_nil (h : c.rest = rest) : c.behind [] rest = c := by
  subst h
  rfl

theorem behind_behind (v after : List Char) :
    (c.behind w rest).behind v after = c.behind (w ++ v) after := by
  simp [behind, Nat.add_assoc, List.getLast?_append, Option.or_assoc]

end Cursor

/-! ## Runs -/

variable {α : Type} {c : Cursor} {k : Cursor → Option α}

theorem run_char {accepts : Char → Bool} {x : Char} {rest : List Char} (hrest : c.rest = x :: rest)
    (hx : accepts x = true) : (char accepts).run c k = k (c.behind [x] rest) := by
  simp only [run, hrest, hx, if_true]
  rfl

theorem run_char_eq_none {accepts : Char → Bool}
    (h : ∀ x, c.rest.head? = some x → accepts x = false) : (char accepts).run c k = none := by
  cases hrest : c.rest with
  | nil => simp only [run, hrest]
  | cons x rest =>
    have hx : accepts x = false := h x (by rw [hrest]; rfl)
    simp only [run, hrest, hx, Bool.false_eq_true, if_false]

theorem run_append (p q : Pattern) : (p ++ q).run c k = p.run c fun c' => q.run c' k := rfl

theorem or_eq_alt (p q : Pattern) : (p ||| q) = .alt p q := rfl

theorem run_or_eq_left {p q : Pattern} {r : α} (h : p.run c k = some r) :
    (p ||| q).run c k = some r := by
  rw [or_eq_alt, run, h]

theorem run_or_eq_right {p q : Pattern} (h : p.run c k = none) : (p ||| q).run c k = q.run c k := by
  rw [or_eq_alt, run, h]

theorem run_seqs_map (chars : List Char) {c : Cursor} {rest : List Char}
    (hrest : c.rest = chars ++ rest) :
    (seqs (chars.map fun x => .char (· == x))).run c k = k (c.behind chars rest) := by
  induction chars generalizing c with
  | nil => rw [List.map_nil, seqs, run, Cursor.behind_nil c rest hrest]
  | cons x chars ih =>
    have hx : ∀ k : Cursor → Option α,
        (char fun y => y == x).run c k = k (c.behind [x] (chars ++ rest)) :=
      fun _ => run_char hrest (beq_self_eq_true x)
    cases chars with
    | nil => exact hx k
    | cons y chars =>
      show (char fun z => z == x).run c
        (fun c' => (seqs ((y :: chars).map fun x => .char (· == x))).run c' k) = _
      rw [hx, ih rfl, Cursor.behind_behind, List.singleton_append]

/-- A literal text that stands there is passed over. -/
theorem run_literal {text : String} {rest : List Char} (hrest : c.rest = text.toList ++ rest) :
    (literal text).run c k = k (c.behind text.toList rest) :=
  run_seqs_map _ hrest

/-- A literal text does not match where another character stands. -/
theorem run_literal_eq_none {text : String} {x : Char} {chars : List Char}
    (htext : text.toList = x :: chars) (h : c.rest.head? ≠ some x) :
    (literal text).run c k = none := by
  have hx : ∀ k : Cursor → Option α, (char fun y => y == x).run c k = none := by
    refine fun k => run_char_eq_none fun y hy => ?_
    rw [beq_eq_false_iff_ne]
    rintro rfl
    exact h hy
  unfold literal
  rw [htext]
  cases chars with
  | nil => exact hx k
  | cons y chars =>
    show (char fun z => z == x).run c
      (fun c' => (seqs ((y :: chars).map fun x => .char (· == x))).run c' k) = none
    exact hx _

/-- **A repetition of a class of characters takes all of them**, if what
comes after it accepts the place behind them. -/
theorem run_star_char {accepts : Char → Bool} {w rest : List Char} {r : α}
    (hrest : c.rest = w ++ rest) (hw : ∀ x ∈ w, accepts x = true)
    (hend : ∀ x, rest.head? = some x → accepts x = false) (hk : k (c.behind w rest) = some r) :
    (star (char accepts)).run c k = some r := by
  -- the fuel is what is left, and each round spends one character of both
  have hfuel : ∀ (w fuel : List Char) (c : Cursor), c.rest = w ++ rest → w.length ≤ fuel.length →
      (∀ x ∈ w, accepts x = true) → k (c.behind w rest) = some r →
      starRun (run (char accepts)) fuel c k = some r := by
    intro w
    induction w with
    | nil =>
      intro fuel c hrest _ _ hk
      rw [Cursor.behind_nil c rest hrest] at hk
      cases fuel with
      | nil => exact hk
      | cons _ fuel =>
        have hnone : ∀ {k : Cursor → Option α}, (char accepts).run c k = none :=
          run_char_eq_none (by rwa [hrest])
        rw [starRun, hnone]
        exact hk
    | cons x w ih =>
      intro fuel c hrest hlength hw hk
      cases fuel with
      | nil => simp at hlength
      | cons _ fuel =>
        obtain ⟨hx, hw⟩ := List.forall_mem_cons.mp hw
        have hnext : starRun (run (char accepts)) fuel (c.behind [x] (w ++ rest)) k = some r := by
          refine ih fuel _ rfl (by simpa using hlength) hw ?_
          rwa [Cursor.behind_behind]
        rw [List.cons_append] at hrest
        rw [starRun, run_char hrest hx, if_pos (by simp), hnext]
  refine hfuel w c.rest c hrest ?_ hw hk
  rw [hrest, List.length_append]
  exact Nat.le_add_right _ _

/-- A repetition of what does not match is passed over. -/
theorem run_star_of_eq_none {p : Pattern} (h : ∀ k : Cursor → Option α, p.run c k = none) :
    (star p).run c k = k c := by
  rw [run]
  cases c.rest with
  | nil => rfl
  | cons x rest => rw [starRun, h]

theorem search?_of_matchAt? {p : Pattern} {offset : Nat} {before : Option Char} {rest : List Char}
    {c : Cursor} (h : p.matchAt? ⟨offset, before, rest, []⟩ = some c) :
    p.search? offset before rest = some ⟨offset, c.offset, c.groups⟩ := by
  cases rest <;> rw [search?, h]

/-! ## Names and brackets -/

/-- A name that goes as far as it can is matched whole. -/
theorem run_name {w rest : List Char} {r : α} (hw : IsName w) (hrest : c.rest = w ++ rest)
    (hend : ∀ x, rest.head? = some x → isNamePart x = false) (hk : k (c.behind w rest) = some r) :
    name.run c k = some r := by
  obtain ⟨x, chars, rfl, hx, hchars⟩ := hw
  have hstart : name.run c k
      = (star namePart).run (c.behind [x] (chars ++ rest)) k := by
    rw [name, run_append]
    exact run_char hrest hx
  rw [hstart]
  refine run_star_char rfl hchars hend ?_
  rwa [Cursor.behind_behind]

theorem run_name_eq_none (h : ∀ x, c.rest.head? = some x → isNameStart x = false) :
    name.run c k = none := by
  rw [name, run_append]
  exact run_char_eq_none h

/-- Brackets are matched to the closing one. -/
theorem run_bracketed {opening closing : String} {o cl : Char} {w rest : List Char} {r : α}
    (hopening : opening.toList = [o]) (hclosing : closing.toList = [cl])
    (hw : IsBracketed o cl w) (hrest : c.rest = w ++ rest) (hk : k (c.behind w rest) = some r) :
    (bracketed opening closing).run c k = some r := by
  obtain ⟨body, rfl, hbody⟩ := hw
  have hrest' : c.rest = opening.toList ++ (body ++ cl :: rest) := by
    rw [hrest, hopening]
    simp
  rw [bracketed, run_append, run_append, run_literal hrest']
  refine run_star_char rfl ?_ ?_ ?_
  · intro x hx
    simpa [hopening, hclosing] using hbody x hx
  · intro x hx
    obtain rfl : cl = x := by simpa using hx
    simp [hopening, hclosing]
  · rw [Cursor.behind_behind]
    have hclose : (c.behind (opening.toList ++ body) (cl :: rest)).rest
        = closing.toList ++ rest := by
      rw [hclosing]
      rfl
    rw [run_literal hclose, Cursor.behind_behind, hopening, hclosing]
    simpa using hk

theorem run_bracketed_eq_none {opening closing : String} {o : Char}
    (hopening : opening.toList = [o]) (h : c.rest.head? ≠ some o) :
    (bracketed opening closing).run c k = none := by
  rw [bracketed, run_append, run_append]
  exact run_literal_eq_none hopening h

end Downlevel.Pattern
