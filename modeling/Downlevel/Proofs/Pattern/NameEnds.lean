/-
Downlevel.Proofs.Pattern.NameEnds — matches that cut no name in two.

A cursor is settled when no name goes on from the character before it to the
one behind it. Names are taken as far as they go, and brackets end in a
character that no name has, so a pattern that ends in one of these leaves a
settled cursor, provided that whatever comes after it accepts every place it
may be asked about (`Settles`). A repetition that goes first keeps this only as
long as it is not given up again, hence the proviso.

Where a search starts at a settled place it finds names from their start on
(`not_isName_before_match`): one that starts before the match would have been
matched first.
-/
import Downlevel.Proofs.Pattern.Search

namespace Downlevel.Pattern

/-! ## Settled places -/

/-- No name goes on from the one character to the other. -/
def NoNameAcross (before after : Option Char) : Prop :=
  ∀ x ∈ before, ∀ y ∈ after, isNamePart x = true → isNamePart y = false

/-- No name goes on at the cursor. -/
def Cursor.IsSettled (c : Cursor) : Prop := NoNameAcross c.before c.rest.head?

/-- No name goes on at an offset of a text. -/
def SettledAt (text : List Char) (offset : Nat) : Prop :=
  NoNameAcross (text.take offset).getLast? (text.drop offset).head?

theorem NoNameAcross.of_before {before after : Option Char}
    (h : ∀ x ∈ before, isNamePart x = false) : NoNameAcross before after := by
  intro x hx y _ hname
  rw [h x hx] at hname
  cases hname

theorem NoNameAcross.of_after {before after : Option Char}
    (h : ∀ y ∈ after, isNamePart y = false) : NoNameAcross before after :=
  fun _ _ y hy _ => h y hy

/-- Of the two characters around a settled place one belongs to no name. -/
theorem SettledAt.isNamePart_eq_false {text : List Char} {place : Nat} (h : SettledAt text place)
    (hpos : 0 < place) (hlt : place < text.length) (hbefore : isNamePart text[place - 1] = true) :
    isNamePart text[place] = false := by
  refine h _ ?_ _ ?_ hbefore
  · rw [Option.mem_def, List.getLast?_eq_getElem?, List.length_take_of_le (Nat.le_of_lt hlt),
      List.getElem?_take_of_lt (by omega), List.getElem?_eq_getElem]
  · rw [Option.mem_def, List.head?_drop, List.getElem?_eq_getElem]

theorem SettledAt.zero (text : List Char) : SettledAt text 0 := .of_before nofun

/-! ## Patterns that settle -/

section Settles

variable {α : Type} {p q : Pattern}

/-- Whatever comes after the pattern accepts every place behind a match. -/
def AcceptsBehind (p : Pattern) (c : Cursor) (k : Cursor → Option α) : Prop :=
  ∀ c', Reaches p.minLength c c' → (k c').isSome = true

/-- The pattern leaves a settled cursor where everything is accepted behind
it. -/
def Settles (p : Pattern) : Prop :=
  ∀ (α : Type) (c : Cursor) (k : Cursor → Option α) (r : α), p.AcceptsBehind c k →
    p.run c k = some r → ∃ c', Reaches p.minLength c c' ∧ c'.IsSettled ∧ k c' = some r

theorem Settles.append (p : Pattern) (hq : q.Settles) : (p ++ q).Settles := by
  intro α c k r haccepts h
  obtain ⟨c₁, h₁, hrun⟩ := run_some p c _ r h
  obtain ⟨c₂, h₂, hsettled, hk⟩ := hq α c₁ k r (fun c' h' => haccepts c' (h₁.trans h')) hrun
  exact ⟨c₂, h₁.trans h₂, hsettled, hk⟩

theorem Settles.or (hp : p.Settles) (hq : q.Settles) : (p ||| q).Settles := by
  intro α c k r haccepts h
  rw [or_eq_alt, run] at h
  split at h
  · next r' hr =>
    obtain ⟨c', h', hsettled, hk⟩ :=
      hp α c k r' (fun c' h' => haccepts c' (h'.weaken (Nat.min_le_left _ _))) hr
    exact ⟨c', h'.weaken (Nat.min_le_left _ _), hsettled, hk.trans h⟩
  · obtain ⟨c', h', hsettled, hk⟩ :=
      hq α c k r (fun c' h' => haccepts c' (h'.weaken (Nat.min_le_right _ _))) h
    exact ⟨c', h'.weaken (Nat.min_le_right _ _), hsettled, hk⟩

/-- A character that no name has settles. -/
theorem Settles.char {accepts : Char → Bool} (h : ∀ x, accepts x = true → isNamePart x = false) :
    (Pattern.char accepts).Settles := by
  intro α c k r _ hrun
  rw [run] at hrun
  split at hrun
  · next x rest hrest =>
    split at hrun
    · next hx =>
      refine ⟨c.advance x rest, ⟨[x], hrest, rfl, Nat.le_refl 1⟩, .of_before fun y hy => ?_, hrun⟩
      obtain rfl : x = y := Option.some.inj hy
      exact h x hx
    · cases hrun
  · cases hrun

/-- The rest of a name settles: nothing of it is given back. -/
theorem Settles.nameParts : (star namePart).Settles := by
  intro α c k r haccepts hrun
  have hrest := (List.takeWhile_append_dropWhile (p := isNamePart) (l := c.rest)).symm
  have hend : ∀ x, (c.rest.dropWhile isNamePart).head? = some x → isNamePart x = false := by
    intro x hx
    have hnot := List.head?_dropWhile_not isNamePart c.rest
    rw [hx] at hnot
    simpa using hnot
  have hreach :
      Reaches 0 c (c.behind (c.rest.takeWhile isNamePart) (c.rest.dropWhile isNamePart)) :=
    ⟨_, hrest, rfl, Nat.zero_le _⟩
  obtain ⟨r', hr'⟩ := Option.isSome_iff_exists.mp (haccepts _ hreach)
  have hall := run_star_char hrest (List.all_eq_true.mp List.all_takeWhile) hend hr'
  obtain rfl : r' = r := Option.some.inj (hall.symm.trans hrun)
  exact ⟨_, hreach, .of_after hend, hr'⟩

theorem Settles.name : Pattern.name.Settles := Settles.append nameStart Settles.nameParts

theorem Settles.literal {text : String} {x : Char} (htext : text.toList = [x])
    (hx : isNamePart x = false) : (Pattern.literal text).Settles := by
  rw [Pattern.literal, htext]
  exact Settles.char fun y hy => by rwa [beq_iff_eq.mp hy]

theorem Settles.bracketed (opening : String) {closing : String} {x : Char}
    (hclosing : closing.toList = [x]) (hx : isNamePart x = false) :
    (Pattern.bracketed opening closing).Settles :=
  Settles.append _ (Settles.literal hclosing hx)

/-- A repetition accepts where what comes after it does. -/
theorem isSome_starRun {step : Cursor → (Cursor → Option α) → Option α} {fuel : List Char}
    {c : Cursor} {k : Cursor → Option α} (h : (k c).isSome = true) :
    (starRun step fuel c k).isSome = true := by
  cases fuel with
  | nil => exact h
  | cons _ fuel =>
    rw [starRun]
    split
    · rfl
    · exact h

/-- **A repetition** of what settles leaves a settled cursor, if it starts from
one. -/
theorem Settles.star (hp : p.Settles) (hpos : 0 < p.minLength) {c : Cursor}
    {k : Cursor → Option α} {r : α} (hsettled : c.IsSettled)
    (haccepts : ∀ c', Reaches 0 c c' → (k c').isSome = true)
    (h : (Pattern.star p).run c k = some r) : ∃ c', c'.IsSettled ∧ k c' = some r := by
  rw [run] at h
  generalize c.rest = fuel at h
  induction fuel generalizing c r with
  | nil => exact ⟨c, hsettled, h⟩
  | cons _ fuel ih =>
    rw [starRun] at h
    split at h
    · next r' hr =>
      -- every round passes a character, so what it goes on with accepts
      have hprogress : ∀ c', Reaches p.minLength c c' → c.offset < c'.offset := by
        rintro c' ⟨passed, -, hoffset, hlength⟩
        omega
      obtain ⟨c₁, h₁, hsettled₁, hk⟩ := hp α c _ r' (fun c' h' => by
        rw [if_pos (hprogress c' h')]
        exact isSome_starRun (haccepts c' (h'.weaken (Nat.zero_le _)))) hr
      rw [if_pos (hprogress c₁ h₁)] at hk
      have hlater : ∀ c', Reaches 0 c₁ c' → (k c').isSome = true :=
        fun c' h' => haccepts c' ((h₁.trans h').weaken (Nat.zero_le _))
      exact ih hsettled₁ hlater (hk.trans h)
    · exact ⟨c, hsettled, h⟩

end Settles

/-! ## Matches in a text -/

section Found

variable {p : Pattern} {text : List Char} {offset place : Nat} {m : Match}

/-- The pattern matches where it was found. -/
theorem matchAt?_of_search? {before : Option Char} {rest : List Char}
    (h : p.search? offset before rest = some m) :
    ∃ u v c, rest = u ++ v ∧ m.start = offset + u.length
      ∧ p.matchAt? ⟨m.start, u.getLast?.or before, v, []⟩ = some c
      ∧ c.offset = m.stop ∧ c.groups = m.groups := by
  induction rest generalizing offset before with
  | nil =>
    rw [search?] at h
    split at h
    · next c hc =>
      cases h
      exact ⟨[], [], c, rfl, rfl, hc, rfl, rfl⟩
    · cases h
  | cons x rest ih =>
    rw [search?] at h
    split at h
    · next c hc =>
      cases h
      exact ⟨[], x :: rest, c, rfl, rfl, hc, rfl, rfl⟩
    · obtain ⟨u, v, c, rfl, hstart, hc, hends⟩ := ih h
      refine ⟨x :: u, v, c, rfl, ?_, ?_, hends⟩
      · rw [hstart, List.length_cons]
        omega
      · rw [List.getLast?_cons]
        cases hlast : u.getLast? <;> simpa [hlast] using hc

theorem matchAt?_of_findFrom? (hoffset : offset ≤ text.length)
    (h : p.findFrom? text offset = some m) :
    ∃ c, p.matchAt? (Cursor.ofOffset text m.start) = some c ∧ c.offset = m.stop
      ∧ c.groups = m.groups := by
  obtain ⟨w, rest, rfl, rfl⟩ : ∃ w rest, text = w ++ rest ∧ w.length = offset :=
    ⟨text.take offset, text.drop offset, (List.take_append_drop offset text).symm,
      List.length_take_of_le hoffset⟩
  rw [findFrom?, Cursor.ofOffset_length] at h
  obtain ⟨u, v, c, rfl, hstart, hc, hends⟩ := matchAt?_of_search? h
  refine ⟨c, ?_, hends⟩
  have hplace : m.start = (w ++ u).length := by rw [hstart, List.length_append]
  rw [← List.append_assoc, hplace, Cursor.ofOffset_length, List.getLast?_append, ← hplace]
  exact hc

/-- Nothing matches between the start of a search and what it finds. -/
theorem not_matchesAt_of_findFrom? (h : p.findFrom? text offset = some m) (hoffset : offset ≤ place)
    (hplace : place < m.start) (hlength : place ≤ text.length) : ¬ p.MatchesAt text place := by
  intro hmatch
  obtain ⟨m', hm', hle⟩ := exists_findFrom?_le hmatch hoffset hlength
  obtain rfl := Option.some.inj (h.symm.trans hm')
  omega

end Found

/-! ## Names that start earlier -/

section Earlier

variable {p : Pattern} {a b : Cursor} {w : List Char}

theorem Spells.before_eq (h : Spells p a w b) : b.before = w.getLast?.or a.before := by
  induction h with
  | char => rfl
  | seq _ _ ihp ihq => rw [ihq, ihp, List.getLast?_append, Option.or_assoc]
  | again _ _ ihp ihq => rw [ihq, ihp, List.getLast?_append, Option.or_assoc]
  | first _ ih => exact ih
  | second _ ih => exact ih
  | group _ _ ih => exact ih
  | _ => rfl

/-- A pattern that records nothing leaves the cursor behind what it passed. -/
theorem Spells.eq_behind (h : Spells p a w b) (hp : p.hasGroups = false) :
    b = a.behind w b.rest := by
  obtain ⟨offset, before, rest, groups⟩ := b
  rw [Cursor.behind, ← h.offset_eq, ← h.before_eq, ← h.groups_eq hp]

/-- What is settled behind a match is so in the text. -/
theorem settledAt_of_spells {text : List Char} {i : Nat} (h : Spells p (Cursor.ofOffset text i) w b)
    (hw : w ≠ []) (hsettled : b.IsSettled) : SettledAt text b.offset := by
  have hrest : text.drop i = w ++ b.rest := h.rest_eq
  have hlast := List.getLast?_eq_some_getLast hw
  rw [Cursor.IsSettled, h.before_eq, hlast, Option.some_or] at hsettled
  rw [SettledAt, h.offset_eq, Cursor.ofOffset_offset, List.take_add, ← List.drop_drop, hrest,
    List.take_left' rfl, List.drop_left' rfl, List.getLast?_append, hlast, Option.some_or]
  exact hsettled

/-- The cursor behind a name is the same from wherever the name starts. -/
theorem Cursor.behind_slice {text rest : List Char} {i j : Nat} (hij : i ≤ j)
    (hj : j ≤ text.length) (hw : w ≠ []) :
    (ofOffset text i).behind (slice text i j ++ w) rest = (ofOffset text j).behind w rest := by
  have hlength : (slice text i j).length = j - i := by
    rw [slice, List.length_take, List.length_drop]
    omega
  have hlast := List.getLast?_eq_some_getLast hw
  simp only [behind, ofOffset, List.getLast?_append, hlast, Option.some_or, List.length_append,
    hlength]
  congr 1
  omega

/-- **A name may be matched from an earlier start**, with the same outcome. -/
theorem run_name_of_slice {α : Type} {k : Cursor → Option α} {r : α} {text rest : List Char}
    {i j : Nat} (hij : i ≤ j) (hj : j ≤ text.length) (hslice : IsName (slice text i j))
    (hw : IsName w) (hrest : text.drop j = w ++ rest)
    (hend : ∀ x, rest.head? = some x → isNamePart x = false)
    (hk : k ((Cursor.ofOffset text j).behind w rest) = some r) :
    name.run (Cursor.ofOffset text i) k = some r := by
  have hne : w ≠ [] := by
    obtain ⟨x, more, rfl, -⟩ := hw
    exact List.cons_ne_nil x more
  have hlonger : IsName (slice text i j ++ w) := by
    obtain ⟨x, more, hx, hstart, hmore⟩ := hslice
    exact ⟨x, more ++ w, by rw [hx, List.cons_append], hstart,
      List.forall_mem_append.mpr ⟨hmore, hw.isNamePart⟩⟩
  refine run_name hlonger ?_ hend ?_
  · rw [Cursor.ofOffset_rest, List.append_assoc, ← hrest, slice, ← Nat.add_sub_of_le hij,
      ← List.drop_drop, Nat.add_sub_cancel_left, List.take_append_drop]
  · rwa [Cursor.behind_slice hij hj hne]

end Earlier

end Downlevel.Pattern
