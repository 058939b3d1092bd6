/-
Downlevel.Proofs.Pattern.Spelling — which characters a pattern passes over.

`Spells p a w b` says that `p` can go from the cursor `a` over the characters
`w` to the cursor `b`, one rule for each kind of pattern and without any
preference among the ways. Matching takes one of these ways (`run_spells`,
`findFrom?_spells`), so what holds of every spelling holds of every match.
The lemmas of the second part read the spelling off the pattern: a name, a
literal text, brackets.
-/
import Downlevel.Pattern.Script

namespace Downlevel.Pattern

/-! ## Spellings -/

/-- The pattern can pass over these characters, from one cursor to the
other. -/
inductive Spells : Pattern → Cursor → List Char → Cursor → Prop
  | empty (c : Cursor) : Spells .empty c [] c
  | char {accepts : Char → Bool} {c : Cursor} {x : Char} {rest : List Char} :
      c.rest = x :: rest → accepts x = true → Spells (.char accepts) c [x] (c.advance x rest)
  | seq {p q : Pattern} {a b c : Cursor} {u v : List Char} :
      Spells p a u b → Spells q b v c → Spells (.seq p q) a (u ++ v) c
  | first {p q : Pattern} {a b : Cursor} {w : List Char} : Spells p a w b → Spells (.alt p q) a w b
  | second {p q : Pattern} {a b : Cursor} {w : List Char} : Spells q a w b → Spells (.alt p q) a w b
  | stop (p : Pattern) (c : Cursor) : Spells (.star p) c [] c
  | again {p : Pattern} {a b c : Cursor} {u v : List Char} :
      Spells p a u b → Spells (.star p) b v c → Spells (.star p) a (u ++ v) c
  | group {p : Pattern} {a b : Cursor} {w : List Char} (index : Nat) :
      Spells p a w b → Spells (.group index p) a w (b.record index a.offset)
  | lineStart {c : Cursor} : c.atLineStart = true → Spells .lineStart c [] c
  | textStart {c : Cursor} : c.before = none → Spells .textStart c [] c
  | textEnd {c : Cursor} : c.rest = [] → Spells .textEnd c [] c
  | boundary {isWord : Char → Bool} {c : Cursor} :
      c.atBoundary isWord = true → Spells (.boundary isWord) c [] c

namespace Spells

variable {p q : Pattern} {a b : Cursor} {w : List Char}

/-- What was passed over stood there. -/
theorem rest_eq (h : Spells p a w b) : a.rest = w ++ b.rest := by
  induction h with
  | char hrest => exact hrest
  | seq _ _ ihp ihq => rw [ihp, ihq, List.append_assoc]
  | again _ _ ihp ihq => rw [ihp, ihq, List.append_assoc]
  | first _ ih => exact ih
  | second _ ih => exact ih
  | group _ _ ih => exact ih
  | _ => rfl

theorem offset_eq (h : Spells p a w b) : b.offset = a.offset + w.length := by
  induction h with
  | char => rfl
  | seq _ _ ihp ihq => rw [ihq, ihp, List.length_append, Nat.add_assoc]
  | again _ _ ihp ihq => rw [ihq, ihp, List.length_append, Nat.add_assoc]
  | first _ ih => exact ih
  | second _ ih => exact ih
  | group _ _ ih => exact ih
  | _ => rfl

end Spells

/-! ## Matches are spellings -/

variable {α : Type}

theorem starRun_spells {body : Pattern} {step : Cursor → (Cursor → Option α) → Option α}
    (hstep : ∀ (c : Cursor) (k : Cursor → Option α) (r : α), step c k = some r →
      ∃ w c', Spells body c w c' ∧ k c' = some r)
    (fuel : List Char) (c : Cursor) (k : Cursor → Option α) (r : α)
    (h : starRun step fuel c k = some r) : ∃ w c', Spells (.star body) c w c' ∧ k c' = some r := by
  induction fuel generalizing c r with
  | nil => exact ⟨[], c, .stop body c, h⟩
  | cons _ fuel ih =>
    rw [starRun] at h
    split at h
    · next r' hr =>
      obtain ⟨u, c₁, hu, hk⟩ := hstep _ _ _ hr
      split at hk
      · obtain ⟨v, c₂, hv, hk₂⟩ := ih c₁ r' hk
        exact ⟨u ++ v, c₂, .again hu hv, by rw [hk₂, ← h]⟩
      · cases hk
    · exact ⟨[], c, .stop body c, h⟩

/-- **A match is one of the spellings** of its pattern. -/
theorem run_spells (p : Pattern) (c : Cursor) (k : Cursor → Option α) (r : α)
    (h : p.run c k = some r) : ∃ w c', Spells p c w c' ∧ k c' = some r := by
  induction p generalizing c k r with
  | empty => exact ⟨[], c, .empty c, h⟩
  | char accepts =>
    rw [run] at h
    split at h
    · next x rest hrest =>
      split at h
      · next hx => exact ⟨[x], _, .char hrest hx, h⟩
      · cases h
    · cases h
  | seq first second ihfirst ihsecond =>
    obtain ⟨u, c₁, hu, hk₁⟩ := ihfirst c _ r h
    obtain ⟨v, c₂, hv, hk₂⟩ := ihsecond c₁ k r hk₁
    exact ⟨u ++ v, c₂, .seq hu hv, hk₂⟩
  | alt first second ihfirst ihsecond =>
    rw [run] at h
    split at h
    · next r' hr =>
      obtain ⟨w, c₁, hw, hk⟩ := ihfirst c k r' hr
      exact ⟨w, c₁, .first hw, by rw [hk, ← h]⟩
    · obtain ⟨w, c₁, hw, hk⟩ := ihsecond c k r h
      exact ⟨w, c₁, .second hw, hk⟩
  | star body ih => exact starRun_spells ih _ c k r h
  | group index body ih =>
    obtain ⟨w, c₁, hw, hk⟩ := ih c _ r h
    exact ⟨w, _, .group index hw, hk⟩
  | lineStart =>
    rw [run] at h
    split at h
    · next hstart => exact ⟨[], c, .lineStart hstart, h⟩
    · cases h
  | textStart =>
    rw [run] at h
    split at h
    · next hstart => exact ⟨[], c, .textStart hstart, h⟩
    · cases h
  | textEnd =>
    rw [run] at h
    split at h
    · next hend => exact ⟨[], c, .textEnd hend, h⟩
    · cases h
  | boundary isWord =>
    rw [run] at h
    split at h
    · next hedge => exact ⟨[], c, .boundary hedge, h⟩
    · cases h

theorem search?_spells {p : Pattern} {offset : Nat} {before : Option Char} {rest : List Char}
    {m : Match} (h : p.search? offset before rest = some m) :
    ∃ a w b, Spells p a w b ∧ a.offset = m.start ∧ a.rest = rest.drop (m.start - offset)
      ∧ a.groups = [] ∧ b.offset = m.stop ∧ b.groups = m.groups := by
  have hfound : ∀ {offset : Nat} {before : Option Char} {rest : List Char} {c : Cursor},
      p.matchAt? ⟨offset, before, rest, []⟩ = some c → ∃ a w b, Spells p a w b
        ∧ a.offset = offset ∧ a.rest = rest ∧ a.groups = [] ∧ b.offset = c.offset
        ∧ b.groups = c.groups := by
    intro offset before rest c hc
    obtain ⟨w, b, hw, hb⟩ := run_spells p _ some c hc
    cases hb
    exact ⟨_, w, c, hw, rfl, rfl, rfl, rfl, rfl⟩
  induction rest generalizing offset before with
  | nil =>
    rw [search?] at h
    split at h
    · next c hc =>
      cases h
      simpa using hfound hc
    · cases h
  | cons x rest ih =>
    rw [search?] at h
    split at h
    · next c hc =>
      cases h
      simpa using hfound hc
    · have hlater := (search?_some h).1
      obtain ⟨a, w, b, hw, hstart, hrest, hends⟩ := ih h
      refine ⟨a, w, b, hw, hstart, ?_, hends⟩
      obtain ⟨n, hn⟩ := Nat.exists_eq_add_of_le hlater
      have hone : m.start - offset = n + 1 := by omega
      have htwo : m.start - (offset + 1) = n := by omega
      rw [hrest, hone, htwo, List.drop_succ_cons]

/-- **A match that was found** spells the characters that stand where it
starts. -/
theorem findFrom?_spells {p : Pattern} {text : List Char} {offset : Nat} {m : Match}
    (ho : offset ≤ text.length) (h : p.findFrom? text offset = some m) :
    ∃ a w b, Spells p a w b ∧ a.offset = m.start ∧ a.rest = text.drop m.start ∧ a.groups = []
      ∧ b.offset = m.stop ∧ b.groups = m.groups := by
  obtain ⟨a, w, b, hw, hstart, hrest, hends⟩ := search?_spells h
  refine ⟨a, w, b, hw, hstart, ?_, hends⟩
  have hle := (findFrom?_some ho h).1
  rw [hrest, Cursor.ofOffset, List.drop_drop]
  congr 1
  exact Nat.add_sub_cancel' hle

/-! ## Groups -/

/-- Whether a part of the pattern is recorded. -/
def hasGroups : Pattern → Bool
  | .seq first second => first.hasGroups || second.hasGroups
  | .alt first second => first.hasGroups || second.hasGroups
  | .star body => body.hasGroups
  | .group _ _ => true
  | _ => false

theorem Spells.groups_eq {p : Pattern} {a b : Cursor} {w : List Char} (h : Spells p a w b)
    (hp : p.hasGroups = false) : b.groups = a.groups := by
  induction h with
  | seq _ _ ihp ihq =>
    obtain ⟨hfirst, hsecond⟩ := Bool.or_eq_false_iff.mp hp
    rw [ihq hsecond, ihp hfirst]
  | first _ ih => exact ih (Bool.or_eq_false_iff.mp hp).1
  | second _ ih => exact ih (Bool.or_eq_false_iff.mp hp).2
  | again _ _ ihp ihq => rw [ihq hp, ihp hp]
  | group => cases hp
  | _ => rfl

/-! ## Reading spellings off patterns -/

namespace Spells

variable {p q : Pattern} {a b : Cursor} {w : List Char}

theorem of_append (h : Spells (p ++ q) a w b) :
    ∃ u v c, w = u ++ v ∧ Spells p a u c ∧ Spells q c v b := by
  cases h with
  | seq hu hv => exact ⟨_, _, _, rfl, hu, hv⟩

theorem of_or (h : Spells (p ||| q) a w b) : Spells p a w b ∨ Spells q a w b := by
  cases h with
  | first h => exact .inl h
  | second h => exact .inr h

theorem of_char {accepts : Char → Bool} (h : Spells (.char accepts) a w b) :
    ∃ x, w = [x] ∧ accepts x = true := by
  cases h with
  | char _ hx => exact ⟨_, rfl, hx⟩

theorem of_alts {ps : List Pattern} (h : Spells (alts ps) a w b) : ∃ p ∈ ps, Spells p a w b := by
  induction ps with
  | nil =>
    obtain ⟨_, _, hnever⟩ := of_char h
    cases hnever
  | cons p rest ih =>
    cases rest with
    | nil => exact ⟨p, List.mem_cons_self, h⟩
    | cons q rest =>
      cases h with
      | first h => exact ⟨p, List.mem_cons_self, h⟩
      | second h =>
        obtain ⟨p', hp', hspells⟩ := ih h
        exact ⟨p', List.mem_cons_of_mem p hp', hspells⟩

theorem of_opt (h : Spells (opt p) a w b) : Spells p a w b ∨ w = [] := by
  cases h with
  | first h => exact .inl h
  | second h =>
    cases h
    exact .inr rfl

theorem of_group {index : Nat} (h : Spells (.group index p) a w b) :
    ∃ c, Spells p a w c ∧ b = c.record index a.offset := by
  cases h with
  | group _ h => exact ⟨_, h, rfl⟩

/-- A repetition spells pieces that its body spells. -/
theorem of_star (h : Spells (.star p) a w b) :
    ∃ pieces : List (List Char), w = pieces.flatten ∧ ∀ u ∈ pieces, ∃ a b, Spells p a u b := by
  generalize hstar : Pattern.star p = s at h
  induction h with
  | stop => exact ⟨[], rfl, nofun⟩
  | again hu _ _ ih =>
    cases hstar
    obtain ⟨pieces, rfl, hpieces⟩ := ih rfl
    exact ⟨_ :: pieces, rfl, List.forall_mem_cons.mpr ⟨⟨_, _, hu⟩, hpieces⟩⟩
  | _ => cases hstar

theorem of_star_char {accepts : Char → Bool} (h : Spells (.star (.char accepts)) a w b) :
    ∀ x ∈ w, accepts x = true := by
  obtain ⟨pieces, rfl, hpieces⟩ := h.of_star
  intro x hx
  obtain ⟨u, hu, hxu⟩ := List.mem_flatten.mp hx
  obtain ⟨a, b, hspells⟩ := hpieces u hu
  obtain ⟨y, rfl, hy⟩ := hspells.of_char
  obtain rfl := List.mem_singleton.mp hxu
  exact hy

theorem of_seqs_map (chars : List Char) {a b : Cursor} {w : List Char}
    (h : Spells (seqs (chars.map fun x => .char (· == x))) a w b) : w = chars := by
  induction chars generalizing a w with
  | nil =>
    cases h
    rfl
  | cons x rest ih =>
    cases rest with
    | nil =>
      obtain ⟨y, rfl, hy⟩ := of_char h
      rw [beq_iff_eq.mp hy]
    | cons z rest =>
      cases h with
      | seq hx hrest =>
        obtain ⟨y, rfl, hy⟩ := of_char hx
        rw [ih hrest, beq_iff_eq.mp hy]
        rfl

theorem of_literal {text : String} (h : Spells (literal text) a w b) : w = text.toList :=
  of_seqs_map _ h

end Spells

/-! ## Names and brackets -/

/-- A character that starts names, and characters of names. -/
def IsName (w : List Char) : Prop :=
  ∃ x rest, w = x :: rest ∧ isNameStart x = true ∧ ∀ y ∈ rest, isNamePart y = true

/-- A pair of brackets around characters other than the brackets. -/
def IsBracketed (opening closing : Char) (w : List Char) : Prop :=
  ∃ body, w = opening :: (body ++ [closing]) ∧ ∀ x ∈ body, x ≠ opening ∧ x ≠ closing

theorem toNat_lt_of_isAlpha {x : Char} (h : x.isAlpha = true) : x.toNat < 128 := by
  have hle : ∀ n : UInt32, x.val ≤ n → x.toNat ≤ n.toNat := fun _ hn => hn
  have hcases : x.isUpper = true ∨ x.isLower = true := (Bool.or_eq_true _ _).mp h
  rcases hcases with hupper | hlower
  · have hval : x.val ≤ 'Z'.val := (of_decide_eq_true hupper).2
    exact Nat.lt_of_le_of_lt (hle _ hval) (by decide)
  · have hval : decide (x.val ≤ 'z'.val) = true := ((Bool.and_eq_true _ _).mp hlower).2
    exact Nat.lt_of_le_of_lt (hle _ (of_decide_eq_true hval)) (by decide)

theorem isNamePart_of_isNameStart {x : Char} (h : isNameStart x = true) : isNamePart x = true := by
  simp only [isNameStart, Bool.or_eq_true, beq_iff_eq] at h
  rcases h with (h | rfl) | rfl
  · simp [isNamePart, Text.isWord, toNat_lt_of_isAlpha h, Char.isAlphanum, h]
  · decide
  · decide

theorem IsName.isNamePart {w : List Char} (h : IsName w) : ∀ x ∈ w, isNamePart x = true := by
  obtain ⟨x, rest, rfl, hx, hrest⟩ := h
  exact List.forall_mem_cons.mpr ⟨isNamePart_of_isNameStart hx, hrest⟩

theorem Spells.of_name {a b : Cursor} {w : List Char} (h : Spells name a w b) : IsName w := by
  obtain ⟨u, v, c, rfl, hstart, hrest⟩ := h.of_append
  obtain ⟨x, rfl, hx⟩ := hstart.of_char
  exact ⟨x, v, rfl, hx, hrest.of_star_char⟩

theorem Spells.of_bracketed {opening closing : String} {o c : Char} {a b : Cursor}
    {w : List Char} (hopening : opening.toList = [o]) (hclosing : closing.toList = [c])
    (h : Spells (bracketed opening closing) a w b) : IsBracketed o c w := by
  obtain ⟨u, close, _, rfl, hinner, hclose⟩ := h.of_append
  obtain ⟨opn, body, _, rfl, hopen, hbody⟩ := hinner.of_append
  rw [hopen.of_literal, hclose.of_literal, hopening, hclosing]
  refine ⟨body, by simp, fun x hx => ?_⟩
  simpa [hopening, hclosing] using hbody.of_star_char x hx

theorem Spells.of_parenthesized {a b : Cursor} {w : List Char} (h : Spells parenthesized a w b) :
    IsBracketed '(' ')' w :=
  of_bracketed rfl rfl h

theorem Spells.of_indexed {a b : Cursor} {w : List Char} (h : Spells indexed a w b) :
    IsBracketed '[' ']' w :=
  of_bracketed rfl rfl h

end Downlevel.Pattern
