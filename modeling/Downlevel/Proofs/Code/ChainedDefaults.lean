/-
Downlevel.Proofs.Code.ChainedDefaults — chains of defaults, pass after pass.

A pass over a chain of names puts a check for each pair of neighbours
(`exists_replacements?_chain`), and so does a pass over a chain of what came out of
that, as long as the operands are simple. A check of checks is not. So the third
pass finds nothing (`replacements?_eq_nil`), and whether anything is left for it
depends on the number of names: two passes are enough for four of them
(`degrade?_chain`).
-/
import Downlevel.Proofs.Code.CheckMeaning
import Downlevel.Proofs.Code.Leftovers
import Downlevel.Proofs.Code.SimpleOperands

namespace Downlevel.Code.Nullish

open Pattern
open Segment (IsPlain)

universe u v

/-! ## Surroundings in a chain -/

theorem tail_eq_chain {gs : List Grouping} (h : gs ≠ []) : tail gs = " ?? ".toList ++ chain gs := by
  obtain ⟨g, gs, rfl⟩ := List.exists_cons_of_ne_nil h
  exact tail_cons g gs

/-- Before an operand of a chain stands nothing, or the operator. -/
def OpensOperand (before : List Char) : Prop := before = [] ∨ ∃ u, before = u ++ " ?? ".toList

section Surroundings

variable {text before w : List Char} {gs : List Grouping}

theorem stopsOperand_tail (gs : List Grouping) : StopsOperand (tail gs) := by
  cases gs with
  | nil => exact nofun
  | cons g gs =>
    rintro c ⟨⟩
    rfl

theorem leftIsWhole_of_opensOperand (h : OpensOperand before) :
    leftIsWhole (ofText (before ++ w)) before.length = true := by
  have htake : (ofText (before ++ w)).before before.length = Text.trimEnd before := by
    rw [Code.before, ofText, List.take_left' rfl]
  rcases h with rfl | ⟨u, rfl⟩
  · rfl
  · have htrim : Text.trimEnd (u ++ " ?? ".toList) = u ++ " ?".toList ++ ['?'] := by
      have hblank : Text.isBlank ' ' = true ∧ Text.isBlank '?' = false := by decide
      simp [Text.trimEnd, hblank]
    have hbefore : (ofText (u ++ " ?? ".toList ++ w)).charBefore? (u ++ " ?? ".toList).length
        = some '?' := by
      rw [charBefore?, htake, htrim, List.getLast?_concat]
    rw [leftIsWhole, hbefore]
    rfl

theorem rightIsWhole_tail (gs : List Grouping) (before : List Char) :
    rightIsWhole (ofText (before ++ tail gs)) before.length = true := by
  have hafter : (ofText (before ++ tail gs)).charAfter? before.length
      = (Text.trimStart (tail gs)).head? := by
    rw [charAfter?, ofText, List.drop_left' rfl]
  rw [rightIsWhole, hafter]
  cases gs with
  | nil => rfl
  | cons g gs => rfl

/-- **The first two operands of a chain** are found and get a check. -/
theorem exists_replacement?_of_chain {a b : List Char} (hbefore : OpensOperand before)
    (ha : IsSimple a) (hb : IsSimple b)
    (htext : text = before ++ (a ++ (" ?? ".toList ++ (b ++ tail gs)))) :
    ∃ m, coalescing.findFrom? text before.length = some m ∧ m.start = before.length
      ∧ m.stop = (before ++ (a ++ (" ?? ".toList ++ b))).length
      ∧ replacement? (ofText text) m = some (check a b) := by
  have hdrop : text.drop before.length = a ++ (" ?? ".toList ++ (b ++ tail gs)) := by
    rw [htext, List.drop_left' rfl]
  obtain ⟨c, hc, hoffset, hgroups⟩ :=
    exists_matchAt?_coalescing (c := Cursor.ofOffset text before.length) ha hb
      (stopsOperand_tail gs) hdrop
  have hstop : c.offset = (before ++ (a ++ (" ?? ".toList ++ b))).length := by
    rw [hoffset, Cursor.ofOffset_offset]
    simp only [List.length_append]
    omega
  refine ⟨_, findFrom?_of_matchAt? hc, rfl, hstop, ?_⟩
  have hleft : slice text before.length (before.length + a.length) = a := slice_of_drop hdrop
  have hright : slice text (before.length + a.length + 4) c.offset = b := by
    have hbehind := drop_add_of_drop (drop_add_of_drop hdrop)
    rw [hoffset]
    exact slice_of_drop hbehind
  have hwholeLeft : leftIsWhole (ofText text) before.length = true := by
    rw [htext]
    exact leftIsWhole_of_opensOperand hbefore
  have hwholeRight : rightIsWhole (ofText text) c.offset = true := by
    have hparts : text = before ++ (a ++ (" ?? ".toList ++ b)) ++ tail gs := by
      rw [htext]
      simp only [List.append_assoc]
    rw [hstop, hparts]
    exact rightIsWhole_tail gs _
  have htextOf : (ofText text).text = text := rfl
  simp only [replacement?, hwholeLeft, hwholeRight, Bool.and_self, if_true, Match.groupText?,
    Match.group?, hgroups, htextOf, Cursor.ofOffset_offset, List.find?_cons]
  simp [hleft, hright]

end Surroundings

/-! ## Operators in a chain -/

section Operators

variable {u v : List Char} {gs : List Grouping}

theorem IsOperatorFree.text (g : Grouping) (hg : g.IsProper) : IsOperatorFree g.text := by
  induction g with
  | name text => exact of_isName (hg text (List.mem_singleton_self text))
  | pair l r ihLeft ihRight =>
    obtain ⟨hleft, hright⟩ := List.forall_mem_append.mp hg
    exact check (ihLeft hleft) (ihRight hright)

/-- **Operators stand between the operands of a chain** only. -/
theorem exists_of_operator (hgs : ∀ g ∈ gs, IsOperatorFree g.text)
    (h : chain gs = u ++ '?' :: '?' :: v) :
    ∃ g ∈ gs.dropLast, ∃ w, u = w ++ (g.text ++ [' ']) := by
  induction gs generalizing u with
  | nil => cases u <;> cases h
  | cons g gs ih =>
    obtain ⟨hg, hmore⟩ := List.forall_mem_cons.mp hgs
    cases gs with
    | nil => exact absurd ((List.append_nil g.text).symm.trans h) (hg.ne u v)
    | cons g' gs =>
      have hparts : g.text ++ [' '] ++ '?' :: '?' :: ' ' :: chain (g' :: gs)
          = u ++ '?' :: '?' :: v := by
        rw [← h, List.append_assoc]
        exact congrArg (g.text ++ ·) (tail_cons g' gs).symm
      have hfree : IsOperatorFree (g.text ++ [' ']) :=
        hg.append (.of_neighbours (by decide) (by decide) (by decide))
      rcases operator_of_append hparts with ⟨x, hx⟩ | ⟨hlast, -⟩ | ⟨x, rfl, hx⟩
      · exact absurd hx (hfree.ne u x)
      · exact absurd (List.append_inj' hlast rfl).2 (by decide)
      · -- the operator behind the first operand, or one behind that
        rcases x with _ | ⟨c, _ | ⟨d, _ | ⟨e, x⟩⟩⟩
        · exact ⟨g, List.mem_cons_self, [], List.append_nil _⟩
        · simp at hx
        · simp at hx
        · simp only [List.cons_append, List.cons.injEq] at hx
          obtain ⟨-, -, -, hx⟩ := hx
          obtain ⟨g'', hmem, w, rfl⟩ := ih hmore hx
          exact ⟨g'', List.mem_cons_of_mem g hmem, g.text ++ ' ' :: c :: d :: e :: w, by simp⟩

end Operators

/-! ## Pairing up -/

/-- Neighbours put together, from left to right. -/
def pairUp : List Grouping → List Grouping
  | a :: b :: rest => .pair a b :: pairUp rest
  | gs => gs

section Pairing

variable {g : Grouping} {gs : List Grouping}

theorem length_lt_two (h : ∀ a b rest, gs ≠ a :: b :: rest) : gs.length < 2 := by
  rcases gs with _ | ⟨a, _ | ⟨b, rest⟩⟩
  · exact Nat.zero_lt_two
  · exact Nat.one_lt_two
  · exact absurd rfl (h a b rest)

theorem dropLast_eq_nil (h : gs.length < 2) : gs.dropLast = [] :=
  List.eq_nil_of_length_eq_zero (by rw [List.length_dropLast]; omega)

theorem length_pairUp (gs : List Grouping) : (pairUp gs).length = (gs.length + 1) / 2 := by
  fun_induction pairUp gs with
  | case1 a b rest ih =>
    rw [List.length_cons, ih, List.length_cons, List.length_cons]
    omega
  | case2 gs hshort =>
    have := length_lt_two hshort
    omega

theorem pairUp_of_length_lt_two (h : gs.length < 2) : pairUp gs = gs := by
  rcases gs with _ | ⟨a, _ | ⟨b, rest⟩⟩
  · rfl
  · rfl
  · rw [List.length_cons, List.length_cons] at h
    omega

theorem pairUp_ne_nil (h : gs ≠ []) : pairUp gs ≠ [] := by
  intro hnil
  have hlength := length_pairUp gs
  have := List.length_pos_iff.mpr h
  rw [hnil, List.length_nil] at hlength
  omega

theorem flatMap_names_pairUp (gs : List Grouping) :
    (pairUp gs).flatMap Grouping.names = gs.flatMap Grouping.names := by
  fun_induction pairUp gs with
  | case1 a b rest ih =>
    rw [List.flatMap_cons, ih, Grouping.names, List.flatMap_cons, List.flatMap_cons,
      List.append_assoc]
  | case2 gs => rfl

theorem of_mem_pairUp (h : g ∈ pairUp gs) : g ∈ gs ∨ ∃ a ∈ gs, ∃ b ∈ gs, g = .pair a b := by
  fun_induction pairUp gs with
  | case1 a b rest ih =>
    rcases List.mem_cons.mp h with rfl | h
    · exact .inr ⟨a, List.mem_cons_self, b, List.mem_cons_of_mem a List.mem_cons_self, rfl⟩
    · have hmem : ∀ {x}, x ∈ rest → x ∈ a :: b :: rest :=
        fun hx => List.mem_cons_of_mem a (List.mem_cons_of_mem b hx)
      rcases ih h with hg | ⟨l, hl, r, hr, rfl⟩
      · exact .inl (hmem hg)
      · exact .inr ⟨l, hmem hl, r, hmem hr, rfl⟩
  | case2 gs => exact .inl h

/-- All operands but the last one are pairs, and the right part of such a pair
was not the last operand either. -/
theorem of_mem_dropLast_pairUp (h : g ∈ (pairUp gs).dropLast) :
    ∃ a b, g = .pair a b ∧ b ∈ gs.dropLast := by
  fun_induction pairUp gs with
  | case1 a b rest ih =>
    cases rest with
    | nil => cases h
    | cons c rest =>
      rw [List.dropLast_cons_of_ne_nil (pairUp_ne_nil (List.cons_ne_nil c rest))] at h
      rcases List.mem_cons.mp h with rfl | h
      · exact ⟨a, b, rfl, List.mem_cons_of_mem a List.mem_cons_self⟩
      · obtain ⟨l, r, rfl, hr⟩ := ih h
        exact ⟨l, r, rfl, List.mem_cons_of_mem a (List.mem_cons_of_mem b hr)⟩
  | case2 gs hshort =>
    rw [dropLast_eq_nil (length_lt_two hshort)] at h
    cases h

theorem isProper_of_mem_pairUp (hgs : ∀ g ∈ gs, g.IsProper) : ∀ g ∈ pairUp gs, g.IsProper := by
  intro g hg name hname
  have hall : ∀ name ∈ (pairUp gs).flatMap Grouping.names, IsName name := by
    rw [flatMap_names_pairUp]
    intro name hname
    obtain ⟨g, hg, hname⟩ := List.mem_flatMap.mp hname
    exact hgs g hg name hname
  exact hall name (List.mem_flatMap.mpr ⟨g, hg, hname⟩)

end Pairing

/-! ## A pass over a chain -/

section Pass

variable {text before lead rest : List Char} {gs : List Grouping}

/-- One operand has no operator. -/
theorem chain_ne (hlength : gs.length < 2) (hproper : ∀ g ∈ gs, g.IsProper) (u v : List Char) :
    chain gs ≠ u ++ '?' :: '?' :: v := by
  intro h
  obtain ⟨g, hg, -⟩ := exists_of_operator (fun g hg => .text g (hproper g hg)) h
  rw [dropLast_eq_nil hlength] at hg
  cases hg

theorem isPlain_text (g : Grouping) (hg : g.IsProper) : IsPlain g.text := by
  induction g with
  | name text => exact isPlain_of_isName (hg text (List.mem_singleton_self text))
  | pair l r ihLeft ihRight =>
    obtain ⟨hleft, hright⟩ := List.forall_mem_append.mp hg
    exact check_of_append IsPlain.append (by decide) (ihLeft hleft) (ihRight hright)

theorem isPlain_chain (hgs : ∀ g ∈ gs, g.IsProper) : IsPlain (chain gs) := by
  have htail : ∀ {gs : List Grouping}, (∀ g ∈ gs, g.IsProper) → IsPlain (tail gs) := by
    intro gs hgs c hc
    obtain ⟨g, hg, hc⟩ := List.mem_flatMap.mp hc
    have hoperator : IsPlain " ?? ".toList := by decide
    exact hoperator.append (isPlain_text g (hgs g hg)) c hc
  cases gs with
  | nil => exact nofun
  | cons g gs =>
    obtain ⟨hg, hmore⟩ := List.forall_mem_cons.mp hgs
    exact (isPlain_text g hg).append (htail hmore)

theorem inCode_of_isPlain (h : IsPlain (before ++ rest)) :
    (ofText (before ++ rest)).InCode before.length := by
  have hplain : IsPlain before := fun c hc => h c (List.mem_append_left rest hc)
  have hcode : (ofText (before ++ rest)).InCode (0 + before.length) := InCode.zero.plain rfl hplain
  rwa [Nat.zero_add] at hcode

/-- **From an operand of a chain on**, each pair of operands gets a check. -/
theorem exists_replacementsFrom? (gs : List Grouping) : ∀ {before lead : List Char},
    (∀ x ∈ lead, isOperandStart x = false) → (gs ≠ [] → OpensOperand (before ++ lead)) →
    (∀ g ∈ gs, g.IsProper) → (∀ g ∈ gs, IsSimple g.text) → IsPlain text →
    text = before ++ (lead ++ chain gs) →
    ∃ rs, (ofText text).replacementsFrom? coalescing coalescing_consuming
        (replacement? (ofText text)) before.length = some rs
      ∧ patchFrom text before.length rs = lead ++ chain (pairUp gs)
      ∧ (rs = [] ↔ gs.length < 2) := by
  fun_induction pairUp gs with
  | case1 a b gs ih =>
    intro before lead hlead hopens hproper hsimple hplain htext
    obtain ⟨ha, hb, hmore⟩ : IsSimple a.text ∧ IsSimple b.text ∧ ∀ g ∈ gs, IsSimple g.text := by
      simpa only [List.forall_mem_cons] using hsimple
    -- the coalescing is found behind the lead
    have hfirst : text = before ++ lead ++ (a.text ++ (" ?? ".toList ++ (b.text ++ tail gs))) := by
      rw [htext, chain, tail_cons, List.append_assoc]
    obtain ⟨m, hm, hstart, hstop, hrule⟩ :=
      exists_replacement?_of_chain (hopens (List.cons_ne_nil a _)) ha hb hfirst
    have hfound : coalescing.findFrom? text before.length = some m := by
      rw [htext, findFrom?_skip hlead, ← htext]
      exact hm
    have hcode : (ofText text).InCode m.start := by
      rw [hstart, hfirst]
      rw [hfirst] at hplain
      exact inCode_of_isPlain hplain
    -- the rest of the chain stands behind what was found
    let next := before ++ lead ++ (a.text ++ (" ?? ".toList ++ b.text))
    have hrest : text = next ++ tail gs := by
      simp only [hfirst, next, List.append_assoc]
    have hlater : ∃ rs, (ofText text).replacementsFrom? coalescing coalescing_consuming
        (replacement? (ofText text)) next.length = some rs
          ∧ patchFrom text next.length rs = tail (pairUp gs) := by
      have hproperRest : ∀ g ∈ gs, g.IsProper :=
        fun g hg => hproper g (List.mem_cons_of_mem a (List.mem_cons_of_mem b hg))
      by_cases hgs : gs = []
      · subst hgs
        have hend : text = next ++ ([] ++ chain []) := hrest
        obtain ⟨rs, hrs, hpatch, -⟩ := ih (by simp) (absurd rfl) hproperRest hmore hplain hend
        exact ⟨rs, hrs, hpatch⟩
      · rw [tail_eq_chain hgs] at hrest
        obtain ⟨rs, hrs, hpatch, -⟩ := ih (by decide) (fun _ => .inr ⟨next, rfl⟩) hproperRest hmore
          hplain hrest
        exact ⟨rs, hrs, by rw [hpatch, tail_eq_chain (pairUp_ne_nil hgs)]⟩
    obtain ⟨rs, hlater, hpatch⟩ := hlater
    rw [← hstop] at hlater hpatch
    refine ⟨_, replacementsFrom?_cons (by rw [htext]; simp [ofText]) hfound hcode hrule hlater,
      ?_, ?_⟩
    · have hslice : slice text before.length m.start = lead := by
        rw [hstart, List.length_append]
        exact slice_of_drop (by rw [htext, List.drop_left' rfl])
      rw [patchFrom, hslice, hpatch, chain, List.append_assoc]
      rfl
    · simp
  | case2 gs hshort =>
    intro before lead hlead hopens hproper hsimple hplain htext
    have hlength := length_lt_two hshort
    refine ⟨[], replacementsFrom?_nil ?_, ?_, by simpa using hlength⟩
    · rw [ofText, htext, findFrom?_skip hlead, ← List.append_assoc]
      exact findFrom?_eq_none (chain_ne hlength hproper)
    · rw [patchFrom, htext, List.drop_left' rfl]

/-- **A pass over a chain** of simple operands pairs them up. -/
theorem exists_replacements?_chain (hproper : ∀ g ∈ gs, g.IsProper)
    (hsimple : ∀ g ∈ gs, IsSimple g.text) :
    ∃ rs, replacements? (ofText (chain gs)) = some rs
      ∧ (ofText (chain gs)).patch rs = chain (pairUp gs) ∧ (rs = [] ↔ gs.length < 2) :=
  @exists_replacementsFrom? _ gs [] [] (by simp) (fun _ => .inl rfl) hproper hsimple
    (isPlain_chain hproper) rfl

/-- **Nothing is found in a chain of checks of checks**, also where the last
operand is none. -/
theorem replacements?_eq_nil (hproper : ∀ g ∈ gs, g.IsProper)
    (hdeep : ∀ g ∈ gs.dropLast, ∃ a b c, g = .pair a (.pair b c)) :
    replacements? (ofText (chain gs)) = some [] := by
  refine replacementsFrom?_nil ?_
  cases hm : coalescing.findFrom? (chain gs) 0 with
  | none => exact hm
  | some m =>
    obtain ⟨u, v, htext, -, hends⟩ := exists_operator_of_findFrom? (Nat.zero_le _) hm
    obtain ⟨g, hg, w, rfl⟩ := exists_of_operator (fun g hg => .text g (hproper g hg)) htext
    obtain ⟨a, b, c, rfl⟩ := hdeep g hg
    obtain ⟨front, hfront⟩ :
        ∃ front, (Grouping.pair a (.pair b c)).text = front ++ "))".toList := by
      refine ⟨'(' :: a.text ++ " !== null && ".toList ++ a.text ++ " !== undefined ? ".toList
        ++ a.text ++ " : ".toList ++ ('(' :: b.text ++ " !== null && ".toList ++ b.text
        ++ " !== undefined ? ".toList ++ b.text ++ " : ".toList ++ c.text), ?_⟩
      simp only [Grouping.text, check, List.append_assoc, List.cons_append]
      rfl
    rw [hfront, ← List.append_assoc, trimEnd_append_of_isBlank (c := ')') (by simp) (by decide)
      (by decide), ← List.append_assoc] at hends
    exact absurd hends (not_endsOperand_of_checks _)

end Pass

/-! ## All passes -/

section Passes

variable {gs : List Grouping}

/-- A pass that pairs up operands, if there are two of them. -/
theorem passes?_succ_chain (hproper : ∀ g ∈ gs, g.IsProper) (hsimple : ∀ g ∈ gs, IsSimple g.text)
    (n : Nat) (changed : Bool) :
    passes? (n + 1) (chain gs) changed
      = if gs.length < 2 then some (chain gs, changed) else passes? n (chain (pairUp gs)) true := by
  obtain ⟨rs, hrs, hpatch, hnil⟩ := exists_replacements?_chain hproper hsimple
  rw [passes?, hrs]
  cases rs with
  | nil => rw [if_pos (hnil.mp rfl)]
  | cons r rs =>
    rw [if_neg fun h => List.cons_ne_nil r rs (hnil.mpr h)]
    dsimp only
    rw [hpatch]

/-- The operands of a chain of names. -/
def operands (names : List (List Char)) : List Grouping := names.map .name

variable {names : List (List Char)}

theorem isProper_of_mem_operands (hnames : ∀ a ∈ names, IsName a) :
    ∀ g ∈ operands names, g.IsProper := by
  intro g hg name hname
  obtain ⟨a, ha, rfl⟩ := List.mem_map.mp hg
  obtain rfl := List.mem_singleton.mp hname
  exact hnames name ha

theorem length_twice_pairUp (names : List (List Char)) :
    (pairUp (pairUp (operands names))).length = ((names.length + 1) / 2 + 1) / 2 := by
  rw [length_pairUp, length_pairUp, operands, List.length_map]

theorem flatMap_names_operands (names : List (List Char)) :
    (operands names).flatMap Grouping.names = names := by
  rw [operands, List.flatMap_map]
  exact List.flatMap_singleton' names

/-- After the first pass the operands are still simple. -/
theorem isSimple_of_mem_pairUp (hnames : ∀ a ∈ names, IsName a) :
    ∀ g ∈ pairUp (operands names), IsSimple g.text := by
  have hname : ∀ g ∈ operands names, IsName g.text := by
    intro g hg
    obtain ⟨a, ha, rfl⟩ := List.mem_map.mp hg
    exact hnames a ha
  intro g hg
  rcases of_mem_pairUp hg with hg | ⟨a, ha, b, hb, rfl⟩
  · exact .inl (hname g hg)
  · exact .inr (isBracketed_check (hname a ha) (hname b hb))

/-- **Two passes** are made over a chain of names, whatever its length. -/
theorem passes?_chain (hlength : 2 ≤ names.length) (hnames : ∀ a ∈ names, IsName a) :
    passes? maxPasses (chain (operands names)) false
      = some (chain (pairUp (pairUp (operands names))), true) := by
  have hproper := isProper_of_mem_operands hnames
  have hpaired := isProper_of_mem_pairUp hproper
  have hsimple : ∀ g ∈ operands names, IsSimple g.text := by
    intro g hg
    obtain ⟨a, ha, rfl⟩ := List.mem_map.mp hg
    exact .inl (hnames a ha)
  have hoperands : ¬ (operands names).length < 2 := by
    rw [operands, List.length_map]
    omega
  have hlast : replacements? (ofText (chain (pairUp (pairUp (operands names))))) = some [] := by
    refine replacements?_eq_nil (isProper_of_mem_pairUp hpaired) fun g hg => ?_
    obtain ⟨a, r, rfl, hr⟩ := of_mem_dropLast_pairUp hg
    obtain ⟨b, c, rfl, -⟩ := of_mem_dropLast_pairUp hr
    exact ⟨a, b, c, rfl⟩
  rw [maxPasses, passes?_succ_chain hproper hsimple, if_neg hoperands,
    passes?_succ_chain hpaired (isSimple_of_mem_pairUp hnames)]
  split
  · next hshort => rw [pairUp_of_length_lt_two hshort]
  · rw [passes?, hlast]

/-- Where a chain has two operands, the operator stands in its code. -/
theorem occursIn_chain (hlength : 2 ≤ gs.length) (hproper : ∀ g ∈ gs, g.IsProper) :
    Degradation.nullishCoalescing.OccursIn (chain gs) := by
  rcases gs with _ | ⟨a, _ | ⟨b, gs⟩⟩
  · simp at hlength
  · simp at hlength
  · have hplain := isPlain_chain hproper
    have hparts : chain (a :: b :: gs)
        = a.text ++ [' '] ++ '?' :: '?' :: ' ' :: (b.text ++ tail gs) := by
      rw [chain, tail_cons, List.append_assoc]
      rfl
    rw [hparts] at hplain ⊢
    exact ⟨_, _, rfl, inCode_of_isPlain hplain, _, rfl, by simp⟩

/-- **A chain of names** is rewritten if it has four of them at most. -/
theorem degrade?_chain (hlength : 2 ≤ names.length) (hnames : ∀ a ∈ names, IsName a) :
    degrade? (chain (operands names))
      = if names.length ≤ 4 then some (chain (pairUp (pairUp (operands names)))) else none := by
  have hpasses := passes?_chain hlength hnames
  have hproper := isProper_of_mem_pairUp (isProper_of_mem_pairUp (isProper_of_mem_operands hnames))
  have hlengths := length_twice_pairUp names
  split
  · have hclean : (ofText (chain (pairUp (pairUp (operands names))))).occurs leftover = false :=
      occurs_leftover_eq_false (chain_ne (by omega) hproper)
    simp only [degrade?, hpasses, hclean, Bool.false_eq_true, if_false]
  · cases hout : degrade? (chain (operands names)) with
    | none => rfl
    | some out =>
      have hleft := not_occursIn hout
      simp only [degrade?, hpasses, Option.ite_none_left_eq_some] at hout
      obtain ⟨-, hout⟩ := hout
      rw [← Option.some.inj hout] at hleft
      exact absurd (occursIn_chain (by omega) hproper) hleft

theorem intercalate_eq_chain (names : List (List Char)) :
    " ?? ".toList.intercalate names = chain (operands names) := by
  cases names with
  | nil => rfl
  | cons a names =>
    induction names generalizing a with
    | nil => exact (List.intercalate_singleton ..).trans (List.append_nil a).symm
    | cons b names ih =>
      have hmore : " ?? ".toList.intercalate (b :: names) = b ++ tail (operands names) := ih b
      have hall : chain (operands (a :: b :: names))
          = a ++ (" ?? ".toList ++ (b ++ tail (operands names))) :=
        congrArg (a ++ ·) (tail_cons (.name b) (operands names))
      rw [List.intercalate_cons_cons, hmore, hall, List.append_assoc]

/-- **A chain of defaults is rewritten as long as four names are in it**: what
comes out has no coalescing, and it means what the chain does, that is the first
of the names that is not nullish, or the last one. A longer chain is declined. -/
theorem up_to_four_defaults_are_rewritten (hlength : 2 ≤ names.length)
    (hnames : ∀ a ∈ names, IsName a) :
    (names.length ≤ 4 → ∃ out, degrade? (" ?? ".toList.intercalate names) = some out
      ∧ ¬ "??".toList <:+: out
      ∧ ∀ (V : Type u) (E : Type v) (scope : Scope V E),
        meaning? scope out = some (firstPresent scope names)
          ∧ meaning? scope (" ?? ".toList.intercalate names) = some (firstPresent scope names))
    ∧ (4 < names.length → degrade? (" ?? ".toList.intercalate names) = none) := by
  have hproper := isProper_of_mem_operands hnames
  have hproperOut := isProper_of_mem_pairUp (isProper_of_mem_pairUp hproper)
  have hdegrade := degrade?_chain hlength hnames
  have hoperands : operands names ≠ [] := by
    rw [operands, ← List.length_pos_iff, List.length_map]
    omega
  rw [intercalate_eq_chain]
  refine ⟨fun hshort => ?_, fun hlong => by rw [hdegrade, if_neg (Nat.not_le.mpr hlong)]⟩
  rw [if_pos hshort] at hdegrade
  refine ⟨_, hdegrade, ?_, fun V E scope => ⟨?_, ?_⟩⟩
  · rintro ⟨front, behind, h⟩
    have hlengths := length_twice_pairUp names
    refine chain_ne (by omega) hproperOut front behind ?_
    rw [← h, List.append_assoc]
    rfl
  · rw [meaning?_chain scope (pairUp_ne_nil (pairUp_ne_nil hoperands)) hproperOut,
      flatMap_names_pairUp, flatMap_names_pairUp, flatMap_names_operands]
  · rw [meaning?_chain scope hoperands hproper, flatMap_names_operands]

theorem three_defaults_are_rewritten :
    2 ≤ [['a'], ['b'], ['c']].length ∧ (∀ a ∈ [['a'], ['b'], ['c']], IsName a)
      ∧ ∃ out, degrade? "a ?? b ?? c".toList = some out ∧ ¬ "??".toList <:+: out
        ∧ ∀ (V : Type) (E : Type) (scope : Scope V E),
          meaning? scope out = some (firstPresent scope [['a'], ['b'], ['c']]) := by
  have hnames : ∀ a ∈ [['a'], ['b'], ['c']], IsName a := by
    simp only [List.forall_mem_cons, List.not_mem_nil, false_implies, implies_true, and_true]
    exact ⟨⟨'a', [], by decide⟩, ⟨'b', [], by decide⟩, ⟨'c', [], by decide⟩⟩
  obtain ⟨out, hout, hclean, hmeaning⟩ :=
    (up_to_four_defaults_are_rewritten.{0, 0} (by decide) hnames).1 (by decide)
  exact ⟨by decide, hnames, out, hout, hclean, fun V E scope => (hmeaning V E scope).1⟩

/-- The first pass makes checks of two names, the second one checks of checks,
which are no operands any more, and one name is left over. -/
theorem five_defaults_are_declined : degrade? "a ?? b ?? c ?? d ?? e".toList = none := by
  have hnames : ∀ a ∈ [['a'], ['b'], ['c'], ['d'], ['e']], IsName a := by
    simp only [List.forall_mem_cons, List.not_mem_nil, false_implies, implies_true, and_true]
    exact ⟨⟨'a', [], by decide⟩, ⟨'b', [], by decide⟩, ⟨'c', [], by decide⟩, ⟨'d', [], by decide⟩,
      ⟨'e', [], by decide⟩⟩
  exact (degrade?_chain (by decide) hnames).trans (if_neg (by decide))

end Passes

end Downlevel.Code.Nullish
