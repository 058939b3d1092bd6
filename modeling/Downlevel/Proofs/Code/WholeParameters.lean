/-
Downlevel.Proofs.Code.WholeParameters — the bare parameter of an arrow.

A head with a bare parameter starts at the edge of a word, and a dollar sign is
no part of words, though names have it. So a parameter is the whole identifier as
far as the edges of words show: an identifier that starts with a letter or an
underscore is taken from there (`matchesAt_head`), because the search goes from
left to right and goes on from settled places only. What may be cut off are dollar
signs at the start of an identifier, digits before one, and characters beyond 127
(`bare_parameters_whole`, `dollar_sign_cut_off`).
-/
import Downlevel.Proofs.Code.ArrowPlaces
import Downlevel.Proofs.Code.WholeChains

namespace Downlevel.Code.Arrows

open Pattern

/-! ## Characters around a head -/

theorem isNamePart_of_isAround {c : Char} (h : isAround c = true) : isNamePart c = false := by
  rw [isNamePart, isWord_eq_false_of_isAround h, Bool.false_or, beq_eq_false_iff_ne]
  rintro rfl
  exact absurd h (by decide)

theorem isIdentifier_of_isAround {c : Char} (h : isAround c = true) :
    Text.isIdentifier c = false := by
  rcases isAround_iff.mp h with hblank | rfl | rfl | rfl | rfl
  · exact Text.isIdentifier_eq_false_of_isBlank hblank
  all_goals decide

/-- No name goes on behind an expression body. -/
theorem Closes.isNamePart {rest : List Char} (h : Closes rest) :
    ∀ c ∈ rest.head?, isNamePart c = false := by
  intro c hc
  have hmarks : ∀ c ∈ endMarks, Pattern.isNamePart c = false := by decide
  rcases h.cases hc with hblank | hmark
  · exact Bool.eq_false_iff.mpr fun hpart =>
      Bool.false_ne_true ((isBlank_eq_false_of_isNamePart hpart).symm.trans hblank)
  · exact hmarks c hmark

/-- A head ends in a blank or in the arrow. -/
theorem IsHead.getLast? {head parameters : List Char} (h : IsHead head parameters) (u : List Char) :
    ∀ x ∈ (u ++ head).getLast?, isAround x = true := by
  intro x hx
  rw [h.eq, ← List.append_assoc, ← List.append_assoc, List.getLast?_append,
    List.getLast?_eq_some_getLast h.ne_nil, Option.some_or] at hx
  obtain rfl := Option.some.inj hx
  exact h.around _ (List.getLast_mem h.ne_nil)

/-! ## Bare heads -/

section Bare

variable {text w gap rest : List Char} {place i : Nat} {m : Match}

/-- A run of a class of characters is what stands before the first other one. -/
theorem takeWhile_append {accepts : Char → Bool} (hw : ∀ x ∈ w, accepts x = true)
    (hrest : ∀ x ∈ rest.head?, accepts x = false) : (w ++ rest).takeWhile accepts = w := by
  rw [List.takeWhile_append_of_pos hw]
  cases rest with
  | nil => exact List.append_nil w
  | cons x rest => simp [hrest x rfl]

/-- An arrow ends the name before it. -/
theorem isNamePart_of_arrow (hgap : ∀ x ∈ gap, Text.isBlank x = true) (rest : List Char) :
    ∀ x ∈ (gap ++ ("=>".toList ++ rest)).head?, isNamePart x = false := by
  intro x hx
  refine isNamePart_of_isAround ?_
  cases gap with
  | nil =>
    obtain rfl : '=' = x := Option.some.inj hx
    decide
  | cons y gap =>
    obtain rfl : y = x := Option.some.inj hx
    exact isAround_iff.mpr (.inl (hgap y List.mem_cons_self))

/-- What a bare head is: a name, an arrow and blanks, from the edge of a word. -/
theorem exists_of_bare (hplace : place ≤ text.length) (hm : head.findFrom? text place = some m)
    (hbare : (m.text text).head? ≠ some '(') :
    ∃ front gap behind rest, text = front ++ (parameters text m ++ (gap ++ ("=>".toList ++ rest)))
      ∧ m.start = front.length ∧ m.text text = parameters text m ++ (gap ++ ("=>".toList ++ behind))
      ∧ IsName (parameters text m) ∧ (∀ x ∈ gap, Text.isBlank x = true)
      ∧ (∀ x ∈ behind, Text.isBlank x = true)
      ∧ (Cursor.ofOffset text m.start).atBoundary Text.isWord = true := by
  obtain ⟨c, hc, hstop, -⟩ := matchAt?_of_findFrom? hplace hm
  obtain ⟨w, c, hw, hend⟩ := run_spells head _ some c hc
  cases hend
  have htext : m.text text = w := by
    rw [Match.text, ← hstop, hw.offset_eq]
    exact slice_of_drop hw.rest_eq
  obtain ⟨u, behind, _, rfl, hu, hbehind⟩ := hw.of_append
  obtain ⟨u, arrow, _, rfl, hu, harrow⟩ := hu.of_append
  obtain ⟨front, gap, _, rfl, hfront, hgap⟩ := hu.of_append
  obtain rfl := harrow.of_literal
  rcases hfront.of_or with hlist | hname
  · obtain ⟨u, close, _, rfl, hu, -⟩ := hlist.of_append
    obtain ⟨opn, inner, _, rfl, hopen, -⟩ := hu.of_append
    obtain rfl := hopen.of_literal
    rw [htext] at hbare
    exact absurd rfl hbare
  · obtain ⟨edges, parameter, _, rfl, hedge, hgroup⟩ := hname.of_append
    obtain ⟨_, hname, -⟩ := hgroup.of_group
    cases hedge with
    | boundary hboundary =>
    have hblank : ∀ x ∈ gap, Text.isBlank x = true := hgap.of_star_char
    -- the parameter is all that a name can be, in either reading of the head
    have hparameters : parameters text m = parameter := by
      have hhead := isHead_of_findFrom? hplace hm
      rcases hhead.form with ⟨⟨blanks, hopening⟩, -⟩ | ⟨hopening, hwhole⟩
      · rw [hhead.eq, hopening] at hbare
        exact absurd rfl hbare
      · have hclose : ∀ x ∈ (closing (m.text text) (parameters text m)).head?,
            isNamePart x = false :=
          fun x hx => isNamePart_of_isAround (hhead.around x (List.mem_of_mem_head? hx))
        rw [← takeWhile_append hwhole.isNamePart hclose,
          ← takeWhile_append hname.of_name.isNamePart
            (isNamePart_of_arrow hblank behind)]
        have heq := hhead.eq
        rw [hopening, List.nil_append] at heq
        rw [← heq, htext]
        simp
    have hspelled : m.text text = parameters text m ++ (gap ++ ("=>".toList ++ behind)) := by
      rw [htext, hparameters]
      simp
    obtain ⟨hstart, hlength, hstop⟩ := findFrom?_some hplace hm
    refine ⟨text.take m.start, gap, behind, behind ++ text.drop m.stop, ?_,
      (List.length_take_of_le (by omega)).symm, hspelled, hparameters ▸ hname.of_name, hblank,
      hbehind.of_star_char, hboundary⟩
    rw [← List.append_assoc _ behind, ← List.append_assoc gap, ← List.append_assoc (parameters _ _),
      ← hspelled, Match.text, slice_append_drop _ (by omega), List.take_append_drop]

/-- **A head matches** where a name with an arrow behind it starts at the edge of
a word. -/
theorem matchesAt_head (hdrop : text.drop i = w ++ (gap ++ ("=>".toList ++ rest))) (hw : IsName w)
    (hgap : ∀ x ∈ gap, Text.isBlank x = true)
    (hedge : (Cursor.ofOffset text i).atBoundary Text.isWord = true) : head.MatchesAt text i := by
  -- whatever is recorded, the arrow behind the name is passed over
  have harrow : ∀ c : Cursor, c.rest = gap ++ ("=>".toList ++ rest) →
      (blanks.run c fun c => (literal "=>").run c fun c => blanks.run c some).isSome = true := by
    intro c hc
    have hend : ∀ x, ("=>".toList ++ rest).head? = some x → Text.isBlank x = false := by
      rintro x ⟨⟩
      decide
    have hlast : ((literal "=>").run (c.behind gap ("=>".toList ++ rest))
        fun c => blanks.run c some).isSome = true := by
      rw [run_literal rfl]
      exact isSome_starRun rfl
    obtain ⟨r, hr⟩ := Option.isSome_iff_exists.mp hlast
    exact Option.isSome_iff_exists.mpr ⟨r, run_star_char hc hgap hend hr⟩
  obtain ⟨r, hr⟩ := Option.isSome_iff_exists.mp
    (harrow (((Cursor.ofOffset text i).behind w _).record 2 i) rfl)
  obtain ⟨x, more, hx, hstart, -⟩ := id hw
  have hparen : (Cursor.ofOffset text i).rest.head? ≠ some '(' := by
    rw [Cursor.ofOffset_rest, hdrop, hx, List.cons_append, List.head?_cons]
    rintro ⟨⟩
    exact absurd hstart (by decide)
  refine Option.isSome_iff_exists.mpr ⟨r, ?_⟩
  have hbare : (edge ++ .group 2 name).run (Cursor.ofOffset text i)
      (fun c => blanks.run c fun c => (literal "=>").run c fun c => blanks.run c some)
        = some r := by
    rw [run_append, edge, run, if_pos hedge]
    exact run_name hw hdrop (isNamePart_of_arrow hgap _) hr
  refine (run_or_eq_right ?_).trans hbare
  exact run_literal_eq_none (x := '(') rfl hparen

end Bare

/-! ## Whole parameters -/

/-- How far the parameter of an arrow is the whole identifier before it. -/
structure Arrow.HasWholeParameter (a : Arrow) : Prop where
  isName : IsName a.parameters
  arrow : ∃ gap behind, a.head = a.parameters ++ (gap ++ ("=>".toList ++ behind))
    ∧ (∀ x ∈ gap, Text.isBlank x = true) ∧ ∀ x ∈ behind, Text.isBlank x = true
  neighbour : ∀ x ∈ a.before.getLast?, Text.isIdentifier x = true →
    x = '$' ∨ a.parameters.head? = some '$' ∨ (128 ≤ x.toNat ∧ Text.isWord x = false)
  start : ∀ u w, a.before = u ++ w → (∀ x ∈ u.getLast?, isNamePart x = false) →
    (∀ x ∈ w, isNamePart x = true) → ∀ x ∈ w.head?, ¬ (x.isAlpha = true ∨ x = '_')

/-- Before a text that is searched stands nothing, or the end of a head. -/
def IsEntered (before _text _after : List Char) : Prop :=
  ∀ x ∈ before.getLast?, isAround x = true

section Found

variable {before text after : List Char} {place : Nat} {m : Match} {a : Arrow}

theorem isEntered_body (before : List Char) (hplace : place ≤ text.length)
    (hm : head.findFrom? text place = some m) (body behind : List Char) :
    IsEntered (before ++ text.take m.stop) body behind := by
  obtain ⟨-, hstop, -⟩ := findFrom?_some hplace hm
  have hhead : text.take m.start ++ m.text text = text.take m.stop := take_append_slice (by omega)
  rw [← hhead, ← List.append_assoc]
  exact (isHead_of_findFrom? hplace hm).getLast? _

/-- A search goes on from settled places only. -/
theorem settledAt_of_findFrom? (hplace : place ≤ text.length)
    (hm : head.findFrom? text place = some m) :
    SettledAt text m.stop
      ∧ SettledAt text (m.stop + (expressionBody (text.drop m.stop)).length) := by
  constructor
  · refine .of_before fun x hx => isNamePart_of_isAround ?_
    exact isEntered_body [] hplace hm [] [] x hx
  · obtain ⟨behind, hbehind, hcloses⟩ := closes_expressionBody (text.drop m.stop)
    refine .of_after fun y hy => ?_
    rw [drop_add_of_drop hbehind] at hy
    exact hcloses.isNamePart y hy

/-- A name that starts with a letter or an underscore starts at the edge of a
word, if no name goes on before it. -/
theorem atBoundary_of_start {u w rest : List Char} {x : Char}
    (hu : ∀ y ∈ u.getLast?, isNamePart y = false) (hx : w.head? = some x)
    (hstart : x.isAlpha = true ∨ x = '_') :
    (Cursor.ofOffset (u ++ (w ++ rest)) u.length).atBoundary Text.isWord = true := by
  have hword : Text.isWord x = true := by
    rcases hstart with halpha | rfl
    · simp [Text.isWord, toNat_lt_of_isAlpha halpha, Char.isAlphanum, halpha]
    · decide
  have hbefore : u.getLast?.any Text.isWord = false := by
    rw [Option.any_eq_false]
    intro y hy
    have hnone := hu y hy
    rw [isNamePart, Bool.or_eq_false_iff] at hnone
    simpa using hnone.1
  have hnext : (w ++ rest).head? = some x := by rw [List.head?_append, hx, Option.some_or]
  rw [Cursor.ofOffset_length, Cursor.atBoundary, hbefore, hnext, Option.any_some, hword]
  rfl

/-- A name at the edge of a word has no character of an identifier before it, apart
from dollar signs and what is no word character beyond 127. -/
theorem cases_of_atBoundary {u w : List Char} {x : Char} (hw : IsName w)
    (hedge : (Cursor.ofOffset (u ++ (w ++ rest)) u.length).atBoundary Text.isWord = true)
    (hx : u.getLast? = some x) (hidentifier : Text.isIdentifier x = true) :
    x = '$' ∨ w.head? = some '$' ∨ (128 ≤ x.toNat ∧ Text.isWord x = false) := by
  obtain ⟨y, more, rfl, hy, -⟩ := hw
  rw [Cursor.ofOffset_length, Cursor.atBoundary, hx, Option.any_some, List.cons_append,
    List.head?_cons, Option.any_some, bne_iff_ne] at hedge
  by_cases hdollar : y = '$'
  · exact .inr (.inl (by rw [hdollar, List.head?_cons]))
  have hyword : Text.isWord y = true := by
    have hpart := isNamePart_of_isNameStart hy
    rw [isNamePart, beq_eq_false_iff_ne.mpr hdollar, Bool.or_false] at hpart
    exact hpart
  rw [hyword] at hedge
  have hnone := Bool.eq_false_iff.mpr hedge
  by_cases hlow : x.toNat < 128
  · left
    simp only [Text.isWord, if_pos hlow, Bool.or_eq_false_iff] at hnone
    simpa [Text.isIdentifier, Text.isAlphanumeric, hlow, hnone] using hidentifier
  · exact .inr (.inr ⟨Nat.le_of_not_lt hlow, hnone⟩)

/-- No identifier that starts with a letter or an underscore is cut. -/
theorem not_starts_earlier {front w p gap rest : List Char} {x : Char}
    (htext : text = front ++ (w ++ (p ++ (gap ++ ("=>".toList ++ rest)))))
    (hstart : m.start = (front ++ w).length) (hplace : place ≤ text.length)
    (hsettled : SettledAt text place) (hm : head.findFrom? text place = some m) (hp : IsName p)
    (hgap : ∀ x ∈ gap, Text.isBlank x = true) (hfront : ∀ y ∈ front.getLast?, isNamePart y = false)
    (hw : ∀ x ∈ w, isNamePart x = true) (hx : w.head? = some x) :
    ¬ (x.isAlpha = true ∨ x = '_') := by
  intro hletter
  have hstarts : isNameStart x = true := by
    simpa [isNameStart, or_assoc] using hletter.imp_right .inl
  obtain ⟨more, rfl⟩ := List.head?_eq_some_iff.mp hx
  obtain ⟨hplaced, hlength, hstop⟩ := findFrom?_some hplace hm
  have hdrop : text.drop front.length
      = (x :: more ++ p) ++ (gap ++ ("=>".toList ++ rest)) := by
    rw [htext, List.drop_left' rfl, List.append_assoc]
  have hlonger : IsName (x :: more ++ p) :=
    ⟨x, more ++ p, rfl, hstarts, List.forall_mem_append.mpr
      ⟨(List.forall_mem_cons.mp hw).2, hp.isNamePart⟩⟩
  have hmatch : head.MatchesAt text front.length := by
    refine matchesAt_head hdrop hlonger hgap ?_
    rw [htext]
    exact atBoundary_of_start hfront hx hletter
  have hslice : slice text front.length m.start = x :: more := by
    have hrest : text.drop front.length = (x :: more) ++ (p ++ (gap ++ ("=>".toList ++ rest))) := by
      rw [htext, List.drop_left' rfl]
    rw [hstart, List.length_append]
    exact slice_of_drop hrest
  have hinside : m.start < text.length := by
    have : 2 ≤ head.minLength := two_le_minLength_head
    omega
  have hnext : isNamePart text[m.start] = true := by
    obtain ⟨y, more', hy, -⟩ := id hp
    have hfirst : text.drop m.start = p ++ (gap ++ ("=>".toList ++ rest)) := by
      rw [htext, hstart, ← List.append_assoc, List.drop_left' rfl]
    rw [List.drop_eq_getElem_cons hinside, hy, List.cons_append] at hfirst
    rw [(List.cons.inj hfirst).1]
    exact hp.isNamePart y (hy ▸ List.mem_cons_self)
  have hresumed : place ≤ front.length :=
    le_of_settledAt hsettled hplaced hinside (hslice ▸ hw) hnext
  have hbefore : front.length < m.start := by
    rw [hstart, List.length_append, List.length_cons]
    omega
  exact not_matchesAt_of_findFrom? hm hresumed hbefore (by omega) hmatch

/-- **A bare parameter that was found** from a settled place is as whole as the
edges of words show. -/
theorem hasWholeParameter_of_isFound (hentered : IsEntered before text after)
    (hsettled : SettledAt text place) (hplace : place ≤ text.length)
    (hm : head.findFrom? text place = some m) (ha : a.IsFound before text after m)
    (hbare : a.head.head? ≠ some '(') : a.HasWholeParameter := by
  rw [ha.head_eq] at hbare
  obtain ⟨front, gap, behind, rest, htext, hstart, hhead, hname, hgap, hbehind, hedge⟩ :=
    exists_of_bare hplace hm hbare
  rw [← ha.parameters_eq] at htext hhead hname
  have hbefore : a.before = before ++ front := by
    rw [ha.before_eq, hstart]
    conv => lhs; rw [htext]
    rw [List.take_left' rfl]
  refine ⟨hname, ⟨gap, behind, ha.head_eq.trans hhead, hgap, hbehind⟩, ?_, ?_⟩
  · intro x hx hidentifier
    rw [hbefore, List.getLast?_append] at hx
    cases hlast : front.getLast? with
    | none =>
      rw [hlast, Option.none_or] at hx
      rw [isIdentifier_of_isAround (hentered x hx)] at hidentifier
      cases hidentifier
    | some y =>
      rw [hlast] at hx
      obtain rfl : y = x := Option.some.inj hx
      rw [htext, hstart] at hedge
      exact cases_of_atBoundary hname hedge hlast hidentifier
  · intro u w hparts hu hw x hx
    -- the text before ends in no character of a name, so the name is all in this one
    obtain ⟨front', rfl, rfl⟩ : ∃ front', u = before ++ front' ∧ front = front' ++ w := by
      rw [hbefore] at hparts
      rcases List.append_eq_append_iff.mp hparts with ⟨front', hu, hfront⟩ | ⟨more, hbefore', hmore⟩
      · exact ⟨front', hu, hfront⟩
      · cases hlast : more.getLast? with
        | none =>
          obtain rfl := List.getLast?_eq_none_iff.mp hlast
          exact ⟨[], by rw [hbefore', List.append_nil, List.append_nil], hmore.symm⟩
        | some y =>
          have hy : y ∈ before.getLast? := by
            rw [hbefore', List.getLast?_append, hlast, Option.some_or, Option.mem_def]
          have hname := hw y (hmore ▸ List.mem_append_left _ (List.mem_of_getLast? hlast))
          rw [isNamePart_of_isAround (hentered y hy)] at hname
          cases hname
    rw [List.append_assoc] at htext
    refine not_starts_earlier htext hstart hplace hsettled hm hname hgap (fun y hy => hu y ?_) hw hx
    rw [List.getLast?_append, hy, Option.some_or, Option.mem_def]

end Found

/-- **Bare parameters are whole identifiers as far as the edges of words show**, at
every depth. What stands directly before one is no character of an identifier,
unless it is a dollar sign, or the parameter starts with one, or it is no word
character beyond 127. An identifier that starts with a letter or an underscore is
not cut. -/
theorem bare_parameters_whole {source out : List Char} {a : Arrow} (h : degrade? source = some out)
    (ha : a ∈ arrows source) (hbare : a.head.head? ≠ some '(') :
    "function(".toList ++ a.parameters ++ ") ".toList <:+: out ∧ a.HasWholeParameter := by
  obtain ⟨before, text, after, place, m, hentered, hsettled, hplace, hm, -, hfound⟩ :=
    exists_found_of_mem IsEntered SettledAt (fun _ hplace hm => isEntered_body _ hplace hm _ _)
      SettledAt.zero
      (fun _ _ hl => settledAt_stop hl) (fun hplace hm => settledAt_of_findFrom? hplace hm)
      source 0 0 [] [] (Nat.le_refl 0) ha nofun (.zero source)
  exact ⟨newHead_infix_out h ha,
    hasWholeParameter_of_isFound hentered hsettled hplace hm hfound hbare⟩

/-- The inner arrow of two. -/
theorem bare_parameters_whole_inner :
    ∃ out, degrade? "x => y => x + y".toList = some out
      ∧ ∃ a ∈ arrows "x => y => x + y".toList, a.before = "x => ".toList ∧ a.head = "y => ".toList
        ∧ "function(".toList ++ a.parameters ++ ") ".toList <:+: out ∧ a.HasWholeParameter := by
  have houter : expressionBody ("x => y => x + y".toList.drop 5) = "y => x + y".toList := by
    decide +kernel
  have hinner : pieces "y => x + y".toList = [.kept [],
      .expression "y => ".toList "y".toList [.kept "x + y".toList], .kept []] :=
    pieces_of_lone_arrow (m := ⟨0, 5, [⟨2, 0, 1⟩]⟩) (by decide +kernel) (by decide +kernel)
      (by decide +kernel) (by decide +kernel) (by decide +kernel) (by decide +kernel)
  have hpieces : pieces "x => y => x + y".toList = [.kept [], .expression "x => ".toList "x".toList
      [.kept [], .expression "y => ".toList "y".toList [.kept "x + y".toList], .kept []],
      .kept []] := by
    rw [pieces, piecesFrom_of_expression (m := ⟨0, 5, [⟨2, 0, 1⟩]⟩) (by decide)
      (by decide +kernel) (by decide +kernel) (by decide +kernel), houter, hinner,
      piecesFrom_of_none (by decide +kernel)]
    rfl
  have hdegrade : degrade? "x => y => x + y".toList
      = some "function(x) \x7b return function(y) \x7b return x + y; \x7d; \x7d".toList := by
    rw [degrade?, lowered, hpieces]
    decide +kernel
  have harrow : (⟨"x => ".toList, "y => ".toList, "y".toList, some "x + y".toList,
      "x + y".toList⟩ : Arrow) ∈ arrows "x => y => x + y".toList := by
    rw [arrows, hpieces]
    decide +kernel
  exact ⟨_, hdegrade, _, harrow, rfl, rfl, bare_parameters_whole hdegrade harrow (by decide)⟩

/-- A parameter that starts with a dollar sign loses it: the sign is left before
the word `function`. -/
theorem dollar_sign_cut_off :
    ∃ a ∈ arrows "f = $x => $x;".toList, a.head.head? ≠ some '('
      ∧ a.before.getLast? = some '$' ∧ Text.isIdentifier '$' = true
      ∧ degrade? "f = $x => $x;".toList
        = some "f = $function(x) \x7b return $x; \x7d;".toList := by
  have hpieces : pieces "f = $x => $x;".toList = [.kept "f = $".toList,
      .expression "x => ".toList "x".toList [.kept "$x".toList], .kept ";".toList] :=
    pieces_of_lone_arrow (m := ⟨5, 10, [⟨2, 5, 6⟩]⟩) (by decide +kernel) (by decide +kernel)
      (by decide +kernel) (by decide +kernel) (by decide +kernel) (by decide +kernel)
  refine ⟨⟨"f = $".toList, "x => ".toList, "x".toList, some "$x".toList, "$x;".toList⟩, ?_,
    by decide, by decide, by decide, ?_⟩
  · rw [arrows, hpieces]
    decide +kernel
  · rw [degrade?, lowered, hpieces]
    decide +kernel

end Downlevel.Code.Arrows
