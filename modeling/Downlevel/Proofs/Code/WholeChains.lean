/-
Downlevel.Proofs.Code.WholeChains — what stands around a chain that is replaced.

The check of a chain looks at the character, the word before it and the character
behind it, all past blanks. That no name starts further left is not checked: it
follows from the search, which resumes at settled places only
(`settledAt_of_findFrom?`, `settledAt_stop`) and would have found a chain that
starts with the longer name (`matchesAt_of_isName`).

So every chain in every text that is gone over has free ends (`HasFreeEnds`), up to
what is no start of a name: behind a number sign, a digit or a character beyond
127 a chain may be the tail of a longer name, and behind a comment that of a
member access (`tails_rewritten`).
-/
import Downlevel.Proofs.Code.Chain
import Downlevel.Proofs.Code.Patched
import Downlevel.Proofs.Code.Reading
import Downlevel.Proofs.Pattern.NameEnds

namespace Downlevel.Code

open Pattern

/-! ## Settled places -/

theorem isNamePart_of_opensLiteral {x : Char} (h : Segment.opensLiteral x = true) :
    isNamePart x = false := by
  simp only [Segment.opensLiteral, Segment.isQuote, Bool.or_eq_true, beq_iff_eq] at h
  rcases h with ((rfl | rfl) | rfl) | rfl <;> decide

/-- No name goes on behind a literal. -/
theorem settledAt_stop {text : List Char} {l : Span} (h : l ∈ (ofText text).literals) :
    SettledAt text l.stop := by
  obtain ⟨before, lit, after, hsplit, rfl⟩ := mem_literals.mp h
  have htext : text
      = (before ++ [Segment.literal lit]).flatMap Segment.text ++ after.flatMap Segment.text := by
    rw [← List.flatMap_append, List.append_assoc, List.singleton_append, ← hsplit,
      Segment.text_split]
  have hlength : Segment.width before + lit.length
      = ((before ++ [Segment.literal lit]).flatMap Segment.text).length := by
    simp [Segment.width]
  rw [SettledAt, hlength, htext, List.take_left' rfl, List.drop_left' rfl]
  rcases Segment.literal_cases hsplit with rfl | ⟨-, hline⟩ | ⟨-, d, hd, hopens⟩
  · refine .of_after fun y hy => ?_
    cases hy
  · refine .of_after fun y hy => ?_
    rw [hline] at hy
    obtain rfl : '\n' = y := Option.some.inj hy
    decide
  · refine .of_before fun x hx => ?_
    rw [List.flatMap_append, List.flatMap_singleton, List.getLast?_append, Segment.text_literal, hd]
      at hx
    obtain rfl : d = x := Option.some.inj hx
    exact isNamePart_of_opensLiteral hopens

/-- A name that goes on to a place behind a settled one starts no earlier. -/
theorem le_of_settledAt {text : List Char} {place i j : Nat} (h : SettledAt text place)
    (hplace : place ≤ j) (hj : j < text.length) (hname : ∀ x ∈ slice text i j, isNamePart x = true)
    (hnext : isNamePart text[j] = true) : place ≤ i := by
  by_contra hi
  have hnone := h.isNamePart_eq_false (by omega) (by omega)
    (hname _ (getElem_mem_slice _ (by omega) (by omega)))
  rcases Nat.lt_or_eq_of_le hplace with hinside | rfl
  · rw [hname _ (getElem_mem_slice _ (by omega) hinside)] at hnone
    cases hnone
  · rw [hnext] at hnone
    cases hnone

namespace OptionalAccess

/-! ## Behind a chain -/

theorem settles_part : part.Settles :=
  Settles.or (Settles.or Settles.name (Settles.bracketed "(" rfl (by decide)))
    (Settles.bracketed "[" rfl (by decide))

theorem settles_optionalLink : optionalLink.Settles := Settles.append _ settles_part

theorem settles_link : link.Settles :=
  Settles.or
    (Settles.or (Settles.or (Settles.append _ Settles.name) (Settles.bracketed "(" rfl (by decide)))
      (Settles.bracketed "[" rfl (by decide)))
    settles_optionalLink

/-- No name goes on behind a chain that was matched. -/
theorem isSettled_of_chain {c c' : Cursor} (h : chain.matchAt? c = some c') : c'.IsSettled := by
  have hlink : 0 < link.minLength := by decide
  have hrun : (name ++ .star link).run c
      (fun c₁ => optionalLink.run c₁ fun c₂ => (star link).run c₂ some) = some c' := h
  obtain ⟨c₁, -, hoptional⟩ := run_some _ c _ c' hrun
  obtain ⟨c₂, -, hsettled, hlinks⟩ :=
    settles_optionalLink _ c₁ _ c' (fun _ _ => isSome_starRun rfl) hoptional
  obtain ⟨c₃, hsettled, hend⟩ :=
    settles_link.star hlink hsettled (fun _ _ => rfl) hlinks
  cases hend
  exact hsettled

section Found

variable {text : List Char} {place i : Nat} {m : Match}

theorem settledAt_of_findFrom? (hplace : place ≤ text.length)
    (hm : chain.findFrom? text place = some m) : SettledAt text m.stop := by
  obtain ⟨c, hc, hstop, -⟩ := matchAt?_of_findFrom? hplace hm
  obtain ⟨w, c', hw, hend⟩ := run_spells chain _ some c hc
  cases hend
  have hne : w ≠ [] := by
    obtain ⟨ch, rfl, l, hl, -⟩ := exists_of_spells hw
    obtain ⟨x, rest, hname, -⟩ := ch.isName
    rw [Chain.text, hname]
    exact List.cons_ne_nil _ _
  rw [← hstop]
  exact settledAt_of_spells hw hne (isSettled_of_chain hc)

theorem endsName_of_isWritten {l : Link} (hl : l.IsWritten) (rest : List Char) :
    EndsName (l.text ++ rest) := by
  obtain ⟨x, hx, hbase⟩ := hl.head rest
  intro y hy
  obtain rfl := Option.some.inj (hx.symm.trans hy)
  refine Bool.eq_false_iff.mpr fun hpart => ?_
  rw [isBaseChar_of_isNamePart hpart] at hbase
  cases hbase

/-- **A chain may start with a longer name**: where a name ends at the start of a
chain, there is a match from the start of this name. -/
theorem matchesAt_of_isName (hplace : place ≤ text.length)
    (hm : chain.findFrom? text place = some m) (hi : i ≤ m.start)
    (hname : IsName (slice text i m.start)) : chain.MatchesAt text i := by
  obtain ⟨hstart, hlength, hstop⟩ := findFrom?_some hplace hm
  obtain ⟨c, hc, -, -⟩ := matchAt?_of_findFrom? hplace hm
  obtain ⟨w, c₁, hw, hlinks⟩ := run_spells name (Cursor.ofOffset text m.start) _ c hc
  -- what comes after the name starts with a link, so the name is over there
  have hend : ∀ x, c₁.rest.head? = some x → isNamePart x = false := by
    obtain ⟨v, c₂, hv, -⟩ :=
      run_spells (.star link ++ (optionalLink ++ .star link)) c₁ some c hlinks
    obtain ⟨u, v', _, rfl, hu, hv'⟩ := hv.of_append
    obtain ⟨o, v'', _, rfl, ho, -⟩ := hv'.of_append
    obtain ⟨ls, hls, rfl⟩ := exists_of_links hu
    obtain ⟨l, hl, -, rfl⟩ := exists_of_optionalLink ho
    rw [hv.rest_eq]
    cases ls with
    | nil =>
      rw [written_nil, List.nil_append, List.append_assoc]
      exact endsName_of_isWritten hl _
    | cons first ls =>
      rw [written_cons, List.append_assoc, List.append_assoc]
      exact endsName_of_isWritten (hls first List.mem_cons_self) _
  have hbehind := hw.eq_behind rfl
  refine Option.isSome_iff_exists.mpr ⟨c, ?_⟩
  refine run_name_of_slice hi (by omega) hname hw.of_name hw.rest_eq hend ?_
  rw [← hbehind]
  exact hlinks

end Found

/-! ## The ends of a chain -/

/-- What is known of the surroundings of a chain that is replaced. -/
structure HasFreeEnds (text : List Char) (s : Span) : Prop where
  point : (ofText text).charBefore? s.start ≠ some '.'
  word : (ofText text).wordBefore s.start ≠ "new".toList
    ∧ (ofText text).wordBefore s.start ≠ "delete".toList
  behind : ∀ x ∈ (ofText text).charAfter? s.stop, x ∉ "([\x60".toList
  start : ∀ i < s.start, ¬ IsName (slice text i s.start)
  neighbour : ∀ x ∈ lastBefore? text s.start, Text.isIdentifier x = true →
    x.isDigit = true ∨ 128 ≤ x.toNat
  token : tokenBefore? text s.start = some ['.'] →
    (∃ x, (ofText text).charBefore? s.start = some x
        ∧ (x = '\ufeff' ∨ Segment.opensLiteral x = true))
      ∨ followsLineComment text s.start = true

/-- A character of an identifier starts a name, or is a digit or beyond 127. -/
theorem isNameStart_of_isIdentifier {x : Char} (h : Text.isIdentifier x = true) :
    isNameStart x = true ∨ x.isDigit = true ∨ 128 ≤ x.toNat := by
  by_cases hlow : x.toNat < 128
  · simp only [Text.isIdentifier, Text.isAlphanumeric, if_pos hlow, Char.isAlphanum,
      Bool.or_eq_true]
      at h
    simp only [isNameStart, Bool.or_eq_true]
    tauto
  · exact .inr (.inr (Nat.le_of_not_lt hlow))

/-- A character that starts names is a name. -/
theorem exists_isName_of_lastBefore? {text : List Char} {place : Nat} {x : Char}
    (hplace : place ≤ text.length) (hx : lastBefore? text place = some x)
    (hstart : isNameStart x = true) : ∃ i < place, IsName (slice text i place) := by
  obtain ⟨front, hfront⟩ := List.getLast?_eq_some_iff.mp hx
  have hlength := congrArg List.length hfront
  rw [List.length_take_of_le hplace, List.length_append, List.length_singleton] at hlength
  have hdrop : text.drop front.length = [x] ++ text.drop place := by
    conv => lhs; rw [← List.take_append_drop place text, hfront, List.append_assoc]
    exact List.drop_left' rfl
  refine ⟨front.length, by omega, x, [], ?_, hstart, nofun⟩
  rw [hlength]
  exact slice_of_drop hdrop

/-- **No name starts further left** and ends at a chain that was found from a
settled place. -/
theorem not_isName_of_findFrom? {text : List Char} {place i : Nat} {m : Match}
    (hplace : place ≤ text.length) (hsettled : SettledAt text place)
    (hm : chain.findFrom? text place = some m) (hi : i < m.start) :
    ¬ IsName (slice text i m.start) := by
  intro hname
  obtain ⟨hstart, hlength, hstop⟩ := findFrom?_some hplace hm
  have hmatch := matchesAt_of_isName hplace hm (Nat.le_of_lt hi) hname
  have hinside : m.start < text.length := by
    have hpos : 0 < chain.minLength := chain_consuming
    omega
  have hnext : isNamePart text[m.start] = true := by
    obtain ⟨c, rest, hdrop, -⟩ := exists_of_findFrom? hplace hm
    obtain ⟨x, more, hx, hfirst, -⟩ := c.isName
    rw [List.drop_eq_getElem_cons hinside, Chain.text, hx, List.cons_append, List.cons_append]
      at hdrop
    rw [(List.cons.inj hdrop).1]
    exact isNamePart_of_isNameStart hfirst
  have hbefore := le_of_settledAt hsettled hstart hinside hname.isNamePart hnext
  exact not_matchesAt_of_findFrom? hm hbefore hi (by omega) hmatch

theorem hasFreeEnds_of_replacements? {text : List Char} {replacements : List Replacement}
    (h : replacements? (ofText text) = some replacements) :
    ∀ r ∈ replacements, HasFreeEnds text r.span := by
  intro r hr
  obtain ⟨place, m, hplace, hsettled, hm, hcode, hrule, hspan⟩ :=
    exists_match_of_resumed (SettledAt text) (fun l hl => settledAt_stop hl)
      (fun place m hplace hm => settledAt_of_findFrom? hplace hm) (.zero text) h hr
  obtain ⟨-, hlength, hstop⟩ := findFrom?_some hplace hm
  have hinside : m.start < text.length := by
    have hpos : 0 < chain.minLength := chain_consuming
    have hstop : m.stop ≤ text.length := hstop
    omega
  have hnames : ∀ i < m.start, ¬ IsName (slice text i m.start) :=
    fun i hi => not_isName_of_findFrom? hplace hsettled hm hi
  rw [hspan]
  rw [replacement?] at hrule
  split at hrule
  · next hwhole =>
    simp only [isWhole, Bool.and_eq_true, bne_iff_ne, ne_eq, Bool.not_eq_true', Option.any_eq_false]
      at hwhole
    obtain ⟨⟨⟨hpoint, hnew⟩, hdelete⟩, hbehind⟩ := hwhole
    refine ⟨hpoint, ⟨hnew, hdelete⟩, fun x hx => ?_, hnames, fun x hx hidentifier => ?_,
      fun htoken => ?_⟩
    · simpa [and_assoc] using hbehind x hx
    · refine (isNameStart_of_isIdentifier hidentifier).resolve_left fun hstart => ?_
      obtain ⟨i, hi, hname⟩ := exists_isName_of_lastBefore? (Nat.le_of_lt hinside) hx hstart
      exact hnames i hi hname
    · rcases tokenBefore?_cases hcode hinside with hlast | hunseen
      · rw [hlast] at htoken
        exact absurd (getLast?_of_lastToken? htoken).symm hpoint
      · exact hunseen
  · cases hrule

/-- **Every chain that is replaced has free ends**: no member access, `new` or
`delete` before it, no call, index or template behind it, and it is not the end of
a longer name. What stands directly before it is no character of an identifier,
unless it is a digit or beyond 127. -/
theorem replaced_chains_have_free_ends {source out : List Char}
    (h : degrade? source = some out) :
    passes source ≠ [] ∧ outcome source (passes source) = out
      ∧ ∀ pass ∈ passes source, ∀ r ∈ pass.replacements,
        (ofText pass.text).InCode r.span.start ∧ HasFreeEnds pass.text r.span := by
  obtain ⟨hmade, houtcome⟩ := outcome_passes h
  refine ⟨hmade, houtcome, fun pass hpass r hr => ?_⟩
  have hfound : replacements? (ofText pass.text) = some pass.replacements :=
    find?_of_mem_passesOf hpass
  obtain ⟨place, m, -, -, hcode, -, hspan⟩ := exists_match hfound hr
  exact ⟨hspan ▸ hcode, hasFreeEnds_of_replacements? hfound r hr⟩

theorem replaced_chains_have_free_ends_obj :
    degrade? "const v = obj?.prop;".toList = some "const v = (obj && obj.prop);".toList
      ∧ ∃ pass r, pass ∈ passes "const v = obj?.prop;".toList ∧ r ∈ pass.replacements
        ∧ r.span = ⟨10, 19⟩ ∧ HasFreeEnds pass.text r.span := by
  have hdegraded : degrade? "const v = obj?.prop;".toList
      = some "const v = (obj && obj.prop);".toList := by decide +kernel
  have hpass : passes "const v = obj?.prop;".toList
      = [⟨"const v = obj?.prop;".toList, [⟨⟨10, 19⟩, "(obj && obj.prop)".toList⟩]⟩] := by
    decide +kernel
  obtain ⟨-, -, hends⟩ := replaced_chains_have_free_ends hdegraded
  rw [hpass] at hends ⊢
  exact ⟨hdegraded, _, _, List.mem_singleton_self _, List.mem_singleton_self _, rfl,
    (hends _ (List.mem_singleton_self _) _ (List.mem_singleton_self _)).2⟩

/-- The tail of a private name, of a name that starts beyond 127 and of a member
access behind a comment are rewritten. -/
theorem tails_rewritten :
    (degrade? "this.#a?.b;".toList = some "this.#(a && a.b);".toList
      ∧ ∃ pass r, pass ∈ passes "this.#a?.b;".toList ∧ r ∈ pass.replacements
        ∧ lastBefore? pass.text r.span.start = some '#')
    ∧ (degrade? "éa?.b;".toList = some "é(a && a.b);".toList
      ∧ ∃ pass r, pass ∈ passes "éa?.b;".toList ∧ r ∈ pass.replacements
        ∧ lastBefore? pass.text r.span.start = some 'é' ∧ Text.isIdentifier 'é' = true)
    ∧ (degrade? "x./**/y?.z;".toList = some "x./**/(y && y.z);".toList
      ∧ ∃ pass r, pass ∈ passes "x./**/y?.z;".toList ∧ r ∈ pass.replacements
        ∧ tokenBefore? pass.text r.span.start = some ['.']) := by
  refine ⟨⟨?_, ⟨"this.#a?.b;".toList, [⟨⟨6, 10⟩, "(a && a.b)".toList⟩]⟩, _, ?_,
      List.mem_singleton_self _, ?_⟩,
    ⟨?_, ⟨"éa?.b;".toList, [⟨⟨1, 5⟩, "(a && a.b)".toList⟩]⟩, _, ?_, List.mem_singleton_self _,
      ?_, ?_⟩,
    ⟨?_, ⟨"x./**/y?.z;".toList, [⟨⟨6, 10⟩, "(y && y.z)".toList⟩]⟩, _, ?_,
      List.mem_singleton_self _, ?_⟩⟩
  all_goals decide +kernel

end OptionalAccess

end Downlevel.Code
