/-
Downlevel.Proofs.Code.Chain — the links of an optional chain.

What the chain pattern spells is a name with links, a `Chain`
(`exists_of_spells`). Taking its text apart gives that name and those links
again (`base_text`, `links_text`): at the start of a link the pattern of links
matches just this link (`findFrom?_link`), so they are found one after the
other and nothing is left out between them.

So the guards are known to hold every part of the chain
(`part_infix_guardChain`), and these parts are where the literals of a chain
stand (`Chain.carries`).
-/
import Downlevel.Code.OptionalAccess
import Downlevel.Proofs.Code.Passes
import Downlevel.Proofs.Pattern.Greedy

namespace Downlevel.Code.OptionalAccess

open Pattern

/-! ## Links as they are written -/

/-- The text of a name, of arguments or of an index. -/
def IsPart (w : List Char) : Prop := IsName w ∨ IsBrackets w

namespace Link

/-- The characters of a link. -/
def text (l : Link) : List Char := l.accessor.getD [] ++ l.part

/-- A link that a chain may have. -/
inductive IsWritten : Link → Prop
  | member {w : List Char} : IsName w → IsWritten ⟨some ['.'], w⟩
  | brackets {w : List Char} : IsBrackets w → IsWritten ⟨none, w⟩
  | optional {w : List Char} : IsPart w → IsWritten ⟨some ['?', '.'], w⟩

end Link

/-- Links one after the other. -/
def written (links : List Link) : List Char := links.flatMap Link.text

@[simp] theorem written_nil : written [] = [] := rfl

@[simp] theorem written_cons (l : Link) (rest : List Link) :
    written (l :: rest) = l.text ++ written rest := List.flatMap_cons

@[simp] theorem written_append (before after : List Link) :
    written (before ++ after) = written before ++ written after := List.flatMap_append

/-- A name with links behind it. -/
structure Chain where
  name : List Char
  links : List Link
  isName : IsName name
  areWritten : ∀ l ∈ links, l.IsWritten

def Chain.text (c : Chain) : List Char := c.name ++ written c.links

/-! ## What the patterns spell -/

section Spelled

variable {a b : Cursor} {w : List Char}

theorem isPart_of_spells (h : Spells part a w b) : IsPart w := by
  rcases h.of_or with h | h
  · rcases h.of_or with h | h
    · exact .inl h.of_name
    · exact .inr (.inl h.of_parenthesized)
  · exact .inr (.inr h.of_indexed)

theorem exists_of_optionalLink (h : Spells optionalLink a w b) :
    ∃ l : Link, l.IsWritten ∧ l.isOptional = true ∧ w = l.text := by
  obtain ⟨u, v, _, rfl, hu, hv⟩ := h.of_append
  rw [hu.of_literal]
  exact ⟨⟨some ['?', '.'], v⟩, .optional (isPart_of_spells hv), rfl, rfl⟩

theorem exists_of_link (h : Spells link a w b) : ∃ l : Link, l.IsWritten ∧ w = l.text := by
  rcases h.of_or with h | h
  · rcases h.of_or with h | h
    · rcases h.of_or with h | h
      · obtain ⟨u, v, _, rfl, hu, hv⟩ := h.of_append
        rw [hu.of_literal]
        exact ⟨⟨some ['.'], v⟩, .member hv.of_name, rfl⟩
      · exact ⟨⟨none, w⟩, .brackets (.inl h.of_parenthesized), rfl⟩
    · exact ⟨⟨none, w⟩, .brackets (.inr h.of_indexed), rfl⟩
  · obtain ⟨l, hl, -, hw⟩ := exists_of_optionalLink h
    exact ⟨l, hl, hw⟩

theorem exists_of_links (h : Spells (.star link) a w b) :
    ∃ ls : List Link, (∀ l ∈ ls, l.IsWritten) ∧ w = written ls := by
  obtain ⟨pieces, rfl, hpieces⟩ := h.of_star
  clear h
  induction pieces with
  | nil => exact ⟨[], nofun, rfl⟩
  | cons piece pieces ih =>
    obtain ⟨⟨_, _, hpiece⟩, hmore⟩ := List.forall_mem_cons.mp hpieces
    obtain ⟨l, hl, rfl⟩ := exists_of_link hpiece
    obtain ⟨ls, hls, hflatten⟩ := ih hmore
    refine ⟨l :: ls, List.forall_mem_cons.mpr ⟨hl, hls⟩, ?_⟩
    rw [List.flatten_cons, hflatten, written_cons]

/-- **What the pattern spells is a chain**, with an optional link in it. -/
theorem exists_of_spells (h : Spells chain a w b) :
    ∃ c : Chain, w = c.text ∧ ∃ l ∈ c.links, l.isOptional = true := by
  obtain ⟨u, after, _, rfl, hu, hafter⟩ := h.of_append
  obtain ⟨u, optional, _, rfl, hu, hoptional⟩ := hu.of_append
  obtain ⟨name, before, _, rfl, hname, hbefore⟩ := hu.of_append
  obtain ⟨lsBefore, hlsBefore, rfl⟩ := exists_of_links hbefore
  obtain ⟨l, hl, hlOptional, rfl⟩ := exists_of_optionalLink hoptional
  obtain ⟨lsAfter, hlsAfter, rfl⟩ := exists_of_links hafter
  have hls : ∀ l' ∈ lsBefore ++ l :: lsAfter, l'.IsWritten := by
    rw [List.forall_mem_append, List.forall_mem_cons]
    exact ⟨hlsBefore, hl, hlsAfter⟩
  exact ⟨⟨name, lsBefore ++ l :: lsAfter, hname.of_name, hls⟩, by simp [Chain.text], l, by simp,
    hlOptional⟩

/-- Where the pattern was found, a chain stands. -/
theorem exists_of_findFrom? {text : List Char} {place : Nat} {m : Match}
    (hplace : place ≤ text.length) (hm : chain.findFrom? text place = some m) :
    ∃ (c : Chain) (rest : List Char), text.drop m.start = c.text ++ rest
      ∧ m.stop = m.start + c.text.length := by
  obtain ⟨a, w, b, hw, hstart, hrest, -, hstop, -⟩ := findFrom?_spells hplace hm
  obtain ⟨c, rfl, -⟩ := exists_of_spells hw
  exact ⟨c, b.rest, by rw [← hrest, hw.rest_eq], by rw [← hstart, ← hstop, hw.offset_eq]⟩

/-- What is replaced: a chain that starts in code, by its guards. -/
theorem exists_of_replacements? {text : List Char} {replacements : List Replacement}
    (h : replacements? (ofText text) = some replacements) {r : Replacement}
    (hr : r ∈ replacements) :
    ∃ (c : Chain) (rest : List Char), text.drop r.span.start = c.text ++ rest
      ∧ r.span.stop = r.span.start + c.text.length ∧ r.text = guardChain c.text
      ∧ (ofText text).InCode r.span.start := by
  obtain ⟨place, m, hplace, hm, hcode, hrule, hspan⟩ := exists_match h hr
  obtain ⟨c, rest, hrest, hstop⟩ := exists_of_findFrom? hplace hm
  have hmatched : m.text (ofText text).text = c.text := by
    rw [Match.text, hstop]
    exact slice_of_drop hrest
  rw [replacement?, hmatched] at hrule
  split at hrule
  · rw [hspan]
    exact ⟨c, rest, hrest, hstop, (Option.some.inj hrule).symm, hcode⟩
  · cases hrule

end Spelled

/-! ## Taking a chain apart -/

/-- A link starts with a dot, a question mark or a bracket. -/
theorem Link.IsWritten.head {l : Link} (hl : l.IsWritten) (rest : List Char) :
    ∃ x, (l.text ++ rest).head? = some x ∧ isBaseChar x = false := by
  cases hl with
  | member => exact ⟨'.', rfl, by decide⟩
  | optional => exact ⟨'?', rfl, by decide⟩
  | brackets hw =>
    rcases hw with ⟨body, rfl, -⟩ | ⟨body, rfl, -⟩
    · exact ⟨'(', rfl, by decide⟩
    · exact ⟨'[', rfl, by decide⟩

theorem isBaseChar_of_isNamePart {x : Char} (h : isNamePart x = true) : isBaseChar x = true := by
  have hne : x ≠ '.' ∧ x ≠ '?' ∧ x ≠ '(' ∧ x ≠ '[' := by
    refine ⟨?_, ?_, ?_, ?_⟩ <;> rintro rfl <;> exact absurd h (by decide)
  simp [isBaseChar, isBracket, hne]

/-! ### One link -/

/-- No name goes on here. -/
def EndsName (rest : List Char) : Prop := ∀ x, rest.head? = some x → isNamePart x = false

section Matching

variable {c : Cursor} {w rest : List Char}

theorem head?_of_isBrackets (h : IsBrackets w) (hrest : c.rest = w ++ rest) :
    c.rest.head? = some '(' ∨ c.rest.head? = some '[' := by
  rcases h with ⟨body, rfl, -⟩ | ⟨body, rfl, -⟩
  · exact .inl (by rw [hrest]; rfl)
  · exact .inr (by rw [hrest]; rfl)

theorem run_part {α : Type} {k : Cursor → Option α} {r : α} (hw : IsPart w)
    (hrest : c.rest = w ++ rest) (hend : EndsName rest) (hk : k (c.behind w rest) = some r) :
    part.run c k = some r := by
  rcases hw with hname | hbrackets
  · exact run_or_eq_left (run_or_eq_left (run_name hname hrest hend hk))
  · have hnoName : name.run c k = none := by
      refine run_name_eq_none fun x hx => ?_
      rcases head?_of_isBrackets hbrackets hrest with h | h <;> rw [h] at hx <;> cases hx <;> decide
    rcases hbrackets with hparens | hindex
    · refine run_or_eq_left ?_
      rw [run_or_eq_right hnoName]
      exact run_bracketed rfl rfl hparens hrest hk
    · have hnoParens : (name ||| parenthesized).run c k = none := by
        rw [run_or_eq_right hnoName]
        refine run_bracketed_eq_none (o := '(') rfl ?_
        obtain ⟨body, rfl, -⟩ := hindex
        rw [hrest, List.cons_append, List.head?_cons]
        decide
      rw [part, run_or_eq_right hnoParens]
      exact run_bracketed rfl rfl hindex hrest hk

/-- The accessor of a link, as its pattern has it. -/
def accessor : Pattern := opt (.group 1 (literal "?." ||| literal "."))

theorem run_accessor {α : Type} {k : Cursor → Option α} {r : α} {a : List Char}
    (ha : a = ['.'] ∨ a = ['?', '.']) (hrest : c.rest = a ++ rest)
    (hk : k ((c.behind a rest).record 1 c.offset) = some r) : accessor.run c k = some r := by
  have hgroup :
      (literal "?." ||| literal ".").run c (fun c' => k (c'.record 1 c.offset)) = some r := by
    rcases ha with rfl | rfl
    · have hnone : ∀ k : Cursor → Option α, (literal "?.").run c k = none := by
        refine fun k => run_literal_eq_none (x := '?') rfl ?_
        rw [hrest, List.cons_append, List.head?_cons]
        decide
      rw [run_or_eq_right (hnone _), run_literal hrest]
      exact hk
    · refine run_or_eq_left ?_
      rw [run_literal hrest]
      exact hk
  exact run_or_eq_left (p := .group 1 (literal "?." ||| literal ".")) (q := .empty) hgroup

theorem run_accessor_of_isBrackets {α : Type} {k : Cursor → Option α} (hw : IsBrackets w)
    (hrest : c.rest = w ++ rest) : accessor.run c k = k c := by
  have hnone : ∀ {text : String} {x : Char} {chars : List Char} (k : Cursor → Option α),
      text.toList = x :: chars → x ≠ '(' → x ≠ '[' → (literal text).run c k = none := by
    intro text x chars k htext hparen hindex
    refine run_literal_eq_none htext ?_
    rcases head?_of_isBrackets hw hrest with h | h <;> rw [h] <;> simpa using Ne.symm ‹_›
  have hgroup :
      (literal "?." ||| literal ".").run c (fun c' => k (c'.record 1 c.offset)) = none := by
    rw [run_or_eq_right (hnone (x := '?') _ rfl (by decide) (by decide))]
    exact hnone (x := '.') _ rfl (by decide) (by decide)
  exact run_or_eq_right (p := .group 1 (literal "?." ||| literal ".")) (q := .empty) hgroup

/-- Where a link starts that no name goes on behind, its pattern matches
this link, with its accessor and its part as groups. -/
theorem matchAt?_link {l : Link} (hl : l.IsWritten) (hgroups : c.groups = [])
    (hrest : c.rest = l.text ++ rest) (hend : EndsName rest) :
    ∃ c', linkParts.matchAt? c = some c' ∧ c'.offset = c.offset + l.text.length
      ∧ c'.groups = ⟨2, c.offset + (l.accessor.getD []).length, c.offset + l.text.length⟩
        :: (l.accessor.map fun a => ⟨1, c.offset, c.offset + a.length⟩).toList := by
  have hpart : ∀ (b : Cursor) (w : List Char), IsPart w → b.rest = w ++ rest →
      (Pattern.group 2 part).run b some = some ((b.behind w rest).record 2 b.offset) :=
    fun b w hw hb => run_part hw hb hend rfl
  have haccessed : ∀ a w : List Char, a = ['.'] ∨ a = ['?', '.'] → IsPart w →
      c.rest = a ++ (w ++ rest) → linkParts.matchAt? c
        = some ((((c.behind a (w ++ rest)).record 1 c.offset).behind w rest).record 2
          (c.offset + a.length)) :=
    fun a w ha hw hrest => run_accessor ha hrest (hpart _ w hw rfl)
  cases hl with
  | member hw =>
    refine ⟨_, haccessed _ _ (.inl rfl) (.inl hw) hrest, ?_, ?_⟩ <;>
      simp [Cursor.record, Link.text, hgroups, Nat.add_comm, Nat.add_left_comm]
  | brackets hw =>
    refine ⟨_, (run_accessor_of_isBrackets hw hrest).trans (hpart c _ (.inr hw) hrest), ?_, ?_⟩ <;>
      simp [Cursor.record, Link.text, hgroups]
  | optional hw =>
    refine ⟨_, haccessed _ _ (.inr rfl) hw hrest, ?_, ?_⟩ <;>
      simp [Cursor.record, Link.text, hgroups, Nat.add_comm, Nat.add_left_comm]

end Matching

/-! ### All links -/

theorem findFrom?_link {l : Link} {text rest : List Char} {offset : Nat} (hl : l.IsWritten)
    (hrest : text.drop offset = l.text ++ rest) (hend : EndsName rest) :
    ∃ m, linkParts.findFrom? text offset = some m ∧ m.start = offset
      ∧ m.stop = offset + l.text.length
      ∧ (⟨m.groupText? text 1, (m.groupText? text 2).getD []⟩ : Link) = l := by
  obtain ⟨c, hc, hstop, hgroups⟩ :=
    matchAt?_link (c := Cursor.ofOffset text offset) hl rfl hrest hend
  refine ⟨⟨offset, c.offset, c.groups⟩, search?_of_matchAt? hc, rfl, hstop, ?_⟩
  obtain ⟨accessor, part⟩ := l
  cases accessor with
  | none => simpa [Match.groupText?, Match.group?, hgroups, Link.text] using slice_of_drop hrest
  | some a =>
    have haccessed : text.drop offset = a ++ (part ++ rest) := by
      simpa [Link.text] using hrest
    have hpart := slice_of_drop (drop_add_of_drop haccessed)
    simpa [Match.groupText?, Match.group?, hgroups, Link.text, ← Nat.add_assoc, hpart]
      using slice_of_drop haccessed

theorem head_written {ls : List Link} (hls : ∀ l ∈ ls, l.IsWritten) :
    ∀ x, (written ls).head? = some x → isBaseChar x = false := by
  cases ls with
  | nil => exact nofun
  | cons l ls =>
    intro x hx
    obtain ⟨y, hy, hbase⟩ := (hls l List.mem_cons_self).head (written ls)
    rw [written_cons, hy] at hx
    cases hx
    exact hbase

theorem endsName_written {ls : List Link} (hls : ∀ l ∈ ls, l.IsWritten) :
    EndsName (written ls) := by
  intro x hx
  refine Bool.eq_false_iff.mpr fun hpart => ?_
  have hbase := head_written hls x hx
  rw [isBaseChar_of_isNamePart hpart] at hbase
  cases hbase

theorem Link.IsWritten.length_pos {l : Link} (hl : l.IsWritten) : 0 < l.text.length := by
  obtain ⟨x, hx, -⟩ := hl.head []
  rw [List.append_nil] at hx
  refine List.length_pos_iff.mpr fun hnil => ?_
  rw [hnil] at hx
  cases hx

theorem allFrom_links {text : List Char} {ls : List Link} {offset : Nat}
    (hls : ∀ l ∈ ls, l.IsWritten) (hrest : text.drop offset = written ls)
    (hle : offset ≤ text.length) :
    (linkParts.allFrom text offset).map
      (fun m => (⟨m.groupText? text 1, (m.groupText? text 2).getD []⟩ : Link)) = ls := by
  induction ls generalizing offset with
  | nil =>
    -- every match takes at least one character, and none are left
    have hnone : linkParts.findFrom? text offset = none := by
      rw [Option.eq_none_iff_forall_ne_some]
      intro m hm
      have hlength := findFrom?_some hle hm
      have hone : 1 ≤ linkParts.minLength := by decide
      have hend : text.length ≤ offset := List.drop_eq_nil_iff.mp hrest
      omega
    rw [allFrom, if_pos hle, hnone]
    rfl
  | cons l ls ih =>
    obtain ⟨hl, hmore⟩ := List.forall_mem_cons.mp hls
    rw [written_cons] at hrest
    obtain ⟨m, hm, hstart, hstop, hlink⟩ := findFrom?_link hl hrest (endsName_written hmore)
    have hpos := hl.length_pos
    have hnext : max (offset + 1) (if m.start < m.stop then m.stop else m.stop + 1)
        = offset + l.text.length := by
      rw [if_pos (by omega), hstop]
      omega
    rw [allFrom, if_pos hle, hm]
    simp only [List.map_cons, hlink, hnext]
    rw [ih hmore (drop_add_of_drop hrest) (length_of_drop hrest (List.length_pos_iff.mp hpos))]

theorem takeWhile_written {ls : List Link} (hls : ∀ l ∈ ls, l.IsWritten) :
    (written ls).takeWhile isBaseChar = [] := by
  have hhead := head_written hls
  cases hwritten : written ls with
  | nil => rfl
  | cons x rest =>
    have hx : isBaseChar x = false := hhead x (by rw [hwritten]; rfl)
    rw [List.takeWhile_cons, hx]
    rfl

/-- **Taking a chain apart gives its name.** -/
theorem base_text (c : Chain) : base c.text = c.name := by
  have hname : ∀ x ∈ c.name, isBaseChar x = true :=
    fun x hx => isBaseChar_of_isNamePart (c.isName.isNamePart x hx)
  rw [base, Chain.text, List.takeWhile_append_of_pos hname, takeWhile_written c.areWritten,
    List.append_nil]

/-- **Taking a chain apart gives its links.** -/
theorem links_text (c : Chain) : links c.text = c.links := by
  have hrest : c.text.dropWhile isBaseChar = written c.links := by
    have hwhole := List.takeWhile_append_dropWhile (p := isBaseChar) (l := c.text)
    rw [← base, base_text] at hwhole
    exact List.append_cancel_left hwhole
  rw [links, hrest]
  exact allFrom_links c.areWritten rfl (Nat.zero_le _)

example : links "a?.b[i](x)".toList
    = [⟨some "?.".toList, "b".toList⟩, ⟨none, "[i]".toList⟩, ⟨none, "(x)".toList⟩] := by
  decide +kernel

/-! ## Literals of a chain -/

section Literals

variable {text rest : List Char} {s : Span} {p : Nat}

theorem carries_link {l : Link} (hl : l.IsWritten) (hp : (ofText text).InCode p)
    (hpair : (ofText text).BracketsPair s) (hrest : text.drop p = l.text ++ rest)
    (hstart : s.start ≤ p) (hstop : p + l.text.length ≤ s.stop) :
    (ofText text).Carries p (p + l.text.length) [l.part] := by
  have haccessed : ∀ a w : List Char, Segment.IsPlain a → IsPart w →
      text.drop p = a ++ (w ++ rest) → p + (a ++ w).length ≤ s.stop →
      (ofText text).Carries p (p + (a ++ w).length) [w] := by
    intro a w ha hw hrest hstop
    have haccessor := Carries.plain hp hrest ha
    have hleads : (ofText text).LeadsToCode s w :=
      hw.elim (fun hname => .plain (isPlain_of_isName hname)) (.brackets hpair)
    rw [List.length_append, ← Nat.add_assoc] at hstop ⊢
    exact haccessor.trans
      (.part haccessor.ends hleads (drop_add_of_drop hrest) (by omega) hstop)
  cases hl with
  | member hw => exact haccessed ['.'] _ (by decide) (.inl hw) hrest hstop
  | brackets hw => exact haccessed [] _ nofun (.inr hw) hrest hstop
  | optional hw => exact haccessed ['?', '.'] _ (by decide) hw hrest hstop

theorem carries_links {ls : List Link} (hls : ∀ l ∈ ls, l.IsWritten)
    (hp : (ofText text).InCode p) (hpair : (ofText text).BracketsPair s)
    (hrest : text.drop p = written ls ++ rest) (hstart : s.start ≤ p)
    (hstop : p + (written ls).length ≤ s.stop) :
    (ofText text).Carries p (p + (written ls).length) (ls.map Link.part) := by
  induction ls generalizing p with
  | nil => exact .plain hp hrest nofun
  | cons l ls ih =>
    obtain ⟨hl, hmore⟩ := List.forall_mem_cons.mp hls
    rw [written_cons, List.append_assoc] at hrest
    rw [written_cons, List.length_append, ← Nat.add_assoc] at hstop ⊢
    have hfirst := carries_link hl hp hpair hrest hstart (by omega)
    exact hfirst.trans (ih hmore hfirst.ends (drop_add_of_drop hrest) (by omega) hstop)

/-- Where its brackets pair, a chain carries its literals in the parts of its
links. -/
theorem Chain.carries (c : Chain) (hp : (ofText text).InCode p)
    (hpair : (ofText text).BracketsPair s) (hrest : text.drop p = c.text ++ rest)
    (hstart : s.start ≤ p) (hstop : p + c.text.length ≤ s.stop) :
    (ofText text).Carries p (p + c.text.length) (c.links.map Link.part) := by
  rw [Chain.text, List.append_assoc] at hrest
  rw [Chain.text, List.length_append, ← Nat.add_assoc] at hstop ⊢
  have hname := Carries.plain hp hrest (isPlain_of_isName c.isName)
  exact hname.trans
    (carries_links c.areWritten hname.ends hpair (drop_add_of_drop hrest) (by omega) hstop)

end Literals

/-! ## Parts in a guard chain -/

theorem infix_intercalate {α : Type} {part : List α} {parts : List (List α)} (sep : List α)
    (h : part ∈ parts) : part <:+: List.intercalate sep parts := by
  induction parts with
  | nil => cases h
  | cons first more ih =>
    cases more with
    | nil =>
      obtain rfl := List.mem_singleton.mp h
      simp
    | cons second more =>
      rw [List.intercalate_cons_cons, List.append_assoc]
      rcases List.mem_cons.mp h with rfl | h
      · exact (List.prefix_append _ _).isInfix
      · rw [← List.append_assoc]
        exact (ih h).trans (List.suffix_append _ _).isInfix

/-- The last guard is the whole plain chain. -/
theorem plain_mem_guards (current : List Char) (ls : List Link) :
    current ++ ls.flatMap Link.plain ∈ guards current ls := by
  induction ls generalizing current with
  | nil => simp [guards]
  | cons l ls ih =>
    have hlater := ih (current ++ l.plain)
    rw [List.append_assoc, ← List.flatMap_cons] at hlater
    rw [guards]
    split
    · exact List.mem_cons_of_mem current hlater
    · exact hlater

theorem part_infix_plain (l : Link) : l.part <:+: l.plain := by
  rw [Link.plain]
  split
  · exact (List.suffix_cons _ _).isInfix
  · exact List.infix_rfl

/-- No part of a link is lost among the guards. -/
theorem part_infix_guardChain {c : Chain} {l : Link} (hl : l ∈ c.links) :
    l.part <:+: guardChain c.text := by
  have hplain : l.plain <:+: c.links.flatMap Link.plain :=
    List.infix_of_mem_flatten (List.mem_map_of_mem hl)
  have hwhole : l.part <:+: c.name ++ c.links.flatMap Link.plain :=
    (part_infix_plain l).trans (hplain.trans (List.suffix_append c.name _).isInfix)
  have hguard := infix_intercalate " && ".toList (plain_mem_guards c.name c.links)
  rw [guardChain, base_text, links_text]
  have hopening :=
    (List.suffix_cons '(' (List.intercalate " && ".toList (guards c.name c.links))).isInfix
  exact hwhole.trans (hguard.trans (hopening.trans (List.prefix_append _ [')']).isInfix))

end Downlevel.Code.OptionalAccess
