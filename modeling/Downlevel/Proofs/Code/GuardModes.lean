/-
Downlevel.Proofs.Code.GuardModes — where a guard chain takes the reader.

A guard chain repeats the parts of its chain. As far as brackets pair, each of
them is read from code to code (`scan_parts`), and so is every guard made of
them. So the reader of the new text comes to the end of a replacement as the
reader of the old one did (`scan_replacement`), and both read what follows in
the same way (`scan_patch`).
-/
import Downlevel.Proofs.Code.Chain
import Downlevel.Proofs.Code.Patched

namespace Downlevel.Code.OptionalAccess

open Pattern (IsName IsBrackets)

/-! ## Parts -/

section Parts

variable {text w rest : List Char} {p : Nat} {s : Span} {ls : List Link}

theorem scan_brackets (hw : IsBrackets w) (hpair : (ofText text).BracketsPair s)
    (hp : modeAt text p = .code) (hrest : text.drop p = w ++ rest) (hstart : s.start ≤ p)
    (hstop : p + w.length ≤ s.stop) : Mode.code.scan w = .code := by
  obtain ⟨o, body, cl, rfl, ho, hcl⟩ := exists_ends_of_isBrackets hw
  have hopens : (ofText text).InCode p :=
    (inCode_iff_modeAt (by rw [hrest]; rfl) (Mode.isPending_of_isMild ho)).mpr (by rw [hp]; rfl)
  have hfrom : text.drop p = (o :: body) ++ (cl :: rest) := by
    rw [hrest]
    simp
  have hslice : Pattern.slice text p (p + (o :: body).length + 1) = o :: (body ++ [cl]) := by
    simpa [Nat.add_assoc] using slice_of_drop hrest
  simp only [List.length_cons, List.length_append, List.length_nil] at hstop
  -- the closing bracket stands in code, so nothing in the brackets is still open
  have hcloses : (ofText text).InCode (p + (o :: body).length) :=
    hpair p _ hstart (by rw [List.length_cons]; omega) (hslice ▸ hw) hopens
  rw [inCode_iff_modeAt (drop_add_of_drop hfrom) (Mode.isPending_of_isMild hcl), modeAt_add hfrom,
    hp] at hcloses
  rw [← List.cons_append, Mode.scan_append, Mode.scan_cons, Mode.scan_nil, Mode.next_of_mild hcl,
    Mode.settle_of_isCode hcloses]

theorem scan_part (hw : IsPart w) (hpair : (ofText text).BracketsPair s)
    (hp : modeAt text p = .code) (hrest : text.drop p = w ++ rest) (hstart : s.start ≤ p)
    (hstop : p + w.length ≤ s.stop) : Mode.code.scan w = .code := by
  rcases hw with hname | hbrackets
  · exact Mode.scan_of_plain (isPlain_of_isName hname)
  · exact scan_brackets hbrackets hpair hp hrest hstart hstop

theorem Link.IsWritten.isPart {l : Link} (hl : l.IsWritten) : IsPart l.part := by
  cases hl with
  | member hw => exact .inl hw
  | brackets hw => exact .inr hw
  | optional hw => exact hw

theorem Link.IsWritten.isPlain_accessor {l : Link} (hl : l.IsWritten) :
    Segment.IsPlain (l.accessor.getD []) := by
  cases hl with
  | member => exact (by decide : Segment.IsPlain ['.'])
  | brackets => exact nofun
  | optional => exact (by decide : Segment.IsPlain ['?', '.'])

/-- **Every part of a chain is read from code to code**, as far as brackets
pair. -/
theorem scan_parts (hls : ∀ l ∈ ls, l.IsWritten) (hpair : (ofText text).BracketsPair s)
    (hp : modeAt text p = .code) (hrest : text.drop p = written ls ++ rest) (hstart : s.start ≤ p)
    (hstop : p + (written ls).length ≤ s.stop) : ∀ l ∈ ls, Mode.code.scan l.part = .code := by
  induction ls generalizing p with
  | nil => exact List.forall_mem_nil _
  | cons l ls ih =>
    obtain ⟨hl, hmore⟩ := List.forall_mem_cons.mp hls
    rw [written_cons, Link.text, List.append_assoc, List.append_assoc] at hrest
    rw [written_cons, Link.text, List.length_append, List.length_append] at hstop
    have haccessed := modeAt_add hrest
    rw [hp, Mode.scan_of_plain hl.isPlain_accessor] at haccessed
    have hbehind := drop_add_of_drop hrest
    have hpart := scan_part hl.isPart hpair haccessed hbehind (by omega) (by omega)
    have hnext := modeAt_add hbehind
    rw [haccessed, hpart] at hnext
    exact List.forall_mem_cons.mpr
      ⟨hpart, ih hmore hnext (drop_add_of_drop hbehind) (by omega) (by omega)⟩

end Parts

/-! ## Chains and guards -/

section Guards

variable {ls : List Link} {current : List Char} {gs : List (List Char)} {c : Chain} {m : Mode}

theorem scan_written (hls : ∀ l ∈ ls, l.IsWritten)
    (hparts : ∀ l ∈ ls, Mode.code.scan l.part = .code) : Mode.code.scan (written ls) = .code := by
  induction ls with
  | nil => rfl
  | cons l ls ih =>
    obtain ⟨hl, hmore⟩ := List.forall_mem_cons.mp hls
    obtain ⟨hpart, hlater⟩ := List.forall_mem_cons.mp hparts
    rw [written_cons, Link.text, Mode.scan_append, Mode.scan_append,
      Mode.scan_of_plain hl.isPlain_accessor, hpart, ih hmore hlater]

theorem scan_plain {l : Link} (h : Mode.code.scan l.part = .code) :
    Mode.code.scan l.plain = .code := by
  rw [Link.plain]
  split
  · exact h
  · exact h

theorem scan_guards (hcurrent : Mode.code.scan current = .code)
    (hparts : ∀ l ∈ ls, Mode.code.scan l.part = .code) :
    ∀ g ∈ guards current ls, Mode.code.scan g = .code := by
  induction ls generalizing current with
  | nil => exact List.forall_mem_singleton.mpr hcurrent
  | cons l ls ih =>
    obtain ⟨hpart, hlater⟩ := List.forall_mem_cons.mp hparts
    have hnext := @ih (current ++ l.plain)
      (by rw [Mode.scan_append, hcurrent, scan_plain hpart]) hlater
    rw [guards]
    split
    · exact List.forall_mem_cons.mpr ⟨hcurrent, hnext⟩
    · exact hnext

theorem scan_conjunction (h : ∀ g ∈ gs, Mode.code.scan g = .code) :
    Mode.code.scan (List.intercalate " && ".toList gs) = .code := by
  induction gs with
  | nil => rfl
  | cons g gs ih =>
    obtain ⟨hg, hmore⟩ := List.forall_mem_cons.mp h
    cases gs with
    | nil => simpa using hg
    | cons g' gs =>
      rw [List.intercalate_cons_cons, Mode.scan_append, Mode.scan_append, hg,
        Mode.scan_of_plain (by decide), ih hmore]

theorem scan_name (hm : m.isCode = true) (hname : IsName current) : m.scan current = .code := by
  have hne : current ≠ [] := by
    obtain ⟨x, rest, rfl, -⟩ := hname
    exact List.cons_ne_nil x rest
  rw [Mode.scan_of_mild (fun x hx => Mode.isMild_of_isNamePart (hname.isNamePart x hx)) hne,
    Mode.settle_of_isCode hm]

theorem Chain.scan_text (hm : m.isCode = true)
    (hparts : ∀ l ∈ c.links, Mode.code.scan l.part = .code) : m.scan c.text = .code := by
  rw [Chain.text, Mode.scan_append, scan_name hm c.isName, scan_written c.areWritten hparts]

theorem Chain.scan_guardChain (hm : m.isCode = true)
    (hparts : ∀ l ∈ c.links, Mode.code.scan l.part = .code) :
    m.scan (guardChain c.text) = .code := by
  have hguards := scan_guards (scan_name rfl c.isName) hparts
  rw [guardChain, base_text, links_text, List.cons_append, Mode.scan_cons,
    Mode.next_of_mild (by decide), Mode.settle_of_isCode hm, Mode.scan_append,
    scan_conjunction hguards]
  rfl

end Guards

/-! ## Replacements -/

section Replacements

variable {text : List Char} {replacements : List Replacement}

/-- **A guard chain takes the reader where its chain did.** -/
theorem scan_replacement (h : replacements? (ofText text) = some replacements) {r : Replacement}
    (hr : r ∈ replacements) (hpair : (ofText text).BracketsPair r.span) :
    (modeAt text r.span.start).scan r.text = modeAt text r.span.stop := by
  obtain ⟨c, rest, hrest, hstop, htext, hcode⟩ := exists_of_replacements? h hr
  have hm : (modeAt text r.span.start).isCode = true := by
    obtain ⟨x, more, hname, hx, -⟩ := c.isName
    have hhead : text.drop r.span.start = x :: (more ++ written c.links ++ rest) := by
      rw [hrest, Chain.text, hname]
      rfl
    exact (inCode_iff_modeAt hhead (Mode.isPending_of_isMild
      (Mode.isMild_of_isNamePart (Pattern.isNamePart_of_isNameStart hx)))).mp hcode
  have hparts : ∀ l ∈ c.links, Mode.code.scan l.part = .code := by
    have hlinks : text.drop r.span.start = c.name ++ (written c.links ++ rest) := by
      rw [hrest, Chain.text, List.append_assoc]
    refine scan_parts c.areWritten hpair ?_ (drop_add_of_drop hlinks) (Nat.le_add_right _ _) ?_
    · rw [modeAt_add hlinks, scan_name hm c.isName]
    · exact Nat.le_of_eq (by rw [hstop, Chain.text, List.length_append, Nat.add_assoc])
  rw [htext, hstop, modeAt_add hrest, c.scan_text hm hparts, c.scan_guardChain hm hparts]

/-- So the reader of the result ends as the reader of the text does. -/
theorem scan_patch (h : replacements? (ofText text) = some replacements)
    (hpair : ∀ r ∈ replacements, (ofText text).BracketsPair r.span) :
    Mode.code.scan ((ofText text).patch replacements) = Mode.code.scan text :=
  scan_patchFrom (inOrder_of_replacementsFrom? h) fun r hr => scan_replacement h hr (hpair r hr)

end Replacements

end Downlevel.Code.OptionalAccess
