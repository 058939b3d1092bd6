/-
Downlevel.Proofs.Code.Constructs — where the construct of a rule stands.

`StandsAt` describes the construct of each rule at a place, from the character
before the place and the text from there on; `OccursIn` asks for such a place in
the code of a text.

Reading a text with modes turns this into a statement on its parts.
`CleanOn` says that no construct starts within a part that is read from a given
mode, and parts are put together (`cleanOn_append`). A part of a clean text
stays clean when it is moved to another place (`CleanOn.move`), as long as
the reader comes to it in the same way (`InStep`) and a construct that starts at
its end does so there as well.
-/
import Downlevel.Code.Degradation
import Downlevel.Proofs.Code.Modes
import Downlevel.Proofs.Text.CharClass

namespace Downlevel

/-! ## Constructs -/

namespace Degradation

/-- The construct of a rule, at a place with this character before it and this
text from there on: an optional link, but not before a digit, where it is
a conditional; the operator for defaults, but not its assignment; a declaring
keyword with a blank behind it; an arrow. -/
def StandsAt : Degradation → Option Char → List Char → Prop
  | .optionalMemberAccess, _, rest =>
    ∃ after, rest = '?' :: '.' :: after ∧ ∀ c, after.head? = some c → Text.isDigit c = false
  | .nullishCoalescing, _, rest => ∃ after, rest = '?' :: '?' :: after ∧ after.head? ≠ some '='
  | .declarationKeywords, before, rest =>
    before.any Text.isWord = false ∧ ∃ keyword blank after,
      (keyword = "const".toList ∨ keyword = "let".toList) ∧ rest = keyword ++ blank :: after
        ∧ Text.isBlank blank = true
  | .arrowFunctions, _, rest => ∃ after, rest = '=' :: '>' :: after

/-- The construct stands somewhere in the code of a text. -/
def OccursIn (rule : Degradation) (text : List Char) : Prop :=
  ∃ u v, text = u ++ v ∧ (Code.ofText text).InCode u.length ∧ rule.StandsAt u.getLast? v

/-- `StandsAt`, computed. -/
def stands : Degradation → Option Char → List Char → Bool
  | .optionalMemberAccess, _, rest =>
    "?.".toList.isPrefixOf rest && !(rest.drop 2).head?.any Text.isDigit
  | .nullishCoalescing, _, rest => "??".toList.isPrefixOf rest && (rest.drop 2).head? != some '='
  | .declarationKeywords, before, rest =>
    !before.any Text.isWord && ["const".toList, "let".toList].any fun keyword =>
      keyword.isPrefixOf rest && (rest.drop keyword.length).head?.any Text.isBlank
  | .arrowFunctions, _, rest => "=>".toList.isPrefixOf rest

theorem stands_iff {rule : Degradation} {before : Option Char} {rest : List Char} :
    rule.stands before rest = true ↔ rule.StandsAt before rest := by
  have hstarts : ∀ (word : List Char) (P : List Char → Prop),
      (word.isPrefixOf rest = true ∧ P (rest.drop word.length))
        ↔ ∃ after, rest = word ++ after ∧ P after := by
    intro word P
    rw [List.isPrefixOf_iff_prefix]
    constructor
    · rintro ⟨⟨after, rfl⟩, hafter⟩
      exact ⟨after, rfl, by rwa [List.drop_left' rfl] at hafter⟩
    · rintro ⟨after, rfl, hafter⟩
      exact ⟨List.prefix_append word after, by rwa [List.drop_left' rfl]⟩
  cases rule with
  | optionalMemberAccess =>
    rw [stands, Bool.and_eq_true]
    refine (hstarts ['?', '.'] fun after => (!after.head?.any Text.isDigit) = true).trans ?_
    simp [StandsAt, Option.any_eq_false]
  | nullishCoalescing =>
    rw [stands, Bool.and_eq_true]
    refine (hstarts ['?', '?'] fun after => (after.head? != some '=') = true).trans ?_
    simp [StandsAt]
  | declarationKeywords =>
    have hblank : ∀ keyword : List Char, (keyword.isPrefixOf rest
        && (rest.drop keyword.length).head?.any Text.isBlank) = true
        ↔ ∃ blank after, rest = keyword ++ blank :: after ∧ Text.isBlank blank = true := by
      intro keyword
      rw [Bool.and_eq_true]
      refine (hstarts keyword fun after => after.head?.any Text.isBlank = true).trans ?_
      constructor
      · rintro ⟨after, hafter, hblank⟩
        cases after with
        | nil => cases hblank
        | cons blank after => exact ⟨blank, after, hafter, hblank⟩
      · rintro ⟨blank, after, hafter, hblank⟩
        exact ⟨blank :: after, hafter, hblank⟩
    rw [stands, Bool.and_eq_true, Bool.not_eq_true', StandsAt]
    simp only [List.any_cons, List.any_nil, Bool.or_false, Bool.or_eq_true, hblank, or_and_right,
      exists_or, exists_and_left, exists_eq_left]
  | arrowFunctions =>
    rw [stands, List.isPrefixOf_iff_prefix]
    exact ⟨fun ⟨after, h⟩ => ⟨after, h.symm⟩, fun ⟨after, h⟩ => ⟨after, h.symm⟩⟩

instance (code : Code) (offset : Nat) : Decidable (code.InCode offset) :=
  inferInstanceAs (Decidable (code.literalAt? offset = none))

theorem occursIn_iff {rule : Degradation} {text : List Char} :
    (List.range (text.length + 1)).any (fun n => rule.stands (text.take n).getLast? (text.drop n)
      && ((Code.ofText text).literalAt? n).isNone) = true ↔ rule.OccursIn text := by
  simp only [List.any_eq_true, Bool.and_eq_true, stands_iff, Option.isNone_iff_eq_none]
  constructor
  · rintro ⟨n, hn, hstands, hcode⟩
    have hle : n ≤ text.length := Nat.le_of_lt_succ (List.mem_range.mp hn)
    refine ⟨text.take n, text.drop n, (List.take_append_drop n text).symm, ?_, hstands⟩
    rwa [List.length_take_of_le hle]
  · rintro ⟨u, v, rfl, hcode, hstands⟩
    refine ⟨u.length, List.mem_range.mpr (by rw [List.length_append]; omega), ?_, hcode⟩
    rwa [List.take_left' rfl, List.drop_left' rfl]

instance (rule : Degradation) (text : List Char) : Decidable (rule.OccursIn text) :=
  decidable_of_iff _ occursIn_iff

/-- The characters that constructs start with. -/
def isStarter (c : Char) : Bool := c == '?' || c == 'c' || c == 'l' || c == '='

variable {rule : Degradation} {p q : Option Char} {c : Char} {w rest rest' : List Char}

theorem StandsAt.exists_starter (h : rule.StandsAt p rest) :
    ∃ c more, rest = c :: more ∧ isStarter c = true := by
  cases rule with
  | optionalMemberAccess =>
    obtain ⟨after, rfl, -⟩ := h
    exact ⟨'?', _, rfl, rfl⟩
  | nullishCoalescing =>
    obtain ⟨after, rfl, -⟩ := h
    exact ⟨'?', _, rfl, rfl⟩
  | declarationKeywords =>
    obtain ⟨-, keyword, blank, after, rfl | rfl, rfl, -⟩ := h
    · exact ⟨'c', _, rfl, rfl⟩
    · exact ⟨'l', _, rfl, rfl⟩
  | arrowFunctions =>
    obtain ⟨after, rfl⟩ := h
    exact ⟨'=', _, rfl, rfl⟩

theorem not_standsAt_of_not_isStarter (h : isStarter c = false) :
    ¬ rule.StandsAt p (c :: rest) := by
  intro hstands
  obtain ⟨d, more, hd, hstarter⟩ := hstands.exists_starter
  obtain ⟨rfl, -⟩ := List.cons.inj hd
  exact Bool.false_ne_true (h.symm.trans hstarter)

theorem isStarter_eq_false_of_isBlank (h : Text.isBlank c = true) : isStarter c = false := by
  refine Bool.eq_false_iff.mpr fun hstarter => ?_
  have hcases : c = '?' ∨ c = 'c' ∨ c = 'l' ∨ c = '=' := by
    simpa [isStarter, or_assoc] using hstarter
  rcases hcases with rfl | rfl | rfl | rfl <;> exact absurd h (by decide)

theorem isPending_of_isStarter (h : isStarter c = true) : Code.Mode.isPending c = false := by
  have hcases : c = '?' ∨ c = 'c' ∨ c = 'l' ∨ c = '=' := by
    simpa [isStarter, or_assoc] using h
  rcases hcases with rfl | rfl | rfl | rfl <;> decide

/-- Only whether a word ends before a place matters. -/
theorem StandsAt.of_before (h : rule.StandsAt p rest)
    (hword : p.any Text.isWord = q.any Text.isWord) : rule.StandsAt q rest := by
  cases rule with
  | declarationKeywords => exact ⟨hword ▸ h.1, h.2⟩
  | _ => exact h

/-! ### What follows a part -/

/-- A word at the start of a text does not reach over a character that it does
not go on with. -/
theorem exists_of_append_eq {k w rest after : List Char} {c : Char}
    (h : w ++ c :: rest = k ++ after) (hw : w ≠ []) (hc : c ∉ k.tail) :
    ∃ more, w = k ++ more ∧ after = more ++ c :: rest := by
  rcases List.append_eq_append_iff.mp h with ⟨more, hk, hrest⟩ | ⟨more, hmore, hafter⟩
  · cases more with
    | nil => exact ⟨[], by rw [hk, List.append_nil, List.append_nil], by rw [hrest]; rfl⟩
    | cons d more =>
      obtain ⟨rfl, -⟩ := List.cons.inj hrest
      cases w with
      | nil => exact absurd rfl hw
      | cons x w => exact absurd (by rw [hk]; simp) hc
  · exact ⟨more, hmore, hafter⟩

/-- Characters that no construct goes on with behind its first one. -/
def isBreak (c : Char) : Bool := !(Text.isBlank c || "?.onste>".toList.contains c)

/-- **A construct at the end of a part** does not reach over a character that
breaks it. So it stood there before, unless what followed the part excused
it. -/
theorem StandsAt.of_break (h : rule.StandsAt p (w ++ c :: rest)) (hw : w ≠ [])
    (hc : isBreak c = true)
    (hrest : ∀ d, rest'.head? = some d → Text.isDigit d = false ∧ d ≠ '=') :
    rule.StandsAt p (w ++ rest') := by
  obtain ⟨hblank, hletters⟩ : Text.isBlank c = false ∧ c ≠ '?' ∧ c ≠ '.' ∧ c ≠ 'o' ∧ c ≠ 'n'
      ∧ c ≠ 's' ∧ c ≠ 't' ∧ c ≠ 'e' ∧ c ≠ '>' := by
    simpa [isBreak, and_assoc] using hc
  cases rule with
  | optionalMemberAccess =>
    obtain ⟨after, hafter, hdigit⟩ := h
    obtain ⟨more, rfl, rfl⟩ := exists_of_append_eq (k := ['?', '.']) hafter hw (by simp [hletters])
    refine ⟨more ++ rest', rfl, ?_⟩
    cases more with
    | nil => exact fun d hd => (hrest d hd).1
    | cons d more => exact hdigit
  | nullishCoalescing =>
    obtain ⟨after, hafter, hassign⟩ := h
    obtain ⟨more, rfl, rfl⟩ := exists_of_append_eq (k := ['?', '?']) hafter hw (by simp [hletters])
    refine ⟨more ++ rest', rfl, ?_⟩
    cases more with
    | nil => exact fun hd => (hrest _ hd).2 rfl
    | cons d more => exact hassign
  | declarationKeywords =>
    obtain ⟨hbefore, keyword, blank, after, hkeyword, hafter, hblank'⟩ := h
    have hne : c ≠ blank := by
      rintro rfl
      exact Bool.false_ne_true (hblank.symm.trans hblank')
    have htail : c ∉ (keyword ++ [blank]).tail := by
      rcases hkeyword with rfl | rfl <;> simp [hne, hletters]
    rw [List.append_cons keyword] at hafter
    obtain ⟨more, rfl, rfl⟩ := exists_of_append_eq hafter hw htail
    exact ⟨hbefore, keyword, blank, more ++ rest', hkeyword, by simp, hblank'⟩
  | arrowFunctions =>
    obtain ⟨after, hafter⟩ := h
    obtain ⟨more, rfl, rfl⟩ := exists_of_append_eq (k := ['=', '>']) hafter hw (by simp [hletters])
    exact ⟨more ++ rest', rfl⟩

/-- A name in front of a parenthesis holds no construct. -/
theorem not_standsAt_of_isNamePart (hw : ∀ d ∈ w, Pattern.isNamePart d = true) (hne : w ≠ []) :
    ¬ rule.StandsAt p (w ++ ')' :: rest) := by
  intro h
  have hhead : ∀ {x : Char} {after : List Char}, Pattern.isNamePart x = false →
      w ++ ')' :: rest ≠ x :: after := by
    intro x after hx hafter
    cases w with
    | nil => exact hne rfl
    | cons d w =>
      obtain ⟨rfl, -⟩ := List.cons.inj hafter
      exact Bool.false_ne_true (hx.symm.trans (hw d List.mem_cons_self))
  cases rule with
  | optionalMemberAccess =>
    obtain ⟨after, hafter, -⟩ := h
    exact hhead (by decide) hafter
  | nullishCoalescing =>
    obtain ⟨after, hafter, -⟩ := h
    exact hhead (by decide) hafter
  | declarationKeywords =>
    obtain ⟨-, keyword, blank, after, hkeyword, hafter, hblank⟩ := h
    have hparen : ')' ≠ blank := by
      rintro rfl
      exact absurd hblank (by decide)
    have htail : ')' ∉ (keyword ++ [blank]).tail := by
      rcases hkeyword with rfl | rfl <;> simp [hparen]
    rw [List.append_cons keyword] at hafter
    obtain ⟨more, rfl, -⟩ := exists_of_append_eq hafter hne htail
    have hpart := Pattern.isBlank_eq_false_of_isNamePart (hw blank (by simp))
    exact Bool.false_ne_true (hpart.symm.trans hblank)
  | arrowFunctions =>
    obtain ⟨after, hafter⟩ := h
    exact hhead (by decide) hafter

theorem not_standsAt_ct : ¬ rule.StandsAt p ('c' :: 't' :: rest) := by
  cases rule with
  | declarationKeywords =>
    rintro ⟨-, keyword, blank, after, rfl | rfl, hafter, -⟩ <;> simp at hafter
  | _ =>
    rintro ⟨after, hafter⟩
    simp at hafter

end Degradation

namespace Code

open Degradation (isStarter)

variable {rule : Degradation} {m m' : Mode} {p p' : Option Char} {c : Char}
  {u v after after' : List Char}

/-! ## Clean parts -/

/-- No construct starts in code within a part `u` that is read from mode `m`,
with `p` before it and `after` behind it. -/
def CleanOn (rule : Degradation) (m : Mode) (p : Option Char) (u after : List Char) : Prop :=
  ∀ v w, u = v ++ w → w ≠ [] → (m.scan v).isCode = true →
    ¬ rule.StandsAt (v.getLast?.or p) (w ++ after)

theorem cleanOn_append : CleanOn rule m p (u ++ v) after ↔ CleanOn rule m p u (v ++ after)
    ∧ CleanOn rule (m.scan u) (u.getLast?.or p) v after := by
  constructor
  · refine fun h => ⟨fun x y hu hy hx => ?_, fun x y hv hy hx => ?_⟩
    · have hall := h x (y ++ v) (by rw [hu, List.append_assoc])
        (fun hnil => hy (List.append_eq_nil_iff.mp hnil).1) hx
      rwa [List.append_assoc] at hall
    · have hall := h (u ++ x) y (by rw [hv, List.append_assoc]) hy (by rwa [Mode.scan_append])
      rwa [List.getLast?_append, Option.or_assoc] at hall
  · rintro ⟨hu, hv⟩ x y huv hy hx
    rcases List.append_eq_append_iff.mp huv with ⟨more, rfl, rfl⟩ | ⟨more, rfl, rfl⟩
    · rw [Mode.scan_append] at hx
      rw [List.getLast?_append, Option.or_assoc]
      exact hv more y rfl hy hx
    · cases more with
      | nil =>
        rw [List.append_nil] at hv
        exact hv [] _ rfl hy hx
      | cons d more =>
        rw [List.append_assoc]
        exact hu x (d :: more) rfl (List.cons_ne_nil d more) hx

theorem cleanOn_of_forall (h : ∀ c ∈ u, isStarter c = false) : CleanOn rule m p u after := by
  rintro v w rfl hw -
  cases w with
  | nil => exact absurd rfl hw
  | cons d w => exact Degradation.not_standsAt_of_not_isStarter (h d (by simp))

/-- The text that arrow heads become holds no construct. -/
theorem cleanOn_function : CleanOn rule m p "function(".toList after := by
  rw [show "function(".toList = "fun".toList ++ ("c".toList ++ "tion(".toList) from rfl,
    cleanOn_append, cleanOn_append]
  refine ⟨cleanOn_of_forall (by decide), ?_, cleanOn_of_forall (by decide)⟩
  intro v w hvw hw _
  cases v with
  | nil =>
    obtain rfl : w = ['c'] := hvw.symm
    exact Degradation.not_standsAt_ct
  | cons d v =>
    exact absurd (List.append_eq_nil_iff.mp (List.cons.inj hvw).2.symm).2 hw

theorem not_occursIn_iff {text : List Char} :
    ¬ rule.OccursIn text ↔ CleanOn rule .code none text [] := by
  have hplace : ∀ {u v : List Char}, rule.StandsAt u.getLast? v →
      v ≠ [] ∧ ((ofText (u ++ v)).InCode u.length ↔ (Mode.code.scan u).isCode = true) := by
    intro u v h
    obtain ⟨c, more, rfl, hc⟩ := h.exists_starter
    exact ⟨List.cons_ne_nil c more, inCode_iff_isCode (Degradation.isPending_of_isStarter hc)⟩
  constructor
  · rintro h v w rfl - hv hstands
    rw [List.append_nil, Option.or_none] at hstands
    exact h ⟨v, w, rfl, (hplace hstands).2.mpr hv, hstands⟩
  · rintro h ⟨u, v, rfl, hu, hstands⟩
    refine h u v rfl (hplace hstands).1 ((hplace hstands).2.mp hu) ?_
    rwa [List.append_nil, Option.or_none]

/-! ## Moving a part -/

/-- Two readers, each with a mode and a character behind it, that go on in the
same way over a text: what was pending for one of them means nothing to the
first character, and a construct that starts there for the second reader does
so for the first. -/
structure InStep (rule : Degradation) (m m' : Mode) (p p' : Option Char) (text : List Char) :
    Prop where
  settle : m.settle = m'.settle
  mode : m = m' ∨ ∀ c, text.head? = some c → Mode.isTame c = true
  before : ∀ rest, rest.head? = text.head? → rule.StandsAt p' rest → rule.StandsAt p rest

namespace InStep

theorem refl (rule : Degradation) (m : Mode) (p : Option Char) (text : List Char) :
    InStep rule m m p p text :=
  ⟨rfl, .inl rfl, fun _ _ h => h⟩

/-- Behind a character that no construct starts with, it does not matter what
stood before it. -/
theorem of_tame (hsettle : m.settle = m'.settle)
    (hhead : ∀ c, u.head? = some c → Mode.isTame c = true ∧ isStarter c = false) :
    InStep rule m m' p p' u := by
  refine ⟨hsettle, .inr fun c hc => (hhead c hc).1, fun rest hrest hstands => ?_⟩
  obtain ⟨c, more, rfl, hc⟩ := hstands.exists_starter
  exact absurd hc (Bool.eq_false_iff.mp (hhead c hrest.symm).2)

theorem scan_eq (h : InStep rule m m' p p' (u ++ after)) (hu : u ≠ []) : m.scan u = m'.scan u := by
  cases u with
  | nil => exact absurd rfl hu
  | cons c u =>
    rw [Mode.scan_cons, Mode.scan_cons]
    rcases h.mode with rfl | htame
    · rfl
    · rw [Mode.next_eq_of_settle_eq (htame c rfl) h.settle]

theorem getLast?_or_eq (hu : u ≠ []) : u.getLast?.or p = u.getLast?.or p' := by
  rw [List.getLast?_eq_some_getLast hu, Option.some_or, Option.some_or]

theorem advance (h : InStep rule m m' p p' (u ++ after)) :
    InStep rule (m.scan u) (m'.scan u) (u.getLast?.or p) (u.getLast?.or p') after := by
  by_cases hu : u = []
  · subst hu
    exact h
  · rw [h.scan_eq hu, getLast?_or_eq hu]
    exact .refl ..

end InStep

/-- **A clean part stays clean** where the reader comes to it in step and a
construct that starts at its end does so with the text behind it before. -/
theorem CleanOn.move (h : CleanOn rule m p u after) (hstep : InStep rule m m' p p' (u ++ after))
    (hend : ∀ q w, w ≠ [] → w <:+ u → rule.StandsAt q (w ++ after') →
      rule.StandsAt q (w ++ after)) :
    CleanOn rule m' p' u after' := by
  rintro v w rfl hw hv hstands
  have hstands := hend _ w hw (List.suffix_append v w) hstands
  by_cases hnil : v = []
  · subst hnil
    refine h [] w rfl hw ?_ (hstep.before _ rfl hstands)
    rwa [Mode.scan_nil, ← Mode.isCode_settle, hstep.settle, Mode.isCode_settle]
  · rw [List.append_assoc] at hstep
    refine h v w rfl hw ?_ ?_
    · rwa [hstep.scan_eq hnil]
    · rwa [InStep.getLast?_or_eq hnil]

end Code

end Downlevel
