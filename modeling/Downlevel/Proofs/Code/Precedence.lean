/-
Downlevel.Proofs.Code.Precedence — what stands next to a coalescing.

A rewritten coalescing stands in brackets, so the change keeps the meaning only
where its operands were whole: no operator before it takes the left operand, and
nothing behind it goes on with the right one. Every occurrence in every text that
is gone over is checked, and one that fails stops the rewrite (`operands_unbound`).

The checks let some tokens through: a single `|` or `&` before the left operand,
where `||` and `&&` were meant; a `?.` behind the right one, where the
conditional operator was meant; words, `~` and a byte order mark on a new line;
and whatever a line comment before the left operand ends in. Everything else is
seen (`overlooksLeft_of_bindsLeft`, `overlooksRight_of_bindsRight`), and these are
really missed (`bound_operands_rewritten`).
-/
import Downlevel.Proofs.Code.CheckedDefaults
import Downlevel.Proofs.Code.Tokens

namespace Downlevel.Code

/-! ## Operators -/

def wordOperators : List (List Char) :=
  ["in", "instanceof", "typeof", "void", "delete", "await", "new"].map String.toList

/-- What binds tighter than a coalescing: the operators, and an access to a
member. -/
def tighter : List (List Char) :=
  wordOperators
    ++ ["|", "&", "^", "==", "!=", "===", "!==", "<", ">", "<=", ">=", "<<", ">>", ">>>", "+", "-",
      "*", "/", "%", "**", "!", "~", "++", "--", ".", "?."].map String.toList

/-- What goes on with the expression before it: a tighter operator, a call, an
index or a template. -/
def continuing : List (List Char) := tighter ++ ["(", "[", "\x60"].map String.toList

namespace Nullish

/-! ## Operands that are bound -/

/-- Something before a place takes the expression that starts there. -/
def BindsLeft (text : List Char) (place : Nat) : Prop :=
  ∃ token ∈ tokenBefore? text place, token ∈ tighter

/-- Something behind a place goes on with the expression that ends there. -/
def BindsRight (text : List Char) (place : Nat) : Prop :=
  ∃ token ∈ tokenAfter? text place, token ∈ continuing

/-- What the check of the left operand does not see. -/
def OverlooksLeft (text : List Char) (place : Nat) : Prop :=
  tokenBefore? text place = some ['|'] ∨ tokenBefore? text place = some ['&']
    ∨ followsLineComment text place = true

/-- What the check of the right operand does not see. -/
def OverlooksRight (text : List Char) (place : Nat) : Prop :=
  tokenAfter? text place = some ['?', '.']
    ∨ (ofText text).lineEndsAfter place = true
      ∧ ((∃ token ∈ tokenAfter? text place, token ∈ wordOperators)
        ∨ tokenAfter? text place = some ['~']
        ∨ (ofText text).charAfter? place = some '\ufeff')

/-- No operand of what stands in a stretch is bound from outside, as far as the
checks see. -/
structure Unbound (text : List Char) (s : Span) : Prop where
  left : BindsLeft text s.start → OverlooksLeft text s.start
  right : BindsRight text s.stop → OverlooksRight text s.stop

/-! ## Before the left operand -/

section Left

variable {text : List Char} {place : Nat} {c : Char} {t : List Char}

/-- A tighter mark that ends in an equals sign has a comparison or a negation
before it. -/
theorem exists_of_ends_in_equals (ht : t ∈ tighter) (hlast : t.getLast? = some '=') :
    ∃ d ∈ "=!<>".toList, t.dropLast.getLast? = some d := by
  have hall : ∀ t ∈ tighter, t.getLast? = some '=' →
      t.dropLast.getLast?.any ("=!<>".toList.contains ·) = true := by
    decide
  obtain ⟨d, hbefore, hd⟩ := (Option.any_eq_true _ _).mp (hall t ht hlast)
  exact ⟨d, List.contains_iff_mem.mp hd, hbefore⟩

theorem exists_of_ends_in_greater : ∀ t ∈ marks, t ∈ tighter → t.getLast? = some '>' →
    t.dropLast.getLast? = some '>' := by
  decide

theorem eq_of_ends_in_listed : ∀ t ∈ tighter, ∀ c ∈ "(,:[\x7b;?|&".toList, t.getLast? = some c →
    t = ['|'] ∨ t = ['&'] := by
  decide

/-- The character that a check of the left operand looked at, where it is not of
an identifier. -/
theorem cases_of_leftIsWhole (hwhole : leftIsWhole (ofText text) place = true)
    (hc : (ofText text).charBefore? place = some c) (hidentifier : Text.isIdentifier c = false) :
    (c = '>' ∧ ((ofText text).before place).dropLast.getLast? = some '=')
      ∨ (c = '=' ∧ ∀ d ∈ "=!<>".toList, ((ofText text).before place).dropLast.getLast? ≠ some d)
      ∨ c ∈ "(,:[\x7b;?|&".toList := by
  rw [leftIsWhole, hc] at hwhole
  dsimp only at hwhole
  split at hwhole
  · next hgreater => exact .inl ⟨hgreater, by simpa using hwhole⟩
  · split at hwhole
    · next hequals =>
      refine .inr (.inl ⟨hequals, fun d hd hlast => ?_⟩)
      rw [hlast, Option.any_some, List.contains_iff_mem.mpr hd] at hwhole
      cases hwhole
    · rw [hidentifier, if_neg Bool.false_ne_true] at hwhole
      exact .inr (.inr (List.contains_iff_mem.mp hwhole))

/-- An arrow ends in an equals sign and a greater-than sign. -/
theorem arrow_suffix {u : List Char} (hc : u.getLast? = some '>')
    (hequals : u.dropLast.getLast? = some '=') : "=>".toList <:+ u := by
  obtain ⟨front, rfl⟩ := List.getLast?_eq_some_iff.mp hc
  rw [List.dropLast_concat] at hequals
  obtain ⟨front, rfl⟩ := List.getLast?_eq_some_iff.mp hequals
  exact ⟨front, by simp⟩

/-- A check that holds has seen the last character of the token before. -/
theorem eq_of_leftIsWhole (hwhole : leftIsWhole (ofText text) place = true)
    (ht : lastToken? ((ofText text).before place) = some t) (htighter : t ∈ tighter) :
    t = ['|'] ∨ t = ['&'] := by
  obtain ⟨c, hc, -⟩ := Option.map_eq_some_iff.mp ht
  cases hidentifier : Text.isIdentifier c with
  | true =>
    -- the token is the word that the check looked at, and no operator
    have hword : (ofText text).wordBefore place = t :=
      Option.some.inj ((lastToken?_of_isIdentifier hc hidentifier).symm.trans ht)
    have hnot : "return".toList ∉ tighter ∧ "yield".toList ∉ tighter := by decide
    have hsign : c ≠ '>' ∧ c ≠ '=' := by
      constructor <;> rintro rfl <;> exact absurd hidentifier (by decide)
    simp only [leftIsWhole, charBefore?, hc, if_neg hsign.1, if_neg hsign.2, hidentifier, if_true,
      hword, Bool.or_eq_true, beq_iff_eq] at hwhole
    rcases hwhole with rfl | rfl
    · exact absurd htighter hnot.1
    · exact absurd htighter hnot.2
  | false =>
    have htoken := lastToken?_cases hc hidentifier ht
    have hlast := (getLast?_of_lastToken? ht).trans hc
    rcases cases_of_leftIsWhole hwhole hc hidentifier with ⟨rfl, hequals⟩ | ⟨rfl, hnot⟩ | hlisted
    · have harrow := arrow_suffix hc hequals
      rcases htoken with ⟨hmark, hsuffix⟩ | ⟨-, hnone⟩
      · have hbefore := exists_of_ends_in_greater t hmark htighter hlast
        rw [getLast?_dropLast_of_suffix hsuffix hbefore] at hequals
        cases hequals
      · exact absurd harrow (hnone _ (by decide))
    · obtain ⟨d, hd, hbefore⟩ := exists_of_ends_in_equals htighter hlast
      rcases htoken with ⟨-, hsuffix⟩ | ⟨rfl, -⟩
      · exact absurd (getLast?_dropLast_of_suffix hsuffix hbefore) (hnot d hd)
      · cases hbefore
    · exact eq_of_ends_in_listed t htighter c hlisted hlast

/-- A byte order mark and the end of a literal are nothing the check allows. -/
theorem leftIsWhole_ne_true (hc : (ofText text).charBefore? place = some c)
    (hunseen : c = '\ufeff' ∨ Segment.opensLiteral c = true) :
    leftIsWhole (ofText text) place ≠ true := by
  intro hwhole
  have hcases : c ∈ "\ufeff'\"\x60/".toList := by
    simpa [Segment.opensLiteral, Segment.isQuote, or_assoc] using hunseen
  have hnot : ∀ c ∈ "\ufeff'\"\x60/".toList, Text.isIdentifier c = false ∧ c ≠ '>' ∧ c ≠ '='
      ∧ c ∉ "(,:[\x7b;?|&".toList := by
    decide +kernel
  obtain ⟨hidentifier, hgreater, hequals, hlisted⟩ := hnot c hcases
  rcases cases_of_leftIsWhole hwhole hc hidentifier with h | h | h
  · exact hgreater h.1
  · exact hequals h.1
  · exact hlisted h

/-- **What stands before a whole left operand** takes it in the overlooked cases
only. -/
theorem overlooksLeft_of_bindsLeft (hcode : (ofText text).InCode place)
    (hplace : place < text.length) (hwhole : leftIsWhole (ofText text) place = true)
    (hbinds : BindsLeft text place) : OverlooksLeft text place := by
  obtain ⟨token, htoken, htighter⟩ := hbinds
  rcases tokenBefore?_cases hcode hplace with hlast | ⟨c, hc, hunseen⟩ | hcomment
  · rw [OverlooksLeft, htoken]
    rcases eq_of_leftIsWhole hwhole (hlast.symm.trans htoken) htighter with rfl | rfl
    · exact .inl rfl
    · exact .inr (.inl rfl)
  · exact absurd hwhole (leftIsWhole_ne_true hc hunseen)
  · exact .inr (.inr hcomment)

end Left

/-! ## Behind the right operand -/

section Right

variable {text : List Char} {place : Nat} {c : Char} {t : List Char}

theorem word_of_continuing : ∀ t ∈ continuing, t.all Text.isIdentifier = true →
    t ∈ wordOperators := by
  decide

theorem eq_of_starts_listed : ∀ t ∈ continuing, ∀ c ∈ ";)]\x7d,:?".toList, t.head? = some c →
    t = ['?', '.'] := by
  decide

theorem eq_of_starts_line (ht : t ∈ continuing) (hhead : t.head? = some c)
    (hidentifier : Text.isIdentifier c = false) (hopens : c ∉ ".([\x60".toList)
    (hoperator : isOperatorChar c = false) : t = ['~'] ∨ t = ['?', '.'] := by
  have hall : ∀ t ∈ continuing, t.head?.all (fun c =>
      Text.isIdentifier c || ".([\x60".toList.contains c || isOperatorChar c) = true
        ∨ t = ['~'] ∨ t = ['?', '.'] := by
    decide
  refine (hall t ht).resolve_left fun hknown => ?_
  have hnot : ".([\x60".toList.contains c = false :=
    Bool.eq_false_iff.mpr fun h => hopens (List.contains_iff_mem.mp h)
  rw [hhead, Option.all_some, hidentifier, hnot, hoperator] at hknown
  cases hknown

theorem cases_of_rightIsWhole (hwhole : rightIsWhole (ofText text) place = true)
    (hc : (ofText text).charAfter? place = some c) :
    c ∈ ";)]\x7d,:?".toList
      ∨ ((ofText text).lineEndsAfter place = true ∧ c ∉ ".([\x60".toList
        ∧ isOperatorChar c = false) := by
  rw [rightIsWhole, hc] at hwhole
  simpa [and_assoc] using hwhole

/-- **What stands behind a whole right operand** goes on with it in the overlooked
cases only. -/
theorem overlooksRight_of_bindsRight (hwhole : rightIsWhole (ofText text) place = true)
    (hbinds : BindsRight text place) : OverlooksRight text place := by
  obtain ⟨token, htoken, hcontinuing⟩ := hbinds
  rw [Option.mem_def] at htoken
  by_cases hmark : (ofText text).charAfter? place = some '\ufeff'
  · rcases cases_of_rightIsWhole hwhole hmark with hlisted | ⟨hline, -⟩
    · exact absurd hlisted (by decide)
    · exact .inr ⟨hline, .inr (.inr hmark)⟩
  have hseen : ∀ c, (ofText text).charAfter? place = some c → c ≠ '\ufeff' ∧ c ≠ '/' := by
    refine fun c hc => ⟨fun h => hmark (h ▸ hc), ?_⟩
    rintro rfl
    rcases cases_of_rightIsWhole hwhole hc with hlisted | ⟨-, -, hoperator⟩
    · exact absurd hlisted (by decide)
    · exact absurd hoperator (by decide)
  have hfirst := htoken
  rw [tokenAfter?_eq hseen] at hfirst
  cases htrim : Text.trimStart (text.drop place) with
  | nil =>
    rw [htrim] at hfirst
    cases hfirst
  | cons c rest =>
    rw [htrim] at hfirst
    have hc : (ofText text).charAfter? place = some c := by
      rw [charAfter?, ofText, htrim, List.head?_cons]
    have hchecked := cases_of_rightIsWhole hwhole hc
    rcases firstToken?_cases hfirst with ⟨hidentifier, hword⟩ | ⟨hidentifier, hhead⟩
    · rcases hchecked with hlisted | ⟨hline, -⟩
      · have hsigns : ∀ c ∈ ";)]\x7d,:?".toList, Text.isIdentifier c = false := by decide
        rw [hsigns c hlisted] at hidentifier
        cases hidentifier
      · exact .inr ⟨hline, .inl ⟨token, htoken, word_of_continuing token hcontinuing hword⟩⟩
    · rw [OverlooksRight, htoken]
      rcases hchecked with hlisted | ⟨hline, hopens, hoperator⟩
      · rw [eq_of_starts_listed token hcontinuing c hlisted hhead]
        exact .inl rfl
      · rcases eq_of_starts_line hcontinuing hhead hidentifier hopens hoperator with rfl | rfl
        · exact .inr ⟨hline, .inr (.inl rfl)⟩
        · exact .inl rfl

end Right

/-! ## All occurrences -/

/-- Every occurrence that is replaced had whole operands. -/
theorem unbound_of_replacements? {text : List Char} {replacements : List Replacement}
    (h : replacements? (ofText text) = some replacements) :
    ∀ r ∈ replacements, Unbound text r.span := by
  intro r hr
  obtain ⟨left, middle, right, rest, hparts, hdrop, -, -, hcode, hleft, hright⟩ :=
    exists_of_replacements? h hr
  have hplace : r.span.start < text.length := by
    obtain ⟨c, more, hmiddle, -⟩ := hparts.opens
    have hlength := congrArg List.length hdrop
    simp only [hmiddle, List.length_drop, List.length_append, List.length_cons] at hlength
    omega
  exact ⟨overlooksLeft_of_bindsLeft hcode hplace hleft, overlooksRight_of_bindsRight hright⟩

/-- **Only whole operands are rewritten**, in every pass. An occurrence with an
operand that is bound, in any text that is gone over, stops the rewrite. -/
theorem operands_unbound (source : List Char) :
    (∀ out, degrade? source = some out →
      passes source ≠ [] ∧ outcome source (passes source) = out
        ∧ ∀ pass ∈ passes source, ∀ r ∈ pass.replacements, Unbound pass.text r.span)
    ∧ ((∃ text ∈ textsOf replacements? maxPasses source,
        ∃ s ∈ (ofText text).occurrences coalescing coalescing_consuming, ¬ Unbound text s) →
      degrade? source = none) := by
  constructor
  · intro out h
    obtain ⟨hmade, houtcome⟩ := outcome_passes h
    exact ⟨hmade, houtcome, fun pass hpass =>
      unbound_of_replacements? (find?_of_mem_passesOf hpass)⟩
  · rintro ⟨text, htext, s, hs, hbound⟩
    cases hdegraded : degrade? source with
    | none => rfl
    | some out =>
      obtain ⟨replacements, hfound⟩ := exists_of_degrade? hdegraded htext
      rw [occurrences_eq hfound] at hs
      obtain ⟨r, hr, rfl⟩ := List.mem_map.mp hs
      exact absurd (unbound_of_replacements? hfound r hr) hbound

/-- A bitwise operator before the left operand, a member access behind the right
one, an operator in front of a line comment and a word on the next line go
unseen. -/
theorem bound_operands_rewritten :
    (∃ pass r, degrade? "x | a ?? b;".toList
        = some "x | (a !== null && a !== undefined ? a : b);".toList
      ∧ passes "x | a ?? b;".toList = [pass] ∧ r ∈ pass.replacements
      ∧ BindsLeft pass.text r.span.start)
    ∧ (degrade? "a ?? b?.c;".toList = some "(a !== null && a !== undefined ? a : b)?.c;".toList
      ∧ BindsRight "a ?? b?.c;".toList 6)
    ∧ (degrade? "x * // y,\n a ?? b;".toList
        = some "x * // y,\n (a !== null && a !== undefined ? a : b);".toList
      ∧ BindsLeft "x * // y,\n a ?? b;".toList 11)
    ∧ (degrade? "a ?? b\n in c;".toList
        = some "(a !== null && a !== undefined ? a : b)\n in c;".toList
      ∧ BindsRight "a ?? b\n in c;".toList 6) := by
  refine ⟨⟨⟨"x | a ?? b;".toList, [⟨⟨4, 10⟩, "(a !== null && a !== undefined ? a : b)".toList⟩]⟩,
    _, ?_, ?_, List.mem_singleton_self _, ['|'], ?_, ?_⟩, ⟨?_, ['?', '.'], ?_, ?_⟩,
    ⟨?_, ['*'], ?_, ?_⟩, ⟨?_, ['i', 'n'], ?_, ?_⟩⟩
  all_goals decide +kernel

end Nullish

end Downlevel.Code
