/-
Downlevel.Proofs.Code.ExpressionReading — the end of an expression against a
reading of its brackets and strings.

`Reads w n` reads a text as single characters and whole strings, and counts the
brackets that it opens outside of strings less those that it closes. Nothing in it
looks ahead or stops early. An expression may end where as many brackets were
closed as opened and a separator or a closing bracket stands (`EndsAt`).

The scan follows this reading (`Follows.step`): its counter is the count of the
reading, and the brackets that are open are known with balanced texts between them
(`Nested`). Conversely what can be read before the scan stops, it has counted
(`run_of_reads`). So it stops at the first end there is.
-/
import Downlevel.Proofs.Code.ExpressionEnds
import Downlevel.Proofs.Text.Boundaries
import Mathlib.Order.Bounds.Defs

namespace Downlevel.Code

open Segment

/-- The insides of two strings make up one. -/
theorem Segment.QuotedBody.append {quote : Char} {u v : List Char} (hu : QuotedBody quote u)
    (hv : QuotedBody quote v) : QuotedBody quote (u ++ v) := by
  induction hu with
  | nil => exact hv
  | plain hne hplain _ ih => exact .plain hne hplain ih
  | escaped c _ ih => exact .escaped c ih

theorem Segment.ne_backslash_of_isQuote {c : Char} (h : isQuote c = true) : c ≠ '\\' := by
  rintro rfl
  exact absurd h (by decide)

namespace Arrows

open Text (byteSize byteOffset)

variable {u v w text : List Char} {c : Char} {depth : Nat} {n : Int} {s s' : ScanState}

/-! ## Reading a text -/

/-- What a character adds to the number of open brackets. -/
def weight (c : Char) : Int :=
  if isOpening c then 1 else if isClosing c then -1 else 0

theorem isOpening_of_isClosing (h : isClosing c = true) : isOpening c = false := by
  simp only [isClosing, Bool.or_eq_true, beq_iff_eq] at h
  rcases h with (rfl | rfl) | rfl <;> rfl

theorem weight_of_opening (h : isOpening c = true) : weight c = 1 := if_pos h

theorem weight_of_closing (h : isClosing c = true) : weight c = -1 := by
  simp [weight, isOpening_of_isClosing h, h]

theorem weight_of_plain (hopening : isOpening c = false) (hclosing : isClosing c = false) :
    weight c = 0 := by
  simp [weight, hopening, hclosing]

/-- A text read as characters and whole strings, with the number of brackets that
are opened outside of strings less the number of those that are closed. -/
inductive Reads : List Char → Int → Prop
  | nil : Reads [] 0
  | plain {w : List Char} {n : Int} {c : Char} :
      Reads w n → isQuote c = false → Reads (w ++ [c]) (n + weight c)
  | quoted {w body : List Char} {n : Int} {quote : Char} :
      Reads w n → isQuote quote = true → QuotedBody quote body →
      Reads (w ++ quote :: (body ++ [quote])) n

/-- A separator or a closing bracket stands at a byte of a text, outside of
strings, and as many brackets were closed before it as opened. -/
def EndsAt (text : List Char) (i : Nat) : Prop :=
  ∃ before c after, text = before ++ c :: after ∧ byteSize before = i ∧ Reads before 0
    ∧ (isSeparator c = true ∨ isClosing c = true)

theorem EndsAt.lt {i : Nat} (h : EndsAt text i) : i < byteSize text := by
  obtain ⟨before, c, after, rfl, rfl, -⟩ := h
  exact Text.byteSize_lt before after c

/-- Every bracket outside of strings is one of a pair. -/
inductive IsBalanced : List Char → Prop
  | nil : IsBalanced []
  | plain {c : Char} {w : List Char} :
      isQuote c = false → isOpening c = false → isClosing c = false → IsBalanced w →
      IsBalanced (c :: w)
  | quoted {quote : Char} {body w : List Char} :
      isQuote quote = true → QuotedBody quote body → IsBalanced w →
      IsBalanced (quote :: (body ++ quote :: w))
  | brackets {o c : Char} {u v : List Char} :
      isOpening o = true → IsBalanced u → isClosing c = true → IsBalanced v →
      IsBalanced (o :: (u ++ c :: v))

theorem IsBalanced.append (hu : IsBalanced u) (hv : IsBalanced v) : IsBalanced (u ++ v) := by
  induction hu with
  | nil => exact hv
  | plain hquote hopening hclosing _ ih => exact .plain hquote hopening hclosing ih
  | quoted hquote hbody _ ih =>
    rw [List.cons_append, List.append_assoc, List.cons_append]
    exact .quoted hquote hbody ih
  | brackets hopening hinner hclosing _ _ ih =>
    rw [List.cons_append, List.append_assoc, List.cons_append]
    exact .brackets hopening hinner hclosing ih

/-- A text that leaves so many brackets open, with balanced texts around them. -/
inductive Nested : Nat → List Char → Prop
  | balanced {w : List Char} : IsBalanced w → Nested 0 w
  | opened {depth : Nat} {u v : List Char} {o : Char} :
      Nested depth u → isOpening o = true → IsBalanced v → Nested (depth + 1) (u ++ o :: v)

namespace Nested

theorem append (hw : Nested depth w) (hv : IsBalanced v) : Nested depth (w ++ v) := by
  cases hw with
  | balanced hw => exact .balanced (hw.append hv)
  | opened hu hopening hw =>
    rw [List.append_assoc, List.cons_append]
    exact .opened hu hopening (hw.append hv)

theorem plain (hw : Nested depth w) (hquote : isQuote c = false) (hopening : isOpening c = false)
    (hclosing : isClosing c = false) : Nested depth (w ++ [c]) :=
  hw.append (.plain hquote hopening hclosing .nil)

theorem opening (hw : Nested depth w) (h : isOpening c = true) : Nested (depth + 1) (w ++ [c]) :=
  .opened hw h .nil

/-- A closing bracket closes the bracket that was opened last. -/
theorem closing (hw : Nested (depth + 1) w) (h : isClosing c = true) : Nested depth (w ++ [c]) := by
  cases hw with
  | opened hu hopening hv =>
    rw [List.append_assoc, List.cons_append]
    exact hu.append (.brackets hopening hv h .nil)

theorem isBalanced (h : Nested 0 w) : IsBalanced w := by
  cases h with
  | balanced h => exact h

end Nested

/-! ## The scan follows the reading -/

/-- The state of the scan behind a text. In a string, what comes before the string
was read, and of its inside nothing but a last backslash is left over. -/
inductive Follows : ScanState → List Char → Prop
  | outside {depth : Nat} {w : List Char} :
      Reads w depth → Nested depth w → Follows (unquoted depth) w
  | inside {depth : Nat} {w body : List Char} {quote : Char} :
      Reads w depth → Nested depth w → isQuote quote = true → QuotedBody quote body →
      Follows ⟨depth, some quote, false⟩ (w ++ quote :: body)
  | escaped {depth : Nat} {w body : List Char} {quote : Char} :
      Reads w depth → Nested depth w → isQuote quote = true → QuotedBody quote body →
      Follows ⟨depth, some quote, true⟩ (w ++ quote :: (body ++ ['\\']))

theorem step_quote (h : isQuote c = true) :
    (unquoted depth).step c = some ⟨depth, some c, false⟩ := by
  simp [unquoted, ScanState.step, h]

/-- **What a step does** outside of strings, unless it ends the expression. -/
theorem step_unquoted_cases (h : (unquoted depth).step c = some s) :
    (isQuote c = true ∧ s = ⟨depth, some c, false⟩)
      ∨ isQuote c = false
        ∧ ((isOpening c = true ∧ s = unquoted (depth + 1))
          ∨ (isClosing c = true ∧ ∃ d, depth = d + 1 ∧ s = unquoted d)
          ∨ (isOpening c = false ∧ isClosing c = false ∧ s = unquoted depth)) := by
  cases hquote : isQuote c with
  | true =>
    rw [step_quote hquote] at h
    exact .inl ⟨rfl, (Option.some.inj h).symm⟩
  | false =>
    refine .inr ⟨rfl, ?_⟩
    replace h : (⟨depth, none, false⟩ : ScanState).step c = some s := h
    rw [ScanState.step] at h
    simp only [hquote, Bool.false_eq_true, if_false] at h
    split at h
    · next hopening => exact .inl ⟨hopening, (Option.some.inj h).symm⟩
    · next hopening =>
      split at h
      · next hclosing =>
        cases depth with
        | zero => cases h
        | succ d => exact .inr (.inl ⟨hclosing, d, rfl, (Option.some.inj h).symm⟩)
      · next hclosing =>
        split at h
        · cases h
        · exact .inr (.inr ⟨Bool.eq_false_iff.mpr hopening, Bool.eq_false_iff.mpr hclosing,
            (Option.some.inj h).symm⟩)

/-- **One step of the scan** outside of strings. -/
theorem follows_step_outside (hreads : Reads w depth) (hnested : Nested depth w)
    (hstep : (unquoted depth).step c = some s) : Follows s (w ++ [c]) := by
  rcases step_unquoted_cases hstep with ⟨hquote, rfl⟩ | ⟨hquote, hcases⟩
  · exact .inside hreads hnested hquote .nil
  have hread := hreads.plain hquote
  rcases hcases with ⟨hopening, rfl⟩ | ⟨hclosing, d, rfl, rfl⟩ | ⟨hopening, hclosing, rfl⟩
  · rw [weight_of_opening hopening] at hread
    exact .outside hread (hnested.opening hopening)
  · have hcount : ((d + 1 : Nat) : Int) + -1 = d := by omega
    rw [weight_of_closing hclosing, hcount] at hread
    exact .outside hread (hnested.closing hclosing)
  · rw [weight_of_plain hopening hclosing, Int.add_zero] at hread
    exact .outside hread (hnested.plain hquote hopening hclosing)

/-- **One step of the scan** follows the reading. -/
theorem Follows.step (h : Follows s w) (hstep : s.step c = some s') : Follows s' (w ++ [c]) := by
  cases h with
  | outside hreads hnested => exact follows_step_outside hreads hnested hstep
  | @inside depth w body quote hreads hnested hquote hbody =>
    rw [List.append_assoc, List.cons_append]
    by_cases hslash : c = '\\'
    · subst hslash
      obtain rfl := Option.some.inj hstep
      exact .escaped hreads hnested hquote hbody
    · by_cases hclose : c = quote
      · subst hclose
        have hback : (⟨depth, some c, false⟩ : ScanState).step c = some (unquoted depth) := by
          simp [unquoted, ScanState.step, hslash]
        obtain rfl := Option.some.inj (hback.symm.trans hstep)
        refine .outside (hreads.quoted hquote hbody) (hnested.append ?_)
        exact .quoted hquote hbody .nil
      · have hstay : (⟨depth, some quote, false⟩ : ScanState).step c
            = some ⟨depth, some quote, false⟩ := by
          simp [ScanState.step, hslash, hclose]
        obtain rfl := Option.some.inj (hstay.symm.trans hstep)
        exact .inside hreads hnested hquote (hbody.append (.plain hclose hslash .nil))
  | escaped hreads hnested hquote hbody =>
    obtain rfl := Option.some.inj hstep
    rw [List.append_assoc, List.cons_append, List.append_assoc, List.singleton_append]
    exact .inside hreads hnested hquote (hbody.append (.escaped c .nil))

/-- **The scan follows the reading** over a whole text. -/
theorem Follows.run (h : Follows s w) (hrun : s.run v = some s') : Follows s' (w ++ v) := by
  induction v generalizing s w with
  | nil =>
    obtain rfl := Option.some.inj hrun
    rwa [List.append_nil]
  | cons c v ih =>
    obtain ⟨s₁, hstep, hrest⟩ := Option.bind_eq_some_iff.mp hrun
    rw [List.append_cons]
    exact ih (h.step hstep) hrest

theorem follows_nil : Follows (unquoted 0) [] := .outside .nil (.balanced .nil)

/-- Where the scan stops, an expression may end. -/
theorem Follows.stop (h : Follows s w) (hstep : s.step c = none) :
    Reads w 0 ∧ Nested 0 w ∧ (isSeparator c = true ∨ isClosing c = true) := by
  have hends := isClosing_of_step hstep
  cases h with
  | @outside depth w hreads hnested =>
    obtain rfl : depth = 0 := by
      rw [unquoted, ScanState.step] at hstep
      grind
    exact ⟨hreads, hnested, hends⟩
  | inside =>
    rw [ScanState.step] at hstep
    grind
  | escaped => cases hstep

/-! ## What can be read is counted -/

/-- The scan passes over a whole string. -/
theorem run_string {quote : Char} {body : List Char} (hquote : isQuote quote = true)
    (hbody : QuotedBody quote body) :
    (unquoted depth).run (quote :: (body ++ [quote])) = some (unquoted depth) := by
  have hne := ne_backslash_of_isQuote hquote
  obtain ⟨s, hrun, hs⟩ := run_quoted hne depth (body ++ quote :: ['x'])
  rw [quotedRest_of_body hne hbody] at hrun hs
  rw [ScanState.run, step_quote hquote, Option.bind_some, hrun,
    hs.resolve_right (List.cons_ne_nil _ _)]

/-- **What can be read of a text that the scan passes over**, it has counted, and
never below zero. -/
theorem run_of_reads (h : Reads w n) (hrun : (unquoted 0).run w = some s) :
    ∃ depth : Nat, n = depth ∧ s = unquoted depth := by
  induction h generalizing s with
  | nil =>
    obtain rfl := Option.some.inj hrun
    exact ⟨0, rfl, rfl⟩
  | @plain w n c _ hquote ih =>
    rw [ScanState.run_append] at hrun
    obtain ⟨s₁, hfront, hlast⟩ := Option.bind_eq_some_iff.mp hrun
    obtain ⟨depth, rfl, rfl⟩ := ih hfront
    obtain ⟨s₂, hstep, hend⟩ := Option.bind_eq_some_iff.mp hlast
    obtain rfl := Option.some.inj hend
    rcases step_unquoted_cases hstep with ⟨hquote', -⟩ | ⟨-, hcases⟩
    · rw [hquote] at hquote'
      cases hquote'
    rcases hcases with ⟨hopening, rfl⟩ | ⟨hclosing, d, rfl, rfl⟩ | ⟨hopening, hclosing, rfl⟩
    · exact ⟨depth + 1, by rw [weight_of_opening hopening]; rfl, rfl⟩
    · exact ⟨d, by rw [weight_of_closing hclosing]; omega, rfl⟩
    · exact ⟨depth, by rw [weight_of_plain hopening hclosing, Int.add_zero], rfl⟩
  | quoted _ hquote hbody ih =>
    rw [ScanState.run_append] at hrun
    obtain ⟨s₁, hfront, hlast⟩ := Option.bind_eq_some_iff.mp hrun
    obtain ⟨depth, rfl, rfl⟩ := ih hfront
    rw [run_string hquote hbody] at hlast
    exact ⟨depth, rfl, (Option.some.inj hlast).symm⟩

/-- No end is passed by. -/
theorem run_eq_none_of_end (hreads : Reads w 0) (hc : isSeparator c = true ∨ isClosing c = true) :
    (unquoted 0).run (w ++ [c]) = none := by
  rw [ScanState.run_append, Option.bind_eq_none_iff]
  intro s hrun
  obtain ⟨depth, hdepth, rfl⟩ := run_of_reads hreads hrun
  obtain rfl : depth = 0 := by omega
  have hstep : (unquoted 0).step c = none := by
    rcases hc with hc | hc
    · simp only [isSeparator, Bool.or_eq_true, beq_iff_eq] at hc
      rcases hc with (rfl | rfl) | rfl <;> rfl
    · simp only [isClosing, Bool.or_eq_true, beq_iff_eq] at hc
      rcases hc with (rfl | rfl) | rfl <;> rfl
  rw [ScanState.run, hstep, Option.bind_none]

/-! ## The end of the scan -/

/-- The scan passes over what comes before its end, and stops at what comes
there. -/
theorem run_take_expressionLength (s : ScanState) (text : List Char) :
    ∃ s', s.run (text.take (expressionLength s text)) = some s'
      ∧ ∀ c after, text.drop (expressionLength s text) = c :: after → s'.step c = none := by
  induction text generalizing s with
  | nil => exact ⟨s, rfl, nofun⟩
  | cons c rest ih =>
    rw [expressionLength]
    cases hstep : s.step c with
    | none =>
      refine ⟨s, rfl, fun d after hdrop => ?_⟩
      obtain ⟨rfl, -⟩ := List.cons.inj hdrop
      exact hstep
    | some s₁ =>
      obtain ⟨s', hrun, hstop⟩ := ih s₁
      refine ⟨s', ?_, hstop⟩
      rw [List.take_succ_cons, ScanState.run, hstep, Option.bind_some, hrun]

theorem run_of_prefix (h : (unquoted 0).run v = some s) (hw : w <+: v) :
    ∃ s', (unquoted 0).run w = some s' := by
  obtain ⟨more, rfl⟩ := hw
  rw [ScanState.run_append] at h
  obtain ⟨s', hrun, -⟩ := Option.bind_eq_some_iff.mp h
  exact ⟨s', hrun⟩

/-- What the scan passes over holds no end. -/
theorem le_of_endsAt {k i : Nat} (hrun : (unquoted 0).run (text.take k) = some s)
    (h : EndsAt text i) : byteOffset text k ≤ i := by
  obtain ⟨before, c, after, rfl, rfl, hreads, hc⟩ := h
  refine Nat.le_of_not_lt fun hlt => ?_
  rw [← Text.byteOffset_append before (c :: after)] at hlt
  have hk : before.length < k :=
    Nat.lt_of_not_le fun hle => Nat.not_le_of_lt hlt (Text.byteOffset_mono hle)
  have hfront : before ++ [c] <+: (before ++ c :: after).take k := by
    refine List.prefix_take_iff.mpr ⟨⟨after, by simp⟩, ?_⟩
    rw [List.length_append]
    exact hk
  obtain ⟨s', hpassed⟩ := run_of_prefix hrun hfront
  rw [run_eq_none_of_end hreads hc] at hpassed
  cases hpassed

/-! ## The scan by bytes -/

/-- One character of an expression, with a counter that fails below zero. -/
def ScanState.stepChecked (s : ScanState) (c : Char) : Option (Option ScanState) :=
  match s.quote with
  | some q =>
    if s.escaped then some (some { s with escaped := false })
    else if c = '\\' then some (some { s with escaped := true })
    else if c = q then some (some { s with quote := none })
    else some (some s)
  | none =>
    if isQuote c then some (some { s with quote := some c })
    else if isOpening c then some (some { s with depth := s.depth + 1 })
    else if isClosing c && s.depth == 0 then some none
    else if isClosing c then
      if 1 ≤ s.depth then some (some { s with depth := s.depth - 1 }) else none
    else if isSeparator c && s.depth == 0 then some none
    else some (some s)

/-- The byte at which an expression ends, for a scan that has come to a byte. -/
def endFromChecked (s : ScanState) (i : Nat) : List Char → Option Nat
  | [] => some i
  | c :: rest => do
    match ← s.stepChecked c with
    | none => return i
    | some s => endFromChecked s (i + c.utf8Size) rest

def expressionEndChecked (text : List Char) : Option Nat := endFromChecked (unquoted 0) 0 text

/-- The counter does not fall below zero. -/
theorem stepChecked_eq (s : ScanState) (c : Char) : s.stepChecked c = some (s.step c) := by
  obtain ⟨depth, quote, escaped⟩ := s
  cases quote with
  | some q =>
    rw [ScanState.stepChecked, ScanState.step]
    dsimp only
    split
    · rfl
    · split
      · rfl
      · split <;> rfl
  | none =>
    rw [ScanState.stepChecked, ScanState.step]
    dsimp only
    split
    · rfl
    · split
      · rfl
      · cases isClosing c with
        | true =>
          cases depth with
          | zero => rfl
          | succ d => simp
        | false =>
          simp only [Bool.false_and, Bool.false_eq_true, if_false]
          split <;> rfl

theorem endFromChecked_eq (s : ScanState) (i : Nat) (text : List Char) :
    endFromChecked s i text = some (i + byteOffset text (expressionLength s text)) := by
  induction text generalizing s i with
  | nil => rfl
  | cons c rest ih =>
    rw [endFromChecked, stepChecked_eq, Option.bind_eq_bind, Option.bind_some, expressionLength]
    cases s.step c with
    | none => rfl
    | some s' =>
      simp only [ih, byteOffset, List.take_succ_cons, Text.byteSize_cons, Nat.add_assoc]

theorem expressionEndChecked_eq (text : List Char) :
    expressionEndChecked text = some (byteOffset text (expressionEnd text)) := by
  rw [expressionEndChecked, endFromChecked_eq, Nat.zero_add]
  rfl

/-- **Where an expression ends.** For every text, the scan by bytes gives the first
byte at which a separator or a closing bracket stands outside of strings with as
many brackets closed before it as opened, or the size of the text if there is no
such byte. Up to there its counter is the number of brackets opened outside of
strings less those closed, wherever that can be read off, and never below zero. In
what it cuts off every bracket is one of a pair, unless it came to the end of the
text. -/
theorem expressionEnd_isLeast (text : List Char) :
    let cut := text.take (expressionEnd text)
    let stop := byteSize cut
    expressionEndChecked text = some stop
      ∧ (IsLeast {i | EndsAt text i} stop ∨ stop = byteSize text ∧ ∀ i, ¬ EndsAt text i)
      ∧ (∀ w n, w <+: cut → Reads w n →
          0 ≤ n ∧ (unquoted 0).run w = some (unquoted n.toNat))
      ∧ (IsBalanced cut ∨ stop = byteSize text) := by
  intro cut stop
  obtain ⟨s, hrun, hstop⟩ := run_take_expressionLength (unquoted 0) text
  have hfollows : Follows s cut := follows_nil.run hrun
  have hleast : ∀ {i}, EndsAt text i → stop ≤ i := fun h => le_of_endsAt hrun h
  have hcut : text = cut ++ text.drop (expressionEnd text) := (List.take_append_drop _ _).symm
  have hcount : ∀ w n, w <+: cut → Reads w n →
      0 ≤ n ∧ (unquoted 0).run w = some (unquoted n.toNat) := by
    intro w n hw hreads
    obtain ⟨s', hpassed⟩ := run_of_prefix hrun hw
    obtain ⟨depth, rfl, rfl⟩ := run_of_reads hreads hpassed
    exact ⟨Int.natCast_nonneg depth, hpassed⟩
  have hchecked : expressionEndChecked text = some stop := expressionEndChecked_eq text
  cases hrest : text.drop (expressionEnd text) with
  | nil =>
    rw [hrest, List.append_nil] at hcut
    have hwhole : stop = byteSize text := congrArg byteSize hcut.symm
    refine ⟨hchecked, .inr ⟨hwhole, fun i hends => ?_⟩, hcount, .inr hwhole⟩
    have hlt := hends.lt
    have hle := hleast hends
    omega
  | cons c after =>
    obtain ⟨hreads, hnested, hc⟩ := hfollows.stop (hstop c after hrest)
    rw [hrest] at hcut
    exact ⟨hchecked, .inl ⟨⟨cut, c, after, hcut, rfl, hreads, hc⟩, fun i => hleast⟩, hcount,
      .inl hnested.isBalanced⟩

end Arrows

end Downlevel.Code
