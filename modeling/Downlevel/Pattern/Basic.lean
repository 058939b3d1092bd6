/-
Downlevel.Pattern.Basic — patterns over characters and their matching.

A pattern is matched from a cursor by trying its alternatives from left to
right and repetitions as often as possible first. The first way that lets
everything after it succeed as well is the match: there is no longest-match
rule. `run` says so by continuations, one equation per kind of pattern.

A repetition stops when its body made no progress, so matching always
ends: `starRun` spends one of the remaining characters on each round.

Offsets count characters. `run_some` is what the users of a match rely on:
the cursor after a match stands in the same text, no further left, and by
at least the characters that the pattern cannot do without.
-/

namespace Downlevel

/-- A pattern over characters. -/
inductive Pattern where
  | empty
  | char (accepts : Char → Bool)
  | seq (first second : Pattern)
  | alt (first second : Pattern)
  | star (body : Pattern)
  | group (index : Nat) (body : Pattern)
  | lineStart
  | textStart
  | textEnd
  | boundary (isWord : Char → Bool)

namespace Pattern

/-! ## Cursors -/

/-- The stretch that a numbered part of a pattern matched, as offsets from
the start of the text. -/
structure Group where
  index : Nat
  start : Nat
  stop : Nat
  deriving DecidableEq, Repr

/-- A place in a text, with the groups matched on the way there, newest
first. -/
structure Cursor where
  offset : Nat
  before : Option Char
  rest : List Char
  groups : List Group

namespace Cursor

/-- The place at an offset of a text. -/
def ofOffset (text : List Char) (offset : Nat) : Cursor :=
  ⟨offset, if offset = 0 then none else text[offset - 1]?, text.drop offset, []⟩

/-- The place one character further. -/
def advance (c : Cursor) (x : Char) (rest : List Char) : Cursor :=
  { c with offset := c.offset + 1, before := some x, rest := rest }

/-- Records a group that ends here. -/
def record (c : Cursor) (index start : Nat) : Cursor :=
  { c with groups := ⟨index, start, c.offset⟩ :: c.groups }

def atLineStart (c : Cursor) : Bool := c.before == none || c.before == some '\n'

/-- Whether exactly one of the two characters around the cursor belongs to
a word. -/
def atBoundary (isWord : Char → Bool) (c : Cursor) : Bool :=
  c.before.any isWord != c.rest.head?.any isWord

end Cursor

/-! ## Matching -/

variable {α : Type}

/-- Repeats a step as often as possible before going on with `k`: only
while it makes progress, and so at most once for each of the characters
that were left at the start. -/
def starRun (step : Cursor → (Cursor → Option α) → Option α) :
    List Char → Cursor → (Cursor → Option α) → Option α
  | [], c, k => k c
  | _ :: fuel, c, k =>
    match step c fun c' => if c.offset < c'.offset then starRun step fuel c' k else none with
    | some r => some r
    | none => k c

/-- Matches a pattern at a cursor and hands the cursor after it to `k`. -/
def run : Pattern → Cursor → (Cursor → Option α) → Option α
  | .empty, c, k => k c
  | .char accepts, c, k =>
    match c.rest with
    | x :: rest => if accepts x then k (c.advance x rest) else none
    | [] => none
  | .seq first second, c, k => run first c fun c' => run second c' k
  | .alt first second, c, k =>
    match run first c k with
    | some r => some r
    | none => run second c k
  | .star body, c, k => starRun (run body) c.rest c k
  | .group index body, c, k => run body c fun c' => k (c'.record index c.offset)
  | .lineStart, c, k => if c.atLineStart then k c else none
  | .textStart, c, k => if c.before = none then k c else none
  | .textEnd, c, k => if c.rest = [] then k c else none
  | .boundary isWord, c, k => if c.atBoundary isWord then k c else none

/-- The cursor after the match of a pattern at a cursor. -/
def matchAt? (p : Pattern) (c : Cursor) : Option Cursor := p.run c some

/-! ## Searching -/

/-- A match in a text. -/
structure Match where
  start : Nat
  stop : Nat
  groups : List Group
  deriving DecidableEq, Repr

/-- The first match at or after a cursor. -/
def search? (p : Pattern) : Nat → Option Char → List Char → Option Match
  | offset, before, rest =>
    match p.matchAt? ⟨offset, before, rest, []⟩ with
    | some c => some ⟨offset, c.offset, c.groups⟩
    | none =>
      match rest with
      | [] => none
      | x :: rest' => search? p (offset + 1) (some x) rest'

/-- The first match that starts at or after an offset of the text. What
stands before the offset still counts as context. -/
def findFrom? (p : Pattern) (text : List Char) (offset : Nat) : Option Match :=
  let c := Cursor.ofOffset text offset
  p.search? c.offset c.before c.rest

def find? (p : Pattern) (text : List Char) : Option Match := p.findFrom? text 0

def occurs (p : Pattern) (text : List Char) : Bool := (p.find? text).isSome

/-- The matches from left to right, each starting where the one before
ended, or one character further if that one was empty. -/
def allFrom (p : Pattern) (text : List Char) (offset : Nat) : List Match :=
  if offset ≤ text.length then
    match p.findFrom? text offset with
    | some m =>
      m :: allFrom p text (max (offset + 1) (if m.start < m.stop then m.stop else m.stop + 1))
    | none => []
  else []
termination_by text.length + 1 - offset
decreasing_by omega

def all (p : Pattern) (text : List Char) : List Match := p.allFrom text 0

/-- The characters from `start` up to `stop`. -/
def slice (text : List Char) (start stop : Nat) : List Char := (text.drop start).take (stop - start)

namespace Match

/-- The matched characters. -/
def text (m : Match) (source : List Char) : List Char := slice source m.start m.stop

/-- The stretch matched by a numbered group, if it took part. -/
def group? (m : Match) (index : Nat) : Option Group := m.groups.find? fun g => g.index == index

/-- The characters matched by a numbered group. -/
def groupText? (m : Match) (source : List Char) (index : Nat) : Option (List Char) :=
  (m.group? index).map fun g => slice source g.start g.stop

end Match

/-! ## How far a match reaches -/

/-- The number of characters that every match of the pattern has. -/
def minLength : Pattern → Nat
  | .char _ => 1
  | .seq first second => first.minLength + second.minLength
  | .alt first second => min first.minLength second.minLength
  | .group _ body => body.minLength
  | _ => 0

/-- `c'` is reached from `c` by passing at least `n` characters of its
text. -/
def Reaches (n : Nat) (c c' : Cursor) : Prop :=
  ∃ passed, c.rest = passed ++ c'.rest ∧ c'.offset = c.offset + passed.length ∧ n ≤ passed.length

theorem Reaches.refl (c : Cursor) : Reaches 0 c c := ⟨[], by simp, by simp, Nat.le_refl _⟩

theorem Reaches.trans {m n : Nat} {a b c : Cursor} (h : Reaches m a b) (h' : Reaches n b c) :
    Reaches (m + n) a c := by
  obtain ⟨p, hp, ho, hl⟩ := h
  obtain ⟨q, hq, ho', hl'⟩ := h'
  refine ⟨p ++ q, by rw [hp, hq, List.append_assoc], ?_, ?_⟩
  · rw [ho', ho, List.length_append]; omega
  · rw [List.length_append]; omega

theorem Reaches.weaken {m n : Nat} {a b : Cursor} (h : Reaches m a b) (hn : n ≤ m) :
    Reaches n a b := by
  obtain ⟨p, hp, ho, hl⟩ := h
  exact ⟨p, hp, ho, by omega⟩

theorem starRun_some {step : Cursor → (Cursor → Option α) → Option α}
    (hstep : ∀ (c : Cursor) (k : Cursor → Option α) (r : α), step c k = some r →
      ∃ c', Reaches 0 c c' ∧ k c' = some r) :
    ∀ (fuel : List Char) (c : Cursor) (k : Cursor → Option α) (r : α),
      starRun step fuel c k = some r → ∃ c', Reaches 0 c c' ∧ k c' = some r
  | [], c, k, r, h => ⟨c, .refl c, h⟩
  | _ :: fuel, c, k, r, h => by
      rw [starRun] at h
      split at h
      · next r' hr =>
        obtain ⟨c1, h1, hk⟩ := hstep _ _ _ hr
        split at hk
        · obtain ⟨c2, h2, hk2⟩ := starRun_some hstep fuel c1 k r' hk
          exact ⟨c2, h1.trans h2, by rw [hk2, ← h]⟩
        · cases hk
      · exact ⟨c, .refl c, h⟩

/-- A match hands on a cursor further right in the same text. -/
theorem run_some : ∀ (p : Pattern) (c : Cursor) (k : Cursor → Option α) (r : α),
    p.run c k = some r → ∃ c', Reaches p.minLength c c' ∧ k c' = some r
  | .empty, c, k, r, h => ⟨c, .refl c, h⟩
  | .char accepts, c, k, r, h => by
      rw [run] at h
      split at h
      · next x rest hrest =>
        split at h
        · exact ⟨c.advance x rest, ⟨[x], by simp [Cursor.advance, hrest], rfl, Nat.le_refl _⟩, h⟩
        · cases h
      · cases h
  | .seq first second, c, k, r, h => by
      obtain ⟨c1, h1, hk1⟩ := run_some first c _ r h
      obtain ⟨c2, h2, hk2⟩ := run_some second c1 k r hk1
      exact ⟨c2, h1.trans h2, hk2⟩
  | .alt first second, c, k, r, h => by
      rw [run] at h
      split at h
      · next r' hr =>
        obtain ⟨c1, h1, hk⟩ := run_some first c k r' hr
        exact ⟨c1, h1.weaken (Nat.min_le_left _ _), by rw [hk, ← h]⟩
      · obtain ⟨c1, h1, hk⟩ := run_some second c k r h
        exact ⟨c1, h1.weaken (Nat.min_le_right _ _), hk⟩
  | .star body, c, k, r, h =>
      starRun_some (fun c k r h =>
        let ⟨c', h', hk⟩ := run_some body c k r h
        ⟨c', h'.weaken (Nat.zero_le _), hk⟩) _ c k r h
  | .group index body, c, k, r, h => by
      obtain ⟨c1, ⟨p, hp, ho, hl⟩, hk⟩ := run_some body c _ r h
      exact ⟨c1.record index c.offset, ⟨p, hp, ho, hl⟩, hk⟩
  | .lineStart, c, k, r, h => by
      rw [run] at h
      split at h
      · exact ⟨c, .refl c, h⟩
      · cases h
  | .textStart, c, k, r, h => by
      rw [run] at h
      split at h
      · exact ⟨c, .refl c, h⟩
      · cases h
  | .textEnd, c, k, r, h => by
      rw [run] at h
      split at h
      · exact ⟨c, .refl c, h⟩
      · cases h
  | .boundary isWord, c, k, r, h => by
      rw [run] at h
      split at h
      · exact ⟨c, .refl c, h⟩
      · cases h

theorem matchAt?_some {p : Pattern} {c c' : Cursor} (h : p.matchAt? c = some c') :
    Reaches p.minLength c c' := by
  obtain ⟨c1, h1, h2⟩ := run_some p c some c' h
  cases h2
  exact h1

/-- A match found from an offset starts no earlier, spans the characters
its pattern needs, and ends within the text. -/
theorem search?_some {p : Pattern} {offset : Nat} {before : Option Char} {rest : List Char}
    {m : Match} (h : p.search? offset before rest = some m) :
    offset ≤ m.start ∧ m.start + p.minLength ≤ m.stop ∧ m.stop ≤ offset + rest.length := by
  induction rest generalizing offset before with
  | nil =>
    rw [search?] at h
    split at h
    · next c hc =>
      cases h
      obtain ⟨q, hq, ho, hl⟩ := matchAt?_some hc
      have hlen := congrArg List.length hq
      simp only [List.length_append, List.length_nil] at hlen ho ⊢
      omega
    · cases h
  | cons x xs ih =>
    rw [search?] at h
    split at h
    · next c hc =>
      cases h
      obtain ⟨q, hq, ho, hl⟩ := matchAt?_some hc
      have hlen := congrArg List.length hq
      simp only [List.length_append, List.length_cons] at hlen ho ⊢
      omega
    · have := ih h
      simp only [List.length_cons]
      omega

theorem findFrom?_some {p : Pattern} {text : List Char} {offset : Nat} {m : Match}
    (ho : offset ≤ text.length) (h : p.findFrom? text offset = some m) :
    offset ≤ m.start ∧ m.start + p.minLength ≤ m.stop ∧ m.stop ≤ text.length := by
  have := search?_some h
  simp only [Cursor.ofOffset, List.length_drop] at this
  omega

/-! ## Building patterns -/

/-- One pattern after the other. -/
instance : Append Pattern := ⟨seq⟩

/-- One pattern, or else the other. -/
instance : OrOp Pattern := ⟨alt⟩

def seqs : List Pattern → Pattern
  | [] => .empty
  | [p] => p
  | p :: rest => .seq p (seqs rest)

def alts : List Pattern → Pattern
  | [] => .char fun _ => false
  | [p] => p
  | p :: rest => .alt p (alts rest)

/-- The pattern or nothing. -/
def opt (p : Pattern) : Pattern := .alt p .empty

/-- The pattern at least once. -/
def plus (p : Pattern) : Pattern := .seq p (.star p)

/-- One of the characters of a text. -/
def oneOf (chars : String) : Pattern :=
  let listed := chars.toList
  .char fun c => listed.contains c

/-- Any character but those of a text. -/
def noneOf (chars : String) : Pattern :=
  let listed := chars.toList
  .char fun c => !listed.contains c

/-- Any character of the line. -/
def inLine : Pattern := .char (· != '\n')

/-- The text itself. -/
def literal (text : String) : Pattern := seqs (text.toList.map fun x => .char (· == x))

/-- The lower-case ASCII letter that a character stands for when case is
ignored. The long s and the Kelvin sign count as `s` and `k`. -/
def foldCase (c : Char) : Char :=
  if c = '\u017f' then 's' else if c = '\u212a' then 'k' else c.toLower

/-- A lower-case text in any mixture of cases. -/
def literalAnyCase (text : String) : Pattern :=
  seqs (text.toList.map fun x => .char fun c => foldCase c == x)

end Pattern

end Downlevel
