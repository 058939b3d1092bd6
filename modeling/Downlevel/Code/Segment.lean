/-
Downlevel.Code.Segment — strings and comments in a source text.

A text is cut into characters of code and literals. A literal is a quoted
string, a template or a comment, with its delimiters; one that is not
closed reaches to the end of the text. A backslash inside quotes protects
the character after it. A line comment ends before its line break.

Nothing is lost by the cut: `text_split` puts the pieces together again.
-/

namespace Downlevel.Code

/-- A character of code, or a whole literal. -/
inductive Segment where
  | code (c : Char)
  | literal (text : List Char)
  deriving DecidableEq, Repr

namespace Segment

def text : Segment → List Char
  | .code c => [c]
  | .literal text => text

/-! ## Ends of literals -/

def isQuote (c : Char) : Bool := c == '\x27' || c == '"' || c == '\x60'

/-- What belongs to a string after its opening quote, and what follows
it. -/
def quotedRest (quote : Char) : List Char → List Char × List Char
  | [] => ([], [])
  | c :: rest =>
    if c = quote then ([c], rest)
    else if c = '\\' then
      match rest with
      | [] => ([c], [])
      | escaped :: rest => (c :: escaped :: (quotedRest quote rest).1, (quotedRest quote rest).2)
    else (c :: (quotedRest quote rest).1, (quotedRest quote rest).2)

/-- What belongs to a line comment, and what follows it. -/
def lineRest (cs : List Char) : List Char × List Char :=
  (cs.takeWhile (· != '\n'), cs.dropWhile (· != '\n'))

/-- What belongs to a block comment after its opening, and what follows
it. -/
def blockRest : List Char → List Char × List Char
  | [] => ([], [])
  | c :: rest =>
    if c = '*' ∧ rest.head? = some '/' then ([c, '/'], rest.drop 1)
    else (c :: (blockRest rest).1, (blockRest rest).2)

theorem quotedRest_append (quote : Char) (cs : List Char) :
    (quotedRest quote cs).1 ++ (quotedRest quote cs).2 = cs := by
  fun_induction quotedRest quote cs <;> simp_all

theorem lineRest_append (cs : List Char) : (lineRest cs).1 ++ (lineRest cs).2 = cs :=
  List.takeWhile_append_dropWhile

theorem blockRest_append (cs : List Char) : (blockRest cs).1 ++ (blockRest cs).2 = cs := by
  induction cs with
  | nil => rfl
  | cons c rest ih =>
    rw [blockRest]
    split
    · next h =>
      obtain ⟨_, h⟩ := h
      cases rest with
      | nil => simp at h
      | cons d rest => simp at h; simp [h]
    · simpa using ih

theorem length_snd_le {cs : List Char} {p : List Char × List Char} (h : p.1 ++ p.2 = cs) :
    p.2.length ≤ cs.length := by
  rw [← h, List.length_append]
  omega

/-! ## Cutting a text -/

/-- The segment at the start of a text that is not empty, and what follows
it. -/
def next (c : Char) (rest : List Char) : Segment × List Char :=
  if isQuote c then (.literal (c :: (quotedRest c rest).1), (quotedRest c rest).2)
  else if c = '/' ∧ rest.head? = some '/' then
    (.literal (c :: (lineRest rest).1), (lineRest rest).2)
  else if c = '/' ∧ rest.head? = some '*' then
    (.literal (c :: '*' :: (blockRest (rest.drop 1)).1), (blockRest (rest.drop 1)).2)
  else (.code c, rest)

theorem text_next (c : Char) (rest : List Char) :
    (next c rest).1.text ++ (next c rest).2 = c :: rest := by
  rw [next]
  split
  · simp [text, quotedRest_append]
  · split
    · simp [text, lineRest_append]
    · split
      · next h =>
        obtain ⟨_, h⟩ := h
        cases rest with
        | nil => simp at h
        | cons d rest => simp at h; simp [text, blockRest_append, h]
      · rfl

theorem length_next_lt (c : Char) (rest : List Char) :
    (next c rest).2.length < (c :: rest).length := by
  rw [next]
  split
  · have := length_snd_le (quotedRest_append c rest)
    simp only [List.length_cons]
    omega
  · split
    · have := length_snd_le (lineRest_append rest)
      simp only [List.length_cons]
      omega
    · split
      · have := length_snd_le (blockRest_append (rest.drop 1))
        simp only [List.length_cons, List.length_drop] at this ⊢
        omega
      · simp

def split : List Char → List Segment
  | [] => []
  | c :: rest => (next c rest).1 :: split (next c rest).2
termination_by cs => cs.length
decreasing_by exact length_next_lt c rest

/-- The segments of a text make up the text. -/
theorem text_split (cs : List Char) : (split cs).flatMap text = cs := by
  fun_induction split cs with
  | case1 => rfl
  | case2 c rest ih => rw [List.flatMap_cons, ih, text_next]

end Segment

end Downlevel.Code
