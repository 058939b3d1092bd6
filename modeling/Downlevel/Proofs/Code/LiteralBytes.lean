/-
Downlevel.Proofs.Code.LiteralBytes — literals found byte by byte.

`ofTextChecked` finds the literals of a text by a scan over its bytes. The scan
does not know of characters: it steps into them, a backslash in a string skips the
byte behind it, and a comment is searched for in a cut of the text. A byte behind
the end, a cut that does not fall between two characters and a literal from which
the scan would get no further all give none.

None of this happens, and the literals are those of the segments of the text
(`ofTextChecked_eq`): a quote, a slash and a backslash are single bytes, so the
scan only acts between two characters. `AreSeparate` says where the literals then
stand.
-/
import Downlevel.Proofs.Code.Carrying
import Downlevel.Proofs.Code.Reading
import Downlevel.Proofs.Text.Encoding

namespace Downlevel

open Text (bytes byteSize byteSlice? byteOffset findByte? IsBoundary)

/-- The stretch of a text with its ends counted in bytes. -/
def Span.inBytes (text : List Char) (s : Span) : Span :=
  ⟨byteOffset text s.start, byteOffset text s.stop⟩

namespace Code

open Segment

variable {c : Char} {b : UInt8} {u v cs rest text : List Char}

def inBytes (code : Code) : Code := ⟨code.text, code.literals.map (Span.inBytes code.text)⟩

@[simp] theorem inBytes_text (code : Code) : code.inBytes.text = code.text := rfl

@[simp] theorem ofText_text (text : List Char) : (ofText text).text = text := rfl

/-! ## The scan -/

def isQuoteByte (b : UInt8) : Bool :=
  b == '\x27'.toUInt8 || b == '"'.toUInt8 || b == '\x60'.toUInt8

/-- The byte of the quote that ends a string, from a byte inside on. -/
def quoteEndChecked (bytes : List UInt8) (quote : UInt8) (i : Nat) : Option Nat := do
  if i < bytes.length then
    let b ← bytes[i]?
    if b = quote then return i
    else if b = '\\'.toUInt8 then quoteEndChecked bytes quote (i + 2)
    else quoteEndChecked bytes quote (i + 1)
  else return i
termination_by bytes.length - i

def startsLine (cs : List Char) : Bool := cs.head?.any (· == '\n')

def closesBlock (cs : List Char) : Bool := ['*', '/'].isPrefixOf cs

/-- The end of the literal that starts at this byte of a text, if one does. -/
def literalEndChecked (text : List Char) (i : Nat) (b : UInt8) : Option (Option Nat) := do
  if isQuoteByte b then
    let stop ← quoteEndChecked (bytes text) b (i + 1)
    return some (min (stop + 1) (byteSize text))
  else if b = '/'.toUInt8 ∧ (bytes text)[i + 1]? = some '/'.toUInt8 then
    let comment ← byteSlice? text i (byteSize text)
    return some (((findByte? startsLine comment).map (i + ·)).getD (byteSize text))
  else if b = '/'.toUInt8 ∧ (bytes text)[i + 1]? = some '*'.toUInt8 then
    let comment ← byteSlice? text (i + 2) (byteSize text)
    return some (((findByte? closesBlock comment).map (i + · + 4)).getD (byteSize text))
  else return none

/-- The literals from a byte on. None also where a literal does not end further
right than it starts, for the scan would not end then. -/
def literalsFromChecked (text : List Char) (i : Nat) : Option (List Span) := do
  if i < byteSize text then
    let b ← (bytes text)[i]?
    match ← literalEndChecked text i b with
    | none => literalsFromChecked text (i + 1)
    | some stop =>
      if i < stop then
        let later ← literalsFromChecked text stop
        return ⟨i, stop⟩ :: later
      else none
  else return []
termination_by byteSize text - i

def ofTextChecked (text : List Char) : Option Code := do
  let literals ← literalsFromChecked text 0
  return ⟨text, literals⟩

/-! ## One byte -/

theorem toNat_lt_of_isQuote (h : isQuote c = true) : c.toNat < 128 := by
  simp only [isQuote, Bool.or_eq_true, beq_iff_eq] at h
  rcases h with (rfl | rfl) | rfl <;> decide

/-- The byte that starts a character is that of a character below 128 only if it is
that character. -/
theorem eq_toUInt8_iff {d : Char} (hd : d.toNat < 128)
    (hb : (bytes (u ++ c :: rest))[byteSize u]? = some b) : b = d.toUInt8 ↔ c = d := by
  have hiff : (bytes (u ++ c :: rest))[byteSize u]? = some d.toUInt8
      ↔ (c :: rest).head? = some d := Text.getElem?_bytes_eq_some_iff hd
  rwa [hb, Option.some_inj, List.head?_cons, Option.some_inj] at hiff

theorem isQuoteByte_eq (hb : (bytes (u ++ c :: rest))[byteSize u]? = some b) :
    isQuoteByte b = isQuote c := by
  have hsame : ∀ d : Char, d.toNat < 128 → (b == d.toUInt8) = (c == d) := by
    intro d hd
    rw [Bool.eq_iff_iff, beq_iff_eq, beq_iff_eq]
    exact eq_toUInt8_iff hd hb
  rw [isQuoteByte, isQuote, hsame '\x27' (by decide), hsame '"' (by decide),
    hsame '\x60' (by decide)]

theorem ne_toUInt8_of_le {d : Char} (hd : d.toNat < 128) (hb : 128 ≤ b.toNat) :
    b ≠ d.toUInt8 := by
  rintro rfl
  rw [Text.toNat_toUInt8_of_lt hd] at hb
  omega

/-! ## One literal -/

/-- The search for a quote passes over the rest of a character. -/
theorem quoteEndChecked_skip {quote : Char} {n : Nat} (hquote : isQuote quote = true)
    (hn : 0 < n) (hle : n ≤ c.utf8Size) :
    quoteEndChecked (bytes (u ++ c :: rest)) quote.toUInt8 (byteSize u + n)
      = quoteEndChecked (bytes (u ++ c :: rest)) quote.toUInt8 (byteSize (u ++ [c])) := by
  refine Text.skip_char (v := rest) (fun i b hb hlarge => ?_) (.inl hn) hle
  obtain ⟨hlt, -⟩ := List.getElem?_eq_some_iff.mp hb
  rw [quoteEndChecked.eq_def, if_pos hlt, hb]
  simp only [Option.bind_eq_bind, Option.bind_some,
    if_neg (ne_toUInt8_of_le (toNat_lt_of_isQuote hquote) hlarge),
    if_neg (ne_toUInt8_of_le (d := '\\') (by decide) hlarge)]

/-- The search for a quote where a character starts. -/
theorem quoteEndChecked_char {quote : Char} (hquote : isQuote quote = true) (u rest : List Char)
    (c : Char) :
    quoteEndChecked (bytes (u ++ c :: rest)) quote.toUInt8 (byteSize u)
      = if c = quote then some (byteSize u)
        else if c = '\\' then
          quoteEndChecked (bytes (u ++ c :: rest)) quote.toUInt8 (byteSize u + 2)
        else quoteEndChecked (bytes (u ++ c :: rest)) quote.toUInt8 (byteSize (u ++ [c])) := by
  have hlt := Text.byteSize_lt u rest c
  obtain ⟨b, hb⟩ := Text.exists_getElem?_bytes hlt
  rw [quoteEndChecked.eq_def, if_pos (by rwa [Text.length_bytes]), hb,
    ← quoteEndChecked_skip hquote Nat.one_pos c.utf8Size_pos]
  simp only [Option.bind_eq_bind, Option.bind_some, Option.pure_def,
    eq_toUInt8_iff (toNat_lt_of_isQuote hquote) hb, eq_toUInt8_iff (d := '\\') (by decide) hb]

/-- **The end of a string**, also of one that is not closed or that ends in a
backslash. -/
theorem quoteEndChecked_eq {quote : Char} (hquote : isQuote quote = true) (u cs : List Char) :
    ∃ i, quoteEndChecked (bytes (u ++ cs)) quote.toUInt8 (byteSize u) = some i
      ∧ min (i + 1) (byteSize (u ++ cs)) = byteSize (u ++ (quotedRest quote cs).1) := by
  have hone : quote.utf8Size = 1 := Text.utf8Size_of_lt (toNat_lt_of_isQuote hquote)
  have hend : ∀ (text : List Char) (i : Nat), byteSize text ≤ i →
      quoteEndChecked (bytes text) quote.toUInt8 i = some i := by
    intro text i hle
    rw [quoteEndChecked, if_neg (by rw [Text.length_bytes]; omega)]
    rfl
  fun_induction quotedRest quote cs generalizing u with
  | case1 => exact ⟨byteSize u, hend _ _ (by simp), by simp⟩
  | case2 rest =>
    refine ⟨byteSize u, ?_, by simp [hone]⟩
    rw [quoteEndChecked_char hquote, if_pos rfl]
  | case3 hquote' =>
    have hsize : ('\\' : Char).utf8Size = 1 := by decide
    refine ⟨byteSize u + 2, ?_, by simp [hsize]⟩
    rw [quoteEndChecked_char hquote, if_neg hquote', if_pos rfl]
    exact hend _ _ (by simp [hsize])
  | case4 escaped rest hquote' ih =>
    have hsize : byteSize (u ++ ['\\']) = byteSize u + 1 := Text.byteSize_append u ['\\']
    obtain ⟨i, hi, hstop⟩ := ih (u ++ ['\\'] ++ [escaped])
    rw [← List.append_cons, ← List.append_cons, List.append_assoc, List.append_assoc] at hstop
    refine ⟨i, ?_, hstop⟩
    rw [quoteEndChecked_char hquote, if_neg hquote', if_pos rfl, List.append_cons,
      ← Nat.add_assoc (byteSize u) 1 1, ← hsize,
      quoteEndChecked_skip hquote Nat.one_pos escaped.utf8Size_pos, List.append_cons]
    exact hi
  | case5 c rest hquote' hescape ih =>
    obtain ⟨i, hi, hstop⟩ := ih (u ++ [c])
    rw [quoteEndChecked_char hquote, if_neg hquote', if_neg hescape]
    refine ⟨i, ?_, ?_⟩
    · rwa [List.append_cons]
    · rwa [List.append_assoc, List.append_assoc] at hstop

/-- The end of a line comment. -/
theorem findByte?_startsLine (rest : List Char) :
    (findByte? startsLine ('/' :: '/' :: rest)).getD (byteSize ('/' :: '/' :: rest))
      = byteSize ('/' :: '/' :: (lineRest rest).1) :=
  Text.findByte?_head (· == '\n') _

theorem closesBlock_cons (c : Char) (rest : List Char) :
    closesBlock (c :: rest) = true ↔ c = '*' ∧ rest.head? = some '/' := by
  rw [closesBlock, List.isPrefixOf_iff_prefix, List.cons_prefix_cons, eq_comm]
  refine and_congr_right fun _ => ?_
  cases rest with
  | nil => simp
  | cons d rest => simp [eq_comm]

/-- The end of a block comment, behind its opening. -/
theorem findByte?_closesBlock (cs : List Char) :
    ((findByte? closesBlock cs).map (· + 2)).getD (byteSize cs) = byteSize (blockRest cs).1 := by
  induction cs with
  | nil => rfl
  | cons c rest ih =>
    rw [findByte?, blockRest]
    by_cases hclose : c = '*' ∧ rest.head? = some '/'
    · rw [if_pos ((closesBlock_cons _ _).mpr hclose), if_pos hclose, hclose.1]
      rfl
    · rw [if_neg (mt (closesBlock_cons _ _).mp hclose), if_neg hclose, Text.byteSize_cons,
        Text.byteSize_cons, ← ih]
      cases findByte? closesBlock rest with
      | none => rfl
      | some n => exact Nat.add_assoc _ n 2

theorem byteSize_block (cs : List Char) : byteSize ('/' :: '*' :: cs) = 2 + byteSize cs :=
  Text.byteSize_append ['/', '*'] cs

/-- The byte behind a literal that starts at a byte. -/
def Segment.stop? (i : Nat) : Segment → Option Nat
  | .code _ => none
  | .literal lit => some (i + byteSize lit)

/-- **One literal**: the scan finds the end of the segment that starts at a
character. -/
theorem literalEndChecked_eq (hb : (bytes (u ++ c :: rest))[byteSize u]? = some b) :
    literalEndChecked (u ++ c :: rest) (byteSize u) b
      = some ((next c rest).1.stop? (byteSize u)) := by
  have hnext : ∀ d : Char, d.toNat < 128 → c = '/' →
      ((bytes (u ++ c :: rest))[byteSize u + 1]? = some d.toUInt8 ↔ rest.head? = some d) := by
    rintro d hd rfl
    rw [List.append_cons]
    exact Text.byteSize_append u ['/'] ▸ Text.getElem?_bytes_eq_some_iff hd
  have hslash : b = '/'.toUInt8 ↔ c = '/' := eq_toUInt8_iff (by decide) hb
  rw [literalEndChecked, isQuoteByte_eq hb]
  rcases Segment.next_cases c rest with hquote | ⟨rfl, more, rfl⟩ | ⟨rfl, more, rfl⟩
    | ⟨hquote, hplain⟩
  · obtain ⟨i, hi, hstop⟩ := quoteEndChecked_eq hquote (u ++ [c]) rest
    have hbyte : b = c.toUInt8 := (eq_toUInt8_iff (toNat_lt_of_isQuote hquote) hb).mpr rfl
    have hone : byteSize (u ++ [c]) = byteSize u + 1 := by
      rw [Text.byteSize_append, Text.byteSize_cons,
        Text.utf8Size_of_lt (toNat_lt_of_isQuote hquote)]
      rfl
    rw [← List.append_cons, hone] at hi
    rw [← List.append_cons, ← List.append_cons,
      Text.byteSize_append u (c :: (quotedRest c rest).1)] at hstop
    rw [if_pos hquote, hbyte, hi, next_quote hquote, Segment.stop?, ← hstop]
    rfl
  · rw [if_neg (by decide), if_pos ⟨hslash.mpr rfl, (hnext '/' (by decide) rfl).mpr rfl⟩,
      Text.byteSlice?_end, next_line, Segment.stop?, ← findByte?_startsLine, Text.byteSize_append,
      Option.bind_eq_bind, Option.bind_some]
    cases findByte? startsLine ('/' :: '/' :: more) <;> rfl
  · have hopen : byteSize (u ++ ['/', '*']) = byteSize u + 2 := Text.byteSize_append u ['/', '*']
    have hcut : byteSlice? (u ++ '/' :: '*' :: more) (byteSize u + 2)
        (byteSize (u ++ '/' :: '*' :: more)) = some more := by
      rw [List.append_cons, List.append_cons, List.append_assoc u, ← hopen]
      exact Text.byteSlice?_end _ _
    rw [if_neg (by decide), if_neg (by rw [hnext '/' (by decide) rfl]; simp),
      if_pos ⟨hslash.mpr rfl, (hnext '*' (by decide) rfl).mpr rfl⟩, hcut, next_block,
      Segment.stop?, byteSize_block, ← findByte?_closesBlock, Text.byteSize_append,
      byteSize_block, Option.bind_eq_bind, Option.bind_some]
    cases findByte? closesBlock more with
    | none => rfl
    | some n =>
      have hcount : byteSize u + n + 4 = byteSize u + (2 + (n + 2)) := by omega
      exact congrArg (some ∘ some) hcount
  · have hline : ∀ d : Char, d.toNat < 128 → (d = '/' ∨ d = '*') →
        ¬ (b = '/'.toUInt8 ∧ (bytes (u ++ c :: rest))[byteSize u + 1]? = some d.toUInt8) := by
      rintro d hd hmark ⟨hc, hhead⟩
      have hc := hslash.mp hc
      rw [hnext d hd hc] at hhead
      rcases hmark with rfl | rfl
      · exact (hplain hc).1 hhead
      · exact (hplain hc).2 hhead
    rw [hquote, if_neg Bool.false_ne_true, if_neg (hline '/' (by decide) (.inl rfl)),
      if_neg (hline '*' (by decide) (.inr rfl)), next_code hquote hplain]
    rfl

/-! ## All literals -/

/-- The scan passes over the rest of a character, and over all of one from 128
on. -/
theorem literalsFromChecked_skip {n : Nat} (hn : 0 < n ∨ 128 ≤ c.toNat) (hle : n ≤ c.utf8Size) :
    literalsFromChecked (u ++ c :: rest) (byteSize u + n)
      = literalsFromChecked (u ++ c :: rest) (byteSize (u ++ [c])) := by
  refine Text.skip_char (v := rest) (fun i b hb hlarge => ?_) hn hle
  obtain ⟨hlt, -⟩ := List.getElem?_eq_some_iff.mp hb
  rw [Text.length_bytes] at hlt
  have hcode : literalEndChecked (u ++ c :: rest) i b = some none := by
    have hne : ∀ d : Char, d.toNat < 128 → b ≠ d.toUInt8 := fun d hd => ne_toUInt8_of_le hd hlarge
    have hquote : isQuoteByte b = false := by
      simp [isQuoteByte, hne '\x27' (by decide), hne '"' (by decide), hne '\x60' (by decide)]
    rw [literalEndChecked, hquote, if_neg Bool.false_ne_true,
      if_neg fun h => hne '/' (by decide) h.1, if_neg fun h => hne '/' (by decide) h.1]
    rfl
  rw [literalsFromChecked.eq_def, if_pos hlt, hb]
  simp only [Option.bind_eq_bind, Option.bind_some, hcode]

/-- **All literals**: from a place between two segments on, the scan finds those of
the segments. -/
theorem literalsFromChecked_eq (u cs : List Char) :
    literalsFromChecked (u ++ cs) (byteSize u)
      = some ((spansFrom u.length (split cs)).map (Span.inBytes (u ++ cs))) := by
  fun_induction split cs generalizing u with
  | case1 =>
    rw [List.append_nil, literalsFromChecked, if_neg (Nat.lt_irrefl _)]
    rfl
  | case2 c rest ih =>
    obtain ⟨w, hw, hrest⟩ := exists_text_next c rest
    have hlater := ih (u ++ c :: w)
    rw [List.append_assoc, List.cons_append, ← hrest, List.length_append] at hlater
    obtain ⟨b, hb⟩ := Text.exists_getElem?_bytes (Text.byteSize_lt u rest c)
    rw [literalsFromChecked.eq_def, if_pos (Text.byteSize_lt u rest c), hb]
    simp only [Option.bind_eq_bind, Option.bind_some, literalEndChecked_eq hb]
    cases hsegment : (next c rest).1 with
    | code d =>
      rw [hsegment, text_code] at hw
      obtain ⟨rfl, rfl⟩ := List.cons.inj hw
      rw [Segment.stop?, literalsFromChecked_skip (.inl Nat.one_pos) d.utf8Size_pos]
      exact hlater
    | literal lit =>
      rw [hsegment, text_literal] at hw
      subst hw
      have hstop : byteOffset (u ++ c :: rest) (u.length + (c :: w).length)
          = byteSize (u ++ c :: w) := by
        rw [← List.length_append, hrest, ← List.cons_append, ← List.append_assoc]
        exact Text.byteOffset_append _ _
      rw [spansFrom, List.map_cons, Span.inBytes, hstop, Text.byteOffset_append, Segment.stop?,
        ← Text.byteSize_append]
      simp only [hlater, Option.bind_some, Option.pure_def, if_pos (Text.byteSize_lt u w c)]

/-- **The scan by bytes** ends on every text, without a cut that fails, and finds
the literals of the text. -/
theorem ofTextChecked_eq (text : List Char) : ofTextChecked text = some (ofText text).inBytes := by
  have hall := literalsFromChecked_eq [] text
  rw [List.nil_append, Text.byteSize_nil] at hall
  rw [ofTextChecked, hall]
  rfl

/-! ## Where literals stand -/

/-- A quote or the mark of a comment comes first. -/
def StartsLiteral (lit : List Char) : Prop :=
  (∃ quote rest, isQuote quote = true ∧ lit = quote :: rest)
    ∨ ['/', '/'] <+: lit ∨ ['/', '*'] <+: lit

theorem startsLiteral_of_mem {lit : List Char} (h : .literal lit ∈ split cs) :
    StartsLiteral lit := by
  fun_induction split cs with
  | case1 => cases h
  | case2 c rest ih =>
    rcases List.mem_cons.mp h with hfirst | hlater
    · rcases Segment.next_cases c rest with hquote | ⟨rfl, more, rfl⟩ | ⟨rfl, more, rfl⟩
        | ⟨hquote, hplain⟩
      · rw [next_quote hquote] at hfirst
        exact .inl ⟨c, _, hquote, literal.inj hfirst⟩
      · rw [next_line] at hfirst
        exact .inr (.inl ⟨_, (literal.inj hfirst).symm⟩)
      · rw [next_block] at hfirst
        exact .inr (.inr ⟨_, (literal.inj hfirst).symm⟩)
      · rw [next_code hquote hplain] at hfirst
        cases hfirst
    · exact ih hlater

theorem pairwise_spansFrom (offset : Nat) (segments : List Segment) :
    (spansFrom offset segments).Pairwise fun s t => s.stop ≤ t.start := by
  induction segments generalizing offset with
  | nil => exact .nil
  | cons s rest ih =>
    cases s with
    | code c => exact ih (offset + 1)
    | literal lit =>
      refine List.pairwise_cons.mpr ⟨fun t ht => ?_, ih _⟩
      obtain ⟨before, _, after, -, rfl⟩ := mem_spansFrom.mp ht
      exact Nat.le_add_right _ _

/-- Literals in order and apart from each other, none of them empty, each within
the text with both ends between two characters, and each starting as a literal
does. -/
structure IsWellCut (code : Code) : Prop where
  inOrder : code.literals.Pairwise fun s t => s.start < t.start ∧ s.stop ≤ t.start
  inBounds : ∀ s ∈ code.literals, s.start < s.stop ∧ s.stop ≤ byteSize code.text
  atBoundaries : ∀ s ∈ code.literals, IsBoundary code.text s.start ∧ IsBoundary code.text s.stop
  starting : ∀ s ∈ code.literals,
    ∃ lit, byteSlice? code.text s.start s.stop = some lit ∧ StartsLiteral lit

theorem stop_le_length {s : Span} (h : s ∈ (ofText text).literals) : s.stop ≤ text.length := by
  obtain ⟨before, lit, after, hsplit, rfl⟩ := mem_literals.mp h
  rw [← width_split text, hsplit, width_append, width_cons, text_literal]
  exact Nat.add_le_add_left (Nat.le_add_right _ _) _

theorem inBytes_lt {s : Span} (h : s ∈ (ofText text).literals) :
    (s.inBytes text).start < (s.inBytes text).stop :=
  Text.byteOffset_lt (start_lt_stop h) (stop_le_length h)

/-- **Where the literals of a text stand.** -/
theorem isWellCut_inBytes (text : List Char) : (ofText text).inBytes.IsWellCut where
  inOrder := by
    refine List.pairwise_map.mpr ((pairwise_spansFrom 0 (split text)).imp_of_mem ?_)
    intro s t hs _ hle
    have hstop : (s.inBytes text).stop ≤ (t.inBytes text).start := Text.byteOffset_mono hle
    exact ⟨Nat.lt_of_lt_of_le (inBytes_lt hs) hstop, hstop⟩
  inBounds := by
    refine List.forall_mem_map.mpr fun s hs => ⟨inBytes_lt hs, ?_⟩
    exact (Text.isBoundary_byteOffset text s.stop).le
  atBoundaries := List.forall_mem_map.mpr fun s _ =>
    ⟨Text.isBoundary_byteOffset text s.start, Text.isBoundary_byteOffset text s.stop⟩
  starting := by
    refine List.forall_mem_map.mpr fun s hs => ?_
    have hcut : byteSlice? text (byteOffset text s.start) (byteOffset text s.stop)
        = some (Pattern.slice text s.start s.stop) :=
      Text.byteSlice?_byteOffset (Nat.le_of_lt (start_lt_stop hs)) (stop_le_length hs)
    refine ⟨_, hcut, ?_⟩
    obtain ⟨before, lit, after, hsplit, rfl⟩ := mem_literals.mp hs
    have htext : text.drop (width before) = lit ++ after.flatMap Segment.text := by
      conv => lhs; rw [← text_split text, hsplit, List.flatMap_append]
      exact List.drop_left' rfl
    rw [slice_of_drop htext]
    exact startsLiteral_of_mem (hsplit ▸ List.mem_append_right before List.mem_cons_self)

end Code

end Downlevel
