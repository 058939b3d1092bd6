/-
Downlevel.Proofs.Json.Parse — what is printed is parsed.

A printed value is cut into the tokens that it consists of (`tokenize_printChars`),
and the tokens are put together again (`read?_tokens`). Two things are lost on
the way. The order of members is one: an object is parsed as a map, so what
comes back is the canonical form. The other is a matter of limits. A text may
nest its containers only so deep, an integer has to fit a word, and the text of
a double is not always read as that double, because reading rounds more than
once. A value within these limits is legible (`IsLegible`), and comes back
(`parse?_print`).
-/
import Downlevel.Json.Reader
import Downlevel.Proofs.Json.Canonical
import Downlevel.Proofs.Json.Print

namespace Downlevel.Json

/-! ## Integers -/

/-- An integer that fits a signed or an unsigned word. -/
def IsWord (n : Int) : Prop := -(Nat.pow 2 63 : Int) ≤ n ∧ n ≤ maxSignificand

theorem le_ofDigitChars (cs : List Char) (n : Nat) : n ≤ Nat.ofDigitChars 10 cs n := by
  induction cs generalizing n with
  | nil => exact Nat.le_refl n
  | cons c rest ih =>
    rw [Nat.ofDigitChars_cons]
    exact Nat.le_trans (by omega) (ih _)

/-- Digits are taken to the last one, if the number that they make is within the
limit. -/
theorem takeDigits_of_le {limit acc count : Nat} {cs : List Char}
    (hdigits : ∀ c ∈ cs, c.isDigit = true) (hle : Nat.ofDigitChars 10 cs acc ≤ limit) :
    takeDigits limit acc count cs = (Nat.ofDigitChars 10 cs acc, count + cs.length, []) := by
  induction cs generalizing acc count with
  | nil => rfl
  | cons c rest ih =>
    obtain ⟨hc, hrest⟩ := List.forall_mem_cons.mp hdigits
    rw [Nat.ofDigitChars_cons] at hle
    have hnext : 10 * acc + (c.toNat - '0'.toNat) ≤ limit :=
      Nat.le_trans (le_ofDigitChars rest _) hle
    rw [takeDigits, if_pos hc, if_pos hnext, ih hrest hle, Nat.ofDigitChars_cons, List.length_cons]
    congr 2
    omega

/-- Only zero is written with a leading zero. -/
theorem head?_ofNat_ne {n : Nat} (h : n ≠ 0) : (Decimal.ofNat n).head? ≠ some '0' := by
  induction n using Nat.strongRecOn with
  | ind n ih =>
    rw [Decimal.ofNat]
    by_cases hlt : n < 10
    · rw [Nat.toDigits_of_lt_base hlt]
      simp [h]
    · have hsplit := Nat.toDigits_of_base_le (b := 10) (by omega) (Nat.le_of_not_lt hlt)
      have hprefix := ih (n / 10) (by omega) (by omega)
      rw [Decimal.ofNat] at hprefix
      rwa [hsplit, List.head?_append_of_ne_nil _ Nat.toDigits_ne_nil]

/-- A natural number starts with a digit, and other ones than zero with another
one than zero. -/
theorem ofNat_cases {n : Nat} (h : n ≠ 0) :
    ∃ c rest, Decimal.ofNat n = c :: rest ∧ c.isDigit = true ∧ c ≠ '0' := by
  obtain ⟨c, rest, hc⟩ := List.exists_cons_of_length_pos (Decimal.length_ofNat_pos n)
  have hhead := head?_ofNat_ne h
  rw [hc] at hhead
  refine ⟨c, rest, hc, Decimal.isDigit_of_mem_ofNat (n := n) (hc ▸ List.mem_cons_self), ?_⟩
  rintro rfl
  exact hhead rfl

theorem takeDigits_ofNat {n : Nat} (h : n ≤ maxSignificand) :
    takeDigits maxSignificand 0 0 (Decimal.ofNat n) = (n, (Decimal.ofNat n).length, []) := by
  rw [takeDigits_of_le (fun c hc => Decimal.isDigit_of_mem_ofNat hc)
    (by rwa [Decimal.ofDigitChars_ofNat]), Decimal.ofDigitChars_ofNat, Nat.zero_add]

theorem number?_ofNat {n : Nat} (h : n ≤ maxSignificand) :
    number? (Decimal.ofNat n) = some (.int n) := by
  by_cases hzero : n = 0
  · subst hzero
    rfl
  · obtain ⟨c, rest, htext, hdigit, hc⟩ := ofNat_cases hzero
    have htake := takeDigits_ofNat h
    have hminus : c ≠ '-' := by
      rintro rfl
      cases hdigit
    rw [htext] at htake ⊢
    simp [number?, hminus, hc, startsWithDigit, hdigit, htake, readAfterWhole?]

theorem number?_neg_ofNat {n : Nat} (hpos : n ≠ 0) (h : n ≤ Nat.pow 2 63) :
    number? ('-' :: Decimal.ofNat n) = some (.int (-n)) := by
  obtain ⟨c, rest, htext, hdigit, hc⟩ := ofNat_cases hpos
  have htake := takeDigits_ofNat (Nat.le_trans h (by decide))
  rw [htext] at htake ⊢
  simp [number?, hc, startsWithDigit, hdigit, htake, readAfterWhole?, Nat.pos_of_ne_zero hpos, h]

/-- An integer is read back where it fits a word. -/
theorem number?_ofInt {n : Int} (h : IsWord n) : number? (Decimal.ofInt n) = some (.int n) := by
  obtain ⟨hleast, hgreatest⟩ := h
  rw [Decimal.ofInt]
  split
  · next hneg =>
    rw [number?_neg_ofNat (by omega) (by omega)]
    congr 2
    omega
  · next hnonneg =>
    rw [number?_ofNat (by omega)]
    congr 2
    omega

/-! ## Tokens -/

/-- All tokens of a text. -/
def tokenize (cs : List Char) : Option (List Token) := Token.collect? [] cs

/-- Tokens that were found before stay in front. -/
theorem collect?_eq (found : List Token) (cs : List Char) :
    Token.collect? found cs = (tokenize cs).map (found.reverse ++ ·) := by
  induction hlength : cs.length using Nat.strongRecOn generalizing found cs with
  | ind n ih =>
    -- what is left after a token is collected the same way, whatever is on top
    have hstep : ∀ {rest : List Char} (token : Token), rest.length < n →
        Token.collect? (token :: found) rest
          = (Token.collect? [token] rest).map (found.reverse ++ ·) := by
      intro rest token hlt
      rw [ih _ hlt (token :: found) rest rfl, ih _ hlt [token] rest rfl, Option.map_map]
      congr 1
      funext tokens
      simp
    subst hlength
    cases cs with
    | nil => simp [tokenize, Token.collect?]
    | cons c rest =>
      rw [tokenize, Token.collect?, Token.collect?]
      split
      · exact ih _ (Nat.lt_succ_self _) found rest rfl
      · split
        · next token _ => exact hstep token (Nat.lt_succ_self _)
        · split
          · split
            · next hbody => exact hstep _ (Nat.lt_succ_of_lt (Token.stringBody?_length hbody))
            · rfl
          · split
            · split
              · exact hstep _ (Nat.lt_succ_of_le (Token.length_dropWhile_le _ rest))
              · rfl
            · rfl

theorem tokenize_nil : tokenize [] = some [] := by
  rw [tokenize, Token.collect?]
  rfl

theorem tokenize_punctuation {c : Char} {token : Token} (h : Token.punctuation? c = some token)
    (rest : List Char) : tokenize (c :: rest) = (tokenize rest).map (token :: ·) := by
  have hblank : Token.isBlank c = false := by
    rw [Bool.eq_false_iff]
    intro hblank
    simp only [Token.isBlank, Bool.or_eq_true, beq_iff_eq] at hblank
    rcases hblank with ((rfl | rfl) | rfl) | rfl <;> cases h
  rw [tokenize, Token.collect?, hblank, h]
  exact collect?_eq [token] rest

theorem tokenize_quoted (text : String) (rest : List Char) :
    tokenize (quoted text ++ rest) = (tokenize rest).map (.str text :: ·) := by
  have hbody : Token.stringBody? [] (escape text.toList ++ '"' :: rest)
      = some (text.toList, rest) := by
    rw [stringBody?_escape, List.reverse_nil, List.nil_append]
  have hquoted : quoted text ++ rest = '"' :: (escape text.toList ++ '"' :: rest) := by
    simp [quoted]
  have hblank : Token.isBlank '"' = false := by decide
  have hpunctuation : Token.punctuation? '"' = none := rfl
  rw [hquoted, tokenize, Token.collect?, hblank, hpunctuation]
  simp only [Bool.false_eq_true, if_false, if_true]
  split
  · next hread =>
    rw [hbody] at hread
    cases hread
    rw [String.ofList_toList]
    exact collect?_eq [.str text] rest
  · next hread => cases hbody.symm.trans hread

/-- The characters of scalars start no token of another kind. -/
theorem isScalarChar_apart {c : Char} (h : Token.isScalarChar c = true) :
    Token.isBlank c = false ∧ Token.punctuation? c = none ∧ c ≠ '"' := by
  have hne : ∀ other, Token.isScalarChar other = false → c ≠ other := by
    rintro other hother rfl
    rw [h] at hother
    cases hother
  refine ⟨?_, ?_, hne _ (by decide)⟩
  · simp [Token.isBlank, hne ' ' (by decide), hne '\n' (by decide), hne '\t' (by decide),
      hne '\r' (by decide)]
  · simp [Token.punctuation?, hne '[' (by decide), hne ']' (by decide), hne '\x7b' (by decide),
      hne '\x7d' (by decide), hne ',' (by decide), hne ':' (by decide)]

theorem tokenize_scalar {word rest : List Char} {value : Json}
    (hscalar : word.all Token.isScalarChar = true) (hvalue : Token.scalar? word = some value)
    (hrest : EndsValue rest) :
    tokenize (word ++ rest) = (tokenize rest).map (.scalar value :: ·) := by
  cases word with
  | nil => cases hvalue
  | cons c word =>
    obtain ⟨hc, hword⟩ := List.forall_mem_cons.mp (List.all_eq_true.mp hscalar)
    obtain ⟨hblank, hpunctuation, hquote⟩ := isScalarChar_apart hc
    have hend : ∀ d ∈ rest.head?, Token.isScalarChar d = false := by
      intro d hd
      rcases hrest d hd with rfl | rfl | rfl <;> decide
    have htake : (word ++ rest).takeWhile Token.isScalarChar = word := by
      rw [List.takeWhile_append_of_pos hword]
      cases rest with
      | nil => simp
      | cons d rest => simp [hend d rfl]
    have hdrop : (word ++ rest).dropWhile Token.isScalarChar = rest := by
      rw [List.dropWhile_append_of_pos hword]
      cases rest with
      | nil => rfl
      | cons d rest => simp [hend d rfl]
    rw [List.cons_append, tokenize, Token.collect?, hblank, hpunctuation, htake, hdrop]
    simp only [Bool.false_eq_true, if_false, if_neg hquote, hc, if_true, hvalue]
    exact collect?_eq [.scalar value] rest

/-! ## Legible values -/

mutual

/-- How deep the containers of a value are nested. -/
def depth : Json → Nat
  | .arr items => itemsDepth items + 1
  | .obj members => membersDepth members + 1
  | _ => 0

def itemsDepth : List Json → Nat
  | [] => 0
  | item :: rest => max item.depth (itemsDepth rest)

def membersDepth : List (String × Json) → Nat
  | [] => 0
  | (_, value) :: rest => max value.depth (membersDepth rest)

end

mutual

/-- Every integer inside the value fits a word, and every double is finite and
its text is read as that double. -/
def NumbersLegible : Json → Prop
  | .int n => IsWord n
  | .float x => x.isFinite ∧ number? (floatText x) = some (.float x)
  | .arr items => ItemsLegible items
  | .obj members => MembersLegible members
  | _ => True

def ItemsLegible : List Json → Prop
  | [] => True
  | item :: rest => item.NumbersLegible ∧ ItemsLegible rest

def MembersLegible : List (String × Json) → Prop
  | [] => True
  | (_, value) :: rest => value.NumbersLegible ∧ MembersLegible rest

end

/-- A value within the limits of what can be read. -/
structure IsLegible (j : Json) : Prop where
  depth_le : j.depth ≤ maxDepth
  numbers : j.NumbersLegible

/-! ## Values -/

mutual

/-- The tokens of a printed value. -/
def tokens : Json → List Token
  | .str text => [.str text]
  | .arr items => .openArr :: (itemsTokens items ++ [.closeArr])
  | .obj members => .openObj :: (membersTokens members ++ [.closeObj])
  | scalar => [.scalar scalar]

def itemsTokens : List Json → List Token
  | [] => []
  | [item] => item.tokens
  | item :: rest => item.tokens ++ .comma :: itemsTokens rest

def membersTokens : List (String × Json) → List Token
  | [] => []
  | [(key, value)] => .str key :: .colon :: value.tokens
  | (key, value) :: rest => .str key :: .colon :: (value.tokens ++ .comma :: membersTokens rest)

end

theorem scalar?_of_number? {word : List Char} {value : Json} (h : number? word = some value) :
    Token.scalar? word = some value := by
  have hne : ∀ name, number? name = none → word ≠ name := by
    rintro name hname rfl
    cases h.symm.trans hname
  rw [Token.scalar?, if_neg (hne _ rfl), if_neg (hne _ rfl), if_neg (hne _ rfl), h]

theorem tokenize_number {word rest : List Char} {value : Json}
    (hword : ∀ c ∈ word, Decimal.isNumberChar c = true) (hvalue : number? word = some value)
    (hrest : EndsValue rest) :
    tokenize (word ++ rest) = (tokenize rest).map (.scalar value :: ·) := by
  refine tokenize_scalar (List.all_eq_true.mpr fun c hc => ?_) (scalar?_of_number? hvalue) hrest
  have hchar := hword c hc
  simp only [Decimal.isNumberChar, Bool.or_eq_true, beq_iff_eq] at hchar
  rcases hchar with (((hdigit | rfl) | rfl) | rfl) | rfl
  · simp [Token.isScalarChar, Char.isAlphanum, hdigit]
  all_goals decide

mutual

/-- **A printed value is cut into its tokens**, whatever follows it. -/
theorem tokenize_printChars : ∀ (j : Json) {rest : List Char}, j.NumbersLegible →
    EndsValue rest → tokenize (j.printChars ++ rest) = (tokenize rest).map (j.tokens ++ ·)
  | .null, rest, _, hrest => tokenize_scalar rfl rfl hrest
  | .bool true, rest, _, hrest => tokenize_scalar rfl rfl hrest
  | .bool false, rest, _, hrest => tokenize_scalar rfl rfl hrest
  | .int n, rest, h, hrest =>
      tokenize_number (isNumberChar_of_mem_printChars (j := .int n) trivial rfl)
        (number?_ofInt h) hrest
  | .float x, rest, h, hrest =>
      tokenize_number (isNumberChar_of_mem_printChars (j := .float x) h.1 rfl) h.2 hrest
  | .str text, rest, _, _ => tokenize_quoted text rest
  | .arr items, rest, h, _ => by
      rw [printChars, tokens, List.cons_append, List.append_assoc, List.singleton_append,
        tokenize_punctuation rfl, tokenize_printItems items h, Option.map_map]
      congr 1
      funext ts
      simp
  | .obj members, rest, h, _ => by
      rw [printChars, tokens, List.cons_append, List.append_assoc, List.singleton_append,
        tokenize_punctuation rfl, tokenize_printMembers members h, Option.map_map]
      congr 1
      funext ts
      simp

theorem tokenize_printItems : ∀ (items : List Json) {rest : List Char}, ItemsLegible items →
    tokenize (printItems items ++ ']' :: rest)
      = (tokenize rest).map (itemsTokens items ++ .closeArr :: ·)
  | [], rest, _ => tokenize_punctuation rfl rest
  | [item], rest, h => by
      rw [printItems_cons, tokenize_printChars item h.1 (endsValue_itemsRest [] rest), itemsRest,
        tokenize_punctuation rfl, Option.map_map]
      rfl
  | item :: next :: items, rest, h => by
      rw [printItems_cons, tokenize_printChars item h.1 (endsValue_itemsRest (next :: items) rest),
        itemsRest, tokenize_punctuation rfl, tokenize_printItems (next :: items) h.2,
        Option.map_map, Option.map_map]
      congr 1
      funext ts
      simp [itemsTokens]

theorem tokenize_printMembers : ∀ (members : List (String × Json)) {rest : List Char},
    MembersLegible members →
    tokenize (printMembers members ++ '\x7d' :: rest)
      = (tokenize rest).map (membersTokens members ++ .closeObj :: ·)
  | [], rest, _ => tokenize_punctuation rfl rest
  | [(key, value)], rest, h => by
      rw [printMembers_cons, tokenize_quoted, tokenize_punctuation rfl,
        tokenize_printChars value h.1 (endsValue_membersRest [] rest), membersRest,
        tokenize_punctuation rfl, Option.map_map, Option.map_map, Option.map_map]
      rfl
  | (key, value) :: next :: members, rest, h => by
      rw [printMembers_cons, tokenize_quoted, tokenize_punctuation rfl,
        tokenize_printChars value h.1 (endsValue_membersRest (next :: members) rest), membersRest,
        tokenize_punctuation rfl, tokenize_printMembers (next :: members) h.2, Option.map_map,
        Option.map_map, Option.map_map, Option.map_map]
      congr 1
      funext ts
      simp [membersTokens]

end

/-! ## Reading -/

/-- No value starts where an array ends. -/
theorem tokens_eq_cons (j : Json) : ∃ first rest, j.tokens = first :: rest ∧ first ≠ .closeArr := by
  cases j <;> exact ⟨_, _, rfl, by simp⟩

theorem read?_openArr {stack : List Frame} {first : Token} {rest : List Token}
    (hdepth : stack.length < maxDepth) (hfirst : first ≠ .closeArr) :
    read? .value stack (.openArr :: first :: rest)
      = read? .value (.arr [] :: stack) (first :: rest) := by
  have hopen : ∀ others, first :: rest = .closeArr :: others → False := by
    rintro others ⟨⟩
    exact hfirst rfl
  rw [read?, if_pos hdepth]
  exact hopen

/-- The members of an object after more were read. -/
def insertAll (done : List (String × Json)) (members : List (String × Json)) :
    List (String × Json) :=
  members.foldl (fun acc e => Entries.insert e.1 e.2.canonical acc) done

theorem ascending_insertAll {done : List (String × Json)} (h : Entries.Ascending done)
    (members : List (String × Json)) : Entries.Ascending (insertAll done members) := by
  induction members generalizing done with
  | nil => exact h
  | cons e rest ih => exact ih (Entries.ascending_insert _ _ h)

theorem get?_insertAll (key : String) (done members : List (String × Json)) :
    Entries.get? key (insertAll done members)
      = ((Entries.get? key members.reverse).map canonical).or (Entries.get? key done) := by
  induction members generalizing done with
  | nil => rfl
  | cons e rest ih =>
    obtain ⟨k, value⟩ := e
    rw [insertAll, List.foldl_cons, ← insertAll, ih, Entries.get?_insert,
      Entries.get?_reverse_cons]
    cases Entries.get? key rest.reverse with
    | some found => rfl
    | none => by_cases hk : key = k <;> simp [hk]

/-- Members that are inserted one after the other make a canonical object. -/
theorem insertAll_nil (members : List (String × Json)) :
    insertAll [] members = canonicalMembers members := by
  refine Entries.eq_of_get?_eq (ascending_insertAll List.Pairwise.nil members)
    (canonicalMembers_isCanonical members).1 fun key => ?_
  rw [get?_insertAll, get?_canonicalMembers, Entries.get?, Option.or_none]

/-- What stands between an item that was read and the end of its array. -/
def itemsTail : List Json → List Token → List Token
  | [], rest => .closeArr :: rest
  | item :: items, rest => .comma :: (itemsTokens (item :: items) ++ .closeArr :: rest)

theorem itemsTokens_cons (item : Json) (items : List Json) (rest : List Token) :
    itemsTokens (item :: items) ++ .closeArr :: rest = item.tokens ++ itemsTail items rest := by
  cases items <;> simp [itemsTokens, itemsTail]

/-- What stands between a member that was read and the end of its object. -/
def membersTail : List (String × Json) → List Token → List Token
  | [], rest => .closeObj :: rest
  | member :: members, rest => .comma :: (membersTokens (member :: members) ++ .closeObj :: rest)

theorem membersTokens_cons (key : String) (value : Json) (members : List (String × Json))
    (rest : List Token) :
    membersTokens ((key, value) :: members) ++ .closeObj :: rest
      = .str key :: .colon :: (value.tokens ++ membersTail members rest) := by
  cases members <;> simp [membersTokens, membersTail]

mutual

/-- **Tokens are put together** to the canonical form of the value that they
were cut from, if there is room on the stack for its containers. -/
theorem read?_tokens : ∀ (j : Json) (stack : List Frame) (rest : List Token),
    j.NumbersLegible → j.depth + stack.length ≤ maxDepth →
    read? .value stack (j.tokens ++ rest) = read? (.after j.canonical) stack rest
  | .null, stack, rest, _, _ => rfl
  | .bool value, stack, rest, _, _ => rfl
  | .int n, stack, rest, _, _ => rfl
  | .float x, stack, rest, h, _ => by
      rw [canonical, if_pos h.1]
      rfl
  | .str text, stack, rest, _, _ => rfl
  | .arr [], stack, rest, _, hdepth => by
      have hroom : stack.length < maxDepth := by simp only [depth] at hdepth; omega
      exact if_pos hroom
  | .arr (item :: items), stack, rest, h, hdepth => by
      rw [depth, itemsDepth] at hdepth
      obtain ⟨first, more, hfirst, hopen⟩ := tokens_eq_cons item
      have hitem := read?_tokens item (.arr [] :: stack) (itemsTail items rest) h.1
        (by rw [List.length_cons]; omega)
      have hitems := read?_itemsTail items item.canonical [] stack rest h.2 (by omega)
      rw [hfirst, List.cons_append] at hitem
      rw [tokens, List.cons_append, List.append_assoc, List.singleton_append, itemsTokens_cons,
        hfirst, List.cons_append, read?_openArr (by omega) hopen, hitem, hitems, canonical]
      rfl
  | .obj [], stack, rest, _, hdepth => by
      have hroom : stack.length < maxDepth := by simp only [depth] at hdepth; omega
      exact if_pos hroom
  | .obj ((key, value) :: members), stack, rest, h, hdepth => by
      rw [depth, membersDepth] at hdepth
      have hroom : stack.length < maxDepth := by omega
      have hvalue := read?_tokens value (.obj [] key :: stack) (membersTail members rest) h.1
        (by rw [List.length_cons]; omega)
      have hmembers := read?_membersTail members value.canonical [] key stack rest h.2 (by omega)
      rw [tokens, List.cons_append, List.append_assoc, List.singleton_append, membersTokens_cons,
        read?, if_pos hroom, hvalue, hmembers, canonical, ← insertAll_nil]
      rfl

theorem read?_itemsTail : ∀ (items : List Json) (value : Json) (done : List Json)
    (stack : List Frame) (rest : List Token), ItemsLegible items →
    itemsDepth items + (stack.length + 1) ≤ maxDepth →
    read? (.after value) (.arr done :: stack) (itemsTail items rest)
      = read? (.after (.arr (done.reverse ++ value :: canonicalItems items))) stack rest
  | [], value, done, stack, rest, _, _ => by
      rw [itemsTail, read?, List.reverse_cons]
      rfl
  | item :: items, value, done, stack, rest, h, hdepth => by
      rw [itemsDepth] at hdepth
      rw [itemsTail, itemsTokens_cons, read?,
        read?_tokens item _ _ h.1 (by rw [List.length_cons]; omega),
        read?_itemsTail items _ _ _ _ h.2 (by omega), List.reverse_cons, List.append_assoc]
      rfl

theorem read?_membersTail : ∀ (members : List (String × Json)) (value : Json)
    (done : List (String × Json)) (key : String) (stack : List Frame) (rest : List Token),
    MembersLegible members → membersDepth members + (stack.length + 1) ≤ maxDepth →
    read? (.after value) (.obj done key :: stack) (membersTail members rest)
      = read? (.after (.obj (insertAll (Entries.insert key value done) members))) stack rest
  | [], value, done, key, stack, rest, _, _ => rfl
  | (next, value') :: members, value, done, key, stack, rest, h, hdepth => by
      rw [membersDepth] at hdepth
      rw [membersTail, membersTokens_cons, read?,
        read?_tokens value' _ _ h.1 (by rw [List.length_cons]; omega),
        read?_membersTail members _ _ _ _ _ h.2 (by omega)]
      rfl

end

/-- **A legible value comes back** from its text, with the members of its
objects in order. -/
theorem parse?_print {j : Json} (h : j.IsLegible) : parse? j.print = some j.canonical := by
  have htokens := tokenize_printChars j h.numbers .nil
  rw [List.append_nil, tokenize_nil, Option.map_some, List.append_nil] at htokens
  have hread := read?_tokens j [] [] h.numbers h.depth_le
  rw [List.append_nil] at hread
  rw [parse?, print, String.toList_ofList, ← tokenize, htokens, Option.bind_some, hread]
  rfl

end Downlevel.Json
