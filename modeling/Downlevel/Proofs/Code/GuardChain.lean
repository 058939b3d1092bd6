/-
Downlevel.Proofs.Code.GuardChain — a chain and its guards mean the same.

The guards of a chain are texts of plain chains: one up to each optional link,
and the whole chain without question marks last (`Chain.HasGuards`). Since
taking a text apart gives back the links that it was written from, one
evaluation of chain texts (`Evaluation.value`) reads the chain as well as its
guards, and their conjunction is evaluated from left to right.

`guardChain_keeps_meaning` compares the two for every text that the chain
pattern matches. The induction is on the links still to come; it carries the
value that the plain chain has up to there. Where a link fails, the next guard
fails in the same way, because all later guards go on with that link
(`conjunction_of_error`).
-/
import Downlevel.Proofs.Code.Chain

namespace Downlevel.Code.OptionalAccess

open Pattern

/-! ## Plain chains -/

/-- The link without its question mark. What is left of the accessor stays in
front of a name, and brackets follow directly. -/
def Link.toPlain (l : Link) : Link :=
  if l.isOptional then ⟨if l.part.head?.any isBracket then none else some ['.'], l.part⟩ else l

/-- The text of a name with links, all of them without question marks. -/
def plainText (name : List Char) (ls : List Link) : List Char :=
  name ++ written (ls.map Link.toPlain)

theorem any_isBracket_of_isName {w : List Char} (h : IsName w) : w.head?.any isBracket = false := by
  obtain ⟨x, rest, rfl, hx, -⟩ := h
  have hbase := isBaseChar_of_isNamePart (isNamePart_of_isNameStart hx)
  simp only [isBaseChar, Bool.not_eq_true', Bool.or_eq_false_iff] at hbase
  exact hbase.2

theorem any_isBracket_of_isBrackets {w : List Char} (h : IsBrackets w) :
    w.head?.any isBracket = true := by
  rcases h with ⟨body, rfl, -⟩ | ⟨body, rfl, -⟩ <;> rfl

namespace Link.IsWritten

variable {l : Link}

/-- A plain link is one that a chain may have. -/
theorem toPlain (h : l.IsWritten) : l.toPlain.IsWritten := by
  cases h with
  | member hname => exact .member hname
  | brackets hbrackets => exact .brackets hbrackets
  | optional hpart =>
    rcases hpart with hname | hbrackets
    · simpa [Link.toPlain, Link.isOptional, any_isBracket_of_isName hname] using member hname
    · simpa [Link.toPlain, Link.isOptional, any_isBracket_of_isBrackets hbrackets]
        using brackets hbrackets

theorem text_toPlain (h : l.IsWritten) : l.toPlain.text = l.plain := by
  cases h with
  | member hname =>
    simp [Link.toPlain, Link.isOptional, Link.plain, Link.text, any_isBracket_of_isName hname]
  | brackets hbrackets => rfl
  | optional hpart =>
    rcases hpart with hname | hbrackets
    · simp [Link.toPlain, Link.isOptional, Link.plain, Link.text, any_isBracket_of_isName hname]
    · simp [Link.toPlain, Link.isOptional, Link.plain, Link.text,
        any_isBracket_of_isBrackets hbrackets]

end Link.IsWritten

@[simp] theorem Link.toPlain_part (l : Link) : l.toPlain.part = l.part := by
  rw [Link.toPlain]
  split <;> rfl

@[simp] theorem Link.isOptional_toPlain (l : Link) : l.toPlain.isOptional = false := by
  rw [Link.toPlain]
  split
  · simp only [Link.isOptional]
    split <;> decide
  · next h => exact Bool.eq_false_iff.mpr h

theorem plainText_concat {l : Link} (hl : l.IsWritten) (name : List Char) (before : List Link) :
    plainText name (before ++ [l]) = plainText name before ++ l.plain := by
  simp [plainText, hl.text_toPlain]

/-! ## The guards -/

/-- The guards of a chain: for each optional link the plain chain before it,
which the last guard goes on from, and the whole plain chain last. -/
structure Chain.HasGuards (c : Chain) (gs : List (List Char)) : Prop where
  count : gs.length = c.links.countP Link.isOptional + 1
  each : ∀ before l after, c.links = before ++ l :: after → l.isOptional = true →
    gs[before.countP Link.isOptional]? = some (plainText c.name before)
      ∧ plainText c.name c.links
        = plainText c.name before ++ written ((l :: after).map Link.toPlain)
  last : gs.getLast? = some (plainText c.name c.links)

section Guards

variable {name : List Char} {done ls : List Link}

theorem length_guards (current : List Char) (ls : List Link) :
    (guards current ls).length = ls.countP Link.isOptional + 1 := by
  induction ls generalizing current with
  | nil => rfl
  | cons l ls ih =>
    rw [guards, List.countP_cons]
    split <;> simp [ih]

theorem guards_ne_nil (current : List Char) (ls : List Link) : guards current ls ≠ [] := by
  refine List.ne_nil_of_length_pos ?_
  rw [length_guards]
  exact Nat.succ_pos _

theorem getLast?_guards (hls : ∀ l ∈ ls, l.IsWritten) :
    (guards (plainText name done) ls).getLast? = some (plainText name (done ++ ls)) := by
  induction ls generalizing done with
  | nil => simp [guards]
  | cons l ls ih =>
    obtain ⟨hl, hmore⟩ := List.forall_mem_cons.mp hls
    have hlater : (guards (plainText name (done ++ [l])) ls).getLast?
        = some (plainText name (done ++ [l] ++ ls)) := ih hmore
    rw [plainText_concat hl, List.append_assoc, List.singleton_append] at hlater
    rw [guards]
    split
    · rw [List.getLast?_cons_of_ne_nil (guards_ne_nil _ _), hlater]
    · exact hlater

theorem getElem?_guards {before after : List Link} {l : Link} (hls : ∀ l ∈ ls, l.IsWritten)
    (hparts : ls = before ++ l :: after) (hl : l.isOptional = true) :
    (guards (plainText name done) ls)[before.countP Link.isOptional]?
      = some (plainText name (done ++ before)) := by
  induction before generalizing done ls with
  | nil =>
    subst hparts
    simp [guards, hl]
  | cons first before ih =>
    subst hparts
    obtain ⟨hfirst, hmore⟩ := List.forall_mem_cons.mp hls
    have hlater : (guards (plainText name (done ++ [first])) (before ++ l :: after))[
          before.countP Link.isOptional]?
        = some (plainText name (done ++ [first] ++ before)) := ih hmore rfl
    rw [plainText_concat hfirst, List.append_assoc, List.singleton_append] at hlater
    rw [List.cons_append, guards, List.countP_cons]
    split <;> simpa using hlater

theorem Chain.hasGuards (c : Chain) :
    c.HasGuards (guards (base c.text) (OptionalAccess.links c.text)) := by
  have hname : c.name = plainText c.name [] := (List.append_nil c.name).symm
  rw [base_text, links_text]
  refine ⟨length_guards _ _, fun before l after hparts hl => ⟨?_, ?_⟩, ?_⟩
  · rw [hname, getElem?_guards c.areWritten hparts hl, ← hname, List.nil_append]
  · rw [plainText, plainText, hparts, List.map_append, written_append, List.append_assoc]
  · rw [hname, getLast?_guards c.areWritten, ← hname, List.nil_append]

end Guards

/-! ## Evaluation -/

universe u v

/-- Why an evaluation fails: a link was taken from a nullish value, or what it
was taken from raised an error. -/
inductive Fault (E : Type v) where
  | nullishAccess
  | raised (error : E)

/-- What names stand for, and what is behind a part of a chain. -/
structure Evaluation (V : Type u) (E : Type v) where
  nameValue : List Char → Except E V
  access : List Char → V → Except E V
  isNullish : V → Bool
  isTruthy : V → Bool
  isTruthy_eq_false : ∀ v, isNullish v = true → isTruthy v = false

namespace Evaluation

variable {V : Type u} {E : Type v} (ev : Evaluation V E)

/-- Follows links from a value. There is no value where an optional link cuts
the rest short. -/
def follow : V → List Link → Except (Fault E) (Option V)
  | v, [] => .ok (some v)
  | v, l :: rest =>
    if ev.isNullish v then if l.isOptional then .ok none else .error .nullishAccess
    else
      match ev.access l.part v with
      | .error e => .error (.raised e)
      | .ok next => follow next rest

/-- The value of a name with links. -/
def valueOf (name : List Char) (ls : List Link) : Except (Fault E) (Option V) :=
  match ev.nameValue name with
  | .error e => .error (.raised e)
  | .ok v => ev.follow v ls

/-- The value of the text of a chain. -/
def value (text : List Char) : Except (Fault E) (Option V) :=
  ev.valueOf (base text) (links text)

/-- The value of a conjunction of chain texts: that of the first one that is
not truthy, or else of the last one. -/
def conjunction : List (List Char) → Except (Fault E) (Option V)
  | [] => .ok none
  | [text] => ev.value text
  | text :: more =>
    match ev.value text with
    | .error f => .error f
    | .ok x => if x.any ev.isTruthy then conjunction more else .ok x

/-- Nothing but a nullish value. -/
def IsNullishResult (x : Option V) : Prop := ∀ v ∈ x, ev.isNullish v = true

/-- Where a chain has an optional link, the value before it is nullish or
truthy. -/
def Decides (c : Chain) : Prop :=
  ∀ before l after, c.links = before ++ l :: after → l.isOptional = true →
    ∀ v, ev.value (plainText c.name before) = .ok (some v) →
      ev.isNullish v = true ∨ ev.isTruthy v = true

/-- Two evaluations that are nullish together, have the same other values and
fail in the same way. -/
structure SameMeaning (x y : Except (Fault E) (Option V)) : Prop where
  nullish : (∃ u, x = .ok u ∧ ev.IsNullishResult u) ↔ ∃ u, y = .ok u ∧ ev.IsNullishResult u
  same : ∀ v, ev.isNullish v = false → (x = .ok (some v) ↔ y = .ok (some v))
  faults : ∀ f, x = .error f ↔ y = .error f

theorem SameMeaning.refl (x : Except (Fault E) (Option V)) : ev.SameMeaning x x :=
  ⟨.rfl, fun _ _ => .rfl, fun _ => .rfl⟩

theorem SameMeaning.of_nullish {x y : Option V} (hx : ev.IsNullishResult x)
    (hy : ev.IsNullishResult y) : ev.SameMeaning (.ok x) (.ok y) := by
  have hnot : ∀ {x : Option V} {v : V}, ev.IsNullishResult x → ev.isNullish v = false →
      (.ok x : Except (Fault E) (Option V)) ≠ .ok (some v) := by
    rintro _ v hx hv ⟨⟩
    rw [hx v rfl] at hv
    cases hv
  exact ⟨iff_of_true ⟨x, rfl, hx⟩ ⟨y, rfl, hy⟩,
    fun _ hv => iff_of_false (hnot hx hv) (hnot hy hv), fun _ => iff_of_false nofun nofun⟩

/-! ### Following links -/

section Following

variable {ev} {name : List Char} {ls : List Link} {l : Link} {v w : V} {f : Fault E}

theorem follow_append_of_ok (h : ev.follow v ls = .ok (some w)) (more : List Link) :
    ev.follow v (ls ++ more) = ev.follow w more := by
  induction ls generalizing v with
  | nil =>
    cases h
    rfl
  | cons l ls ih =>
    rw [follow] at h
    rw [List.cons_append, follow]
    split at h
    · split at h <;> cases h
    · next hv =>
      rw [if_neg hv]
      split at h
      · cases h
      · exact ih h

theorem follow_append_of_error (h : ev.follow v ls = .error f) (more : List Link) :
    ev.follow v (ls ++ more) = .error f := by
  induction ls generalizing v with
  | nil => cases h
  | cons l ls ih =>
    rw [follow] at h
    rw [List.cons_append, follow]
    split at h
    · next hv =>
      rw [if_pos hv]
      exact h
    · next hv =>
      rw [if_neg hv]
      split at h
      · exact h
      · exact ih h

theorem valueOf_append_of_ok (h : ev.valueOf name ls = .ok (some v)) (more : List Link) :
    ev.valueOf name (ls ++ more) = ev.follow v more := by
  rw [valueOf] at h ⊢
  split at h
  · cases h
  · exact follow_append_of_ok h more

theorem valueOf_append_of_error (h : ev.valueOf name ls = .error f) (more : List Link) :
    ev.valueOf name (ls ++ more) = .error f := by
  rw [valueOf] at h ⊢
  split at h
  · exact h
  · exact follow_append_of_error h more

/-- One plain link: it fails on a nullish value, and else it is an access. -/
theorem follow_toPlain (v : V) (l : Link) :
    ev.follow v [l.toPlain]
      = if ev.isNullish v then .error .nullishAccess
        else
          match ev.access l.part v with
          | .error e => .error (.raised e)
          | .ok next => .ok (some next) := by
  rw [follow, Link.isOptional_toPlain, Link.toPlain_part]
  rfl

end Following

/-! ### Texts of chains -/

theorem value_text (c : Chain) : ev.value c.text = ev.valueOf c.name c.links := by
  rw [value, base_text, links_text]

theorem value_plainText {name : List Char} {ls : List Link} (hname : IsName name)
    (hls : ∀ l ∈ ls, l.IsWritten) :
    ev.value (plainText name ls) = ev.valueOf name (ls.map Link.toPlain) :=
  ev.value_text ⟨name, ls.map Link.toPlain, hname,
    List.forall_mem_map.mpr fun l hl => (hls l hl).toPlain⟩

theorem conjunction_cons (text : List Char) {more : List (List Char)} (hmore : more ≠ []) :
    ev.conjunction (text :: more)
      = match ev.value text with
        | .error f => .error f
        | .ok x => if x.any ev.isTruthy then ev.conjunction more else .ok x := by
  cases more with
  | nil => exact absurd rfl hmore
  | cons => rfl

/-! ### The conjunction of the guards -/

section Conjunction

variable {ev} {name : List Char} {before rest : List Link} {l : Link} {v : V} {f : Fault E}

/-- A plain chain that fails makes its guard fail, or the first one after it:
each of them starts with that chain. -/
theorem conjunction_of_error (hname : IsName name) (hbefore : ∀ l ∈ before, l.IsWritten)
    (hrest : ∀ l ∈ rest, l.IsWritten)
    (h : ev.valueOf name (before.map Link.toPlain) = .error f) :
    ev.conjunction (guards (plainText name before) rest) = .error f := by
  induction rest generalizing before with
  | nil => rw [guards, conjunction, ev.value_plainText hname hbefore, h]
  | cons l rest ih =>
    obtain ⟨hl, hmore⟩ := List.forall_mem_cons.mp hrest
    rw [guards]
    split
    · rw [ev.conjunction_cons _ (guards_ne_nil _ _), ev.value_plainText hname hbefore, h]
    · rw [← plainText_concat hl]
      refine ih (List.forall_mem_append.mpr ⟨hbefore, List.forall_mem_singleton.mpr hl⟩) hmore ?_
      rw [List.map_append]
      exact valueOf_append_of_error h _

/-- **The guards from a link on** mean what following the links from there
means. -/
theorem sameMeaning_follow (hname : IsName name) (hbefore : ∀ l ∈ before, l.IsWritten)
    (hrest : ∀ l ∈ rest, l.IsWritten)
    (h : ev.valueOf name (before.map Link.toPlain) = .ok (some v))
    (hdecides : ∀ passed l after, rest = passed ++ l :: after → l.isOptional = true →
      ∀ v, ev.value (plainText name (before ++ passed)) = .ok (some v) →
        ev.isNullish v = true ∨ ev.isTruthy v = true) :
    ev.SameMeaning (ev.conjunction (guards (plainText name before) rest)) (ev.follow v rest) := by
  induction rest generalizing before v with
  | nil =>
    rw [guards, conjunction, ev.value_plainText hname hbefore, h]
    exact .refl ev _
  | cons l rest ih =>
    obtain ⟨hl, hmore⟩ := List.forall_mem_cons.mp hrest
    have hlonger : ∀ l' ∈ before ++ [l], l'.IsWritten :=
      List.forall_mem_append.mpr ⟨hbefore, List.forall_mem_singleton.mpr hl⟩
    have hstep : ev.valueOf name ((before ++ [l]).map Link.toPlain) = ev.follow v [l.toPlain] := by
      rw [List.map_append]
      exact valueOf_append_of_ok h _
    rw [follow_toPlain] at hstep
    -- the guards behind this link, when the value before it is not nullish
    have hbehind : ev.isNullish v = false →
        ev.SameMeaning (ev.conjunction (guards (plainText name (before ++ [l])) rest))
          (ev.follow v (l :: rest)) := by
      intro hv
      rw [if_neg (Bool.eq_false_iff.mp hv)] at hstep
      rw [follow, if_neg (Bool.eq_false_iff.mp hv)]
      split at hstep
      · rw [conjunction_of_error hname hlonger hmore hstep]
        exact .refl ev _
      · refine ih hlonger hmore hstep fun passed l' after hparts hl' u hu => ?_
        refine hdecides (l :: passed) l' after (by rw [hparts, List.cons_append]) hl' u ?_
        rwa [List.append_assoc, List.singleton_append] at hu
    have hvalue : ev.value (plainText name before) = .ok (some v) := by
      rw [ev.value_plainText hname hbefore, h]
    rw [guards, ← plainText_concat hl]
    split
    · next hoptional =>
      rw [ev.conjunction_cons _ (guards_ne_nil _ _), hvalue]
      rcases hdecides [] l rest rfl hoptional v (by rwa [List.append_nil]) with hnullish | htruthy
      · have hstop := ev.isTruthy_eq_false v hnullish
        simp only [Option.any_some, hstop, Bool.false_eq_true, if_false]
        rw [follow, if_pos hnullish, if_pos hoptional]
        exact .of_nullish ev (fun u hu => by cases hu; exact hnullish) (fun u hu => by cases hu)
      · have hv : ev.isNullish v = false := by
          refine Bool.eq_false_iff.mpr fun hnullish => ?_
          rw [ev.isTruthy_eq_false v hnullish] at htruthy
          cases htruthy
        simp only [Option.any_some, htruthy, if_true]
        exact hbehind hv
    · next hplain =>
      cases hv : ev.isNullish v with
      | false => exact hbehind hv
      | true =>
        rw [if_pos hv] at hstep
        rw [conjunction_of_error hname hlonger hmore hstep, follow, if_pos hv, if_neg hplain]
        exact .refl ev _

/-- The guards of a chain mean what the chain means. -/
theorem sameMeaning_value (c : Chain) (hdecides : ev.Decides c) :
    ev.SameMeaning (ev.conjunction (guards (base c.text) (links c.text))) (ev.value c.text) := by
  have hbase : c.name = plainText c.name [] := (List.append_nil c.name).symm
  rw [ev.value_text, base_text, links_text, valueOf]
  split
  · next e he =>
    rw [hbase, conjunction_of_error c.isName (List.forall_mem_nil _) c.areWritten (by
      rw [List.map_nil, valueOf, he])]
    exact .refl ev _
  · next v hv =>
    rw [hbase]
    exact sameMeaning_follow c.isName (List.forall_mem_nil _) c.areWritten (by
      simp only [List.map_nil, valueOf, hv, follow]) hdecides

end Conjunction

end Evaluation

/-! ## Chains that were found -/

/-- **A guard chain keeps the meaning of its chain.** What the chain pattern
matches is the text of one name with links. Its guard chain is the conjunction
of the plain chains before the optional links and of the whole plain chain. It
is nullish when the chain is cut short or ends nullish, has the same value
otherwise, and fails as the chain does, if the values before optional links are
nullish or truthy. -/
theorem guardChain_keeps_meaning {text : List Char} {place : Nat} {m : Match}
    (hplace : place ≤ text.length) (hm : chain.findFrom? text place = some m) :
    ∃ (c : Chain) (gs : List (List Char)), c.text = m.text text
      ∧ (∃ l ∈ c.links, l.isOptional = true) ∧ (∀ c' : Chain, c'.text = m.text text → c' = c)
      ∧ guardChain (m.text text) = '(' :: List.intercalate " && ".toList gs ++ [')']
      ∧ c.HasGuards gs
      ∧ ∀ {V : Type u} {E : Type v} (ev : Evaluation V E), ev.Decides c →
        ev.SameMeaning (ev.conjunction gs) (ev.value (m.text text)) := by
  obtain ⟨a, w, b, hw, hstart, hrest, -, hstop, -⟩ := findFrom?_spells hplace hm
  obtain ⟨c, rfl, hoptional⟩ := exists_of_spells hw
  have htext : c.text = m.text text := by
    have hdrop : text.drop m.start = c.text ++ b.rest := by rw [← hrest, hw.rest_eq]
    rw [Match.text, ← hstop, hw.offset_eq, hstart]
    exact (slice_of_drop hdrop).symm
  rw [← htext]
  refine ⟨c, guards (base c.text) (links c.text), rfl, hoptional, fun c' hc' => ?_, rfl,
    c.hasGuards, fun ev hdecides => Evaluation.sameMeaning_value c hdecides⟩
  obtain ⟨name, ls, _, _⟩ := c
  obtain ⟨name', ls', _, _⟩ := c'
  have hname := congrArg base hc'
  have hlinks := congrArg links hc'
  rw [base_text, base_text] at hname
  rw [links_text, links_text] at hlinks
  obtain rfl : name' = name := hname
  obtain rfl : ls' = ls := hlinks
  rfl

/-- Values that are there or not: nothing has a member called `name`. -/
def nameless : Evaluation (Option Unit) Empty where
  nameValue := fun _ => .ok (some ())
  access := fun part _ => .ok (if part = "name".toList then none else some ())
  isNullish := Option.isNone
  isTruthy := Option.isSome
  isTruthy_eq_false
    | none, _ => rfl
    | some _, h => absurd h Bool.false_ne_true

theorem guardChain_keeps_meaning_user :
    0 ≤ "user?.profile.name?.first".toList.length
      ∧ chain.findFrom? "user?.profile.name?.first".toList 0 = some ⟨0, 25, []⟩
      ∧ ∃ c gs, c.text = "user?.profile.name?.first".toList ∧ c.HasGuards gs ∧ nameless.Decides c
        ∧ nameless.value "user?.profile.name?.first".toList = .ok none
        ∧ nameless.SameMeaning (nameless.conjunction gs) (.ok none) := by
  have hm : chain.findFrom? "user?.profile.name?.first".toList 0 = some ⟨0, 25, []⟩ := by
    decide +kernel
  obtain ⟨c, gs, htext, -, -, -, hguards, hmeaning⟩ := guardChain_keeps_meaning (Nat.zero_le _) hm
  have hdecides : nameless.Decides c := by
    intro before l after _ _ v _
    cases v with
    | none => exact .inl rfl
    | some => exact .inr rfl
  have hvalue : nameless.value "user?.profile.name?.first".toList = .ok none := by
    have hbase : base "user?.profile.name?.first".toList = "user".toList := by decide +kernel
    have hlinks : links "user?.profile.name?.first".toList
        = [⟨some "?.".toList, "profile".toList⟩, ⟨some ".".toList, "name".toList⟩,
          ⟨some "?.".toList, "first".toList⟩] := by
      decide +kernel
    rw [Evaluation.value, hbase, hlinks]
    rfl
  have hwhole : (⟨0, 25, []⟩ : Match).text "user?.profile.name?.first".toList
      = "user?.profile.name?.first".toList := by decide +kernel
  have hsame := hmeaning nameless hdecides
  rw [hwhole, hvalue] at hsame
  exact ⟨Nat.zero_le _, hm, c, gs, htext.trans hwhole, hguards, hdecides, hvalue, hsame⟩

end Downlevel.Code.OptionalAccess
