/-
Downlevel.SortedMap — finite maps from strings, kept as entry lists in
strictly ascending key order.

The order is the one in which maps are written out, so a map has exactly
one written form. Because the order is part of the type, two maps with
the same lookups are the same map (`SortedMap.ext_get?`), and the lookup
of every operation is one equation:

* `get?_insert` — the newest value of a key wins;
* `get?_erase` — an erased key is gone and no other key moves;
* `get?_overlay` — the upper map wins wherever it has the key.
-/

namespace Downlevel

/-! ## Entry lists -/

namespace Entries

variable {α : Type u}

/-- Keys strictly ascend, so no key occurs twice. -/
def Ascending (entries : List (String × α)) : Prop :=
  entries.Pairwise fun a b => a.1 < b.1

/-- Puts a value at the place of its key; a value already there is
replaced. -/
def insert (key : String) (value : α) : List (String × α) → List (String × α)
  | [] => [(key, value)]
  | (k, v) :: rest =>
    if key < k then (key, value) :: (k, v) :: rest
    else if key = k then (key, value) :: rest
    else (k, v) :: insert key value rest

/-- The value of a key. -/
def get? (key : String) : List (String × α) → Option α
  | [] => none
  | (k, v) :: rest => if key = k then some v else get? key rest

theorem mem_insert {key : String} {value : α} {e : String × α}
    {entries : List (String × α)} (h : e ∈ insert key value entries) :
    e = (key, value) ∨ e ∈ entries := by
  induction entries with
  | nil => simpa [insert] using h
  | cons head rest ih =>
    obtain ⟨k, v⟩ := head
    rw [insert] at h
    split at h
    · simpa using h
    · split at h
      · rcases List.mem_cons.1 h with h | h
        · exact .inl h
        · exact .inr (List.mem_cons_of_mem _ h)
      · rcases List.mem_cons.1 h with h | h
        · exact .inr (h ▸ List.mem_cons_self)
        · exact (ih h).imp_right (List.mem_cons_of_mem _)

theorem ascending_insert (key : String) (value : α) {entries : List (String × α)}
    (h : Ascending entries) : Ascending (insert key value entries) := by
  induction entries with
  | nil => simp [insert, Ascending]
  | cons head rest ih =>
    obtain ⟨k, v⟩ := head
    have hk := List.pairwise_cons.1 h
    rw [insert]
    split
    · next hlt =>
      refine List.pairwise_cons.2 ⟨fun e he => ?_, h⟩
      rcases List.mem_cons.1 he with rfl | he
      · exact hlt
      · exact Std.lt_trans hlt (hk.1 e he)
    · split
      · next heq =>
        subst heq
        exact List.pairwise_cons.2 ⟨fun e he => hk.1 e he, hk.2⟩
      · next hlt hne =>
        refine List.pairwise_cons.2 ⟨fun e he => ?_, ih hk.2⟩
        rcases mem_insert he with rfl | he
        · exact Std.lt_of_le_of_ne (Std.not_lt.1 hlt) (Ne.symm hne)
        · exact hk.1 e he

theorem get?_insert (key other : String) (value : α) (entries : List (String × α)) :
    get? other (insert key value entries)
      = if other = key then some value else get? other entries := by
  induction entries with
  | nil => simp [insert, get?]
  | cons head rest ih =>
    obtain ⟨k, v⟩ := head
    rw [insert]
    split
    · simp [get?]
    · split
      · next heq => subst heq; by_cases ho : other = key <;> simp [get?, ho]
      · next hne =>
        simp only [get?, ih]
        by_cases ho : other = k
        · subst ho; simp [Ne.symm hne]
        · simp [ho]

/-- Below the first key nothing is stored. -/
theorem get?_eq_none_of_lt {key : String} {entries : List (String × α)}
    (h : ∀ e ∈ entries, key < e.1) : get? key entries = none := by
  induction entries with
  | nil => rfl
  | cons head rest ih =>
    have hne : key ≠ head.1 := by
      rintro rfl
      exact Std.lt_irrefl (h head List.mem_cons_self)
    simp [get?, hne, ih fun e he => h e (List.mem_cons_of_mem _ he)]

theorem get?_eq_some_iff {entries : List (String × α)} (h : Ascending entries)
    {key : String} {value : α} : get? key entries = some value ↔ (key, value) ∈ entries := by
  induction entries with
  | nil => simp [get?]
  | cons head rest ih =>
    obtain ⟨k, v⟩ := head
    have hk := List.pairwise_cons.1 h
    rw [get?]
    split
    · next heq =>
      subst heq
      constructor
      · intro hv; cases hv; exact List.mem_cons_self
      · intro hm
        rcases List.mem_cons.1 hm with hm | hm
        · cases hm; rfl
        · exact absurd (hk.1 _ hm) Std.lt_irrefl
    · next hne =>
      rw [ih hk.2]
      constructor
      · exact List.mem_cons_of_mem _
      · intro hm
        rcases List.mem_cons.1 hm with hm | hm
        · cases hm; exact absurd rfl hne
        · exact hm

/-- Ascending entry lists are told apart by their lookups. -/
theorem eq_of_get?_eq {a b : List (String × α)} (ha : Ascending a) (hb : Ascending b)
    (h : ∀ key, get? key a = get? key b) : a = b := by
  induction a generalizing b with
  | nil =>
    cases b with
    | nil => rfl
    | cons head rest => have := h head.1; simp [get?] at this
  | cons x xs ih =>
    have hx := List.pairwise_cons.1 ha
    cases b with
    | nil => have := h x.1; simp [get?] at this
    | cons y ys =>
      have hy := List.pairwise_cons.1 hb
      have hkey : x.1 = y.1 := by
        rcases Std.lt_trichotomy x.1 y.1 with hlt | heq | hlt
        · have hn : get? x.1 (y :: ys) = none := get?_eq_none_of_lt fun e he => by
            rcases List.mem_cons.1 he with rfl | he
            · exact hlt
            · exact Std.lt_trans hlt (hy.1 e he)
          have := h x.1
          rw [hn] at this
          simp [get?] at this
        · exact heq
        · have hn : get? y.1 (x :: xs) = none := get?_eq_none_of_lt fun e he => by
            rcases List.mem_cons.1 he with rfl | he
            · exact hlt
            · exact Std.lt_trans hlt (hx.1 e he)
          have := h y.1
          rw [hn] at this
          simp [get?] at this
      obtain ⟨k, v⟩ := x
      obtain ⟨k', w⟩ := y
      cases hkey
      have hv : v = w := by have := h k; simpa [get?] using this
      subst hv
      congr 1
      refine ih hx.2 hy.2 fun key => ?_
      by_cases hk : key = k
      · subst hk
        rw [get?_eq_none_of_lt fun e he => hx.1 e he, get?_eq_none_of_lt fun e he => hy.1 e he]
      · have := h key
        simpa [get?, hk] using this

end Entries

/-! ## Maps -/

/-- A finite map from strings. -/
structure SortedMap (α : Type u) where
  entries : List (String × α)
  ascending : Entries.Ascending entries

namespace SortedMap

variable {α : Type u}

def empty : SortedMap α := ⟨[], List.Pairwise.nil⟩

instance : EmptyCollection (SortedMap α) := ⟨empty⟩
instance : Inhabited (SortedMap α) := ⟨empty⟩

def get? (m : SortedMap α) (key : String) : Option α := Entries.get? key m.entries

def contains (m : SortedMap α) (key : String) : Bool := (m.get? key).isSome

def keys (m : SortedMap α) : List String := m.entries.map (·.1)

def values (m : SortedMap α) : List α := m.entries.map (·.2)

def size (m : SortedMap α) : Nat := m.entries.length

def insert (m : SortedMap α) (key : String) (value : α) : SortedMap α :=
  ⟨Entries.insert key value m.entries, Entries.ascending_insert key value m.ascending⟩

/-- The entries that pass a test. -/
def filter (m : SortedMap α) (keep : String → α → Bool) : SortedMap α :=
  ⟨m.entries.filter fun e => keep e.1 e.2, m.ascending.filter _⟩

def erase (m : SortedMap α) (key : String) : SortedMap α :=
  m.filter fun k _ => k != key

/-- Inserts the entries one after the other, so the last value of a
repeated key is the one that stays. -/
def insertAll (m : SortedMap α) (entries : List (String × α)) : SortedMap α :=
  entries.foldl (fun acc e => acc.insert e.1 e.2) m

def ofList (entries : List (String × α)) : SortedMap α := empty.insertAll entries

/-- `upper` laid over `lower`: every key of either map, with the value of
`upper` where both have one. -/
def overlay (lower upper : SortedMap α) : SortedMap α := lower.insertAll upper.entries

/-! ### Lookups -/

@[simp] theorem get?_empty (key : String) : (empty : SortedMap α).get? key = none := rfl

theorem get?_insert (m : SortedMap α) (key other : String) (value : α) :
    (m.insert key value).get? other = if other = key then some value else m.get? other :=
  Entries.get?_insert key other value m.entries

theorem get?_eq_some_iff {m : SortedMap α} {key : String} {value : α} :
    m.get? key = some value ↔ (key, value) ∈ m.entries :=
  Entries.get?_eq_some_iff m.ascending

theorem ext_get? {a b : SortedMap α} (h : ∀ key, a.get? key = b.get? key) : a = b := by
  have := Entries.eq_of_get?_eq a.ascending b.ascending h
  cases a
  cases b
  cases this
  rfl

theorem get?_filter_eq_some_iff {m : SortedMap α} {keep : String → α → Bool} {key : String}
    {value : α} :
    (m.filter keep).get? key = some value ↔ m.get? key = some value ∧ keep key value := by
  simp [get?_eq_some_iff, filter]

theorem get?_erase (m : SortedMap α) (key other : String) :
    (m.erase key).get? other = if other = key then none else m.get? other := by
  ext value
  by_cases h : other = key <;> simp [erase, get?_filter_eq_some_iff, h]

theorem get?_insertAll (m : SortedMap α) (entries : List (String × α)) (key : String) :
    (m.insertAll entries).get? key
      = ((entries.reverse.find? fun e => key == e.1).map (·.2)).or (m.get? key) := by
  induction entries generalizing m with
  | nil => simp [insertAll]
  | cons e rest ih =>
    have : m.insertAll (e :: rest) = (m.insert e.1 e.2).insertAll rest := rfl
    rw [this, ih, get?_insert, List.reverse_cons, List.find?_append]
    cases rest.reverse.find? fun e => key == e.1 with
    | some found => simp
    | none =>
      by_cases h : key = e.1
      · simp [h]
      · have : (key == e.1) = false := by simpa using h
        simp [this, h]

/-- In an ascending list the first and the last entry of a key are the
same. -/
theorem find?_reverse_entries (m : SortedMap α) (key : String) :
    (m.entries.reverse.find? fun e => key == e.1).map (·.2) = m.get? key := by
  ext value
  rw [get?_eq_some_iff]
  constructor
  · intro h
    obtain ⟨e, he, rfl⟩ := Option.map_eq_some_iff.1 h
    have hm := List.mem_of_find?_eq_some he
    have hk := List.find?_some he
    simp only [beq_iff_eq] at hk
    subst hk
    exact List.mem_reverse.1 hm
  · intro h
    cases hf : m.entries.reverse.find? fun e => key == e.1 with
    | none =>
      have := List.find?_eq_none.1 hf (key, value) (List.mem_reverse.2 h)
      simp at this
    | some e =>
      have hm := List.mem_reverse.1 (List.mem_of_find?_eq_some hf)
      have hk := List.find?_some hf
      simp only [beq_iff_eq] at hk
      subst hk
      have h1 := get?_eq_some_iff.2 h
      have h2 : m.get? e.1 = some e.2 := get?_eq_some_iff.2 hm
      rw [h1] at h2
      simpa using h2.symm

theorem get?_overlay (lower upper : SortedMap α) (key : String) :
    (lower.overlay upper).get? key = (upper.get? key).or (lower.get? key) := by
  rw [overlay, get?_insertAll, find?_reverse_entries]

/-- Rebuilding a map from its own entries changes nothing. -/
theorem ofList_entries (m : SortedMap α) : ofList m.entries = m :=
  ext_get? fun key => by
    rw [ofList, get?_insertAll, find?_reverse_entries]
    simp

end SortedMap

end Downlevel
