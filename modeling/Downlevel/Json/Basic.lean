/-
Downlevel.Json.Basic — JSON values.

An object keeps its members as a list, because a record is written in the
order of its fields. Free-form objects, whose keys a user chose, have no
order of their own: `Json.ofMembers` and `Json.canonical` list their keys
once each and in ascending order.

Nor is there a written number that is not finite; the canonical form has
null in its place.

* `Json.IsCanonical` says that every object inside a value is listed that
  way and that every double inside it is finite;
* `Json.canonical_isCanonical` — putting a value into canonical form
  achieves it;
* `Json.canonical_eq_self` — a value that has it is left as it is.

`Datum` is a JSON value together with that guarantee. It is the type of
everything a user may put under an option, so two data are equal exactly
when they are written alike.
-/
import Downlevel.SortedMap

namespace Downlevel

/-- A JSON value. Whole numbers without a fraction or an exponent stay
integers; every other number is a double. -/
inductive Json where
  | null
  | bool (value : Bool)
  | int (value : Int)
  | float (value : Float)
  | str (text : String)
  | arr (items : List Json)
  | obj (members : List (String × Json))
  deriving Inhabited

namespace Json

/-! ## Members -/

/-- The member of an object under a key. -/
def member? (key : String) : Json → Option Json
  | .obj members => Entries.get? key members
  | _ => none

def str? : Json → Option String
  | .str text => some text
  | _ => none

def bool? : Json → Option Bool
  | .bool value => some value
  | _ => none

/-- An object from members in any order; of a repeated key the last value
counts. -/
def ofMembers (members : List (String × Json)) : Json :=
  .obj (SortedMap.ofList members).entries

/-! ## Canonical form -/

mutual

/-- Sorts the keys of every object, at every depth, and drops what is not
a number. -/
def canonical : Json → Json
  | .arr items => .arr (canonicalItems items)
  | .obj members => .obj (canonicalMembers members)
  | .null => .null
  | .bool value => .bool value
  | .int value => .int value
  | .float value => if value.isFinite then .float value else .null
  | .str text => .str text

def canonicalItems : List Json → List Json
  | [] => []
  | item :: rest => item.canonical :: canonicalItems rest

/-- Works from the last member to the first, so that of a repeated key the
last value stays. -/
def canonicalMembers : List (String × Json) → List (String × Json)
  | [] => []
  | (key, value) :: rest =>
    let sorted := canonicalMembers rest
    match Entries.get? key sorted with
    | some _ => sorted
    | none => Entries.insert key value.canonical sorted

end

mutual

/-- Every object inside the value lists its keys in strictly ascending
order, and every double inside it is finite. -/
def IsCanonical : Json → Prop
  | .arr items => ItemsCanonical items
  | .obj members => Entries.Ascending members ∧ MembersCanonical members
  | .null => True
  | .bool _ => True
  | .int _ => True
  | .float value => value.isFinite
  | .str _ => True

def ItemsCanonical : List Json → Prop
  | [] => True
  | item :: rest => item.IsCanonical ∧ ItemsCanonical rest

def MembersCanonical : List (String × Json) → Prop
  | [] => True
  | (_, value) :: rest => value.IsCanonical ∧ MembersCanonical rest

end

theorem membersCanonical_iff {members : List (String × Json)} :
    MembersCanonical members ↔ ∀ e ∈ members, e.2.IsCanonical := by
  induction members with
  | nil => simp [MembersCanonical]
  | cons head rest ih => obtain ⟨k, v⟩ := head; simp [MembersCanonical, ih]

mutual

theorem canonical_isCanonical : ∀ j : Json, j.canonical.IsCanonical
  | .arr items => by
      rw [canonical, IsCanonical]
      exact canonicalItems_itemsCanonical items
  | .obj members => by
      rw [canonical, IsCanonical]
      exact canonicalMembers_isCanonical members
  | .null => trivial
  | .bool _ => trivial
  | .int _ => trivial
  | .float value => by
      rw [canonical]
      split
      · next h => exact h
      · trivial
  | .str _ => trivial

theorem canonicalItems_itemsCanonical :
    ∀ items : List Json, ItemsCanonical (canonicalItems items)
  | [] => trivial
  | item :: rest =>
      ⟨canonical_isCanonical item, canonicalItems_itemsCanonical rest⟩

theorem canonicalMembers_isCanonical : ∀ members : List (String × Json),
    Entries.Ascending (canonicalMembers members) ∧ MembersCanonical (canonicalMembers members)
  | [] => ⟨List.Pairwise.nil, trivial⟩
  | (key, value) :: rest => by
      have ih := canonicalMembers_isCanonical rest
      have hv := canonical_isCanonical value
      rw [canonicalMembers]
      split
      · exact ih
      · refine ⟨Entries.ascending_insert _ _ ih.1, membersCanonical_iff.2 fun e he => ?_⟩
        rcases Entries.mem_insert he with rfl | he
        · exact hv
        · exact membersCanonical_iff.1 ih.2 e he

end

/-- Inserting below every key puts the entry in front. -/
theorem insert_eq_cons {key : String} {value : Json} {members : List (String × Json)}
    (h : ∀ e ∈ members, key < e.1) :
    Entries.insert key value members = (key, value) :: members := by
  cases members with
  | nil => rfl
  | cons head rest => simp [Entries.insert, h head List.mem_cons_self]

mutual

theorem canonical_eq_self : ∀ {j : Json}, j.IsCanonical → j.canonical = j
  | .arr items, h => by rw [canonical, canonicalItems_eq_self h]
  | .obj members, h => by
      rw [IsCanonical] at h
      rw [canonical, canonicalMembers_eq_self h.1 h.2]
  | .null, _ => rfl
  | .bool _, _ => rfl
  | .int _, _ => rfl
  | .float _, h => if_pos h
  | .str _, _ => rfl

theorem canonicalItems_eq_self : ∀ {items : List Json}, ItemsCanonical items →
    canonicalItems items = items
  | [], _ => rfl
  | item :: rest, h => by
      rw [canonicalItems, canonical_eq_self h.1, canonicalItems_eq_self h.2]

theorem canonicalMembers_eq_self : ∀ {members : List (String × Json)},
    Entries.Ascending members → MembersCanonical members → canonicalMembers members = members
  | [], _, _ => rfl
  | (key, value) :: rest, ha, hm => by
      have hk := List.pairwise_cons.1 ha
      rw [canonicalMembers, canonicalMembers_eq_self hk.2 hm.2]
      simp only [Entries.get?_eq_none_of_lt hk.1]
      rw [canonical_eq_self hm.1, insert_eq_cons hk.1]

end

end Json

/-! ## Data -/

/-- A JSON value whose objects all list their keys in ascending order and
whose doubles are finite. -/
structure Datum where
  json : Json
  isCanonical : json.IsCanonical

namespace Datum

def ofJson (j : Json) : Datum := ⟨j.canonical, Json.canonical_isCanonical j⟩

instance : Inhabited Datum := ⟨ofJson .null⟩

theorem ofJson_json (d : Datum) : ofJson d.json = d := by
  cases d with
  | mk json h => simp [ofJson, Json.canonical_eq_self h]

/-- A text as a datum. -/
def text (s : String) : Datum := ⟨.str s, trivial⟩

end Datum

end Downlevel
