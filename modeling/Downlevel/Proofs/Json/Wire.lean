/-
Downlevel.Proofs.Json.Wire — values that are written for somebody else to read.

Whoever reads a value has its canonical form: members may have been sorted on
the way, and a text that is parsed gives nothing else. So a value has to be read
back from that form (`ComesBack`). As for `ReadsBack`, this passes from items to
lists, from values to maps, from a value to an optional one, and from the
members of a record to the record. It is said of one value at a time, because
some values do not come back: a double that is not finite is written as null.

From its text a value comes back if the text is legible (`ComesBack.ofText`).
-/
import Downlevel.Proofs.Json.Parse
import Downlevel.Proofs.Json.ReadBack

namespace Downlevel.Json

variable {α β : Type} {read : Json → Option α} {write : α → Json}

/-- A value is read back from the canonical form of what was written. -/
def ComesBack (read : Json → Option α) (write : α → Json) (a : α) : Prop :=
  read (write a).canonical = some a

namespace ComesBack

/-! ## Texts -/

/-- What comes back does so from its text as well, if that is legible. -/
theorem ofText {a : α} (h : ComesBack read write a) (hlegible : (write a).IsLegible) :
    (parse? (write a).print).bind read = some a := by
  rw [parse?_print hlegible, Option.bind_some, h]

/-! ## Scalars -/

theorem str (text : String) : ComesBack str? .str text := rfl

theorem bool (value : Bool) : ComesBack bool? .bool value := rfl

theorem float {x : Float} (h : x.isFinite) : ComesBack float? .float x := by
  rw [ComesBack, canonical, if_pos h, float?]

theorem below {limit n : Nat} (h : n < limit) : ComesBack (below? limit) Json.ofNat n := by
  rw [ComesBack, Json.ofNat, canonical, below?, if_pos (by omega), Int.toNat_natCast]

/-- A choice is written by its name. -/
theorem choice {name : α → String} {all : List α} (bare : Bare) {a : α}
    (h : named? name all (name a) = some a) :
    ComesBack (choice? (named? name all) bare) (fun a => .str (name a)) a := h

/-! ## Lists, options and maps -/

theorem items {values : List α} (h : ∀ a ∈ values, ComesBack read write a) :
    ComesBack (items? read) (ofList write) values := by
  rw [ComesBack, ofList, canonical, canonicalItems_eq_map, List.map_map, items?]
  exact mapM_map_of_inverse h

theorem nullable {value : Option α} (h : ∀ a ∈ value, ComesBack read write a)
    (hnull : ∀ a, (write a).canonical ≠ .null) :
    ComesBack (nullable? read) (ofOption write) value := by
  cases value with
  | none => rfl
  | some a =>
    have ha := h a rfl
    have hwritten := hnull a
    rw [ComesBack] at ha
    rw [ComesBack, ofOption]
    unfold nullable?
    split
    · next hcanonical => exact absurd hcanonical hwritten
    · rw [ha, Option.map_some]

/-- A map comes back, because it lists each key once and in order. -/
theorem map {m : SortedMap α} (h : ∀ e ∈ m.entries, ComesBack read write e.2) :
    ComesBack (map? read) (ofMap write) m := by
  have hentries : (m.entries.map fun e => (e.1, (write e.2).canonical)).mapM
      (fun e => (read e.2).map fun value => (e.1, value)) = some m.entries :=
    mapM_map_of_inverse fun e he => by rw [h e he, Option.map_some]
  rw [ComesBack, ofMap, canonical,
    canonicalMembers_of_ascending (Entries.ascending_map m.ascending write), List.map_map, map?]
  exact (congrArg (Option.map SortedMap.ofList) hentries).trans (congrArg some m.ofList_entries)

/-! ## Members of records -/

section Members

variable {key : String} {a : α} {members : List (String × Json)} {next : α → RecordReader β}

theorem get?_canonicalMembers_of_get? {value : Json}
    (hkey : Entries.get? key members.reverse = some value) :
    Entries.get? key (canonicalMembers members) = some value.canonical := by
  rw [get?_canonicalMembers, hkey, Option.map_some]

/-- A reader goes on after a member that came back. -/
theorem bind_required (h : ComesBack read write a)
    (hkey : Entries.get? key members.reverse = some (write a)) :
    (Record.required key read >>= next) (.byName (canonicalMembers members))
      = next a (.byName (canonicalMembers members)) := by
  have hmember := get?_canonicalMembers_of_get? hkey
  rw [ComesBack] at h
  simp [bind, StateT.bind, Record.required, hmember, h]

theorem bind_defaulted {default : α} (h : ComesBack read write a)
    (hkey : Entries.get? key members.reverse = some (write a)) :
    (Record.defaulted key default read >>= next) (.byName (canonicalMembers members))
      = next a (.byName (canonicalMembers members)) := by
  have hmember := get?_canonicalMembers_of_get? hkey
  rw [ComesBack] at h
  simp [bind, StateT.bind, Record.defaulted, hmember, h]

theorem bind_optional {value : Option α} {next : Option α → RecordReader β}
    (h : ComesBack (nullable? read) (ofOption write) value)
    (hkey : Entries.get? key members.reverse = some (ofOption write value)) :
    (Record.optional key read >>= next) (.byName (canonicalMembers members))
      = next value (.byName (canonicalMembers members)) := by
  have hmember := get?_canonicalMembers_of_get? hkey
  rw [ComesBack] at h
  simp [bind, StateT.bind, Record.optional, hmember, h]

end Members

end ComesBack

end Downlevel.Json
