/-
Downlevel.Proofs.Json.ReadBack — what is written is read back.

A value is read back when the reader gives the value that was written
(`ReadsBack`). This passes from items to lists, from values to maps, and from a
value to an optional one, as long as nothing but its absence is written as null.
A member of a record that was written is read back under its key, whether it
might have been left out or not. It is said of one value at a time: a module
whose identifier does not come from a name is read as another one.
-/
import Downlevel.Json.Record
import Downlevel.Proofs.SortedMap

namespace Downlevel.Json

variable {α : Type} {read : Json → Option α} {write : α → Json}

/-- A value is read back from what was written. -/
def ReadsBack (read : Json → Option α) (write : α → Json) (a : α) : Prop := read (write a) = some a

theorem mapM_map_of_inverse {β γ : Type} {f : γ → Option β} {g : β → γ} {values : List β}
    (h : ∀ b ∈ values, f (g b) = some b) : (values.map g).mapM f = some values := by
  induction values with
  | nil => rfl
  | cons b rest ih =>
    obtain ⟨hb, hrest⟩ := List.forall_mem_cons.mp h
    simp [hb, ih hrest]

namespace ReadsBack

/-! ## Values -/

theorem str (text : String) : ReadsBack str? .str text := rfl

/-- A choice is written by its name. -/
theorem choice {name : α → String} {all : List α} (bare : Bare) {a : α}
    (h : named? name all (name a) = some a) :
    ReadsBack (choice? (named? name all) bare) (fun a => .str (name a)) a := h

theorem items {values : List α} (h : ∀ a ∈ values, ReadsBack read write a) :
    ReadsBack (items? read) (ofList write) values :=
  mapM_map_of_inverse h

theorem nullable {value : Option α} (h : ∀ a ∈ value, ReadsBack read write a)
    (hnull : ∀ a, write a ≠ .null) : ReadsBack (nullable? read) (ofOption write) value := by
  cases value with
  | none => rfl
  | some a =>
    have ha := h a rfl
    have hwritten := hnull a
    rw [ReadsBack] at ha
    rw [ReadsBack, ofOption]
    unfold nullable?
    split
    · next hread => exact absurd hread hwritten
    · rw [ha, Option.map_some]

/-- A map is read back, because it lists each key once. -/
theorem map {m : SortedMap α} (h : ∀ e ∈ m.entries, ReadsBack read write e.2) :
    ReadsBack (map? read) (ofMap write) m := by
  have hentries : (m.entries.map fun e => (e.1, write e.2)).mapM
      (fun e => (read e.2).map fun value => (e.1, value)) = some m.entries :=
    mapM_map_of_inverse fun e he => by rw [h e he, Option.map_some]
  rw [ReadsBack, ofMap, map?, hentries, Option.map_some, SortedMap.ofList_entries]

/-! ## Members of records -/

/-- A reader goes on with what the one before it has read. -/
theorem bind_of_read {β : Type} {first : RecordReader α} {next : α → RecordReader β} {a : α}
    {before after : Members} (h : first before = some (a, after)) :
    (first >>= next) before = next a after := by
  simp [bind, StateT.bind, h]

/-- A member that was written is not replaced by its default. -/
theorem defaulted {value : α} (h : ReadsBack read write value) {key : String} {default : α}
    {members : List (String × Json)} (hkey : Entries.get? key members = some (write value)) :
    Record.defaulted key default read (.byName members) = some (value, .byName members) := by
  rw [ReadsBack] at h
  rw [Record.defaulted]
  simp only [hkey, h, Option.map_some]

end ReadsBack

end Downlevel.Json
