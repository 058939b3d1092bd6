/-
Downlevel.Json.Record — reading records from JSON.

A record is written as an object. It may also be given as an array of its
members in order of declaration. By name, members nobody asks for are
ignored; in order, none may be left over. What an absent member means is
said member by member:

* `required` — its absence is an error;
* `optional` — its absence is the absence of a value, except that an
  array must reach it;
* `defaulted` — its absence is the default.

A scalar is read strictly: no text stands for a number, and a number with
a fraction or an exponent is no integer.
-/
import Downlevel.Json.Basic

namespace Downlevel.Json

/-! ## Scalars and lists -/

/-- An integer from zero up to, but not including, a limit. -/
def below? (limit : Nat) : Json → Option Nat
  | .int n => if 0 ≤ n ∧ n < limit then some n.toNat else none
  | _ => none

def word32? : Json → Option Nat := below? (Nat.pow 2 32)

def word64? : Json → Option Nat := below? (Nat.pow 2 64)

/-- A number as a double; an integer is converted to the nearest one. -/
def float? : Json → Option Float
  | .float x => some x
  | .int n => some (Float.ofInt n)
  | _ => none

/-- Null as the absence of a value. -/
def nullable? (read : Json → Option α) : Json → Option (Option α)
  | .null => some none
  | j => (read j).map some

/-- All items of an array. -/
def items? (read : Json → Option α) : Json → Option (List α)
  | .arr items => items.mapM read
  | _ => none

/-- All members of an object, as a map. -/
def map? (read : Json → Option α) : Json → Option (SortedMap α)
  | .obj members =>
    (members.mapM fun e => (read e.2).map fun value => (e.1, value)).map SortedMap.ofList
  | _ => none

/-- What stands for "nothing further" under a chosen name. -/
abbrev Bare := Json → Bool

def isNull : Bare
  | .null => true
  | _ => false

/-- Where a record is written among the members of another one, an empty
object says the same as null. -/
def isNullOrEmpty : Bare
  | .null => true
  | .obj [] => true
  | _ => false

/-- One of several names. A name may also be the only key of an object
that holds nothing further under it. -/
def choice? (named : String → Option α) (bare : Bare) : Json → Option α
  | .str name => named name
  | .obj [(name, value)] => if bare value then named name else none
  | _ => none

/-- The value under which a name is listed. -/
def named? (name : α → String) (all : List α) (text : String) : Option α :=
  all.find? fun a => name a == text

/-! ## Records -/

/-- The members of a record that are still to be read. -/
inductive Members where
  | byName (members : List (String × Json))
  | inOrder (items : List Json)

/-- A reader of some members of a record. -/
abbrev RecordReader (α : Type) := StateT Members Option α

namespace Record

def required (key : String) (read : Json → Option α) : RecordReader α := fun
  | .byName members => do
    let value ← read (← Entries.get? key members)
    return (value, .byName members)
  | .inOrder (item :: rest) => (read item).map (·, .inOrder rest)
  | .inOrder [] => none

def optional (key : String) (read : Json → Option α) : RecordReader (Option α) := fun
  | .byName members =>
    match Entries.get? key members with
    | some value => (nullable? read value).map (·, .byName members)
    | none => some (none, .byName members)
  | .inOrder (item :: rest) => (nullable? read item).map (·, .inOrder rest)
  | .inOrder [] => none

def defaulted (key : String) (default : α) (read : Json → Option α) : RecordReader α := fun
  | .byName members =>
    match Entries.get? key members with
    | some value => (read value).map (·, .byName members)
    | none => some (default, .byName members)
  | .inOrder (item :: rest) => (read item).map (·, .inOrder rest)
  | .inOrder [] => some (default, .inOrder [])

/-- Whether a record may end here. -/
def isComplete : Members → Bool
  | .byName _ => true
  | .inOrder items => items.isEmpty

def finish (reader : RecordReader α) (members : Members) : Option α :=
  match reader members with
  | some (value, rest) => if isComplete rest then some value else none
  | none => none

/-- Reads a whole record, by name or in order. -/
def read (reader : RecordReader α) : Json → Option α
  | .obj members => finish reader (.byName members)
  | .arr items => finish reader (.inOrder items)
  | _ => none

/-- Reads a record that may only be written by name. -/
def readNamed (reader : RecordReader α) : Json → Option α
  | .obj members => finish reader (.byName members)
  | _ => none

end Record

/-! ## Writing -/

def ofOption (write : α → Json) : Option α → Json
  | some value => write value
  | none => .null

def ofList (write : α → Json) (values : List α) : Json := .arr (values.map write)

def ofNat (n : Nat) : Json := .int n

def ofMap (write : α → Json) (m : SortedMap α) : Json :=
  .obj (m.entries.map fun e => (e.1, write e.2))

end Downlevel.Json
