/-
Downlevel.Toml.Table — tables that are built up from headers and pairs.

How a table came about decides how it may be extended. One that a header
names is written, and no pair reaches into it from above; one on the way
to a named table is implied, and its own header may still follow; one that
a dotted key made can be extended by dotted keys only. A series of tables
is extended at its last one.
-/
import Downlevel.Json.Basic

namespace Downlevel.Toml

/-- How a table came about. -/
inductive Origin where
  | written
  | implied
  | dotted
  deriving DecidableEq, Repr

/-- What stands under a key while a document is read. -/
inductive Node where
  | value (json : Json)
  | table (origin : Origin) (entries : List (String × Node))
  /-- Tables under one repeated header, last one first. -/
  | series (tables : List (List (String × Node)))

/-- The entries of a table. -/
abbrev Entries := List (String × Node)

namespace Node

mutual

/-- A finished node as data. -/
def toJson : Node → Json
  | .value json => json
  | .table _ entries => .ofMembers (membersOf entries)
  | .series tables => .arr (objectsOf tables).reverse

def membersOf : List (String × Node) → List (String × Json)
  | [] => []
  | (key, node) :: rest => (key, node.toJson) :: membersOf rest

def objectsOf : List (List (String × Node)) → List Json
  | [] => []
  | entries :: rest => .ofMembers (membersOf entries) :: objectsOf rest

end

end Node

namespace Entries

def toJson (entries : Entries) : Json := .ofMembers (Node.membersOf entries)

/-- Puts a node under a key, in place of the one that is there. -/
def put (key : String) (node : Node) : Entries → Entries
  | [] => [(key, node)]
  | (k, old) :: rest => if k = key then (key, node) :: rest else (k, old) :: put key node rest

/-- Changes the table at a path and makes those on the way that are
missing. Along a dotted key written tables are closed. -/
def change? (isDotted : Bool) (change : Origin → Entries → Option Entries) :
    List String → Origin → Entries → Option Entries
  | [], origin, entries => change origin entries
  | key :: path, _, entries =>
    match entries.lookup key with
    | none =>
      let origin := if isDotted then .dotted else .implied
      (change? isDotted change path origin []).map fun sub => put key (.table origin sub) entries
    | some (.table origin sub) =>
      if isDotted && origin == .written then none
      else
        (change? isDotted change path origin sub).map fun sub => put key (.table origin sub) entries
    | some (.series (last :: done)) =>
      (change? isDotted change path .written last).map fun last =>
        put key (.series (last :: done)) entries
    | some (.series []) => none
    | some (.value _) => none

/-- Adds a pair whose key may be dotted. The key must be new, and only
dotted keys extend what dotted keys made. -/
def addPair? (path : List String) (key : String) (value : Json) (entries : Entries) :
    Option Entries :=
  let add (origin : Origin) (entries : Entries) : Option Entries :=
    if !path.isEmpty && origin != .dotted then none
    else if (entries.lookup key).isSome then none
    else some (put key (.value value) entries)
  change? true add path .written entries

/-- Opens the table that a header names. -/
def openTable? (path : List String) (key : String) (entries : Entries) : Option Entries :=
  let write (_ : Origin) (entries : Entries) : Option Entries :=
    match entries.lookup key with
    | none => some (put key (.table .written []) entries)
    | some (.table .implied sub) => some (put key (.table .written sub) entries)
    | some _ => none
  change? false write path .written entries

/-- Opens another table of the series that a header names. -/
def openSeries? (path : List String) (key : String) (entries : Entries) : Option Entries :=
  let append (_ : Origin) (entries : Entries) : Option Entries :=
    match entries.lookup key with
    | none => some (put key (.series [[]]) entries)
    | some (.series tables) => some (put key (.series ([] :: tables)) entries)
    | some _ => none
  change? false append path .written entries

/-- Adds a pair below the table that a header named. -/
def addBelow? (header path : List String) (key : String) (value : Json) (entries : Entries) :
    Option Entries :=
  change? false (fun _ sub => addPair? path key value sub) header .written entries

end Entries

end Downlevel.Toml
