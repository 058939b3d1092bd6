/-
Downlevel.Chunk.Basic — a file in parts that are compiled one by one.

A text is cut into chunks of a fixed number of lines. Of each file the
store remembers, chunk by chunk, which text was lowered to what; a chunk
whose text is as remembered need not be lowered again.

`ChunkDiff.lowerAll` does the work and changes nothing in the store, so
that a failure on the way leaves the store as it was.
-/
import Downlevel.Digest
import Downlevel.Lowering
import Downlevel.SortedMap
import Downlevel.Text.CharClass

namespace Downlevel

open Json.Record (required)

/-! ## Chunks -/

structure Chunk where
  index : Nat
  text : String
  hash : String
  deriving DecidableEq, Repr

namespace Chunk

def toJson (c : Chunk) : Json := .obj [
  ("index", Json.ofNat c.index),
  ("text", .str c.text),
  ("hash", .str c.hash)]

def ofJson? : Json → Option Chunk := Json.Record.read do
  let index ← required "index" Json.word64?
  let text ← required "text" Json.str?
  let hash ← required "hash" Json.str?
  return ⟨index, text, hash⟩

def ofText (index : Nat) (text : String) : Chunk := ⟨index, text, Digest.ofText text⟩

/-- The items in groups of `size`; the last one may be smaller. A size of
zero counts as one. -/
def groups {α : Type u} (size : Nat) : List α → List (List α)
  | [] => []
  | x :: rest => (x :: rest.take (size - 1)) :: groups size (rest.drop (size - 1))
termination_by items => items.length
decreasing_by simp only [List.length_cons, List.length_drop]; omega

/-- The chunks of a text. Joined at line breaks they are the text
again. -/
def partition (lines : Nat) (text : String) : List Chunk :=
  let parts := groups lines (Text.splitAt '\n' text.toList)
  parts.mapIdx fun index part => ofText index (String.ofList (List.intercalate ['\n'] part))

end Chunk

/-! ## Records -/

/-- What a chunk was lowered to. -/
structure ChunkRecord where
  index : Nat
  sourceHash : String
  loweredText : String
  deriving DecidableEq, Repr

namespace ChunkRecord

def toJson (r : ChunkRecord) : Json := .obj [
  ("chunkIndex", Json.ofNat r.index),
  ("sourceHash", .str r.sourceHash),
  ("loweredText", .str r.loweredText)]

/-- The text of a whole file. -/
def joined (records : List ChunkRecord) : String :=
  Text.join "\n" (records.map (·.loweredText))

end ChunkRecord

/-- The records of each file's last completed compilation. -/
abbrev ChunkStore := SortedMap (List ChunkRecord)

/-! ## Differences -/

/-- The chunks of a text, and which of them are not as remembered. -/
structure ChunkDiff where
  changed : List Nat
  chunks : List Chunk
  deriving DecidableEq, Repr

namespace ChunkDiff

def tally (d : ChunkDiff) : ChunkTally := ⟨d.changed.length, d.chunks.length⟩

/-- Compares chunks with the records at their places. -/
def ofChunks (records : List ChunkRecord) (chunks : List Chunk) : ChunkDiff :=
  let isChanged (c : Chunk) : Bool :=
    match records[c.index]? with
    | some record => record.sourceHash != c.hash
    | none => true
  ⟨(chunks.filter isChanged).map (·.index), chunks⟩

/-- The remembered text of a chunk that is not among the changed ones. Of
several records with its index the last one counts. -/
def reusable? (records : List ChunkRecord) (changed : List Nat) (c : Chunk) : Option String :=
  match records.reverse.find? fun r => r.index == c.index with
  | some r =>
    if r.sourceHash = c.hash && !changed.contains c.index then some r.loweredText else none
  | none => none

variable {ε : Type} {m : Type → Type} [Monad m]

/-- The record of a chunk, reused or else lowered. -/
def recordOf (lower : String → ExceptT ε m String) (records : List ChunkRecord)
    (changed : List Nat) (c : Chunk) : ExceptT ε m ChunkRecord := do
  let text ←
    match reusable? records changed c with
    | some text => pure text
    | none => lower c.text
  return ⟨c.index, c.hash, text⟩

/-- The records of all chunks in order, up to the first failure. -/
def lowerAll (d : ChunkDiff) (lower : String → ExceptT ε m String) (records : List ChunkRecord) :
    ExceptT ε m (List ChunkRecord) :=
  d.chunks.mapM (recordOf lower records d.changed)

end ChunkDiff

/-! ## Compiling files -/

namespace ChunkStore

/-- What is remembered of a file. -/
def recordsOf (store : ChunkStore) (file : String) : List ChunkRecord := (store.get? file).getD []

/-- How a text differs from what is remembered of its file. -/
def diff (store : ChunkStore) (lines : Nat) (file text : String) : ChunkDiff :=
  .ofChunks (store.recordsOf file) (Chunk.partition lines text)

/-- Remembers the records of a completed compilation. -/
def commit (store : ChunkStore) (file : String) (records : List ChunkRecord) : ChunkStore :=
  store.insert file records

variable {ε : Type} {m : Type → Type} [Monad m]

/-- Lowers what has changed and remembers the outcome. A failure leaves
the store as it was. -/
def compileChanged (store : ChunkStore) (file : String) (d : ChunkDiff)
    (lower : String → ExceptT ε m String) : m (Except ε String × ChunkStore) := do
  match ← (d.lowerAll lower (store.recordsOf file)).run with
  | .ok records => return (.ok (ChunkRecord.joined records), store.commit file records)
  | .error e => return (.error e, store)

/-- Compiles a text as the present state of a file. -/
def compile (store : ChunkStore) (lines : Nat) (file text : String)
    (lower : String → ExceptT ε m String) : m (Except ε (String × ChunkTally) × ChunkStore) := do
  let d := store.diff lines file text
  let (result, store) ← store.compileChanged file d lower
  return (result.map fun output => (output, d.tally), store)

end ChunkStore

end Downlevel
