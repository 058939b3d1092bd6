/-
Downlevel.Json.Reader — from a JSON text to its value.

The tokens of the text are read once from left to right, with the
containers that are still open on a stack. Every object is built as a
sorted map in which the last value of a repeated key counts. A text may
nest containers 127 deep.
-/
import Downlevel.Json.Token

namespace Downlevel.Json

/-- A container that is still open: an array with its items so far, last
one first, or an object with its members so far and the key whose value
is being read. -/
inductive Frame where
  | arr (done : List Json)
  | obj (done : List (String × Json)) (key : String)

/-- What the next token has to be: the start of a value, or something that
may follow the value just completed. -/
inductive Reading where
  | value
  | after (completed : Json)

/-- How many containers may be open at once. -/
def maxDepth : Nat := 127

def read? : Reading → List Frame → List Token → Option Json
  | .value, stack, .str text :: rest => read? (.after (.str text)) stack rest
  | .value, stack, .scalar value :: rest => read? (.after value) stack rest
  | .value, stack, .openArr :: .closeArr :: rest =>
    if stack.length < maxDepth then read? (.after (.arr [])) stack rest else none
  | .value, stack, .openObj :: .closeObj :: rest =>
    if stack.length < maxDepth then read? (.after (.obj [])) stack rest else none
  | .value, stack, .openObj :: .str key :: .colon :: rest =>
    if stack.length < maxDepth then read? .value (.obj [] key :: stack) rest else none
  | .value, stack, .openArr :: rest =>
    if stack.length < maxDepth then read? .value (.arr [] :: stack) rest else none
  | .after completed, [], [] => some completed
  | .after completed, .arr done :: stack, .comma :: rest =>
    read? .value (.arr (completed :: done) :: stack) rest
  | .after completed, .arr done :: stack, .closeArr :: rest =>
    read? (.after (.arr (completed :: done).reverse)) stack rest
  | .after completed, .obj done key :: stack, .comma :: .str next :: .colon :: rest =>
    read? .value (.obj (Entries.insert key completed done) next :: stack) rest
  | .after completed, .obj done key :: stack, .closeObj :: rest =>
    read? (.after (.obj (Entries.insert key completed done))) stack rest
  | _, _, _ => none

/-- The value of a JSON text; none when the text is malformed. -/
def parse? (text : String) : Option Json :=
  (Token.collect? [] text.toList).bind (read? .value [])

end Downlevel.Json
