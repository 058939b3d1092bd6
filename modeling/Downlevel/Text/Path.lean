/-
Downlevel.Text.Path — names of files.

A path is split at its slashes. Empty parts and parts that are a single
dot do not count, except that a path of a dot alone names no file. The
extension of a name is what follows its last dot, unless that dot comes
first; the name of the parent directory has none.
-/
import Downlevel.Text.CharClass

namespace Downlevel.Text

/-- The last part of a path that counts. -/
def fileName? (path : List Char) : Option (List Char) :=
  match ((splitAt '/' path).filter fun part => part ≠ [] ∧ part ≠ ['.']).getLast? with
  | some part => if part = ['.', '.'] then none else some part
  | none => none

/-- The extension of the file that a path names. -/
def extension? (path : List Char) : Option (List Char) :=
  (fileName? path).bind fun file =>
    let fromEnd := file.reverse
    match fromEnd.dropWhile (· != '.') with
    | '.' :: before => if before = [] then none else some (fromEnd.takeWhile (· != '.')).reverse
    | _ => none

end Downlevel.Text
