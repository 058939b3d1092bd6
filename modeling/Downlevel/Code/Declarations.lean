/-
Downlevel.Code.Declarations — block-scoped declarations as plain ones.

The keywords `const` and `let` become `var` wherever they stand in code
and are followed by a blank.
-/
import Downlevel.Code.Basic

namespace Downlevel.Code.Declarations

open Pattern

/-- A declaring keyword with the blanks after it, which are group 1. -/
def declaration : Pattern := edge ++ (literal "const" ||| literal "let") ++ .group 1 gap

theorem declaration_consuming : 0 < declaration.minLength := by decide

def replacement? (code : Code) (m : Match) : Option (List Char) :=
  some ("var".toList ++ (m.groupText? code.text 1).getD [])

def replacements? (code : Code) : Option (List Replacement) :=
  code.replacements? declaration declaration_consuming (replacement? code)

def degrade? (source : List Char) : Option (List Char) :=
  let code := Code.ofText source
  match replacements? code with
  | none => none
  | some replacements => if replacements = [] then none else some (code.patch replacements)

end Downlevel.Code.Declarations
