/-
Downlevel.Edition — editions of the language and goals of a source text.

Editions are ordered by age. Output lowered to an edition uses only what
that edition already had.
-/
import Downlevel.Json.Record

namespace Downlevel

/-! ## Editions -/

/-- An edition of the language, oldest first. -/
inductive Edition where
  | es5
  | es2015
  | es2016
  | es2017
  | es2018
  | es2019
  | es2020
  | es2021
  | es2022
  | esNext
  deriving DecidableEq, Repr, Inhabited

namespace Edition

def all : List Edition :=
  [.es5, .es2015, .es2016, .es2017, .es2018, .es2019, .es2020, .es2021, .es2022, .esNext]

def name : Edition → String
  | .es5 => "es5"
  | .es2015 => "es2015"
  | .es2016 => "es2016"
  | .es2017 => "es2017"
  | .es2018 => "es2018"
  | .es2019 => "es2019"
  | .es2020 => "es2020"
  | .es2021 => "es2021"
  | .es2022 => "es2022"
  | .esNext => "esnext"

/-- The place of an edition in order of age. -/
def rank : Edition → Nat
  | .es5 => 0
  | .es2015 => 1
  | .es2016 => 2
  | .es2017 => 3
  | .es2018 => 4
  | .es2019 => 5
  | .es2020 => 6
  | .es2021 => 7
  | .es2022 => 8
  | .esNext => 9

instance : LT Edition := ⟨fun a b => a.rank < b.rank⟩
instance : LE Edition := ⟨fun a b => a.rank ≤ b.rank⟩
instance (a b : Edition) : Decidable (a < b) := inferInstanceAs (Decidable (a.rank < b.rank))
instance (a b : Edition) : Decidable (a ≤ b) := inferInstanceAs (Decidable (a.rank ≤ b.rank))
instance : Min Edition := ⟨fun a b => if a ≤ b then a else b⟩

/-- The edition output falls back to when nobody asks for another. -/
def standard : Edition := .es2015

/-- The edition just before another one; nothing is older than the
first. -/
def previous : Edition → Edition
  | .es5 => .es5
  | .es2015 => .es5
  | .es2016 => .es2015
  | .es2017 => .es2016
  | .es2018 => .es2017
  | .es2019 => .es2018
  | .es2020 => .es2019
  | .es2021 => .es2020
  | .es2022 => .es2021
  | .esNext => .es2022

def toJson (e : Edition) : Json := .str e.name

def ofJsonWith? (bare : Json.Bare) : Json → Option Edition :=
  Json.choice? (Json.named? name all) bare

def ofJson? : Json → Option Edition := ofJsonWith? Json.isNull

end Edition

/-! ## Source modes -/

/-- Whether a text is read as a module or as a script; `auto` leaves the
choice to its reader. -/
inductive SourceMode where
  | moduleGoal
  | scriptGoal
  | auto
  deriving DecidableEq, Repr, Inhabited

namespace SourceMode

def all : List SourceMode := [.moduleGoal, .scriptGoal, .auto]

def name : SourceMode → String
  | .moduleGoal => "module"
  | .scriptGoal => "script"
  | .auto => "auto"

def toJson (m : SourceMode) : Json := .str m.name

def ofJsonWith? (bare : Json.Bare) : Json → Option SourceMode :=
  Json.choice? (Json.named? name all) bare

def ofJson? : Json → Option SourceMode := ofJsonWith? Json.isNull

end SourceMode

end Downlevel
