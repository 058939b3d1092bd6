/-
Downlevel.Code.Degradation — the rules for text that a backend refused.

Each rule does without one construct, at a price that its warning names.
A rule runs only when the message of the failure points at its construct.
The rules run one after the other on each other's output, optional access
first, so that a guard chain can become the left operand of a nullish
check.
-/
import Downlevel.Code.Arrows
import Downlevel.Code.Declarations
import Downlevel.Code.Nullish
import Downlevel.Code.OptionalAccess
import Downlevel.Json.Record

namespace Downlevel

open Pattern

inductive Degradation where
  | optionalMemberAccess
  | nullishCoalescing
  | declarationKeywords
  | arrowFunctions
  deriving DecidableEq, Repr, Inhabited

namespace Degradation

/-- The rules in the order in which they run. -/
def all : List Degradation :=
  [.optionalMemberAccess, .nullishCoalescing, .declarationKeywords, .arrowFunctions]

def name : Degradation → String
  | .optionalMemberAccess => "optional-member-access"
  | .nullishCoalescing => "nullish-coalescing"
  | .declarationKeywords => "declaration-keywords"
  | .arrowFunctions => "arrow-functions"

def ofJson? : Json → Option Degradation := Json.choice? (Json.named? name all) Json.isNull

/-- What a use of the rule costs. -/
def warning : Degradation → String
  | .optionalMemberAccess =>
    "Optional member access rewritten to && guards; falsy values such as 0 or '' now "
      ++ "short-circuit and calls inside the chain repeat in every guard"
  | .nullishCoalescing =>
    "Nullish coalescing rewritten to an explicit null/undefined check; the left operand is "
      ++ "evaluated more than once"
  | .declarationKeywords =>
    "const/let rewritten to var; block scoping and reassignment checks are lost"
  | .arrowFunctions =>
    "Arrow functions rewritten to function expressions; lexical this and arguments are not "
      ++ "preserved"

/-! ## Triggers -/

/-- The complaint about a token that starts with a question mark. -/
def unexpectedQuestion : Pattern :=
  literalAnyCase "unexpected token " ++ opt (literal "'") ++ literal "?" ++ opt (literal "'")

/-- What a message has to mention for the rule to run. -/
def trigger : Degradation → Pattern
  | .optionalMemberAccess =>
    alts [literalAnyCase "optional chain", literal "?.",
      literalAnyCase "unexpected token " ++ opt (literal "'") ++ opt (literal "?") ++ literal "."
        ++ opt (literal "'"),
      unexpectedQuestion]
  | .nullishCoalescing => alts [literalAnyCase "nullish", literal "??", unexpectedQuestion]
  | .declarationKeywords =>
    alts [edge ++ (literalAnyCase "const" ||| literalAnyCase "let") ++ edge,
      literalAnyCase "block-scoped", literalAnyCase "strict mode reserved word"]
  | .arrowFunctions => alts [literalAnyCase "arrow", literal "=>"]

def isTriggeredBy (rule : Degradation) (message : String) : Bool :=
  rule.trigger.occurs message.toList

/-! ## Degraded text -/

/-- A text without the construct of a rule; none where the construct does
not occur in code or an occurrence has to stay. -/
def degradeChars? : Degradation → List Char → Option (List Char)
  | .optionalMemberAccess => Code.OptionalAccess.degrade?
  | .nullishCoalescing => Code.Nullish.degrade?
  | .declarationKeywords => Code.Declarations.degrade?
  | .arrowFunctions => Code.Arrows.degrade?

def degrade? (rule : Degradation) (source : String) : Option String :=
  (rule.degradeChars? source.toList).map String.ofList

end Degradation

/-! ## Recovery -/

/-- A degraded text with the price of each rule that was used. -/
structure Recovery where
  loweredText : String
  warnings : List String
  deriving DecidableEq

namespace Recovery

def toJson (r : Recovery) : Json := .obj [
  ("loweredText", .str r.loweredText),
  ("warnings", Json.ofList Json.str r.warnings)]

def ofJson? : Json → Option Recovery := Json.Record.read do
  let loweredText ← Json.Record.required "loweredText" Json.str?
  let warnings ← Json.Record.required "warnings" (Json.items? Json.str?)
  return ⟨loweredText, warnings⟩

/-- Runs one rule on what the rules before it made of a text. -/
def applyRule (message : String) (r : Recovery) (rule : Degradation) : Recovery :=
  if rule.isTriggeredBy message then
    match rule.degrade? r.loweredText with
    | some text => ⟨text, r.warnings ++ [rule.warning]⟩
    | none => r
  else r

/-- Runs every rule that a message triggers; none when no rule changed the
text. -/
def ofFailure? (source message : String) : Option Recovery :=
  let result := Degradation.all.foldl (applyRule message) ⟨source, []⟩
  if result.warnings = [] then none else some result

end Recovery

end Downlevel
