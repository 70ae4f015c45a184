import BlockLang.Condition
import BlockLang.SyntaxError
import BlockLang.Text.UpperCase

/-! Finding the condition that a spelling means, by its canonical name. -/

namespace BlockLang.Condition

/-- The canonical form of a spelling: capitals, with underscores for hyphens. -/
def canonical (raw : String) : String :=
  String.ofList (raw.toList.flatMap fun c => if c = '-' then ['_'] else Text.capitalForm c)

/-- The condition whose name is the canonical form of a spelling. -/
def lookup (raw : String) : Except SyntaxError Condition :=
  match ofName? (canonical raw) with
  | some c => .ok c
  | none => .error ⟨.unknownCondition, s!"Unknown condition: {raw}", none, some raw⟩

/-- A spelling that is no condition token was given where one is required. -/
structure NotACondition where
  raw : String
  deriving DecidableEq, Repr

def NotACondition.message (e : NotACondition) : String :=
  s!"Violation of: {Text.quote e.raw} is a condition string"

/-- Why a spelling gave no condition. -/
inductive LookupError where
  | notACondition (e : NotACondition)
  | unknown (e : SyntaxError)
  deriving DecidableEq, Repr

/-- The condition of a spelling that `accepts` lets through. -/
def ofSpelling (accepts : Token → Bool) (raw : String) : Except LookupError Condition :=
  if accepts raw then (lookup raw).mapError .unknown else .error (.notACondition ⟨raw⟩)

end BlockLang.Condition
