import BlockLang.Text.Quoted
import BlockLang.Token

/-! Syntax errors: the kind of violation, its wording, and the token where it was seen. -/

namespace BlockLang

/-- The kinds of syntax error. -/
inductive ErrorKind where
  | unexpectedToken
  | invalidCondition
  | invalidStatementStart
  | unknownCondition
  | nestingTooDeep
  deriving DecidableEq, Repr

namespace ErrorKind

def all : List ErrorKind :=
  [unexpectedToken, invalidCondition, invalidStatementStart, unknownCondition, nestingTooDeep]

def name : ErrorKind → String
  | unexpectedToken => "UNEXPECTED_TOKEN"
  | invalidCondition => "INVALID_CONDITION"
  | invalidStatementStart => "INVALID_STATEMENT_START"
  | unknownCondition => "UNKNOWN_CONDITION"
  | nestingTooDeep => "NESTING_TOO_DEEP"

/-- The kind as it is written in data. -/
def label : ErrorKind → String
  | unexpectedToken => "unexpected_token"
  | invalidCondition => "invalid_condition"
  | invalidStatementStart => "invalid_statement_start"
  | unknownCondition => "unknown_condition"
  | nestingTooDeep => "nesting_too_deep"

end ErrorKind

/-- A syntax error. The position counts the tokens before the offending one. -/
structure SyntaxError where
  kind : ErrorKind
  text : String
  position : Option Int
  token : Option Token
  deriving DecidableEq, Repr

namespace SyntaxError

/-- The text, with the position where there is one. -/
def message (e : SyntaxError) : String :=
  match e.position with
  | none => e.text
  | some p => s!"{e.text} (token {p})"

/-- All fields on one line. -/
def describe (e : SyntaxError) : String :=
  let position := match e.position with
    | none => "None"
    | some p => toString p
  s!"BLSyntaxError({e.kind.name}, {Text.quote e.text}, position={position}, " ++
    s!"token={Text.quoteOption e.token})"

/-- Fails with the error if what is required does not hold. -/
def require (e : SyntaxError) (holds : Bool) : Except SyntaxError Unit :=
  if holds then .ok () else .error e

end SyntaxError

end BlockLang
