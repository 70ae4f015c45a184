import BlockLang.SyntaxError

/-! The ways in which a token stream can violate the grammar. -/

namespace BlockLang.Parser

/-- The compound statements: a choice or a loop. -/
inductive Header where
  | ifThen
  | whileDo
  deriving DecidableEq, Repr

/-- What was expected and not found. -/
inductive Violation where
  | statementStart (found : Token)
  | condition (header : Header)
  /-- The keyword between condition and body. -/
  | opener (header : Header)
  /-- The token after the body of a choice. -/
  | elseOrEnd (found : Token)
  /-- The token after the second body of a choice. -/
  | endOfElse
  /-- The token after the body of a loop. -/
  | endOfLoop (found : Token)
  /-- The keyword after `END`. -/
  | closer (header : Header)
  /-- Any token at all. -/
  | moreTokens
  /-- Fewer statements around this one. -/
  | shallowerNesting
  deriving DecidableEq, Repr

namespace Violation

def kind : Violation → ErrorKind
  | statementStart _ => .invalidStatementStart
  | condition _ => .invalidCondition
  | shallowerNesting => .nestingTooDeep
  | _ => .unexpectedToken

def text : Violation → String
  | statementStart found =>
    s!"IF, WHILE, or valid identifier not found, got {Text.quote found}"
  | condition .ifThen => "IF condition not valid"
  | condition .whileDo => "WHILE condition not valid"
  | opener .ifThen => "Expected THEN"
  | opener .whileDo => "Expected DO"
  | elseOrEnd found => s!"Expected ELSE or END, got {Text.quote found}"
  | endOfElse => "Expected END"
  | endOfLoop found => s!"Expected END, found: \"{found}\""
  | closer .ifThen => "Expected IF"
  | closer .whileDo => "Does not contain WHILE after END"
  | moreTokens => "Unexpected end of token stream"
  | shallowerNesting => "Statements nested too deeply"

/-- The error of a violation at a position of the stream. -/
def error (v : Violation) (position : Nat) (token : Option Token) : SyntaxError :=
  ⟨v.kind, v.text, some position, token⟩

end Violation

end BlockLang.Parser
