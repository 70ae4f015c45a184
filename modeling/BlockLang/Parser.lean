import BlockLang.Machine
import BlockLang.Parser.State

/-! Parsing a token stream, token by token. -/

namespace BlockLang.Parser

/-- The token at the front of a stream; an exhausted stream shows the sentinel. -/
def front (ts : List Token) : Token := ts.headD Token.endOfInput

/-- How a parse ended: the error, if there was one, the last state, and the tokens left. -/
structure Outcome where
  error? : Option SyntaxError
  last : State
  rest : List Token

/-- Runs a parser on a stream. -/
def run (goal : Goal) (limit : Option Nat) (σ : State) (ts : List Token) : Outcome :=
  if σ.finished goal then ⟨none, σ, ts⟩
  else match σ.step goal limit (front ts), ts with
    | .halt last, _ => ⟨none, last, ts⟩
    | .fail last v, _ => ⟨some (v.error σ.position (some (front ts))), last, ts⟩
    | .shift next, _ :: rest => run goal limit next rest
    | .reject last v, t :: rest => ⟨some (v.error σ.position (some t)), last, rest⟩
    | _, [] => ⟨some (Violation.moreTokens.error σ.position none), σ, []⟩
termination_by structural ts

/-- What a parse of a goal that ended without error has read. -/
def State.result (goal : Goal) (σ : State) : Statement :=
  match goal with
  | .statement => σ.outer.headD default
  | .block => .block σ.outer

/-- The result of a parse. -/
def Outcome.result (goal : Goal) (o : Outcome) : Except SyntaxError Statement :=
  match o.error? with
  | some e => .error e
  | none => .ok (o.last.result goal)

/-- The place where the outermost statement of a stream is put together: the statement, the state
there and the tokens left. There is none if an error comes first. -/
def assembly? (σ : State) (ts : List Token) : Option (Statement × State × List Token) :=
  match σ.assembled? (front ts) with
  | some s => some (s, σ, ts)
  | none =>
    match σ.step .statement none (front ts), ts with
    | .shift next, _ :: rest => assembly? next rest
    | _, _ => none
termination_by structural ts

/-- The calls that an open compound statement takes: one for the statement, one for its kind and
one for the block that is being read. -/
def callsPerStatement : Nat := 3

/-- The number of compound statements that may be open at once on a machine. -/
def nestingLimit (m : Machine) : Nat := m.calls .parsing / callsPerStatement

/-- Parses a statement or a block from the head of a stream. -/
def parse (m : Machine) (goal : Goal) (ts : List Token) : Outcome :=
  run goal (some (nestingLimit m)) (.initial 0) ts

end BlockLang.Parser
