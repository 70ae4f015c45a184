import BlockLang.Condition.Lookup
import BlockLang.Forest.Parse

/-! Parsing by recursive descent into a forest, one routine for each construct. The routines make
every check that can be made: of what the caller promised, of every spelling that is looked up, and
all those of the building steps. A fault leaves the tokens taken and the nodes built. -/

namespace BlockLang

open BlockLang.Parser (Header Goal Violation)

/-- Why a descent stopped. -/
inductive Fault where
  | parse (e : ParseError)
  /-- A spelling was looked up that is no condition token. -/
  | notACondition (e : Condition.NotACondition)
  /-- A statement of a block took no token. -/
  | stalled
  deriving DecidableEq

/-- The tokens left, and the forest so far. -/
structure Site where
  stream : TokenStream
  forest : Forest

/-- A routine of a descent, which ends somewhere also when it faults. -/
abbrev Descent := EStateM Fault Site

namespace Descent

/-! ### Reading -/

def front : Descent Token := fun s => .ok s.stream.front s

/-- Fails with a violation at the token at the front if what is required does not hold. -/
def check (holds : Bool) (v : Violation) : Descent Unit := fun s =>
  if holds then .ok () s
  else .error (.parse (.violation (v.error s.stream.position (some s.stream.front)))) s

/-- Requires that the token at the front is as the caller promised. -/
def begins (beginning : Beginning) : Descent Unit := fun s =>
  if beginning.admits s.stream.front then .ok () s
  else .error (.parse (.wrongBeginning beginning)) s

/-- Reads from the token stream. -/
def read (take : TokenStream → Except SyntaxError Token × TokenStream) : Descent Token := fun s =>
  match take s.stream with
  | (.ok t, stream) => .ok t { s with stream := stream }
  | (.error e, stream) => .error (.parse (.violation e)) { s with stream := stream }

def dequeue : Descent Token := read TokenStream.dequeue

/-- Takes a keyword, and fails with a violation at the token that stands in its place. -/
def expect (keyword : Token) (v : Violation) : Descent Token :=
  read fun stream => stream.expect keyword v.text

/-- Takes a token, and fails after it if it is not the keyword. -/
def close (keyword : Token) (v : Violation) : Descent Unit := do
  let t ← dequeue
  if t = keyword then return ()
  else do
    let s ← get
    throw (.parse (.violation (v.error (s.stream.position - 1) (some t))))

/-- Takes a condition, by a check of the token and by a look-up of its spelling. -/
def condition (header : Header) : Descent Condition := do
  let t ← front
  check t.isCondition (.condition header)
  let raw ← dequeue
  match Condition.ofSpelling Token.isCondition raw with
  | .ok c => pure c
  | .error (.notACondition e) => throw (.notACondition e)
  | .error (.unknown e) => throw (.parse (.violation e))

/-! ### Building -/

/-- Creates a placeholder. -/
def fresh : Descent NodeId := fun s => .ok s.forest.fresh.1 { s with forest := s.forest.fresh.2 }

def blockLength (i : NodeId) : Descent Nat := fun s =>
  match s.forest.blockLength i with
  | .ok n => .ok n s
  | .error e => .error (.parse (.build e)) s

def build (step : Forest → Except BuildError Forest) : Descent Unit := fun s =>
  match step s.forest with
  | .ok f => .ok () { s with forest := f }
  | .error e => .error (.parse (.build e)) s

/-- Creates a placeholder and parses into it. -/
def inFresh (routine : NodeId → Descent Unit) : Descent NodeId := do
  let i ← fresh
  routine i
  return i

/-! ### Constructs -/

section Constructs

variable (statement : NodeId → Descent Unit)

/-- Parses statements into a block from its position `k` on, up to a token that ends blocks. Every
statement takes at least one of the `left` tokens. -/
def elements (i : NodeId) : (left : Nat) → (k : Nat) → Descent Unit
  | left, k => do
    let t ← front
    if t.endsBlock then return ()
    else match left with
      | 0 => throw .stalled
      | left + 1 => do
        let child ← inFresh statement
        build fun f => f.addToBlock i k child
        elements i left (k + 1)

/-- Parses statements into a block, after those it has. -/
def block (i : NodeId) : Descent Unit := do
  let k ← blockLength i
  let s ← get
  elements statement i s.stream.rest.length k

/-- Parses the beginning of a compound statement, with its first block. -/
def opening (beginning : Beginning) (header : Header) : Descent (Condition × NodeId) := do
  begins beginning
  let _ ← dequeue
  let c ← condition header
  let _ ← expect header.opener (.opener header)
  let body ← inFresh (block statement)
  return (c, body)

/-- Parses the second block of a choice, if there is one, and makes a node the choice. -/
def alternative (i : NodeId) (c : Condition) (thenBody : NodeId) : Descent Unit := do
  let t ← front
  check (t == "ELSE" || t == "END") (.elseOrEnd t)
  if t == "ELSE" then do
    let _ ← dequeue
    let elseBody ← inFresh (block statement)
    build fun f => f.assembleIfElse i c thenBody elseBody
  else build fun f => f.assembleIf i c thenBody

/-- Parses a choice. -/
def choice (i : NodeId) : Descent Unit := do
  let opened ← opening statement .ifThen .ifThen
  alternative statement i opened.1 opened.2
  let _ ← expect "END" .endOfElse
  close "IF" (.closer .ifThen)

/-- Parses a loop. -/
def loop (i : NodeId) : Descent Unit := do
  let opened ← opening statement .whileDo .whileDo
  build fun f => f.assembleWhile i opened.1 opened.2
  let t ← front
  let _ ← expect "END" (.endOfLoop t)
  let _ ← expect "WHILE" (.closer .whileDo)

def compound : Header → NodeId → Descent Unit
  | .ifThen => choice statement
  | .whileDo => loop statement

end Constructs

/-- Parses a call. -/
def call (i : NodeId) : Descent Unit := do
  begins .call
  let t ← dequeue
  build fun f => f.assembleCall i t

/-- Parses a statement that begins with a header by one routine, and a call by another. -/
def dispatch (compound : Header → NodeId → Descent Unit) (i : NodeId) : Descent Unit := do
  let t ← front
  check ((Header.ofToken? t).isSome || t.isIdentifier) (.statementStart t)
  match Header.ofToken? t with
  | some header => compound header i
  | none => call i

/-- Parses a statement with at most `depth` compound statements inside one another. -/
def statement : (depth : Nat) → NodeId → Descent Unit
  | 0 => dispatch fun _ _ => check false .shallowerNesting
  | depth + 1 => dispatch (compound (statement depth))

/-- Parses a statement or a block. -/
def goal (m : Machine) : Goal → NodeId → Descent Unit
  | .statement => statement (BlockLang.Parser.nestingLimit m)
  | .block => block (statement (BlockLang.Parser.nestingLimit m))

/-- Parses a statement or a block from the head of a stream, as a new tree in a forest. -/
def parse (m : Machine) (g : Goal) (ts : List Token) (f : Forest) :
    EStateM.Result Fault Site NodeId :=
  inFresh (goal m g) ⟨.ofTokens ts, f⟩

end Descent

end BlockLang
