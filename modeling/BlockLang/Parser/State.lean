import BlockLang.Parser.Violation
import BlockLang.Statement

/-! What a parser knows between two tokens, and what it does with the next one.

    statement := IF condition THEN block (ELSE block)? END IF
               | WHILE condition DO block END WHILE
               | identifier
    block     := statement*

The open compound statements form a stack. One token of look-ahead decides every step, so the
parser never goes back. -/

namespace BlockLang.Parser

/-- What is to be parsed. -/
inductive Goal where
  | statement
  | block
  deriving DecidableEq, Repr

/-- The block of a compound statement that is being read. -/
inductive Branch where
  | ifBody (c : Condition)
  | elseBody (c : Condition) (thenBody : List Statement)
  | whileBody (c : Condition)

/-- An open compound statement: the block being read, where the statement began, and the
statements of that block so far. -/
structure Frame where
  branch : Branch
  start : Nat
  done : List Statement

/-- What comes next. -/
inductive Mode where
  /-- A statement or the end of the innermost block. -/
  | statement
  /-- The condition of a statement that began at `start`. -/
  | condition (header : Header) (start : Nat)
  /-- The keyword between condition and body. -/
  | opener (header : Header) (c : Condition) (start : Nat)
  /-- The keyword after `END`. -/
  | closer (header : Header) (s : Statement) (start : Nat)

/-- A construct that has been recognised. -/
inductive Event where
  /-- A block of `count` statements stands before `next`. -/
  | block (count : Nat) (next : Token)
  /-- A compound statement spans the tokens from `first` to `last`. -/
  | statement (kind : Kind) (first last : Nat)
  deriving DecidableEq, Repr

def Event.message : Event → String
  | block count next => s!"block of {count} statement(s) ends at {Text.quote next}"
  | statement kind first last => s!"parsed {kind.name} at tokens {first}-{last}"

/-- The state of a parser: the complete statements outside every open one, the open compound
statements from the innermost outwards, what comes next, the number of tokens taken, and the
constructs recognised so far. -/
structure State where
  outer : List Statement
  frames : List Frame
  mode : Mode
  position : Nat
  log : List Event

/-- What the next token calls for. -/
inductive Step where
  /-- The token is taken. -/
  | shift (next : State)
  /-- The goal is reached before the token. -/
  | halt (last : State)
  /-- The token is refused where it stands. -/
  | fail (last : State) (v : Violation)
  /-- The token is taken, and refused then. -/
  | reject (last : State) (v : Violation)

namespace Branch

def header : Branch → Header
  | ifBody _ => .ifThen
  | elseBody _ _ => .ifThen
  | whileBody _ => .whileDo

/-- The statement whose last block is the given one. -/
def close (done : List Statement) : Branch → Statement
  | ifBody c => .ifThen c done
  | elseBody c thenBody => .ifElse c thenBody done
  | whileBody c => .whileDo c done

/-- What a block of this kind lacks when `found` stands after it in place of its end. -/
def lacks (found : Token) : Branch → Violation
  | ifBody _ => .elseOrEnd found
  | elseBody _ _ => .endOfElse
  | whileBody _ => .endOfLoop found

/-- Whether the block is the last one of its statement when `next` stands after it. -/
def isLast (next : Token) : Branch → Bool
  | ifBody _ => next == "END"
  | elseBody _ _ => true
  | whileBody _ => true

end Branch

namespace Header

/-- The keyword before the condition and after `END`. -/
def keyword : Header → Token
  | ifThen => "IF"
  | whileDo => "WHILE"

/-- The keyword between condition and body. -/
def opener : Header → Token
  | ifThen => "THEN"
  | whileDo => "DO"

/-- The first block of a statement. -/
def branch (c : Condition) : Header → Branch
  | ifThen => .ifBody c
  | whileDo => .whileBody c

/-- The compound statement that a token begins. -/
def ofToken? (t : Token) : Option Header :=
  if t = ifThen.keyword then some ifThen
  else if t = whileDo.keyword then some whileDo
  else none

end Header

namespace State

/-- The state before the first statement, when `position` tokens have been taken. -/
def initial (position : Nat) : State := ⟨[], [], .statement, position, []⟩

/-- Takes a token and goes on in a mode. -/
def shift (σ : State) (mode : Mode) : State :=
  { σ with mode := mode, position := σ.position + 1 }

/-- Adds a complete statement to the innermost block. -/
def add (σ : State) (s : Statement) : State :=
  match σ.frames with
  | [] => { σ with outer := σ.outer ++ [s] }
  | f :: frames => { σ with frames := { f with done := f.done ++ [s] } :: frames }

def record (σ : State) (e : Event) : State := { σ with log := σ.log ++ [e] }

/-- A token where a statement may begin. At most `limit` compound statements are open at once. -/
def beginStatement (limit : Option Nat) (σ : State) (t : Token) : Step :=
  match Header.ofToken? t with
  | some header =>
    if limit.any fun n => n ≤ σ.frames.length then .fail σ .shallowerNesting
    else .shift (σ.shift (.condition header σ.position))
  | none =>
    if t.isIdentifier then .shift ((σ.add (.call t)).shift .statement)
    else .fail σ (.statementStart t)

/-- A token that ends the innermost block. -/
def endBlock (goal : Goal) (σ : State) (t : Token) : Step :=
  match σ.frames with
  | [] =>
    match goal with
    | .statement => .fail σ (.statementStart t)
    | .block => .halt (σ.record (.block σ.outer.length t))
  | f :: frames =>
    let σ := σ.record (.block f.done.length t)
    match f.branch, t with
    | .ifBody c, "ELSE" =>
      .shift ({ σ with frames := ⟨.elseBody c f.done, f.start, []⟩ :: frames }.shift .statement)
    | branch, "END" =>
      .shift ({ σ with frames }.shift (.closer branch.header (branch.close f.done) f.start))
    | branch, found => .fail σ (branch.lacks found)

/-- The keyword after `END`. That of a choice is taken before it is looked at. -/
def closeStatement (σ : State) (header : Header) (s : Statement) (start : Nat) (t : Token) :
    Step :=
  if t = header.keyword then
    .shift (((σ.add s).record (.statement s.kind start σ.position)).shift .statement)
  else match header with
    | .ifThen => .reject (σ.shift σ.mode) (.closer header)
    | .whileDo => .fail σ (.closer header)

/-- What a state does with the next token. -/
def step (goal : Goal) (limit : Option Nat) (σ : State) (t : Token) : Step :=
  match σ.mode with
  | .statement => if t.endsBlock then σ.endBlock goal t else σ.beginStatement limit t
  | .condition header start =>
    match Condition.ofToken? t with
    | some c => .shift (σ.shift (.opener header c start))
    | none => .fail σ (.condition header)
  | .opener header c start =>
    if t = header.opener then
      .shift ({ σ with frames := ⟨header.branch c, start, []⟩ :: σ.frames }.shift .statement)
    else .fail σ (.opener header)
  | .closer header s start => σ.closeStatement header s start t

/-- Whether a single statement is complete. -/
def finished (goal : Goal) (σ : State) : Bool := goal == .statement && !σ.outer.isEmpty

/-- The outermost statement, as far as it is put together when `next` comes: all its blocks are
complete. -/
def assembled? (σ : State) (next : Token) : Option Statement :=
  match σ.mode, σ.outer, σ.frames with
  | .statement, s :: _, [] => some s
  | .statement, [], [f] =>
    if next.endsBlock && f.branch.isLast next then some (f.branch.close f.done) else none
  | _, _, _ => none

end State

end BlockLang.Parser
