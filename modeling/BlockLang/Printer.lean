import BlockLang.Statement
import BlockLang.Text.Repeated

/-! The pretty printer: programs laid out in lines, four spaces a level. The printer keeps the
lines and the level it has reached also when a malformed tree stops it, or one that is too deep. -/

namespace BlockLang

/-- Lines printed so far, and the level of the next one. -/
structure Printer where
  lines : List String
  level : Int
  deriving DecidableEq, Repr

/-- Why a tree cannot be printed. -/
inductive PrintError where
  /-- A test has no condition. -/
  | missingCondition
  /-- A test has fewer bodies than its kind needs. -/
  | missingBody
  /-- There is no layout for statements of the named kind. -/
  | unsupportedKind (name : String)
  /-- The spaces at the start of a line cannot be made. -/
  | margin (e : Text.RepeatError)
  /-- More calls would stand inside one another than may. -/
  | tooDeep
  deriving DecidableEq, Repr

def PrintError.message : PrintError → String
  | missingCondition => ""
  | missingBody => "list index out of range"
  | unsupportedKind name => s!"No emit method for statement kind '{name}'"
  | margin e => e.message
  | tooDeep => "maximum recursion depth exceeded"

/-- A printing step, which changes the printer and may fail. -/
abbrev Printing := ExceptT PrintError (StateM Printer)

namespace Printer

/-- A printer without lines, at a level. -/
def atLevel (level : Int) : Printer := ⟨[], level⟩

/-- The text of all lines. -/
def output (p : Printer) : String := String.join (p.lines.map fun line => line ++ "\n")

/-- The spaces before a line at a level; there are none at negative levels. -/
def margin (m : Machine) (level : Int) : Except Text.RepeatError String :=
  (Text.repeated m (List.replicate 4 ' ') level).map String.ofList

/-- Prints a line at the current level. -/
def line (m : Machine) (text : String) : Printing Unit := do
  let p ← get
  match margin m p.level with
  | .ok spaces => set { p with lines := p.lines ++ [spaces ++ text] }
  | .error e => throw (.margin e)

/-- Changes the level of the lines that follow. -/
def shift (levels : Int) : Printing Unit :=
  modify fun p => { p with level := p.level + levels }

mutual
/-- Prints a statement, if `calls` more calls may stand inside one another. It takes one call for
the statement and one for its kind. -/
def emit (m : Machine) : Statement → (calls : Nat) → Printing Unit
  | .node .block _ _ xs, calls + 2 => emitAll m xs calls
  | .node .call _ name _, _ + 2 => line m (name.getD "None")
  | .node _ none _ _, _ + 2 => throw .missingCondition
  | .node .ifThen (some c) _ xs, calls + 2 => do
    line m s!"IF {c.token} THEN"
    emitBody m 0 xs calls
    line m "END IF"
  | .node .ifElse (some c) _ xs, calls + 2 => do
    line m s!"IF {c.token} THEN"
    emitBody m 0 xs calls
    line m "ELSE"
    emitBody m 1 xs calls
    line m "END IF"
  | .node .whileDo (some c) _ xs, calls + 2 => do
    line m s!"WHILE {c.token} DO"
    emitBody m 0 xs calls
    line m "END WHILE"
  | _, _ => throw .tooDeep

/-- Prints statements in order. -/
def emitAll (m : Machine) : List Statement → (calls : Nat) → Printing Unit
  | [], _ => pure ()
  | x :: xs, calls => do
    emit m x calls
    emitAll m xs calls

/-- Prints the body of the given number, one level deeper. This takes a call of its own. -/
def emitBody (m : Machine) : Nat → List Statement → (calls : Nat) → Printing Unit
  | _, [], _ => throw .missingBody
  | 0, body :: _, calls + 1 => do
    shift 1
    emit m body calls
    shift (-1)
  | 0, _ :: _, 0 => throw .tooDeep
  | n + 1, _ :: rest, calls => emitBody m n rest calls
end

/-- Refuses a statement of a kind that has no layout. -/
def emitUnsupported (name : String) : Printing Unit := throw (.unsupportedKind name)

/-- Runs a printing step. -/
def run (p : Printer) (step : Printing Unit) : Except PrintError Unit × Printer :=
  (ExceptT.run step).run p

end Printer

end BlockLang
