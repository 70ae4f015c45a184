import BlockLang.Printer
import BlockLang.Statement.Data
import BlockLang.Text.LowerCase
import BlockLang.Text.Quoted

/-! Rendering a statement tree in a named output format. -/

namespace BlockLang

/-- The output formats. -/
inductive Target where
  | program
  | json
  deriving DecidableEq, Repr

/-- Why a tree was not rendered. -/
inductive RenderError where
  /-- There is no name of a format. -/
  | noTarget
  /-- No format has the name. -/
  | unknownTarget (name : String)
  /-- There was no statement to render. -/
  | noStatement
  | print (e : PrintError)
  deriving DecidableEq, Repr

def RenderError.message : RenderError → String
  | noTarget => "'list' object has no attribute 'lower'"
  | unknownTarget name => s!"Unknown output format: {Text.quote name}"
  | noStatement => "Only Statement instances can be rendered."
  | print e => e.message

namespace PrintError

/-- Requires that a value is not too deep for a machine. Every object and every array takes a
call. -/
def requireDepth (m : Machine) (value : Json) : Except PrintError Unit :=
  if value.depth ≤ m.calls .encoding then .ok () else .error .tooDeep

/-- Requires that a number of spaces can be repeated so often. -/
def requireSpaces (m : Machine) (spaces : Nat) (count : Int) : Except PrintError Unit :=
  (Text.requireRepeatable m spaces count).mapError .margin

end PrintError

/-- The text of a value, as far as a machine has room for the work. The spaces of one level are made
first, and then from them those of each line. -/
def Json.encode (m : Machine) (indent : Option Int) (value : Json) : Except PrintError String := do
  match indent with
  | none => PrintError.requireDepth m value
  | some n =>
    PrintError.requireSpaces m 1 n
    PrintError.requireDepth m value
    PrintError.requireSpaces m n.toNat value.breakLevel
  return value.text indent

/-- The object of a tree, as far as a machine has room for the work. -/
def Statement.data (m : Machine) (s : Statement) : Except PrintError Json := do
  PrintError.requireDepth m s.toJson
  return s.toJson

namespace Target

/-- The format of a name in lower case. -/
def ofName? : String → Option Target
  | "bl" => some program
  | "text" => some program
  | "json" => some json
  | _ => none

/-- The format of a name in any case. -/
def ofName (name : String) : Except RenderError Target :=
  match ofName? (Text.lower name) with
  | some target => .ok target
  | none => .error (.unknownTarget (Text.lower name))

/-- The spaces a level of rendered JSON. -/
def jsonIndent : Option Int := some 2

/-- The text of a tree in a format, as far as a machine has room for the work. -/
def render (m : Machine) : Target → Statement → Except RenderError String
  | program, s =>
    match (Printer.atLevel 0).run (Printer.emit m s (m.calls .printing)) with
    | (.ok (), p) => .ok p.output
    | (.error e, _) => .error (.print e)
  | json, s => ((s.data m).bind (Json.encode m jsonIndent)).mapError .print

end Target

/-- Renders a statement, if there is one, in the format of a name. -/
def render (m : Machine) (target : String) (s : Option Statement) :
    Except RenderError String := do
  let target ← Target.ofName target
  match s with
  | none => .error .noStatement
  | some s => target.render m s

end BlockLang
