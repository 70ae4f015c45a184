import BlockLang.Directory
import BlockLang.Parser
import BlockLang.Render
import BlockLang.Text.Newline
import BlockLang.Text.Utf8
import BlockLang.Token.Split

/-! The tool: it reads a program from a file or takes it as given, parses a statement or a block
from it, and prints the tree or writes it to a file. -/

namespace BlockLang.Tool

/-- What the tool is asked to do. -/
structure Request where
  /-- A file name, or the program itself if `literal` is set. -/
  source : String
  literal : Bool
  goal : Parser.Goal
  /-- The name of the output format. Without one there is nothing to render in. -/
  target : Option String
  /-- The file to write; without one, or with an empty name, the tree is printed. -/
  out : Option String

/-- Why the tool stopped. -/
inductive Failure where
  | notProgramFile
  | file (e : FileError)
  | decode (e : Text.Utf8.DecodeError)
  | violation (e : SyntaxError)
  | render (e : RenderError)

def Failure.message : Failure → String
  | notProgramFile => "Only .bl files are supported."
  | file e => e.message
  | decode e => e.message
  | violation e => e.message
  | render e => e.message

/-- The weight of a log record. -/
inductive Level where
  | debug
  | info
  | warning
  | error
  deriving DecidableEq, Repr

def Level.name : Level → String
  | debug => "DEBUG"
  | info => "INFO"
  | warning => "WARNING"
  | error => "ERROR"

/-- The part of the tool that wrote a log record. -/
inductive Component where
  | tool
  | parser
  deriving DecidableEq, Repr

/-- A log record. -/
structure Record where
  level : Level
  component : Component
  message : String
  deriving DecidableEq, Repr

/-- What a run of the tool did: its result, the text it printed, its log, and the directory that
it left. -/
structure Report where
  result : Except Failure Statement
  printed : String
  log : List Record
  directory : Directory

/-- Whether a file name is one of a program file. -/
def isProgramFile (path : String) : Bool := ".bl".toList.isSuffixOf path.toList

/-- The program text of a file. -/
def readProgram (d : Directory) (path : String) : Except Failure String :=
  if !isProgramFile path then .error .notProgramFile
  else match d.read path with
    | .error e => .error (.file e)
    | .ok bytes =>
      match Text.Utf8.decode bytes with
      | .error e => .error (.decode e)
      | .ok cs => .ok (String.ofList (Text.unifyNewlines cs))

/-- The program text of a request. -/
def programText (r : Request) (d : Directory) : Except Failure String :=
  if r.literal then .ok r.source else readProgram d r.source

def parserRecord (e : Parser.Event) : Record := ⟨.debug, .parser, e.message⟩

/-- The warning about tokens that are left after the program, sentinels apart. -/
def leftOver (rest : List Token) : List Record :=
  match rest.filter (· != Token.endOfInput) with
  | [] => []
  | t :: ts =>
    [⟨.warning, .tool,
      s!"{ts.length + 1} token(s) left unparsed, starting at {Text.quote t}"⟩]

/-- The text as it is printed, with a line feed at its end. -/
def printedText (text : String) : String :=
  if text.toList.getLast? = some '\n' then text else text ++ "\n"

/-- Prints a rendered tree or writes it to a file. -/
def deliver (r : Request) (tree : Statement) (text : String) (log : List Record)
    (d : Directory) : Report :=
  match r.out.filter (· != "") with
  | some path =>
    match d.write path (Text.Utf8.encode text.toList) with
    | .ok d => ⟨.ok tree, "", log ++ [⟨.info, .tool, s!"(wrote to {path})"⟩], d⟩
    | .error e => ⟨.error (.file e), "", log, d⟩
  | none =>
    ⟨.ok tree, printedText text,
      log ++ [⟨.info, .tool, "*** Pretty print of parsed statement(s) ***"⟩], d⟩

/-- The tree in the format that is asked for. -/
def rendered (m : Machine) (target : Option String) (tree : Statement) :
    Except RenderError String :=
  match target with
  | none => .error .noTarget
  | some name => render m name (some tree)

/-- Processes a program text. -/
def process (m : Machine) (r : Request) (text : String) (d : Directory) : Report :=
  let outcome := Parser.parse m r.goal (Token.streamOf text)
  let log := ⟨.info, .tool, "*** Parsing input ***"⟩ :: outcome.last.log.map parserRecord
  match outcome.result r.goal with
  | .error e => ⟨.error (.violation e), "", log, d⟩
  | .ok tree =>
    let log := log ++ leftOver outcome.rest
    match rendered m r.target tree with
    | .error e => ⟨.error (.render e), "", log, d⟩
    | .ok text => deliver r tree text log d

/-- Runs the tool in a directory. -/
def run (m : Machine) (r : Request) (d : Directory) : Report :=
  match programText r d with
  | .error e => ⟨.error e, "", [], d⟩
  | .ok text => process m r text d

end BlockLang.Tool
