import BlockLang.CommandLine.Arguments
import BlockLang.Text.Blank
import BlockLang.Tool

/-! The command line of the tool: from arguments and standard input to an exit status and the
texts on standard output and standard error. -/

namespace BlockLang.CommandLine

def usage : String :=
  "usage: blparse [-h] [-s] [-b] [-f \x7bbl,json\x7d] [-o OUTFILE] [-v] [source]\n"

def help : String :=
  usage ++ "\n" ++
  "positional arguments:\n" ++
  "  source                Filename or raw source (with -s)\n" ++
  "\n" ++
  "options:\n" ++
  "  -h, --help            show this help message and exit\n" ++
  "  -s, --string          Interpret source as literal string\n" ++
  "  -b, --block           Parse a block of statements instead of a single\n" ++
  "                        statement\n" ++
  "  -f \x7bbl,json\x7d, --format \x7bbl,json\x7d\n" ++
  "                        Output format (default: bl)\n" ++
  "  -o OUTFILE, --out OUTFILE\n" ++
  "                        Output to file\n" ++
  "  -v, --verbose         Log each parsed construct\n"

/-- What is asked on standard output when there is no source. -/
def prompt : String := "Enter valid BL statement(s) file name: "

/-- Why nothing can be read from standard input. -/
inductive InputError where
  /-- There is no standard input. -/
  | lost
  | closed
  | decode (e : Text.Utf8.DecodeError)

def InputError.message : InputError → String
  | lost => "input(): lost sys.stdin"
  | closed => "I/O operation on closed file."
  | decode e => e.message

/-- Standard input: its text, or why there is none to be had. -/
abbrev Input := Except InputError String

/-- Why a call of the tool was broken off. -/
inductive Failure where
  | input (e : InputError)
  | tool (e : Tool.Failure)

/-- What a call of the tool did. -/
structure Outcome where
  status : Nat
  output : String
  log : List String
  directory : Directory
  /-- The failure that broke off the call. -/
  brokenOffBy : Option Failure

/-- The first line of a text, if it has one. -/
def firstLine (input : String) : Option String :=
  if input = "" then none else some (String.ofList (input.toList.takeWhile (· != '\n')))

/-- The source of the settings, or else the one that the first line of the input names. -/
def source (settings : Settings) (input : Input) : Except InputError (Option String) :=
  match settings.source with
  | some source => .ok (some source)
  | none => input.map fun text =>
    (firstLine text).map fun line => String.ofList (Text.trim line.toList)

/-- What is printed before the source is known. -/
def prompted (settings : Settings) (input : Input) : String :=
  match settings.source, input with
  | none, .error .lost => ""
  | none, _ => prompt
  | some _, _ => ""

/-- The request of the settings. -/
def request (settings : Settings) (source : String) : Tool.Request :=
  ⟨source, settings.literal, if settings.block then .block else .statement, settings.target,
    settings.out⟩

/-- The records that are shown: with `verbose` all, and else those above the debug level. -/
def shown (verbose : Bool) (log : List Tool.Record) : List String :=
  (log.filter fun r => verbose || r.level != .debug).map Tool.Record.message

/-- Whether a failure breaks off the call. A failure to render does, unless the name of the format
is at fault. -/
def breaksOff : Tool.Failure → Bool
  | .render (.unknownTarget _) => false
  | .render _ => true
  | _ => false

/-- The exit status of a run: 1 for a syntax error and where the call is broken off, 2 for any
other failure. -/
def status : Except Tool.Failure Statement → Nat
  | .ok _ => 0
  | .error (.violation _) => 1
  | .error e => if breaksOff e then 1 else 2

/-- The last line of the log of a run. -/
def complaint : Except Tool.Failure Statement → List String
  | .ok _ => []
  | .error e => [if breaksOff e then e.message else s!"Error: {e.message}"]

/-- The failure that breaks off a run. -/
def brokenOffBy : Except Tool.Failure Statement → Option Failure
  | .ok _ => none
  | .error e => if breaksOff e then some (.tool e) else none

/-- Runs the tool with settings. -/
def runWith (m : Machine) (settings : Settings) (input : Input) (d : Directory) : Outcome :=
  match source settings input with
  | .error e => ⟨1, prompted settings input, [e.message], d, some (.input e)⟩
  | .ok none => ⟨2, prompted settings input, ["Error: no file name given"], d, none⟩
  | .ok (some source) =>
    let report := Tool.run m (request settings source) d
    ⟨status report.result, prompted settings input ++ report.printed,
      shown settings.verbose report.log ++ complaint report.result, report.directory,
      brokenOffBy report.result⟩

/-- Runs the tool with arguments and an input, in a directory. -/
def run (m : Machine) (arguments : List String) (input : Input) (d : Directory) : Outcome :=
  match Settings.ofArguments arguments with
  | .error .help => ⟨0, help, [], d, none⟩
  | .error (.error e) => ⟨2, "", [usage ++ s!"blparse: error: {e.message}"], d, none⟩
  | .ok settings => runWith m settings input d

end BlockLang.CommandLine
