import BlockLang.CommandLine

/-! The program: it gathers what the tool will read, runs the tool, and carries out what it did. -/

namespace BlockLang.Main

/-- What went wrong with a file of the system. -/
def causeOf : IO.Error → PathError
  | .inappropriateType _ 21 _ => .isFolder
  | .inappropriateType .. => .notFolder
  | .invalidArgument .. => .nullCharacter
  | _ => .notFound

/-- What stands at a path of the system. -/
def entry? (path : String) : IO (Option Entry) := do
  match ← EIO.toBaseIO (IO.FS.readBinFile path) with
  | .ok bytes => return some (.file bytes.toList)
  | .error e => return if causeOf e = .isFolder then some .folder else none

/-- What stands where names lead through, from the end `way` of a path of the system. -/
def entriesAlong (way : List String) (path : String) :
    List String → IO (List (List String × Entry))
  | [] => return []
  | name :: rest => do
    let way := Directory.below way name
    let path := if path = "" then name else path ++ "/" ++ name
    let found ← entry? path
    return (found.map fun e => (way, e)).toList ++ (← entriesAlong way path rest)

/-- The part of the working directory that a path leads through. -/
def snapshot (path : String) : IO Directory :=
  return ⟨← entriesAlong [] "" (Directory.names path)⟩

/-- The folders that a path to be written leads through. What stands at its end is not read. -/
def surroundings (path : String) : IO Directory :=
  return ⟨← entriesAlong [] "" (Directory.names path).dropLast⟩

/-- Shows what a call of the tool printed and logged. -/
def report (o : CommandLine.Outcome) : IO UInt32 := do
  IO.print o.output
  for line in o.log do
    IO.eprintln line
  return UInt32.ofNat o.status

/-- Writes the file of a successful call, whose log ends with the news that it is written. -/
def writeFile (o : CommandLine.Outcome) (path : String) : IO CommandLine.Outcome := do
  match o.directory.read path with
  | .error _ => return o
  | .ok bytes =>
    match ← EIO.toBaseIO (IO.FS.writeBinFile path (ByteArray.mk bytes.toArray)) with
    | .ok () => return o
    | .error e =>
      let error := (FileError.mk path (causeOf e)).message
      return { o with status := 2, log := o.log.dropLast ++ [s!"Error: {error}"] }

/-- Runs the tool once its source is known. -/
def runSettings (settings : CommandLine.Settings) (source : String) : IO UInt32 := do
  let settings := { settings with source := some source }
  let d ← if settings.literal then pure Directory.empty else snapshot source
  match settings.out.filter (· != "") with
  | none => report (CommandLine.runWith .usual settings (.ok "") d)
  | some path =>
    let entries := d.entries ++ (← surroundings path).entries
    let outcome := CommandLine.runWith .usual settings (.ok "") ⟨entries⟩
    if outcome.status = 0 then report (← writeFile outcome path) else report outcome

/-- The first line of standard input. -/
def inputLine : IO CommandLine.Input := do
  match ← EIO.toBaseIO (← IO.getStdin).getLine with
  | .ok line => return .ok line
  | .error _ => return .error .closed

/-- Runs the tool with the arguments of the program. -/
def run (arguments : List String) : IO UInt32 := do
  match CommandLine.Settings.ofArguments arguments with
  | .error _ => report (CommandLine.run .usual arguments (.ok "") .empty)
  | .ok settings =>
    match settings.source with
    | some source => runSettings settings source
    | none =>
      IO.print CommandLine.prompt
      (← IO.getStdout).flush
      let line ← inputLine
      match CommandLine.source settings line with
      | .ok (some source) => runSettings settings source
      | _ => report { CommandLine.runWith .usual settings line .empty with output := "" }

end BlockLang.Main

def main (arguments : List String) : IO UInt32 := BlockLang.Main.run arguments
