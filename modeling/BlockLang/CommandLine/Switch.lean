import BlockLang.Text.Digit
import BlockLang.Text.Quoted

/-! The switches of the command line and their spellings. A switch has a letter and a word; a word
may be shortened as long as it is clear, and flags may be joined behind one hyphen. -/

namespace BlockLang.CommandLine

/-- The switches of the tool. -/
inductive Switch where
  | help
  | literal
  | block
  | format
  | out
  | verbose
  deriving DecidableEq, Repr

namespace Switch

def all : List Switch := [help, literal, block, format, out, verbose]

def letter : Switch → Char
  | help => 'h'
  | literal => 's'
  | block => 'b'
  | format => 'f'
  | out => 'o'
  | verbose => 'v'

def word : Switch → List Char
  | help => "help".toList
  | literal => "string".toList
  | block => "block".toList
  | format => "format".toList
  | out => "out".toList
  | verbose => "verbose".toList

/-- The word with its hyphens. -/
def long (s : Switch) : List Char := '-' :: '-' :: s.word

/-- Both spellings, as messages show them. -/
def title (s : Switch) : String := String.ofList ('-' :: s.letter :: '/' :: s.long)

/-- Whether a switch is followed by a value. -/
def takesValue : Switch → Bool
  | format => true
  | out => true
  | _ => false

def ofLetter? (c : Char) : Option Switch := all.find? fun s => s.letter == c

end Switch

/-- Why arguments were refused. -/
inductive ArgumentError where
  | ambiguous (argument : String) (matching : List Switch)
  /-- A flag was given a value, or an unknown letter was joined to it. -/
  | ignoredValue (s : Switch) (value : String)
  | missingValue (s : Switch)
  | invalidChoice (s : Switch) (value : String) (choices : List String)
  | unrecognized (arguments : List String)
  deriving DecidableEq, Repr

def ArgumentError.message : ArgumentError → String
  | ambiguous argument matching =>
    let words := ", ".intercalate (matching.map fun s => String.ofList s.long)
    s!"ambiguous option: {argument} could match {words}"
  | ignoredValue s value =>
    s!"argument {s.title}: ignored explicit argument {Text.quote value}"
  | missingValue s => s!"argument {s.title}: expected one argument"
  | invalidChoice s value choices =>
    let all := ", ".intercalate (choices.map Text.quote)
    s!"argument {s.title}: invalid choice: {Text.quote value} (choose from {all})"
  | unrecognized arguments =>
    let all := " ".intercalate arguments
    s!"unrecognized arguments: {all}"

/-- A switch in the arguments, with the value that is attached to it. -/
structure Use where
  switch : Switch
  value : Option String
  deriving DecidableEq, Repr

/-- What an argument is, taken by itself. -/
inductive Reading where
  | plain
  /-- A hyphen before something that is no switch. -/
  | unknown
  | switch (s : Switch) (byWord : Bool) (value : Option (List Char))

/-- An argument cut at its first equals sign. -/
def splitValue (cs : List Char) : List Char × Option (List Char) :=
  match cs.dropWhile (· != '=') with
  | [] => (cs, none)
  | _ :: value => (cs.takeWhile (· != '='), some value)

/-- Whether an argument looks like a negative number, perhaps with a line feed after it. -/
def isNegativeNumber (cs : List Char) : Bool :=
  let cs := if cs.getLast? = some '\n' then cs.dropLast else cs
  match cs with
  | '-' :: number =>
    let tail := number.dropWhile Text.isDecimalDigit
    match tail with
    | [] => !number.isEmpty
    | '.' :: fraction => !fraction.isEmpty && fraction.all Text.isDecimalDigit
    | _ => false
  | _ => false

/-- Reads an argument that is no switch although it starts with a hyphen. -/
def readOther (cs : List Char) : Reading :=
  if isNegativeNumber cs || cs.contains ' ' then .plain else .unknown

/-- Reads an argument that starts with two hyphens. -/
def readWord (cs : List Char) : Except ArgumentError Reading :=
  let (start, value) := splitValue cs
  match Switch.all.find? fun s => s.long == start with
  | some s => .ok (.switch s true value)
  | none =>
    match Switch.all.filter fun s => start.isPrefixOf s.long with
    | [] => .ok (readOther cs)
    | [s] => .ok (.switch s true value)
    | matching => .error (.ambiguous (String.ofList cs) matching)

/-- Reads an argument that comes before the separator. -/
def readArgument (argument : String) : Except ArgumentError Reading :=
  match argument.toList with
  | '-' :: '-' :: cs => readWord ('-' :: '-' :: cs)
  | '-' :: c :: cs =>
    .ok (match Switch.ofLetter? c, cs with
      | none, _ => readOther ('-' :: c :: cs)
      | some s, [] => .switch s false none
      | some s, '=' :: value => .switch s false (some value)
      | some s, joined => .switch s false (some joined))
  | _ => .ok .plain

/-- The uses in a joined group: flags, and at its end a flag or a switch with its value. -/
def splitGroup (s : Switch) : List Char → Except ArgumentError (List Use)
  | [] => .ok [⟨s, none⟩]
  | c :: cs =>
    if s.takesValue then .ok [⟨s, some (String.ofList (c :: cs))⟩]
    else match Switch.ofLetter? c with
      | none => .error (.ignoredValue s (String.ofList (c :: cs)))
      | some next => do
        let uses ← splitGroup next cs
        .ok (⟨s, none⟩ :: uses)

/-- The uses that an argument stands for. -/
def uses (s : Switch) (byWord : Bool) : Option (List Char) → Except ArgumentError (List Use)
  | none => .ok [⟨s, none⟩]
  | some value =>
    if s.takesValue then .ok [⟨s, some (String.ofList value)⟩]
    else if byWord || value.isEmpty then .error (.ignoredValue s (String.ofList value))
    else splitGroup s value

end BlockLang.CommandLine
