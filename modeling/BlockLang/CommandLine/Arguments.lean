import BlockLang.CommandLine.Switch

/-! Reading the arguments of the command line. Switches stand before or after the source, the last
value of a switch counts, and a separator `--` ends the switches. -/

namespace BlockLang.CommandLine

/-- What the arguments ask for. -/
structure Settings where
  source : Option String
  literal : Bool
  block : Bool
  target : Option String
  out : Option String
  verbose : Bool
  deriving DecidableEq, Repr

/-- The settings without any arguments. -/
def Settings.default : Settings := ⟨none, false, false, some "bl", none, false⟩

/-- The names of the output formats that can be chosen. -/
def targets : List String := ["bl", "json"]

/-- Why reading the arguments ended early. -/
inductive Stop where
  | help
  | error (e : ArgumentError)
  deriving DecidableEq, Repr

/-- The argument that ends the switches. -/
def separator : String := "--"

/-- An argument with its reading. -/
inductive Item where
  | plain (argument : String)
  | separator
  | unknown (argument : String)
  | switch (s : Switch) (byWord : Bool) (value : Option (List Char))

/-- The items of the arguments. Everything after the separator is plain. -/
def items : List String → Except ArgumentError (List Item)
  | [] => .ok []
  | argument :: rest =>
    if argument = separator then .ok (.separator :: rest.map .plain)
    else do
      let item := match ← readArgument argument with
        | .plain => Item.plain argument
        | .unknown => .unknown argument
        | .switch s byWord value => .switch s byWord value
      .ok (item :: (← items rest))

/-- The settings after one use of a switch. A value that is the separator is
dropped, which leaves none. -/
def Settings.use (settings : Settings) : Use → Except Stop Settings
  | ⟨.help, _⟩ => .error .help
  | ⟨.literal, _⟩ => .ok { settings with literal := true }
  | ⟨.block, _⟩ => .ok { settings with block := true }
  | ⟨.verbose, _⟩ => .ok { settings with verbose := true }
  | ⟨.out, value⟩ => .ok { settings with out := value.filter (· != separator) }
  | ⟨.format, value⟩ =>
    match value.filter (· != separator) with
    | none => .ok { settings with target := none }
    | some target =>
      if targets.contains target then .ok { settings with target := some target }
      else .error (.error (.invalidChoice .format target targets))

/-- The settings after uses in order. -/
def Settings.useAll (settings : Settings) : List Use → Except Stop Settings
  | [] => .ok settings
  | use :: rest => do
    let settings ← settings.use use
    settings.useAll rest

/-- The uses of an argument, the last of them with the value that follows the argument if it
needs one; and whether it takes that value. -/
def completeUses (next : List Item) (us : List Use) : Except ArgumentError (List Use × Bool) :=
  match us.getLast? with
  | some ⟨s, none⟩ =>
    if s.takesValue then
      match next with
      | .plain value :: _ => .ok (us.dropLast ++ [⟨s, some value⟩], true)
      | _ => .error (.missingValue s)
    else .ok (us, false)
  | _ => .ok (us, false)

/-- Reads items from left to right. The first plain one is the source, unless `closed`; arguments
that have no meaning are gathered in `extra`. -/
def settle (settings : Settings) (closed : Bool) (extra : List String) :
    List Item → Except Stop Settings
  | [] => if extra = [] then .ok settings else .error (.error (.unrecognized extra))
  | .unknown argument :: rest => settle settings closed (extra ++ [argument]) rest
  | .plain argument :: rest =>
    if closed then settle settings true (extra ++ [argument]) rest
    else match rest with
      | .separator :: rest => settle { settings with source := some argument } true extra rest
      | rest => settle { settings with source := some argument } true extra rest
  | .separator :: rest =>
    if closed then settle settings true (extra ++ [separator]) rest
    else match rest with
      | .plain argument :: rest =>
        settle { settings with source := some argument } true extra rest
      | rest => settle settings true extra rest
  | .switch s byWord value :: rest =>
    match uses s byWord value with
    | .error e => .error (.error e)
    | .ok us =>
      match completeUses rest us, rest with
      | .error e, _ => .error (.error e)
      | .ok (us, true), _ :: rest =>
        match settings.useAll us with
        | .error stop => .error stop
        | .ok settings => settle settings closed extra rest
      | .ok (us, _), rest =>
        match settings.useAll us with
        | .error stop => .error stop
        | .ok settings => settle settings closed extra rest

/-- The settings that the arguments ask for. -/
def Settings.ofArguments (arguments : List String) : Except Stop Settings :=
  match items arguments with
  | .error e => .error (.error e)
  | .ok all => settle .default false [] all

end BlockLang.CommandLine
