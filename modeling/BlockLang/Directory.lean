import BlockLang.Text.Quoted

/-! A working directory: files and folders by path, and what reading and writing a path gives. -/

namespace BlockLang

/-- What can stand at a path. -/
inductive Entry where
  | file (bytes : List UInt8)
  | folder
  deriving DecidableEq, Repr

/-- Why a path cannot be opened. -/
inductive PathError where
  | notFound
  | notFolder
  | isFolder
  | nameTooLong
  /-- The path holds a null character. -/
  | nullCharacter
  deriving DecidableEq, Repr

/-- A path that cannot be opened. -/
structure FileError where
  path : String
  cause : PathError
  deriving DecidableEq, Repr

def FileError.message (e : FileError) : String :=
  let path := Text.quote e.path
  match e.cause with
  | .notFound => s!"[Errno 2] No such file or directory: {path}"
  | .notFolder => s!"[Errno 20] Not a directory: {path}"
  | .isFolder => s!"[Errno 21] Is a directory: {path}"
  | .nameTooLong => s!"[Errno 36] File name too long: {path}"
  | .nullCharacter => "embedded null byte"

/-- The entries of a directory and of what is known around it. Each stands under the names that
lead to it: from the directory, from a folder above it, which a row of double dots leads to, or
from the root of all folders. Names that lead to an entry below them lead to a folder. -/
structure Directory where
  entries : List (List String × Entry)
  deriving DecidableEq, Repr

namespace Directory

def empty : Directory := ⟨[]⟩

/-- The name of the root of all folders. -/
def root : String := "/"

/-- The name of the folder above. -/
def parent : String := ".."

/-- Whether a way leads to the directory or to a folder above it. -/
def isUpward (way : List String) : Bool := way.all fun name => name == parent

/-- What stands at the end of a way of names. -/
def entry? (d : Directory) (way : List String) : Option Entry :=
  if isUpward way ∨ way = [root] then some .folder
  else match d.entries.lookup way with
    | some e => some e
    | none => if d.entries.any fun e => way.isPrefixOf e.1 then some .folder else none

/-- The way that leads to the folder above. There is none above the root. -/
def above (way : List String) : List String :=
  if way = [root] then way
  else if isUpward way then way ++ [parent]
  else way.dropLast

/-- The way that a name leads to from a folder. A single dot leads nowhere. -/
def below (way : List String) (name : String) : List String :=
  if name = "." then way
  else if name = parent then above way
  else way ++ [name]

/-- The names of a path, without the empty ones. -/
def names (path : String) : List String :=
  let parts := ((path.toList.splitOn '/').map String.ofList).filter (· != "")
  if path.toList.head? = some '/' then root :: parts else parts

/-- The most bytes that a name may have. -/
def maxNameBytes : Nat := 255

/-- The most bytes that a path may have. -/
def maxPathBytes : Nat := 4095

/-- Follows names from `way`. Only in a folder can a name be followed, a dot or two as well. -/
def follow (d : Directory) (way : List String) : List String → Except PathError (List String)
  | [] => .ok way
  | name :: rest =>
    match d.entry? way with
    | none => .error .notFound
    | some (.file _) => .error .notFolder
    | some .folder =>
      if name.utf8ByteSize > maxNameBytes then .error .nameTooLong
      else d.follow (below way name) rest

/-- The way that the names of a path lead to. -/
def resolve (d : Directory) (path : String) (names : List String) :
    Except PathError (List String) :=
  if path.toList.contains '\x00' then .error .nullCharacter
  else if path.utf8ByteSize > maxPathBytes then .error .nameTooLong
  else d.follow [] names

/-- Whether a path can only mean a folder. -/
def endsInSlash (path : String) : Bool := path.toList.getLast? == some '/'

/-- The names of a path that is to be written. One that can only mean a folder leads to the folder
that its last name stands in, whatever that name is. -/
def namesToWrite (path : String) : List String :=
  if endsInSlash path then (names path).dropLast ++ ["."] else names path

/-- The bytes of the file at a path. -/
def read (d : Directory) (path : String) : Except FileError (List UInt8) :=
  match d.resolve path (names path) with
  | .error cause => .error ⟨path, cause⟩
  | .ok way =>
    match d.entry? way with
    | none => .error ⟨path, .notFound⟩
    | some .folder => .error ⟨path, .isFolder⟩
    | some (.file bytes) => if endsInSlash path then .error ⟨path, .notFolder⟩ else .ok bytes

/-- Puts an entry at the end of a way of names. -/
def put (d : Directory) (way : List String) (e : Entry) : Directory :=
  if d.entries.any fun old => old.1 == way then
    ⟨d.entries.map fun old => if old.1 = way then (way, e) else old⟩
  else ⟨d.entries ++ [(way, e)]⟩

/-- Writes the file at a path, in place of what it held. -/
def write (d : Directory) (path : String) (bytes : List UInt8) : Except FileError Directory :=
  match d.resolve path (namesToWrite path) with
  | .error cause => .error ⟨path, cause⟩
  | .ok way =>
    if d.entry? way = some .folder then .error ⟨path, .isFolder⟩
    else .ok (d.put way (.file bytes))

end Directory

end BlockLang
