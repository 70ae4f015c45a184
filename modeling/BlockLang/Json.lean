import BlockLang.Text.Hex

/-! JSON values without numbers, and their ASCII text on one line or indented. -/

namespace BlockLang

/-- A JSON value. -/
inductive Json where
  | null
  | str (value : String)
  | arr (items : List Json)
  | obj (fields : List (String × Json))

namespace Json

instance : Inhabited Json := ⟨null⟩

mutual
/-- How many objects and arrays stand inside one another. -/
def depth : Json → Nat
  | null | str _ => 0
  | arr xs => depthItems xs + 1
  | obj fields => depthFields fields + 1

def depthItems : List Json → Nat
  | [] => 0
  | x :: xs => max (depth x) (depthItems xs)

def depthFields : List (String × Json) → Nat
  | [] => 0
  | (_, x) :: fields => max (depth x) (depthFields fields)
end

mutual
/-- The greatest nesting level at which the text of a value goes on in a new line. -/
def breakLevel : Json → Nat
  | null | str _ | arr [] | obj [] => 0
  | arr (x :: xs) => max (breakLevel x) (breakLevelItems xs) + 1
  | obj ((_, x) :: fields) => max (breakLevel x) (breakLevelFields fields) + 1

def breakLevelItems : List Json → Nat
  | [] => 0
  | x :: xs => max (breakLevel x) (breakLevelItems xs)

def breakLevelFields : List (String × Json) → Nat
  | [] => 0
  | (_, x) :: fields => max (breakLevel x) (breakLevelFields fields)
end

/-- A code unit of UTF-16, spelled by number. -/
def unit (n : Nat) : List Char := '\\' :: 'u' :: Text.hex 4 n

/-- A character between double quotes. Characters outside printable ASCII are spelled by their
UTF-16 code units. -/
def escape (c : Char) : List Char :=
  if c = '\x22' || c = '\\' then ['\\', c]
  else if c = '\n' then ['\\', 'n']
  else if c = '\r' then ['\\', 'r']
  else if c = '\t' then ['\\', 't']
  else if c = '\x08' then ['\\', 'b']
  else if c = '\x0c' then ['\\', 'f']
  else if 0x20 ≤ c.toNat && c.toNat < 0x7f then [c]
  else if c.toNat < 0x10000 then unit c.toNat
  else
    let n := c.toNat - 0x10000
    unit (0xd800 + n / 0x400) ++ unit (0xdc00 + n % 0x400)

/-- The text of a string value. -/
def quote (s : String) : List Char := '\x22' :: s.toList.flatMap escape ++ ['\x22']

/-- A new line at a nesting level, when values are laid out in lines of `indent` spaces a level. -/
def lineBreak (indent : Option Int) (level : Nat) : List Char :=
  match indent with
  | none => []
  | some n => '\n' :: List.replicate (n * level).toNat ' '

/-- What stands between two items at a nesting level. -/
def separator (indent : Option Int) (level : Nat) : List Char :=
  match indent with
  | none => [',', ' ']
  | some _ => ',' :: lineBreak indent level

/-- Items between brackets that enclose level `level`. -/
def enclose (indent : Option Int) (level : Nat) (left right : Char) (items : List Char) :
    List Char :=
  left :: lineBreak indent (level + 1) ++ items ++ lineBreak indent level ++ [right]

mutual
/-- The characters of a value that stands at a nesting level. -/
def write (indent : Option Int) (level : Nat) : Json → List Char
  | null => "null".toList
  | str s => quote s
  | arr [] => ['[', ']']
  | arr (x :: xs) =>
    enclose indent level '[' ']'
      (write indent (level + 1) x ++ writeItems indent (level + 1) xs)
  | obj [] => ['\x7b', '\x7d']
  | obj ((key, x) :: fields) =>
    enclose indent level '\x7b' '\x7d'
      (quote key ++ ':' :: ' ' :: write indent (level + 1) x ++
        writeFields indent (level + 1) fields)

/-- The items after the first one. -/
def writeItems (indent : Option Int) (level : Nat) : List Json → List Char
  | [] => []
  | x :: xs => separator indent level ++ write indent level x ++ writeItems indent level xs

/-- The fields after the first one. -/
def writeFields (indent : Option Int) (level : Nat) : List (String × Json) → List Char
  | [] => []
  | (key, x) :: fields =>
    separator indent level ++ quote key ++ ':' :: ' ' :: write indent level x ++
      writeFields indent level fields
end

/-- The text of a value, on one line or with `indent` spaces a level. -/
def text (indent : Option Int) (value : Json) : String := String.ofList (write indent 0 value)

end Json

end BlockLang
