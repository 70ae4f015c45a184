import BlockLang.Token.Split

/-! A reader that stands somewhere in a program text and keeps count of position, line and
column. It can be moved character by character, past blanks and comments, or token by token. -/

namespace BlockLang

/-- A place in a text: characters before it, its line, and its column in that line, the latter
two counted from one. -/
structure Place where
  position : Nat
  line : Nat
  column : Nat
  deriving DecidableEq, Repr

namespace Place

/-- The place before the first character. -/
def start : Place := ⟨0, 1, 1⟩

/-- The place after a character. -/
def advance (p : Place) (c : Char) : Place :=
  if c = '\n' then ⟨p.position + 1, p.line + 1, 1⟩ else ⟨p.position + 1, p.line, p.column + 1⟩

end Place

/-- The rest of a text, and the place where it begins. -/
structure Reader where
  rest : List Char
  place : Place
  deriving DecidableEq, Repr

namespace Reader

/-- The attempt to read a character after the last one. -/
structure PastEnd where
  line : Nat
  column : Nat
  deriving DecidableEq, Repr

def PastEnd.message (e : PastEnd) : String :=
  s!"Attempted to read past end of source at line {e.line}, col {e.column}"

/-- A reader before the first character of a text. -/
def ofSource (source : String) : Reader := ⟨source.toList, .start⟩

/-- The reader after `taken`, the characters that stand before `rest`. -/
def moveOver (r : Reader) (taken rest : List Char) : Reader :=
  ⟨rest, taken.foldl Place.advance r.place⟩

def atEnd (r : Reader) : Bool := r.rest.isEmpty

/-- The character ahead, if there is one. -/
def peek (r : Reader) : Option Char := r.rest.head?

/-- Reads one character. -/
def next (r : Reader) : Except PastEnd Char × Reader :=
  match r.rest with
  | [] => (.error ⟨r.place.line, r.place.column⟩, r)
  | c :: rest => (.ok c, r.moveOver [c] rest)

/-- Moves past blanks and comments. -/
def skipGap (r : Reader) : Reader :=
  let (gap, rest) := Token.splitGap false r.rest
  r.moveOver gap rest

/-- Reads one token, and none at the end of the text. -/
def nextToken (r : Reader) : Option Token × Reader :=
  let r := r.skipGap
  match Token.splitToken r.rest with
  | none => (none, r)
  | some (token, rest) => (some (String.ofList token), r.moveOver token rest)

/-! ### Readers as a state machine -/

/-- What can be asked of a reader. -/
inductive Action where
  | next
  | peek
  | atEnd
  | skipGap
  | nextToken
  deriving DecidableEq, Repr

/-- What a reader answers. -/
inductive Answer where
  | moved
  | flag (value : Bool)
  | char (value : Option Char)
  | token (value : Option Token)
  deriving DecidableEq, Repr

/-- Performs one action. -/
def perform (r : Reader) : Action → Except PastEnd Answer × Reader
  | .next => let (c, r) := r.next; (c.map fun c => .char (some c), r)
  | .peek => (.ok (.char r.peek), r)
  | .atEnd => (.ok (.flag r.atEnd), r)
  | .skipGap => (.ok .moved, r.skipGap)
  | .nextToken => let (t, r) := r.nextToken; (.ok (.token t), r)

end Reader

end BlockLang
