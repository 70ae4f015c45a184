import BlockLang.Text.Hex
import BlockLang.Text.Printable

/-! Quoted texts, as messages show them: one line of printable characters between two quote
marks, from which the text can be read back. -/

namespace BlockLang.Text

def apostrophe : Char := '\x27'

def doubleQuote : Char := '\x22'

/-- The mark around a text: an apostrophe, unless the text has one and no double quote. -/
def quoteMark (cs : List Char) : Char :=
  if cs.contains apostrophe && !cs.contains doubleQuote then doubleQuote else apostrophe

/-- A character between quote marks `mark`. The mark and the backslash get a backslash, and a
character without a printed form is spelled by its code point. -/
def escape (mark c : Char) : List Char :=
  if c = mark || c = '\\' then ['\\', c]
  else if c = '\n' then ['\\', 'n']
  else if c = '\r' then ['\\', 'r']
  else if c = '\t' then ['\\', 't']
  else if isPrintable c then [c]
  else if c.toNat < 0x100 then '\\' :: 'x' :: hex 2 c.toNat
  else if c.toNat < 0x10000 then '\\' :: 'u' :: hex 4 c.toNat
  else '\\' :: 'U' :: hex 8 c.toNat

/-- The quoted form of a text. -/
def quote (s : String) : String :=
  let mark := quoteMark s.toList
  String.ofList (mark :: s.toList.flatMap (escape mark) ++ [mark])

/-- The quoted form of a text that may be absent. -/
def quoteOption : Option String → String
  | none => "None"
  | some s => quote s

end BlockLang.Text
