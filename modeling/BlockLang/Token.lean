/-! The tokens of the language: words of letters, digits and hyphens, single other characters, and
a sentinel after the last token of a program. -/

namespace BlockLang

/-- A token is its text. -/
abbrev Token := String

namespace Token

/-- The sentinel that stands for the end of the program. -/
def endOfInput : Token := "### END OF INPUT ###"

/-- The reserved words. -/
def keywords : List Token := ["DO", "ELSE", "END", "IF", "THEN", "WHILE"]

/-- The tokens at which a block ends; the block leaves them in place. -/
def blockEnds : List Token := [endOfInput, "ELSE", "END"]

def isKeyword (t : Token) : Bool := keywords.contains t

def endsBlock (t : Token) : Bool := blockEnds.contains t

/-- The characters of words: ASCII letters and digits, and the hyphen. -/
def isWordChar (c : Char) : Bool := c.isAlphanum || c == '-'

end Token

end BlockLang
