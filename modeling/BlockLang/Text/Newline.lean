/-! Line ends of text files: a carriage return, with or without a line feed after it, ends a line
like a line feed. -/

namespace BlockLang.Text

/-- The text with every line end written as a line feed. -/
def unifyNewlines : List Char → List Char
  | [] => []
  | '\r' :: '\n' :: rest => '\n' :: unifyNewlines rest
  | '\r' :: rest => '\n' :: unifyNewlines rest
  | c :: rest => c :: unifyNewlines rest

end BlockLang.Text
