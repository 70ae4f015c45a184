/-! Upper-casing of characters whose upper-case form is plain ASCII: the small letters, the
dotless i, the long s, the sharp s and the ligatures of f and s. -/

namespace BlockLang.Text

/-- The upper-case form of a character, where that form is ASCII; other characters are kept. -/
def capitalForm (c : Char) : List Char :=
  match c with
  | '\u00df' => ['S', 'S']
  | '\u0131' => ['I']
  | '\u017f' => ['S']
  | '\ufb00' => ['F', 'F']
  | '\ufb01' => ['F', 'I']
  | '\ufb02' => ['F', 'L']
  | '\ufb03' => ['F', 'F', 'I']
  | '\ufb04' => ['F', 'F', 'L']
  | '\ufb05' => ['S', 'T']
  | '\ufb06' => ['S', 'T']
  | _ => [c.toUpper]

end BlockLang.Text
