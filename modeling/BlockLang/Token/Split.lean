import BlockLang.Text.Blank
import BlockLang.Token

/-! Splitting a program text into tokens. Blanks and comments separate tokens; a comment runs from
a number sign to the end of its line. A word is as long as possible, and any other character is a
token of its own. -/

namespace BlockLang.Token

open Text

/-- The blanks and comments at the head of a text, and what follows them; `comment` says whether
the text starts inside a comment. The line feed that ends a comment is a blank. -/
def splitGap (comment : Bool) : List Char → List Char × List Char
  | [] => ([], [])
  | c :: rest =>
    if comment then
      let (gap, after) := splitGap (c != '\n') rest
      (c :: gap, after)
    else if isBlank c || c == '#' then
      let (gap, after) := splitGap (c == '#') rest
      (c :: gap, after)
    else ([], c :: rest)

/-- The text after the blanks and comments at its head. -/
def afterGap (cs : List Char) : List Char := (splitGap false cs).2

/-- The token at the head of a text, and what follows it. -/
def splitToken : List Char → Option (List Char × List Char)
  | [] => none
  | c :: rest =>
    if isWordChar c then some (c :: rest.takeWhile isWordChar, rest.dropWhile isWordChar)
    else some ([c], rest)

theorem splitGap_append (comment : Bool) (cs : List Char) :
    (splitGap comment cs).1 ++ (splitGap comment cs).2 = cs := by
  induction cs generalizing comment with
  | nil => rfl
  | cons c rest ih =>
    simp only [splitGap]
    split
    · simp [ih]
    · split <;> simp [ih]

theorem splitToken_append {cs token rest : List Char} (h : splitToken cs = some (token, rest)) :
    token ++ rest = cs := by
  cases cs with
  | nil => simp [splitToken] at h
  | cons c cs =>
    simp only [splitToken] at h
    split at h <;> simp at h <;> obtain ⟨rfl, rfl⟩ := h <;> simp

theorem splitToken_ne_nil {cs token rest : List Char} (h : splitToken cs = some (token, rest)) :
    token ≠ [] := by
  cases cs with
  | nil => simp [splitToken] at h
  | cons c cs =>
    simp only [splitToken] at h
    split at h <;> simp at h <;> obtain ⟨rfl, rfl⟩ := h <;> simp

/-- Each token makes the text shorter. -/
theorem length_lt_of_splitToken {cs token rest : List Char}
    (h : splitToken (afterGap cs) = some (token, rest)) : rest.length < cs.length := by
  have gap := congrArg List.length (splitGap_append false cs)
  have all := congrArg List.length (splitToken_append h)
  have pos := List.length_pos_iff.2 (splitToken_ne_nil h)
  simp only [List.length_append, afterGap] at gap all
  omega

/-- The tokens of a text, as characters. -/
def lexemes (cs : List Char) : List (List Char) :=
  match _split : splitToken (afterGap cs) with
  | none => []
  | some (token, rest) => token :: lexemes rest
termination_by cs.length
decreasing_by exact length_lt_of_splitToken _split

/-- The tokens of a program text, without the sentinel. -/
def ofSource (source : String) : List Token := (lexemes source.toList).map String.ofList

/-- The token stream of a program text, which ends with the sentinel. -/
def streamOf (source : String) : List Token := ofSource source ++ [endOfInput]

end BlockLang.Token
