import BlockLang.Statement
import BlockLang.Text.Quoted

/-! One-line descriptions of statement trees, such as `If(TRUE, Block([Call('move')]))`. -/

namespace BlockLang.Statement

/-- The word that a description starts with. -/
def heading : Kind → List Char
  | .block => "Block".toList
  | .ifThen => "If".toList
  | .ifElse => "IfElse".toList
  | .whileDo => "While".toList
  | .call => "Call".toList

/-- Parts of a description, in a row. -/
def commaSeparated (parts : List (List Char)) : List Char := [',', ' '].intercalate parts

mutual
/-- The characters of a description. There is none for a test without a condition. -/
def spell : Statement → Option (List Char)
  | node .call _ name _ =>
    some (heading .call ++ '(' :: (Text.quoteOption name).toList ++ [')'])
  | node .block _ _ xs => do
    let parts ← spellAll xs
    some (heading .block ++ '(' :: '[' :: commaSeparated parts ++ [']', ')'])
  | node kind condition _ xs => do
    let c ← condition
    let parts ← spellAll xs
    some (heading kind ++ '(' :: commaSeparated (c.name.toList :: parts) ++ [')'])

def spellAll : List Statement → Option (List (List Char))
  | [] => some []
  | x :: xs => do
    let part ← spell x
    let parts ← spellAll xs
    some (part :: parts)
end

/-- The description of a tree, unless a condition is missing. -/
def describe? (s : Statement) : Option String := s.spell.map String.ofList

end BlockLang.Statement
