import BlockLang.Json
import BlockLang.Statement

/-! Statement trees as JSON objects. -/

namespace BlockLang.Statement

/-- A text that may be absent. -/
def optionalText : Option String → Json
  | none => .null
  | some s => .str s

mutual
/-- The object of a tree: its kind, condition, name and children. -/
def toJson : Statement → Json
  | node kind condition name xs =>
    .obj [("kind", .str kind.label), ("condition", optionalText (condition.map Condition.token)),
      ("name", optionalText name), ("children", .arr (toJsonAll xs))]

def toJsonAll : List Statement → List Json
  | [] => []
  | x :: xs => toJson x :: toJsonAll xs
end

end BlockLang.Statement
