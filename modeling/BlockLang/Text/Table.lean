/-! Character classes given by a standard as tables of code point ranges. -/

namespace BlockLang.Text

/-- A class of characters, as closed ranges of code points in increasing order. -/
abbrev Table := List (Nat × Nat)

/-- Whether a character lies in a range of the table. -/
def Table.contains (table : Table) (c : Char) : Bool :=
  table.any fun range => range.1 ≤ c.toNat && c.toNat ≤ range.2

end BlockLang.Text
