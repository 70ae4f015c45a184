/-! The machine that programs are parsed and printed on. Its stack and its memory come to an end,
and how far they reach is nowhere assumed. -/

namespace BlockLang

/-- What calls inside one another are made for. -/
inductive Task where
  | parsing
  | printing
  /-- Data are made of trees, or written. -/
  | encoding
  deriving DecidableEq, Repr

/-- The room that a machine has. -/
structure Machine where
  /-- The most calls that may stand inside one another. -/
  stack : Nat
  /-- The calls that a task leaves to others: those around the whole task, and those that come back
  before it goes on. -/
  taken : Task → Nat
  /-- The most characters of a text that is made by repeating another one. -/
  characters : Nat

namespace Machine

/-- The calls of a task that may stand inside one another. -/
def calls (m : Machine) (t : Task) : Nat := m.stack - m.taken t

/-- A machine as it usually is: a thousand calls, and most of them for the task. -/
structure IsUsual (m : Machine) : Prop where
  stack : m.stack = 1000
  taken : ∀ t, m.taken t ≤ 700

/-- A machine on which a task leaves little to others. -/
def usual : Machine := ⟨1000, fun _ => 10, 0x100000000⟩

end Machine

end BlockLang
