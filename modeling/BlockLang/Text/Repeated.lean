import BlockLang.Index
import BlockLang.Machine

/-! Repeating a text, as far as a text can be held. -/

namespace BlockLang.Text

/-- Why a text cannot be repeated. -/
inductive RepeatError where
  /-- The count is no index. -/
  | noIndex
  /-- The length of the result is no index. -/
  | tooLong
  /-- The result does not fit into memory. -/
  | noMemory
  deriving DecidableEq, Repr

def RepeatError.message : RepeatError → String
  | noIndex => noIndexMessage
  | tooLong => "repeated string is too long"
  | noMemory => ""

/-- Requires that a text of a length can be repeated a number of times. -/
def requireRepeatable (m : Machine) (length : Nat) (count : Int) : Except RepeatError Unit :=
  if ¬ IsIndex count then .error .noIndex
  else if ¬ IsIndex (length * count.toNat) then .error .tooLong
  else if length * count.toNat > m.characters then .error .noMemory
  else .ok ()

theorem requireRepeatable_eq_ok_iff {m : Machine} {length : Nat} {count : Int} :
    requireRepeatable m length count = .ok () ↔
      IsIndex count ∧ IsIndex (length * count.toNat) ∧ length * count.toNat ≤ m.characters := by
  rw [requireRepeatable]
  by_cases hcount : IsIndex count
  · by_cases htotal : IsIndex (length * count.toNat)
    · rw [if_neg (not_not_intro hcount), if_neg (not_not_intro htotal)]
      by_cases hroom : length * count.toNat ≤ m.characters
      · rw [if_neg (Nat.not_lt.2 hroom)]
        exact iff_of_true rfl ⟨hcount, htotal, hroom⟩
      · rw [if_pos (Nat.lt_of_not_le hroom)]
        exact iff_of_false nofun fun h => hroom h.2.2
    · rw [if_neg (not_not_intro hcount), if_pos htotal]
      exact iff_of_false nofun fun h => htotal h.2.1
  · rw [if_pos hcount]
    exact iff_of_false nofun fun h => hcount h.1

/-- A text repeated a number of times. A negative number counts as zero. -/
def repeated (m : Machine) (cs : List Char) (count : Int) : Except RepeatError (List Char) := do
  requireRepeatable m cs.length count
  .ok (List.replicate count.toNat cs).flatten

end BlockLang.Text
