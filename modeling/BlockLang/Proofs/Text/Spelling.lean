import BlockLang.Text.Hex
import Mathlib.Algebra.Group.Nat.Defs
import Mathlib.Data.List.Basic

/-! Characters spelled out in texts. A numeral of a known width ends where its digits do. A row of
spellings ends at its mark, if no spelling begins with it. -/

namespace BlockLang.Text

/-! ### Numerals -/

theorem length_hex (width n : Nat) : (hex width n).length = width := by
  induction width generalizing n with
  | zero => rfl
  | succ width ih => rw [hex, List.length_append, ih, List.length_singleton]

/-- The number that a hexadecimal digit stands for. -/
def digitValue (c : Char) : Nat := if c.toNat < 0x57 then c.toNat - 0x30 else c.toNat - 0x57

/-- The number that a row of hexadecimal digits stands for. -/
def hexValue (cs : List Char) : Nat := cs.foldl (fun n c => 16 * n + digitValue c) 0

theorem digitValue_hexDigit {n : Nat} (h : n < 16) : digitValue (hexDigit n) = n := by
  revert n
  decide

theorem hexValue_concat (cs : List Char) (c : Char) :
    hexValue (cs ++ [c]) = 16 * hexValue cs + digitValue c := by
  simp [hexValue]

theorem hexValue_hex (width n : Nat) : hexValue (hex width n) = n % 16 ^ width := by
  induction width generalizing n with
  | zero => exact (Nat.mod_one n).symm
  | succ width ih =>
    rw [hex, hexValue_concat, ih, digitValue_hexDigit (Nat.mod_lt n (by decide)), Nat.pow_succ',
      Nat.mod_mul, Nat.add_comm]

/-- Numerals of one width can be told apart, whatever comes after them. -/
theorem hex_append_inj {width m n : Nat} {cs ds : List Char} (hm : m < 16 ^ width)
    (hn : n < 16 ^ width) (h : hex width m ++ cs = hex width n ++ ds) : m = n ∧ cs = ds := by
  obtain ⟨hhex, hrest⟩ := List.append_inj h (by rw [length_hex, length_hex])
  have hvalue := congrArg hexValue hhex
  rw [hexValue_hex, hexValue_hex, Nat.mod_eq_of_lt hm, Nat.mod_eq_of_lt hn] at hvalue
  exact ⟨hvalue, hrest⟩

/-! ### Rows of spellings -/

/-- A row of spellings up to a mark determines what is spelled, if each spelling tells where it ends
and none begins with the mark. -/
theorem flatMap_append_mark_inj {α : Type} {spelling : α → List Char} {mark : Char} {xs ys : List α}
    {r s : List Char}
    (hinj : ∀ x ∈ xs, ∀ y ∈ ys, ∀ r s, spelling x ++ r = spelling y ++ s → x = y ∧ r = s)
    (hmark : ∀ x r s, spelling x ++ r ≠ mark :: s)
    (h : xs.flatMap spelling ++ mark :: r = ys.flatMap spelling ++ mark :: s) :
    xs = ys ∧ r = s := by
  induction xs generalizing ys with
  | nil =>
    cases ys with
    | nil => exact ⟨rfl, (List.cons.inj h).2⟩
    | cons y ys =>
      rw [List.flatMap_cons, List.append_assoc] at h
      exact absurd h.symm (hmark y _ _)
  | cons x xs ih =>
    cases ys with
    | nil =>
      rw [List.flatMap_cons, List.append_assoc] at h
      exact absurd h (hmark x _ _)
    | cons y ys =>
      rw [List.flatMap_cons, List.flatMap_cons, List.append_assoc, List.append_assoc] at h
      obtain ⟨rfl, htail⟩ := hinj x List.mem_cons_self y List.mem_cons_self _ _ h
      obtain ⟨rfl, hrest⟩ := ih
        (fun z hz w hw => hinj z (List.mem_cons_of_mem x hz) w (List.mem_cons_of_mem x hw)) htail
      exact ⟨rfl, hrest⟩

end BlockLang.Text
