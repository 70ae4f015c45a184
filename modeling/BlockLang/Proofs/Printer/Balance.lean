import BlockLang.Proofs.Printer.Layout

/-! The printer's lines and level. Whatever tree is printed, a program or not, the lines before
stay, the level never falls below that of the tree, and a tree that is printed to its end leaves the
level as it was. This is so however little room the machine has. -/

namespace BlockLang

open Statement

namespace Printer

variable {m : Machine} {a b : Printing Unit} {calls : Nat}

/-- A printing step keeps the lines, never ends at a lower level, and without an error ends at the
same one. -/
def IsBalanced (step : Printing Unit) : Prop :=
  ∀ p : Printer, p.lines <+: (p.run step).2.lines ∧ p.level ≤ (p.run step).2.level ∧
    ((p.run step).1 = .ok () → (p.run step).2.level = p.level)

theorem IsBalanced.bind (ha : IsBalanced a) (hb : IsBalanced b) :
    IsBalanced (a >>= fun _ => b) := by
  intro p
  have hp := ha p
  rw [run_bind]
  generalize p.run a = r at hp
  obtain ⟨e | _, q⟩ := r
  · exact ⟨hp.1, hp.2.1, nofun⟩
  · obtain ⟨hlines, hlevel, hok⟩ := hb q
    obtain hq : q.level = p.level := hp.2.2 rfl
    rw [hq] at hlevel hok
    exact ⟨hp.1.trans hlines, hlevel, hok⟩

theorem isBalanced_throw (e : PrintError) : IsBalanced (throw e) :=
  fun p => ⟨List.prefix_rfl, Int.le_refl p.level, nofun⟩

theorem isBalanced_line (m : Machine) (text : String) : IsBalanced (line m text) := by
  rintro ⟨lines, level⟩
  rw [run_line]
  cases margin m level <;> simp

/-- During a body the level is one higher; an error may leave it there. -/
theorem isBalanced_body {body : Statement} (h : IsBalanced (emit m body calls))
    (rest : List Statement) : IsBalanced (emitBody m 0 (body :: rest) (calls + 1)) := by
  rintro ⟨lines, level⟩
  obtain ⟨hlines, hlevel, hok⟩ := h ⟨lines, level + 1⟩
  rw [emitBody, run_bind, run_shift]
  simp only
  rw [run_bind]
  generalize run ⟨lines, level + 1⟩ (emit m body calls) = r at hlines hlevel hok
  obtain ⟨e | _, q⟩ := r
  · exact ⟨hlines, by simp only at hlevel ⊢; omega, fun herror => by cases herror⟩
  · obtain ⟨lines', level'⟩ := q
    obtain rfl : level' = level + 1 := hok rfl
    simp only [run_shift]
    exact ⟨hlines, by omega, fun _ => by omega⟩

theorem isBalanced_emitBody {xs : List Statement}
    (h : ∀ x ∈ xs, ∀ calls, IsBalanced (emit m x calls)) (n calls : Nat) :
    IsBalanced (emitBody m n xs calls) := by
  induction xs generalizing n with
  | nil =>
    rw [emitBody]
    exact isBalanced_throw _
  | cons x xs ih =>
    rw [List.forall_mem_cons] at h
    cases n with
    | zero =>
      cases calls with
      | zero =>
        rw [emitBody]
        exact isBalanced_throw _
      | succ calls => exact isBalanced_body (h.1 calls) xs
    | succ n =>
      rw [emitBody]
      exact ih h.2 n

theorem isBalanced_emitAll {xs : List Statement}
    (h : ∀ x ∈ xs, ∀ calls, IsBalanced (emit m x calls)) (calls : Nat) :
    IsBalanced (emitAll m xs calls) := by
  induction xs with
  | nil => exact fun p => ⟨List.prefix_rfl, Int.le_refl p.level, fun _ => rfl⟩
  | cons x xs ih =>
    rw [List.forall_mem_cons] at h
    rw [emitAll]
    exact (h.1 calls).bind (ih h.2)

/-- Any tree, be it a program or not and be there room for it or not, is printed in balance. -/
theorem isBalanced_emit (m : Machine) (s : Statement) (calls : Nat) :
    IsBalanced (emit m s calls) := by
  induction s using children_induction generalizing calls with
  | node k c n xs ih =>
    by_cases hc : calls < 2
    · rw [emit_of_lt hc]
      exact isBalanced_throw _
    obtain ⟨calls, rfl⟩ := Nat.exists_eq_add_of_le' (Nat.le_of_not_lt hc)
    have hline := isBalanced_line m
    have hbody := isBalanced_emitBody ih
    cases k with
    | block =>
      rw [emit]
      exact isBalanced_emitAll ih calls
    | call =>
      rw [emit]
      exact hline _
    | ifThen =>
      cases c with
      | none => exact isBalanced_throw _
      | some c =>
        rw [emit]
        exact (hline _).bind ((hbody 0 calls).bind (hline _))
    | ifElse =>
      cases c with
      | none => exact isBalanced_throw _
      | some c =>
        rw [emit]
        exact (hline _).bind
          ((hbody 0 calls).bind ((hline _).bind ((hbody 1 calls).bind (hline _))))
    | whileDo =>
      cases c with
      | none => exact isBalanced_throw _
      | some c =>
        rw [emit]
        exact (hline _).bind ((hbody 0 calls).bind (hline _))

end Printer

end BlockLang
