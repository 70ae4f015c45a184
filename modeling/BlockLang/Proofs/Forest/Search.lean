import BlockLang.Proofs.Forest.Below
import Mathlib.Algebra.Group.Nat.Defs

/-! The search below a node. What is still to be found is ahead of the pending nodes, and a round
changes that by the node that it takes; so an answer is right, whatever the forest. A search that
comes to an answer at all takes a node only where it comes to an answer at the node in fewer rounds
than at its parent, so no way down has more steps than there are nodes. That bounds its rounds,
however many ways lead to a node. -/

namespace BlockLang

open Relation

namespace Forest

variable {f : Forest} {goal i j c : NodeId} {rounds rounds' : Nat} {pending more : List NodeId}
  {found : Bool}

/-! ### What is found -/

/-- A node is pending or lies below a pending node. -/
def IsAhead (f : Forest) (pending : List NodeId) (goal : NodeId) : Prop :=
  ∃ i ∈ pending, ReflTransGen f.Child i goal

theorem not_isAhead_nil (f : Forest) (goal : NodeId) : ¬ f.IsAhead [] goal := by
  simp [IsAhead]

theorem isAhead_append (f : Forest) (xs ys : List NodeId) (goal : NodeId) :
    f.IsAhead (xs ++ ys) goal ↔ f.IsAhead xs goal ∨ f.IsAhead ys goal := by
  simp [IsAhead, or_and_right, exists_or]

/-- All that lies below a node is ahead of its children. -/
theorem isAhead_children (f : Forest) (i goal : NodeId) :
    f.IsAhead (f.children i).reverse goal ↔ f.Below i goal := by
  rw [Below, TransGen.head'_iff]
  simp [IsAhead, Child]

/-- A round loses nothing that is ahead but the node that it takes. -/
theorem isAhead_cons (f : Forest) (i : NodeId) (pending : List NodeId) (goal : NodeId) :
    f.IsAhead (i :: pending) goal ↔
      i = goal ∨ f.IsAhead ((f.children i).reverse ++ pending) goal := by
  have hhead : ReflTransGen f.Child i goal ↔ i = goal ∨ f.Below i goal := by
    rw [reflTransGen_iff_eq_or_transGen, eq_comm]
    rfl
  rw [isAhead_append, isAhead_children, ← or_assoc, ← hhead]
  simp [IsAhead]

/-- An answer tells whether the goal was ahead, also in a forest with cycles. -/
theorem search_eq_some (h : f.search goal rounds pending = some found) :
    found = true ↔ f.IsAhead pending goal := by
  fun_induction f.search goal rounds pending with
  | case1 =>
    obtain rfl : false = found := Option.some.inj h
    simp [not_isAhead_nil]
  | case2 => cases h
  | case3 rounds pending =>
    obtain rfl : true = found := Option.some.inj h
    simp [isAhead_cons]
  | case4 rounds i pending hi ih =>
    rw [isAhead_cons, or_iff_right hi]
    exact ih h

theorem contains?_eq_some (h : f.contains? i j = some found) : found = true ↔ f.Below i j :=
  (search_eq_some h).trans (isAhead_children f i j)

/-! ### Rounds -/

@[simp] theorem search_nil (f : Forest) (goal : NodeId) (rounds : Nat) :
    f.search goal rounds [] = some false := by
  cases rounds <;> rfl

theorem search_succ_self (f : Forest) (goal : NodeId) (rounds : Nat) (pending : List NodeId) :
    f.search goal (rounds + 1) (goal :: pending) = some true :=
  if_pos rfl

theorem search_succ_of_ne (h : i ≠ goal) (rounds : Nat) (pending : List NodeId) :
    f.search goal (rounds + 1) (i :: pending) =
      f.search goal rounds ((f.children i).reverse ++ pending) :=
  if_neg h

/-- More rounds do not change an answer. -/
theorem search_mono (h : f.search goal rounds pending = some found) (hr : rounds ≤ rounds') :
    f.search goal rounds' pending = some found := by
  fun_induction f.search goal rounds pending generalizing rounds' with
  | case1 => rwa [search_nil]
  | case2 => cases h
  | case3 rounds pending =>
    obtain ⟨k, rfl⟩ := Nat.exists_eq_add_of_le hr
    rwa [Nat.succ_add, search_succ_self]
  | case4 rounds i pending hi ih =>
    obtain ⟨k, rfl⟩ := Nat.exists_eq_add_of_le hr
    rw [Nat.succ_add, search_succ_of_ne hi]
    exact ih h (Nat.le_add_right _ _)

/-- What is found is found before more is looked at. -/
theorem search_append_of_true (h : f.search goal rounds pending = some true)
    (more : List NodeId) : f.search goal rounds (pending ++ more) = some true := by
  fun_induction f.search goal rounds pending with
  | case1 => cases h
  | case2 => cases h
  | case3 => exact search_succ_self ..
  | case4 rounds i pending hi ih =>
    rw [List.cons_append, search_succ_of_ne hi, ← List.append_assoc]
    exact ih h

theorem search_append_of_false (h : f.search goal rounds pending = some false)
    (h' : f.search goal rounds' more = some found) :
    f.search goal (rounds + rounds') (pending ++ more) = some found := by
  fun_induction f.search goal rounds pending with
  | case1 => exact search_mono h' (Nat.le_add_left _ _)
  | case2 => cases h
  | case3 => cases h
  | case4 rounds i pending hi ih =>
    rw [Nat.succ_add, List.cons_append, search_succ_of_ne hi, ← List.append_assoc]
    exact ih h

theorem search_append_cases (h : f.search goal rounds (pending ++ more) = some found) :
    f.search goal rounds pending = some true ∧ found = true ∨
      f.search goal rounds pending = some false ∧ f.search goal rounds more = some found := by
  fun_induction f.search goal rounds pending with
  | case1 => exact .inr ⟨rfl, h⟩
  | case2 => cases h
  | case3 rounds pending =>
    rw [List.cons_append, search_succ_self] at h
    exact .inl ⟨rfl, (Option.some.inj h).symm⟩
  | case4 rounds i pending hi ih =>
    rw [List.cons_append, search_succ_of_ne hi, ← List.append_assoc] at h
    exact (ih h).imp id fun ⟨hpending, hmore⟩ =>
      ⟨hpending, search_mono hmore (Nat.le_succ rounds)⟩

theorem search_cons_cases (h : f.search goal rounds (c :: pending) = some found) :
    f.search goal rounds [c] = some true ∧ found = true ∨
      f.search goal rounds [c] = some false ∧ f.search goal rounds pending = some found := by
  rw [← List.singleton_append] at h
  exact search_append_cases h

/-! ### How long it takes -/

/-- In some number of rounds the search comes to an answer at a child, but not yet at its parent. -/
def Sooner (f : Forest) (goal i c : NodeId) : Prop :=
  f.Child i c ∧ ∃ rounds found, f.search goal rounds [c] = some found ∧
    f.search goal rounds [i] = none

theorem exists_rounds_of_sooner (h : TransGen (f.Sooner goal) i j) :
    ∃ rounds found, f.search goal rounds [j] = some found ∧ f.search goal rounds [i] = none := by
  induction h with
  | single h => exact h.2
  | tail _ h ih =>
    obtain ⟨rounds, found, hj, hi⟩ := ih
    obtain ⟨-, rounds', found', hk, hj'⟩ := h
    have hlt : rounds' < rounds := by
      by_contra hle
      rw [search_mono hj (Nat.le_of_not_lt hle)] at hj'
      cases hj'
    exact ⟨rounds, found', search_mono hk hlt.le, hi⟩

theorem not_sooner_self (i : NodeId) : ¬ TransGen (f.Sooner goal) i i := by
  intro h
  obtain ⟨rounds, found, hsome, hnone⟩ := exists_rounds_of_sooner h
  cases hsome.symm.trans hnone

theorem length_children_le_edges (f : Forest) (i : NodeId) :
    (f.children i).length ≤ f.edges := by
  by_cases hi : i < f.size
  · have hsub := List.sublist_flatten_of_mem (List.mem_map_of_mem (f := f.children)
      (List.mem_range.2 hi))
    rw [← List.flatMap_def] at hsub
    exact hsub.length_le
  · simp [children, node?_eq_none_iff.2 (Nat.le_of_not_lt hi)]

/-- If no pending node needs more than some number of rounds, all of them together do not need more
than so many times as there are pending nodes. -/
theorem search_eq_some_of_each {bound : Nat}
    (hc : ∀ c ∈ pending, ∀ found, f.search goal rounds [c] = some found →
      f.search goal bound [c] = some found)
    (h : f.search goal rounds pending = some found) :
    f.search goal (pending.length * bound) pending = some found := by
  induction pending with
  | nil => rwa [search_nil] at h ⊢
  | cons c pending ih =>
    obtain ⟨hc, hpending⟩ := List.forall_mem_cons.1 hc
    have hlen : (c :: pending).length * bound = bound + pending.length * bound := by
      rw [List.length_cons, Nat.succ_mul, Nat.add_comm]
    rw [hlen]
    rcases search_cons_cases h with ⟨htrue, rfl⟩ | ⟨hfalse, hmore⟩
    · exact search_mono (search_append_of_true (hc true htrue) pending) (Nat.le_add_right _ _)
    · exact search_append_of_false (hc false hfalse) (ih hpending hmore)

/-- If no child of a node needs more than some number of rounds, the node needs at most that many
for each child and one for itself. -/
theorem search_eq_some_of_children {bound : Nat} (hi : i ≠ goal) (hpos : 1 ≤ bound)
    (hc : ∀ c ∈ (f.children i).reverse, ∀ found, f.search goal rounds [c] = some found →
      f.search goal bound [c] = some found)
    (h : f.search goal rounds (f.children i).reverse = some found) :
    f.search goal ((f.edges + 1) * bound) [i] = some found := by
  have hchildren := search_eq_some_of_each hc h
  rw [List.length_reverse] at hchildren
  have hself : f.search goal ((f.children i).length * bound + 1) [i] = some found := by
    rwa [search_succ_of_ne hi, List.append_nil]
  refine search_mono hself ?_
  calc (f.children i).length * bound + 1
      ≤ f.edges * bound + bound :=
        Nat.add_le_add (Nat.mul_le_mul_right _ (length_children_le_edges f i)) hpos
    _ = (f.edges + 1) * bound := (Nat.succ_mul ..).symm

variable {rank : NodeId → Nat}

/-- A node that is the goal or has no children is done with in one round. -/
theorem search_one (h : i = goal ∨ f.children i = []) :
    f.search goal 1 [i] = some (decide (i = goal)) := by
  by_cases hi : i = goal
  · rw [hi, search_succ_self, decide_eq_true rfl]
  · rw [search_succ_of_ne hi, h.resolve_left hi, List.reverse_nil, List.append_nil, search_nil,
      decide_eq_false hi]

/-- An answer at a node takes no more rounds than the rank of the node allows. -/
theorem search_eq_some_of_rank (hrank : ∀ i c, f.Sooner goal i c → rank c < rank i)
    (h : f.search goal rounds [i] = some found) :
    f.search goal ((f.edges + 1) ^ rank i) [i] = some found := by
  induction rounds generalizing i found with
  | zero => cases h
  | succ rounds ih =>
    have hpos : 1 ≤ (f.edges + 1) ^ rank i := Nat.pow_pos (Nat.succ_pos _)
    by_cases hleaf : i = goal ∨ f.children i = []
    · have hone := search_one hleaf
      rw [← search_mono hone (Nat.le_add_left 1 rounds), h] at hone
      exact search_mono (h ▸ hone) hpos
    obtain ⟨hi, hne⟩ := not_or.1 hleaf
    cases hr : f.search goal rounds [i] with
    | some found' =>
      obtain rfl : found' = found :=
        Option.some.inj ((search_mono hr (Nat.le_succ rounds)).symm.trans h)
      exact ih hr
    | none =>
      rw [search_succ_of_ne hi, List.append_nil] at h
      have hsooner : ∀ c ∈ (f.children i).reverse, ∀ found,
          f.search goal rounds [c] = some found → rank c < rank i := fun c hc found hfound =>
        hrank i c ⟨List.mem_reverse.1 hc, rounds, found, hfound, hr⟩
      -- The child that is taken first comes to an answer, so there is a rank below that of `i`.
      obtain ⟨k, hk⟩ : ∃ k, rank i = k + 1 := by
        cases hchildren : (f.children i).reverse with
        | nil => exact absurd (List.reverse_eq_nil_iff.1 hchildren) hne
        | cons c rest =>
          rw [hchildren] at h hsooner
          have hpos : rank c < rank i := by
            rcases search_cons_cases h with ⟨hc, -⟩ | ⟨hc, -⟩
            · exact hsooner c List.mem_cons_self _ hc
            · exact hsooner c List.mem_cons_self _ hc
          exact Nat.exists_eq_add_one.2 (Nat.zero_lt_of_lt hpos)
      have heach : ∀ c ∈ (f.children i).reverse, ∀ found,
          f.search goal rounds [c] = some found →
            f.search goal ((f.edges + 1) ^ k) [c] = some found := by
        intro c hc found hfound
        have hlt := hsooner c hc found hfound
        rw [hk] at hlt
        exact search_mono (ih hfound)
          (Nat.pow_le_pow_right (Nat.succ_pos _) (Nat.le_of_lt_succ hlt))
      rw [hk, Nat.pow_succ']
      exact search_eq_some_of_children hi (Nat.pow_pos (Nat.succ_pos _)) heach h

/-- A search below a node that ends at all ends within the limit of rounds. -/
theorem contains?_eq_some_of_search (h : f.search goal rounds (f.children i).reverse = some found) :
    f.contains? i goal = some found := by
  have hback : ∀ i, ¬ TransGen (f.Sooner goal) i i := not_sooner_self
  obtain ⟨rank, hsize, hrank⟩ := exists_rank hback fun i c hic => hic.1.lt_size
  have heach : ∀ c ∈ (f.children i).reverse, ∀ found, f.search goal rounds [c] = some found →
      f.search goal ((f.edges + 1) ^ f.size) [c] = some found := fun c _ found hfound =>
    search_mono (search_eq_some_of_rank hrank hfound)
      (Nat.pow_le_pow_right (Nat.succ_pos _) (hsize c))
  refine search_mono (search_eq_some_of_each heach h) ?_
  calc (f.children i).reverse.length * (f.edges + 1) ^ f.size
      ≤ (f.edges + 1) * (f.edges + 1) ^ f.size := by
        rw [List.length_reverse]
        exact Nat.mul_le_mul_right _ (Nat.le_succ_of_le (length_children_le_edges f i))
    _ = f.roundLimit := (Nat.pow_succ' ..).symm

/-- What is known of the search below a node within the limit of rounds is known of it in any number
of them. -/
theorem contains?_eq_some_iff : f.contains? i goal = some found ↔
    ∃ rounds, f.search goal rounds (f.children i).reverse = some found :=
  ⟨fun h => ⟨_, h⟩, fun ⟨_, h⟩ => contains?_eq_some_of_search h⟩

theorem contains?_eq_none_iff : f.contains? i goal = none ↔
    ∀ rounds, f.search goal rounds (f.children i).reverse = none := by
  simp only [← Option.not_isSome_iff_eq_none, Option.isSome_iff_exists, contains?_eq_some_iff]
  exact ⟨fun h rounds ⟨found, hfound⟩ => h ⟨found, rounds, hfound⟩,
    fun h ⟨found, rounds, hfound⟩ => h rounds ⟨found, hfound⟩⟩

/-! ### Where it ends -/

/-- A search that comes to a loop of last children, none of which is the goal, never ends. -/
theorem search_eq_none_of_loop {loop : NodeId → Prop}
    (h : ∀ i, loop i → i ≠ goal ∧ ∃ c rest, (f.children i).reverse = c :: rest ∧ loop c)
    (hi : loop i) (rounds : Nat) (pending : List NodeId) :
    f.search goal rounds (i :: pending) = none := by
  induction rounds generalizing i pending with
  | zero => rfl
  | succ rounds ih =>
    obtain ⟨hne, c, rest, hchildren, hc⟩ := h i hi
    rw [search_succ_of_ne hne, hchildren, List.cons_append]
    exact ih hc _

theorem exists_search_of_each (h : ∀ c ∈ pending, ∃ rounds found,
    f.search goal rounds [c] = some found) :
    ∃ rounds found, f.search goal rounds pending = some found := by
  induction pending with
  | nil => exact ⟨0, false, rfl⟩
  | cons c pending ih =>
    obtain ⟨⟨rounds, found, hc⟩, hpending⟩ := List.forall_mem_cons.1 h
    cases found with
    | true => exact ⟨rounds, true, search_append_of_true hc pending⟩
    | false =>
      obtain ⟨rounds', found, hfound⟩ := ih hpending
      exact ⟨_, found, search_append_of_false hc hfound⟩

variable {inside : NodeId → Prop}

/-- A search ends if there is a rank that falls from parent to child wherever it comes. -/
theorem exists_search_of_rank
    (hin : ∀ i c, inside i → f.Child i c → inside c ∧ rank c < rank i) (hi : inside i)
    (goal : NodeId) : ∃ rounds found, f.search goal rounds [i] = some found := by
  induction hk : rank i using Nat.strong_induction_on generalizing i with
  | _ k ih =>
    by_cases hgoal : i = goal
    · exact ⟨1, true, hgoal ▸ search_succ_self ..⟩
    · have hchildren : ∀ c ∈ (f.children i).reverse, ∃ rounds found,
          f.search goal rounds [c] = some found := by
        intro c hc
        obtain ⟨hc, hlt⟩ := hin i c hi (List.mem_reverse.1 hc)
        exact ih (rank c) (hk ▸ hlt) hc rfl
      obtain ⟨rounds, found, hfound⟩ := exists_search_of_each hchildren
      refine ⟨rounds + 1, found, ?_⟩
      rwa [search_succ_of_ne hgoal, List.append_nil]

theorem exists_contains?_of_rank
    (hin : ∀ i c, inside i → f.Child i c → inside c ∧ rank c < rank i) (hi : inside i)
    (goal : NodeId) : ∃ found, f.contains? i goal = some found := by
  have heach : ∀ c ∈ (f.children i).reverse, ∃ rounds found,
      f.search goal rounds [c] = some found := fun c hc =>
    exists_search_of_rank hin (hin i c hi (List.mem_reverse.1 hc)).1 goal
  obtain ⟨rounds, found, hfound⟩ := exists_search_of_each heach
  exact ⟨found, contains?_eq_some_of_search hfound⟩

/-- Without cycles the search below a node ends and finds exactly what lies there. -/
theorem Acyclic.exists_contains?_eq (h : f.Acyclic) (i j : NodeId) :
    ∃ found, f.contains? i j = some found ∧ (found = true ↔ f.Below i j) := by
  obtain ⟨rank, -, hrank⟩ := exists_rank (f := f) h fun i c hic => hic.lt_size
  have hin : ∀ i c, True → f.Child i c → True ∧ rank c < rank i :=
    fun i c _ hic => ⟨trivial, hrank i c hic⟩
  obtain ⟨found, hfound⟩ := exists_contains?_of_rank hin trivial j
  exact ⟨found, hfound, contains?_eq_some hfound⟩

end Forest

end BlockLang
