import BlockLang.Proofs.Forest.View
import Mathlib.Data.Finset.Card
import Mathlib.Logic.Relation

/-! What lies below a node. In a forest without cycles the number of nodes below a node falls from
parent to child and never reaches the size of the forest, so an unfolding that may go down as many
levels as there are nodes comes to its end. -/

namespace BlockLang

open Relation

namespace Forest

/-- The step from a node to a child. -/
def Child (f : Forest) (i c : NodeId) : Prop := c ∈ f.children i

/-- One or more steps lead from `i` down to `j`. -/
def Below (f : Forest) (i j : NodeId) : Prop := TransGen f.Child i j

/-- No node lies below itself. -/
def Acyclic (f : Forest) : Prop := ∀ i, ¬ f.Below i i

/-- All children are known. -/
def Closed (f : Forest) : Prop := ∀ i c, f.Child i c → c < f.size

/-- Only nodes from some identity on lie below such nodes. -/
def StaysFrom (f : Forest) (lo : NodeId) : Prop := ∀ j c, lo ≤ j → f.Child j c → lo ≤ c

variable {f g : Forest} {i j c lo : NodeId}

theorem Child.lt_size (h : f.Child i c) : i < f.size := by
  obtain ⟨n, hn, -⟩ := mem_children_iff.1 h
  exact lt_size_of_node? hn

theorem Below.lt_size (h : f.Below i j) : i < f.size := by
  obtain ⟨c, hc, -⟩ := TransGen.head'_iff.1 h
  exact hc.lt_size

theorem staysFrom_zero (f : Forest) : f.StaysFrom 0 := fun _ _ _ _ => Nat.zero_le _

theorem StaysFrom.le_of_below (h : f.StaysFrom lo) (hi : lo ≤ i) (hb : f.Below i j) :
    lo ≤ j := by
  induction hb with
  | single hic => exact h _ _ hi hic
  | tail _ hjk ih => exact h _ _ ih hjk

/-- Steps that never lead back have a height that falls with each of them. -/
theorem exists_height {step : NodeId → NodeId → Prop} (h : ∀ i, ¬ TransGen step i i) (k : Nat) :
    ∃ height : NodeId → Nat, (∀ i < k, height i < k) ∧
      ∀ i c, c < k → step i c → height c < height i := by
  classical
  refine ⟨fun i => ((Finset.range k).filter (TransGen step i)).card, ?_, ?_⟩
  · intro i hi
    have hlt : (Finset.range k).filter (TransGen step i) ⊂ Finset.range k :=
      Finset.filter_ssubset.2 ⟨i, Finset.mem_range.2 hi, h i⟩
    simpa using Finset.card_lt_card hlt
  · intro i c hc hic
    apply Finset.card_lt_card
    refine (Finset.ssubset_iff_of_subset ?_).2 ⟨c, ?_, ?_⟩
    · exact Finset.monotone_filter_right _ fun j _ hj => TransGen.head hic hj
    · exact Finset.mem_filter.2 ⟨Finset.mem_range.2 hc, .single hic⟩
    · exact fun hcc => h c (Finset.mem_filter.1 hcc).2

/-- Steps from known nodes that never lead back have a rank that falls with each of them. -/
theorem exists_rank {step : NodeId → NodeId → Prop} (h : ∀ i, ¬ TransGen step i i)
    (hstep : ∀ i c, step i c → i < f.size) : ∃ rank : NodeId → Nat,
      (∀ i, rank i ≤ f.size) ∧ ∀ i c, step i c → rank c < rank i := by
  obtain ⟨height, hsize, hheight⟩ := exists_height h f.size
  refine ⟨fun i => if i < f.size then height i + 1 else 0, fun i => ?_, fun i c hic => ?_⟩
  · dsimp only
    split
    · next hi => exact hsize i hi
    · exact Nat.zero_le _
  · have hi := hstep i c hic
    simp only [hi, if_true]
    split
    · next hc => exact Nat.succ_lt_succ (hheight i c hc hic)
    · exact Nat.succ_pos _

/-! ### Unfolding -/

theorem mapM_eq_some_iff {α β : Type} {next : α → Option β} {xs : List α} {ys : List β} :
    xs.mapM next = some ys ↔ List.Forall₂ (fun x y => next x = some y) xs ys := by
  induction xs generalizing ys with
  | nil => cases ys <;> simp
  | cons x xs ih =>
    simp only [List.mapM_cons, Option.bind_eq_bind, Option.bind_eq_some_iff, ih, Option.pure_def,
      Option.some.injEq, List.forall₂_cons_left_iff]
    grind

/-- The tree below a node is made of its own data and the trees below its children. -/
theorem unfold_succ_eq_some_iff {depth : Nat} {t : Statement} :
    f.unfold (depth + 1) i = some t ↔ ∃ n ts, f.node? i = some n ∧
      List.Forall₂ (fun c t => f.unfold depth c = some t) n.children ts ∧
      t = .node n.kind n.condition n.name ts := by
  simp only [unfold, Option.bind_eq_bind, Option.bind_eq_some_iff, mapM_eq_some_iff,
    Option.some.injEq]
  grind

theorem exists_unfold {height : NodeId → Nat}
    (hh : ∀ i c, c < f.size → f.Child i c → height c < height i) (hc : f.Closed) {depth : Nat}
    (hi : i < f.size) (hd : height i < depth) : ∃ t, f.unfold depth i = some t := by
  induction depth generalizing i with
  | zero => omega
  | succ depth ih =>
    obtain ⟨n, hn⟩ := exists_node?_iff.2 hi
    refine ⟨_, unfold_succ_eq_some_iff.2
      ⟨n, n.children.map fun c => (f.unfold depth c).getD default, hn, ?_, rfl⟩⟩
    rw [List.forall₂_map_right_iff, List.forall₂_same]
    intro c hcn
    have hic : f.Child i c := mem_children_iff.2 ⟨n, hn, hcn⟩
    have := hh i c (hc i c hic) hic
    obtain ⟨t, ht⟩ := ih (hc i c hic) (by omega)
    simp [ht]

/-- Without cycles every known node is the root of a tree. -/
theorem Acyclic.exists_statement? (h : f.Acyclic) (hc : f.Closed) (hi : i < f.size) :
    ∃ t, f.statement? i = some t := by
  obtain ⟨height, hsize, hh⟩ := exists_height h f.size
  exact exists_unfold hh hc hi (hsize i hi)

/-! ### New children -/

/-- A forest stays without cycles when some nodes get new children and none of these is one of the
nodes itself or lies above one. -/
theorem Acyclic.of_new_children {holders : NodeId → Prop} (h : f.Acyclic)
    (hg : ∀ x y, g.Child x y →
      f.Child x y ∨ holders x ∧ ∀ p, holders p → y ≠ p ∧ ¬ f.Below y p) : g.Acyclic := by
  -- From such nodes only old steps lead on, and only to such nodes.
  have hold : ∀ y z, (∀ p, holders p → y ≠ p ∧ ¬ f.Below y p) → g.Child y z →
      f.Child y z ∧ ∀ p, holders p → z ≠ p ∧ ¬ f.Below z p := by
    intro y z hy hyz
    rcases hg y z hyz with hyz | ⟨hy', -⟩
    · refine ⟨hyz, fun p hp => ⟨?_, fun hzp => (hy p hp).2 (hzp.head hyz)⟩⟩
      rintro rfl
      exact (hy z hp).2 (.single hyz)
    · exact absurd rfl (hy y hy').1
  have hbelow : ∀ x y, g.Below x y →
      f.Below x y ∨ ∀ p, holders p → y ≠ p ∧ ¬ f.Below y p := by
    intro x y hxy
    induction hxy with
    | single hxy => exact (hg _ _ hxy).imp .single And.right
    | tail _ hyz ih =>
      rcases ih with hxy | hy
      · exact (hg _ _ hyz).imp hxy.tail And.right
      · exact .inr (hold _ _ hy hyz).2
  intro x hxx
  rcases hbelow x x hxx with hx | hx
  · exact h x hx
  · have hxy : ∀ y, g.Below x y → f.Below x y ∧ ∀ p, holders p → y ≠ p ∧ ¬ f.Below y p := by
      intro y hxy
      induction hxy with
      | single hxy => exact (hold _ _ hx hxy).imp_left .single
      | tail _ hyz ih => exact (hold _ _ ih.2 hyz).imp_left ih.1.tail
    exact h x (hxy x hxx).1

end Forest

end BlockLang
