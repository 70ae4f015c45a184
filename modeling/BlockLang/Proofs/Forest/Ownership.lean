import BlockLang.Proofs.Forest.Change
import BlockLang.Proofs.Forest.Search

/-! Ownership. In every forest that is built step by step the children are marked as owned. Where no
node gets a child that it lies below, no node comes to lie below itself; and where every node has a
list of its own, the checks see to that. -/

namespace BlockLang

open Relation

namespace Forest

/-- All children are owned. -/
def OwnsChildren (f : Forest) : Prop := ∀ i c, f.Child i c → f.IsOwned c

/-- Children are owned and there are no cycles. -/
structure Hierarchical (f : Forest) : Prop where
  acyclic : f.Acyclic
  isOwned : f.OwnsChildren

/-- Only children are owned. -/
def Attached (f : Forest) : Prop := ∀ c, f.IsOwned c → ∃ i, f.Child i c

/-- A node is known and free, and it is neither `i` nor lies above it. -/
structure Admits (f : Forest) (i c : NodeId) : Prop where
  lt_size : c < f.size
  free : ¬ f.IsOwned c
  ne : c ≠ i
  not_below : ¬ f.Below c i

variable {f g : Forest} {a : Option NodeId} {i c : NodeId} {ids : List NodeId}
  {parents : NodeId → Prop}

theorem not_child_empty (i c : NodeId) : ¬ empty.Child i c := by
  simp [Child, mem_children_iff]

theorem ownsChildren_empty : empty.OwnsChildren := fun i c h => absurd h (not_child_empty i c)

theorem acyclic_empty : empty.Acyclic := by
  intro i h
  obtain ⟨c, hc, -⟩ := TransGen.head'_iff.1 h
  exact not_child_empty i c hc

theorem hierarchical_empty : empty.Hierarchical := ⟨acyclic_empty, ownsChildren_empty⟩

theorem attached_empty : empty.Attached := fun c ⟨n, hn, _⟩ => by simp at hn

theorem OwnsChildren.closed (h : f.OwnsChildren) : f.Closed := fun i c hic => by
  obtain ⟨n, hn, -⟩ := h i c hic
  exact lt_size_of_node? hn

/-- What lies below another node is owned. -/
theorem OwnsChildren.isOwned_of_below (h : f.OwnsChildren) (hb : f.Below i c) : f.IsOwned c := by
  obtain ⟨p, -, hp⟩ := TransGen.tail'_iff.1 hb
  exact h p c hp

theorem MayAdopt.not_isOwned (ha : f.MayAdopt i c) : ¬ f.IsOwned c := by
  obtain ⟨_, m, _, hm, hfree, _⟩ := ha
  rintro ⟨m', hm', ho⟩
  obtain rfl := Option.some.inj (hm.symm.trans hm')
  rw [hfree] at ho
  cases ho

/-- A parent without an owner has no ancestors, so the search is right to be left out there. -/
theorem OwnsChildren.admits (h : f.OwnsChildren) (ha : f.MayAdopt i c) : f.Admits i c := by
  refine ⟨ha.lt_size, ha.not_isOwned, ha.ne, fun hci => ?_⟩
  obtain ⟨p, _, hp, _, _, _, hsearch⟩ := ha
  obtain ⟨_, hp', ho⟩ := h.isOwned_of_below hci
  obtain rfl := Option.some.inj (hp.symm.trans hp')
  exact absurd ((contains?_eq_some (hsearch ho)).2 hci) Bool.false_ne_true

/-! ### New children -/

theorem OwnsChildren.of_gains (h : f.OwnsChildren) (hg : f.Gains g parents ids) :
    g.OwnsChildren := by
  intro j c hjc
  rw [hg.isOwned_iff]
  exact ((hg.child_iff j c).1 hjc).imp (h j c) And.right

theorem Acyclic.of_gains (h : f.Acyclic) (hg : f.Gains g parents ids)
    (hids : ∀ c ∈ ids, ∀ p, parents p → c ≠ p ∧ ¬ f.Below c p) : g.Acyclic :=
  h.of_new_children fun j c hjc =>
    ((hg.child_iff j c).1 hjc).imp_right fun ⟨hj, hc⟩ => ⟨hj, hids c hc⟩

theorem Attached.of_gains (h : f.Attached) (hg : f.Gains g (· = i) ids) : g.Attached := by
  intro c hco
  rcases (hg.isOwned_iff c).1 hco with ho | hc
  · obtain ⟨j, hj⟩ := h c ho
    exact ⟨j, (hg.child_iff j c).2 (.inl hj)⟩
  · exact ⟨i, (hg.child_iff i c).2 (.inr ⟨rfl, hc⟩)⟩

theorem Hierarchical.of_change (h : f.Hierarchical) (hc : f.Change a g) : g.Hierarchical := by
  obtain ⟨i, ids, hids, hg⟩ := hc.exists_gains
  refine ⟨h.acyclic.of_gains hg ?_, h.isOwned.of_gains hg⟩
  rintro c hc p rfl
  have ha := h.isOwned.admits (hids c hc)
  exact ⟨ha.ne, ha.not_below⟩

theorem Attached.of_change (h : f.Attached) (hc : f.Change a g) : g.Attached := by
  obtain ⟨i, ids, -, hg⟩ := hc.exists_gains
  exact h.of_gains hg

end Forest

end BlockLang
