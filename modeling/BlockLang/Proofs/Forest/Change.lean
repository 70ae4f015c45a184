import BlockLang.Proofs.Forest.Below

/-! The changes that building makes to a forest. Some nodes change and some become owned; where the
children of a block change in its list, they change in all nodes that have the list. If every node
has a list of its own, there are three changes: a placeholder is added, a placeholder becomes a
statement with bodies, and a block gets one more element. -/

namespace BlockLang

namespace Node

/-- A node has the data that statements of its kind have, apart from what its children are: tests
have a condition and as many different bodies as they need, calls have a name, and there is
nothing else. -/
def Shaped (n : Node) : Prop :=
  match n.kind with
  | .block => n.condition = none ∧ n.name = none
  | .ifThen | .whileDo => n.condition.isSome ∧ n.name = none ∧ n.children.length = 1
  | .ifElse =>
    n.condition.isSome ∧ n.name = none ∧ n.children.length = 2 ∧ n.children.Nodup
  | .call =>
    n.condition = none ∧ n.children = [] ∧ ∃ name, n.name = some name ∧ Token.isIdentifier name

/-- A placeholder turns into a statement with bodies. -/
structure Becomes (n m : Node) (bodies : List NodeId) : Prop where
  placeholder : n.isEmpty
  kind : m.kind ≠ .block
  children : m.children = bodies
  shaped : n.Shaped → m.Shaped

variable {n : Node}

theorem isEmpty_iff : n.isEmpty ↔ n.kind = .block ∧ n.children = [] := by
  simp [isEmpty]

/-- All children that a placeholder gets are new. -/
theorem perm_of_isEmpty (h : n.isEmpty) (ids : List NodeId) : ids.Perm (n.children ++ ids) := by
  rw [(isEmpty_iff.1 h).2, List.nil_append]

theorem Becomes.children_perm {m : Node} {bodies : List NodeId} (h : n.Becomes m bodies) :
    m.children.Perm (n.children ++ bodies) := by
  rw [h.children]
  exact perm_of_isEmpty h.placeholder bodies

end Node

namespace Forest

variable {f g : Forest} {i j k c : NodeId} {n : Node} {ids xs : List NodeId}
  {change : Node → Node} {changed : NodeId → Prop}

/-! ### Changed nodes -/

/-- Some nodes have become what `change` makes of them, some nodes are owned now, and all else is as
it was. A changed node has the list that it had, or one of its own. -/
structure Alters (f g : Forest) (changed : NodeId → Prop) (ids : List NodeId)
    (change : Node → Node) : Prop where
  owned_change : ∀ n, (change n).owned = n.owned
  node?_changed : ∀ j, changed j →
    g.node? j = (f.node? j).map fun n => (change n).own (decide (j ∈ ids))
  node?_other : ∀ j, ¬ changed j → g.node? j = (f.node? j).map fun n => n.own (decide (j ∈ ids))
  list?_changed : ∀ j, changed j → g.list? j = f.list? j ∨ g.Alone j
  list?_other : ∀ j, ¬ changed j → g.list? j = f.list? j

/-- One node has changed and has adopted others. -/
structure Adopts (f g : Forest) (i : NodeId) (ids : List NodeId) (change : Node → Node) : Prop
    extends f.Alters g (· = i) ids change where
  not_mem : i ∉ ids

/-- The list of a node has got other children, in all the nodes that have it. -/
structure Feeds (f g : Forest) (i : NodeId) (ids xs : List NodeId) : Prop
    extends f.Alters g (f.Shares i) ids fun n => { n with children := xs } where
  list?_eq : ∀ j, g.list? j = f.list? j

theorem Alters.node?_eq_none_iff (h : f.Alters g changed ids change) (j : NodeId) :
    g.node? j = none ↔ f.node? j = none := by
  by_cases hj : changed j
  · rw [h.node?_changed j hj, Option.map_eq_none_iff]
  · rw [h.node?_other j hj, Option.map_eq_none_iff]

theorem Alters.size_eq (h : f.Alters g changed ids change) : g.size = f.size := by
  have hiff : ∀ j, g.size ≤ j ↔ f.size ≤ j := fun j => by
    rw [← Forest.node?_eq_none_iff, h.node?_eq_none_iff, Forest.node?_eq_none_iff]
  exact Nat.le_antisymm ((hiff _).2 (Nat.le_refl _)) ((hiff _).1 (Nat.le_refl _))

theorem Alters.kind?_of_not (h : f.Alters g changed ids change) (hj : ¬ changed j) :
    g.kind? j = f.kind? j := by
  rw [kind?, h.node?_other j hj, kind?]
  cases f.node? j <;> rfl

theorem Alters.children_of_not (h : f.Alters g changed ids change) (hj : ¬ changed j) :
    g.children j = f.children j := by
  rw [children, children, h.node?_other j hj]
  cases f.node? j <;> rfl

theorem Alters.child_of_not (h : f.Alters g changed ids change) (hj : ¬ changed j) :
    g.Child j c ↔ f.Child j c := by
  rw [Child, Child, h.children_of_not hj]

theorem Alters.isOwned_iff (h : f.Alters g changed ids change) :
    g.IsOwned j ↔ f.IsOwned j ∨ j ∈ ids ∧ j < f.size := by
  rw [← exists_node?_iff, IsOwned, IsOwned]
  by_cases hj : changed j
  · rw [h.node?_changed j hj]
    cases f.node? j <;> simp [h.owned_change]
  · rw [h.node?_other j hj]
    cases f.node? j <;> simp

/-- Nodes do not come to have a list between them. -/
theorem Alters.shares (h : f.Alters g changed ids change) (hjk : g.Shares j k) :
    k = j ∨ f.Shares j k := by
  have hsame : ∀ l, g.list? l = f.list? l ∨ g.Alone l := by
    intro l
    by_cases hl : changed l
    · exact h.list?_changed l hl
    · exact .inl (h.list?_other l hl)
  rcases hsame j with hj | hj
  · rcases hsame k with hk | hk
    · exact .inr ⟨h.size_eq ▸ hjk.1, by rw [← hj, ← hk, hjk.2]⟩
    · exact .inl (hk j hjk.symm).symm
  · exact .inl (hj k hjk)

theorem Alters.alone (h : f.Alters g changed ids change) (hj : f.Alone j) : g.Alone j :=
  fun k hjk => (h.shares hjk).elim id (hj k)

theorem Alters.separate (h : f.Alters g changed ids change) (hf : f.Separate) : g.Separate :=
  fun j => h.alone (hf j)

theorem Adopts.node?_self (h : f.Adopts g i ids change) (hn : f.node? i = some n) :
    g.node? i = some (change n) := by
  simp [h.node?_changed i rfl, hn, h.not_mem]

theorem Adopts.node?_eq (h : f.Adopts g i ids change) (j : NodeId) :
    g.node? j = (f.node? j).map fun n =>
      if j = i then change n else if j ∈ ids then { n with owned := true } else n := by
  by_cases hj : j = i
  · subst hj
    cases hn : f.node? j with
    | none => simp [h.node?_changed j rfl, hn]
    | some n => simp [h.node?_self hn]
  · rw [h.node?_other j hj]
    by_cases hmem : j ∈ ids <;> simp [hj, hmem, Node.own]

theorem Adopts.congr {change' : Node → Node} (h : f.Adopts g i ids change)
    (ho : ∀ n, (change' n).owned = n.owned)
    (hc : ∀ n, f.node? i = some n → change n = change' n) : f.Adopts g i ids change' where
  owned_change := ho
  node?_changed := by
    rintro j rfl
    rw [h.node?_changed j rfl]
    cases hn : f.node? j with
    | none => rfl
    | some n => rw [Option.map_some, Option.map_some, hc n hn]
  node?_other := h.node?_other
  list?_changed := h.list?_changed
  list?_other := h.list?_other
  not_mem := h.not_mem

theorem Feeds.shares_iff (h : f.Feeds g i ids xs) : g.Shares j k ↔ f.Shares j k := by
  rw [Shares, Shares, h.size_eq, h.list?_eq, h.list?_eq]

/-- A node that has a list of its own is the only one to change. -/
theorem Feeds.adopts (h : f.Feeds g i ids xs) (hi : i < f.size) (ha : f.Alone i) (hids : i ∉ ids) :
    f.Adopts g i ids fun n => { n with children := xs } := by
  have hshares : ∀ j, f.Shares i j ↔ j = i := by
    refine fun j => ⟨ha j, ?_⟩
    rintro rfl
    exact .refl hi
  exact
    { owned_change := h.owned_change
      node?_changed := fun j hj => h.node?_changed j ((hshares j).2 hj)
      node?_other := fun j hj => h.node?_other j (mt (hshares j).1 hj)
      list?_changed := fun j _ => .inl (h.list?_eq j)
      list?_other := fun j _ => h.list?_eq j
      not_mem := hids }

theorem adopts_modify (hi : i ∉ ids) (ho : ∀ n, (change n).owned = n.owned) :
    f.Adopts ((f.own ids).modify i change) i ids change where
  owned_change := ho
  node?_changed := by
    rintro j rfl
    rw [node?_modify, if_pos rfl, node?_own]
    cases f.node? j <;> simp [hi]
  node?_other j hj := by rw [node?_modify, if_neg (Ne.symm hj), node?_own]
  list?_changed := by
    rintro j rfl
    rcases list?_modify_self (f.own ids) j change with hlist | hlist
    · exact .inl (hlist.trans (list?_own f ids j))
    · refine .inr fun k hk => by_contra fun hkj => ?_
      have hold := hk.2
      rw [hlist, list?_modify_of_ne hkj] at hold
      exact list?_ne_size _ _ hold
  list?_other j hj := by rw [list?_modify_of_ne hj, list?_own]
  not_mem := hi

theorem feeds_refill (f : Forest) (i : NodeId) (ids xs : List NodeId) :
    f.Feeds ((f.own ids).refill i xs) i ids xs where
  owned_change _ := rfl
  node?_changed j hj := by
    rw [node?_refill, node?_own]
    cases f.node? j <;> simp [hj, Node.own]
  node?_other j hj := by
    rw [node?_refill, node?_own]
    cases f.node? j <;> simp [hj]
  list?_changed j _ := .inl (by simp)
  list?_other j _ := by simp
  list?_eq j := by simp

/-! ### New children -/

/-- Some nodes, which may be new themselves, have got the same new children, and these are owned
now. Nothing else has changed about who belongs to whom. -/
structure Gains (f g : Forest) (parents : NodeId → Prop) (ids : List NodeId) : Prop where
  size_le : f.size ≤ g.size
  lt_size : ∀ j, parents j → j < g.size
  children_of_not : ∀ j, ¬ parents j → g.children j = f.children j
  children_perm : ∀ j, parents j → (g.children j).Perm (f.children j ++ ids)
  isOwned_iff : ∀ c, g.IsOwned c ↔ f.IsOwned c ∨ c ∈ ids

theorem Gains.child_iff {parents : NodeId → Prop} (h : f.Gains g parents ids) (j c : NodeId) :
    g.Child j c ↔ f.Child j c ∨ parents j ∧ c ∈ ids := by
  by_cases hj : parents j
  · simp [Child, (h.children_perm j hj).mem_iff, hj]
  · simp [Child, h.children_of_not j hj, hj]

theorem Alters.gains (h : f.Alters g changed ids change) (hlt : ∀ j, changed j → j < f.size)
    (hids : ∀ c ∈ ids, c < f.size)
    (hc : ∀ j n, changed j → f.node? j = some n →
      (change n).children.Perm (n.children ++ ids)) : f.Gains g changed ids where
  size_le := h.size_eq.ge
  lt_size j hj := h.size_eq ▸ hlt j hj
  children_of_not _ := h.children_of_not
  children_perm j hj := by
    obtain ⟨n, hn⟩ := exists_node?_iff.2 (hlt j hj)
    simpa [children, h.node?_changed j hj, hn] using hc j n hj hn
  isOwned_iff c := by rw [h.isOwned_iff, and_iff_left_of_imp (hids c)]

theorem Adopts.gains (h : f.Adopts g i ids change) (hn : f.node? i = some n)
    (hids : ∀ c ∈ ids, c < f.size) (hc : (change n).children.Perm (n.children ++ ids)) :
    f.Gains g (· = i) ids := by
  refine h.toAlters.gains ?_ hids ?_
  · rintro j rfl
    exact lt_size_of_node? hn
  · rintro j m rfl hm
    obtain rfl := Option.some.inj (hn.symm.trans hm)
    exact hc

theorem Feeds.gains (h : f.Feeds g i ids xs) (hids : ∀ c ∈ ids, c < f.size)
    (hxs : xs.Perm (f.children i ++ ids)) : f.Gains g (f.Shares i) ids := by
  refine h.toAlters.gains (fun j hj => hj.lt_size) hids fun j n hj hn => ?_
  rw [← hj.children_eq] at hxs
  simpa [children, hn] using hxs

theorem size_insertAbove (kind : Kind) (condition : Option Condition) (name : Option String) :
    (f.insertAbove kind condition name ids).2.size = f.size + 1 := by
  rw [insertAbove, size_insert, size_own]

theorem node?_insertAbove (kind : Kind) (condition : Option Condition) (name : Option String)
    (j : NodeId) : (f.insertAbove kind condition name ids).2.node? j =
      if j = f.size then some ⟨kind, condition, name, ids, false⟩
      else (f.node? j).map fun n => n.own (decide (j ∈ ids)) := by
  rw [insertAbove, node?_insert, size_own, node?_own]

/-- A new node has a list of its own, or the one that it was given. -/
theorem list?_insertAbove (kind : Kind) (condition : Option Condition) (name : Option String)
    (j : NodeId) : (f.insertAbove kind condition name ids).2.list? j =
      if j = f.size then some (f.own ids).lists.size else f.list? j := by
  rw [insertAbove, list?_insert, size_own, list?_own]

theorem exists_insertBeside_eq (hi : i < f.size) (kind : Kind) (condition : Option Condition)
    (name : Option String) : ∃ list h, f.list? i = some list ∧
      f.insertBeside kind condition name i =
        (f.size, (f.own (f.children i)).push ⟨kind, condition, name, [], false⟩ list h) := by
  unfold insertBeside
  dsimp only
  split
  · next hnone =>
    have hsize : (f.own (f.children i)).size ≤ i := Array.getElem?_eq_none_iff.1 hnone
    rw [size_own] at hsize
    exact absurd hi (Nat.not_lt.2 hsize)
  · next c hc =>
    have hlt := (f.own (f.children i)).list_lt c (Array.mem_of_getElem? hc)
    refine ⟨c.list, hlt, ?_, by rw [size_own]⟩
    rw [← list?_own f (f.children i), list?, hc, Option.map_some]

theorem node?_insertBeside (hi : i < f.size) (kind : Kind) (condition : Option Condition)
    (name : Option String) (j : NodeId) : (f.insertBeside kind condition name i).2.node? j =
      if j = f.size then some ⟨kind, condition, name, f.children i, false⟩
      else (f.node? j).map fun n => n.own (decide (j ∈ f.children i)) := by
  obtain ⟨list, h, hlist, heq⟩ := exists_insertBeside_eq hi kind condition name
  have hown : (f.own (f.children i)).list? i = some list := (list?_own _ _ _).trans hlist
  have hchildren := children_of_list? hown
  rw [children_own] at hchildren
  have hview : (f.own (f.children i)).view (Node.cell ⟨kind, condition, name, [], false⟩ list) =
      ⟨kind, condition, name, f.children i, false⟩ :=
    congrArg (fun ids => Node.mk kind condition name ids false) hchildren.symm
  rw [heq, node?_push, size_own, node?_own, hview]

theorem size_insertBeside (hi : i < f.size) (kind : Kind) (condition : Option Condition)
    (name : Option String) : (f.insertBeside kind condition name i).2.size = f.size + 1 := by
  obtain ⟨list, h, -, heq⟩ := exists_insertBeside_eq hi kind condition name
  rw [heq, size_push, size_own]

/-- The contents of a new node and the marks of its children are all that an insertion changes. -/
theorem gains_of_insertion (kind : Kind) (condition : Option Condition) (name : Option String)
    (hids : ∀ c ∈ ids, c < f.size) (hsize : g.size = f.size + 1)
    (hnode : ∀ j, g.node? j = if j = f.size then some ⟨kind, condition, name, ids, false⟩
      else (f.node? j).map fun n => n.own (decide (j ∈ ids))) : f.Gains g (· = f.size) ids where
  size_le := hsize ▸ Nat.le_succ f.size
  lt_size := by
    rintro j rfl
    exact hsize ▸ Nat.lt_succ_self f.size
  children_of_not j hj := by
    rw [children, children, hnode, if_neg hj]
    cases f.node? j <;> rfl
  children_perm := by
    rintro j rfl
    simp [children, hnode, node?_eq_none_iff.2 (Nat.le_refl f.size)]
  isOwned_iff c := by
    rw [IsOwned, IsOwned, hnode]
    split
    · next h =>
      subst h
      simpa [node?_eq_none_iff.2 (Nat.le_refl f.size)] using fun h => Nat.lt_irrefl _ (hids _ h)
    · have hknown : c ∈ ids → ∃ n, f.node? c = some n := fun h => exists_node?_iff.2 (hids c h)
      cases hc : f.node? c with
      | none => simpa [hc] using hknown
      | some n => simp

theorem gains_insertAbove (kind : Kind) (condition : Option Condition) (name : Option String)
    (hids : ∀ c ∈ ids, c < f.size) :
    f.Gains (f.insertAbove kind condition name ids).2 (· = f.size) ids :=
  gains_of_insertion kind condition name hids (size_insertAbove kind condition name)
    (node?_insertAbove kind condition name)

theorem gains_insertBeside (hi : i < f.size) (kind : Kind) (condition : Option Condition)
    (name : Option String) (hids : ∀ c ∈ f.children i, c < f.size) :
    f.Gains (f.insertBeside kind condition name i).2 (· = f.size) (f.children i) :=
  gains_of_insertion kind condition name hids (size_insertBeside hi kind condition name)
    (node?_insertBeside hi kind condition name)

/-- A new node has a list of its own. -/
theorem shares_insertAbove {kind : Kind} {condition : Option Condition} {name : Option String}
    (h : (f.insertAbove kind condition name ids).2.Shares j k) : k = j ∨ f.Shares j k := by
  have hlt := h.1
  have hlist := h.2
  have hnew : ∀ l, f.list? l ≠ some (f.own ids).lists.size := by
    intro l
    rw [← list?_own f ids]
    exact list?_ne_size _ l
  rw [list?_insertAbove, list?_insertAbove] at hlist
  rw [size_insertAbove] at hlt
  by_cases hj : j = f.size
  · rw [if_pos hj] at hlist
    by_cases hk : k = f.size
    · exact .inl (hk.trans hj.symm)
    · rw [if_neg hk] at hlist
      exact absurd hlist (hnew k)
  · rw [if_neg hj] at hlist
    by_cases hk : k = f.size
    · rw [if_pos hk] at hlist
      exact absurd hlist.symm (hnew j)
    · rw [if_neg hk] at hlist
      exact .inr ⟨Nat.lt_of_le_of_ne (Nat.le_of_lt_succ hlt) hj, hlist⟩

theorem separate_insertAbove (hf : f.Separate) (kind : Kind) (condition : Option Condition)
    (name : Option String) (ids : List NodeId) :
    (f.insertAbove kind condition name ids).2.Separate :=
  fun j k hjk => (shares_insertAbove hjk).elim id (hf j k)

/-! ### Changes -/

theorem perm_insertIdx {xs : List NodeId} {k : Nat} (hk : k ≤ xs.length) :
    (xs.insertIdx k c).Perm (xs ++ [c]) :=
  (List.perm_insertIdx c xs hk).trans (List.perm_append_singleton c xs).symm

/-- What building does to a forest in which every node has a list of its own, with the placeholder
that becomes a statement. -/
inductive Change (f : Forest) : Option NodeId → Forest → Prop where
  | fresh : Change f none f.fresh.2
  | become {i : NodeId} {n : Node} {bodies : List NodeId} {change : Node → Node} {g : Forest} :
      f.node? i = some n → n.Becomes (change n) bodies →
      (∀ b ∈ bodies, f.kind? b = some .block ∧ f.MayAdopt i b) →
      f.Adopts g i bodies change → Change f (some i) g
  | add {i child : NodeId} {n : Node} {index : Nat} {g : Forest} :
      f.node? i = some n → n.kind = .block → index ≤ n.children.length →
      (∃ k, f.kind? child = some k ∧ k ≠ .block) → f.MayAdopt i child →
      f.Adopts g i [child] (fun n => { n with children := n.children.insertIdx index child }) →
      Change f none g

theorem node?_fresh (f : Forest) (j : NodeId) :
    f.fresh.2.node? j = if j = f.size then some .placeholder else f.node? j :=
  node?_insert f .placeholder j

theorem kind?_fresh (h : j < f.size) : f.fresh.2.kind? j = f.kind? j := by
  rw [kind?, node?_fresh, if_neg (Nat.ne_of_lt h), kind?]

theorem child_fresh : f.fresh.2.Child j c ↔ f.Child j c := by
  rw [Child, Child, mem_children_iff, mem_children_iff, node?_fresh]
  split
  · next h => simp [node?_eq_none_iff.2 h.ge, Node.placeholder]
  · rfl

/-- A node that adopts others has its old children and these. -/
theorem Adopts.child_iff (h : f.Adopts g i ids change) (hn : f.node? i = some n)
    (hc : (change n).children.Perm (n.children ++ ids)) (j c : NodeId) :
    g.Child j c ↔ f.Child j c ∨ j = i ∧ c ∈ ids := by
  by_cases hj : j = i
  · subst hj
    simp [Child, children, h.node?_self hn, hn, hc.mem_iff]
  · simp [h.child_of_not hj, hj]

theorem MayAdopt.ne {child : NodeId} (h : f.MayAdopt i child) : child ≠ i := by
  obtain ⟨_, _, _, _, _, hne, _⟩ := h
  exact hne

theorem MayAdopt.lt_size {child : NodeId} (h : f.MayAdopt i child) : child < f.size := by
  obtain ⟨_, _, _, hc, _⟩ := h
  exact lt_size_of_node? hc

/-- Every change gives one node some new children, which may be none, and owns them. -/
theorem Change.exists_gains {a : Option NodeId} (h : f.Change a g) :
    ∃ (i : NodeId) (ids : List NodeId), (∀ c ∈ ids, f.MayAdopt i c) ∧ f.Gains g (· = i) ids := by
  cases h with
  | fresh =>
    exact ⟨f.size, [], by simp, gains_insertAbove .block none none (List.forall_mem_nil _)⟩
  | @become i n bodies change g hn hb hbodies hadopts =>
    have ha := fun c hc => (hbodies c hc).2
    exact ⟨i, bodies, ha, hadopts.gains hn (fun c hc => (ha c hc).lt_size) hb.children_perm⟩
  | @add i child n index g hn _ hl _ ha hadopts =>
    exact ⟨i, [child], by simpa using ha,
      hadopts.gains hn (by simpa using ha.lt_size) (perm_insertIdx hl)⟩

theorem Change.separate {a : Option NodeId} (h : f.Change a g) (hf : f.Separate) :
    g.Separate := by
  cases h with
  | fresh => exact separate_insertAbove hf .block none none []
  | become _ _ _ hadopts => exact hadopts.separate hf
  | add _ _ _ _ _ hadopts => exact hadopts.separate hf

/-! ### Building steps -/

theorem adopts_of_assemble {kind : Kind} {c : Condition} {bodies : List NodeId}
    (h : f.assemble i kind c bodies = .ok g) :
    f.Adopts g i bodies fun n =>
      { n with kind := kind, condition := some c, children := bodies } := by
  obtain ⟨-, hb, -, rfl⟩ := assemble_eq_ok_iff.1 h
  exact adopts_modify (fun hi => (hb i hi).2.ne rfl) fun _ => rfl

theorem change_of_assemble {kind : Kind} {c : Condition} {bodies : List NodeId}
    (hk : kind = .ifElse ∧ bodies.length = 2 ∨
      (kind = .ifThen ∨ kind = .whileDo) ∧ bodies.length = 1)
    (h : f.assemble i kind c bodies = .ok g) : f.Change (some i) g := by
  have hadopts := adopts_of_assemble h
  obtain ⟨⟨n, hn, he⟩, hb, hd, -⟩ := assemble_eq_ok_iff.1 h
  have hbecomes : n.Becomes { n with kind := kind, condition := some c, children := bodies }
      bodies := by
    refine ⟨he, ?_, rfl, fun hs => ?_⟩
    · rcases hk with ⟨rfl, -⟩ | ⟨rfl | rfl, -⟩ <;> simp
    · have hname : n.name = none := by
        rw [Node.Shaped, (Node.isEmpty_iff.1 he).1] at hs
        exact hs.2
      rcases hk with ⟨rfl, hl⟩ | ⟨rfl | rfl, hl⟩ <;> simp [Node.Shaped, hname, hl, hd]
  exact .become hn hbecomes hb hadopts

theorem adopts_of_assembleCall {name : String} (h : f.assembleCall i name = .ok g) :
    f.Adopts g i [] fun n => { n with kind := .call, name := some name } := by
  obtain ⟨-, -, rfl⟩ := assembleCall_eq_ok_iff.1 h
  have hnil : i ∉ ([] : List NodeId) := List.not_mem_nil
  exact adopts_modify hnil fun _ => rfl

theorem change_of_assembleCall {name : String} (h : f.assembleCall i name = .ok g) :
    f.Change (some i) g := by
  have hadopts := adopts_of_assembleCall h
  obtain ⟨⟨n, hn, he⟩, hname, -⟩ := assembleCall_eq_ok_iff.1 h
  obtain ⟨hk, hchildren⟩ := Node.isEmpty_iff.1 he
  have hbecomes : n.Becomes { n with kind := .call, name := some name } [] := by
    refine ⟨he, nofun, hchildren, fun hs => ?_⟩
    rw [Node.Shaped, hk] at hs
    simp [Node.Shaped, hs.1, hchildren, hname]
  exact .become hn hbecomes (List.forall_mem_nil _) hadopts

theorem feeds_of_addToBlock {index : Int} {child : NodeId}
    (h : f.addToBlock i index child = .ok g) :
    f.Feeds g i [child] ((f.children i).insertIdx index.toNat child) := by
  obtain ⟨-, -, -, -, -, rfl⟩ := addToBlock_eq_ok_iff.1 h
  exact feeds_refill f i [child] _

/-- A block that has a list of its own is the only node to get the new element. -/
theorem adopts_of_addToBlock {index : Int} {child : NodeId} (hi : f.Alone i)
    (h : f.addToBlock i index child = .ok g) : f.Adopts g i [child] fun n =>
      { n with children := n.children.insertIdx index.toNat child } := by
  have hfeeds := feeds_of_addToBlock h
  obtain ⟨hk, -, -, -, ha, -⟩ := addToBlock_eq_ok_iff.1 h
  obtain ⟨n, hn, -⟩ := Option.map_eq_some_iff.1 hk
  have hmem : i ∉ [child] := by simpa using ha.ne.symm
  refine (hfeeds.adopts (lt_size_of_node? hn) hi hmem).congr (fun _ => rfl) fun m hm => ?_
  rw [children, hm]
  rfl

theorem change_of_addToBlock {index : Int} {child : NodeId} (hf : f.Separate)
    (h : f.addToBlock i index child = .ok g) : f.Change none g := by
  have hadopts := adopts_of_addToBlock (hf i) h
  obtain ⟨hk, h0, hl, hc, ha, -⟩ := addToBlock_eq_ok_iff.1 h
  obtain ⟨n, hn, hk⟩ := Option.map_eq_some_iff.1 hk
  simp only [children, hn, Option.elim_some] at hl
  exact .add hn hk (by omega) hc ha hadopts

end Forest

end BlockLang
