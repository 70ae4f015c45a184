import BlockLang.Forest.Build
import Mathlib.Data.List.Basic

/-! What the primitive changes of a forest do to each node and to the lists that nodes have, and
when the building steps succeed. A building step that succeeds is a list of checks that hold and one
change of the forest. -/

namespace BlockLang

namespace Node

/-- A node that belongs to another one from now on, if `b` says so. -/
def own (n : Node) (b : Bool) : Node := { n with owned := n.owned || b }

variable (n : Node) (b : Bool)

@[simp] theorem kind_own : (n.own b).kind = n.kind := rfl

@[simp] theorem condition_own : (n.own b).condition = n.condition := rfl

@[simp] theorem name_own : (n.own b).name = n.name := rfl

@[simp] theorem children_own : (n.own b).children = n.children := rfl

@[simp] theorem owned_own : (n.own b).owned = (n.owned || b) := rfl

@[simp] theorem own_false : n.own false = n := by simp [own]

end Node

namespace Forest

variable {f g : Forest} {i j a b : NodeId} {n : Node} {c : Cell} {ids : List NodeId}
  {list : ListId} {change : Node → Node}

/-- The kind of a node, if the node is known. -/
def kind? (f : Forest) (i : NodeId) : Option Kind := (f.node? i).map Node.kind

/-- A node is known and belongs to another one. -/
def IsOwned (f : Forest) (i : NodeId) : Prop := ∃ n, f.node? i = some n ∧ n.owned

instance (f : Forest) (i : NodeId) : Decidable (f.IsOwned i) :=
  decidable_of_iff ((f.node? i).any Node.owned) (by simp [IsOwned, Option.any_eq_true])

/-- Two nodes have one list of children between them. -/
def Shares (f : Forest) (i j : NodeId) : Prop := i < f.size ∧ f.list? j = f.list? i

instance (f : Forest) (i j : NodeId) : Decidable (f.Shares i j) :=
  inferInstanceAs (Decidable (_ ∧ _))

/-- No other node has the list of a node. -/
def Alone (f : Forest) (i : NodeId) : Prop := ∀ j, f.Shares i j → j = i

/-- Every node has a list of its own. -/
def Separate (f : Forest) : Prop := ∀ i, f.Alone i

/-! ### What is stored -/

theorem node?_eq_none_iff : f.node? i = none ↔ f.size ≤ i := by
  rw [node?, Option.map_eq_none_iff]
  exact Array.getElem?_eq_none_iff

theorem list?_eq_none_iff : f.list? i = none ↔ f.size ≤ i := by
  rw [list?, Option.map_eq_none_iff]
  exact Array.getElem?_eq_none_iff

theorem exists_node?_iff : (∃ n, f.node? i = some n) ↔ i < f.size := by
  rw [← Option.isSome_iff_exists, Option.isSome_iff_ne_none, ne_eq, node?_eq_none_iff, Nat.not_le]

theorem lt_size_of_node? (h : f.node? i = some n) : i < f.size := exists_node?_iff.1 ⟨n, h⟩

theorem exists_list?_iff : (∃ list, f.list? i = some list) ↔ i < f.size := by
  rw [← Option.isSome_iff_exists, Option.isSome_iff_ne_none, ne_eq, list?_eq_none_iff, Nat.not_le]

theorem list?_lt (h : f.list? i = some list) : list < f.lists.size := by
  obtain ⟨c, hc, rfl⟩ := Option.map_eq_some_iff.1 h
  exact f.list_lt c (Array.mem_of_getElem? hc)

/-- No node has a list that is yet to be made. -/
theorem list?_ne_size (f : Forest) (i : NodeId) : f.list? i ≠ some f.lists.size :=
  fun h => Nat.lt_irrefl _ (list?_lt h)

@[simp] theorem node?_empty (i : NodeId) : empty.node? i = none := rfl

@[simp] theorem list?_empty (i : NodeId) : empty.list? i = none := rfl

theorem Shares.refl (hi : i < f.size) : f.Shares i i := ⟨hi, rfl⟩

theorem Shares.lt_size (h : f.Shares i j) : j < f.size := by
  obtain ⟨list, hlist⟩ := exists_list?_iff.2 h.1
  exact exists_list?_iff.1 ⟨list, h.2.trans hlist⟩

theorem Shares.symm (h : f.Shares i j) : f.Shares j i := ⟨h.lt_size, h.2.symm⟩

theorem Shares.trans {k : NodeId} (h : f.Shares i j) (h' : f.Shares j k) : f.Shares i k :=
  ⟨h.1, h'.2.trans h.2⟩

theorem separate_empty : empty.Separate := fun i _ h => absurd h.1 (Nat.not_lt_zero i)

/-- The children of a node are those of its list. -/
theorem children_of_list? (h : f.list? i = some list) :
    f.children i = f.lists[list]?.getD [] := by
  obtain ⟨c, hc, rfl⟩ := Option.map_eq_some_iff.1 h
  rw [children, node?, hc]
  rfl

/-- Nodes with one list have the same children. -/
theorem Shares.children_eq (h : f.Shares i j) : f.children j = f.children i := by
  obtain ⟨list, hlist⟩ := exists_list?_iff.2 h.1
  rw [children_of_list? hlist, children_of_list? (h.2.trans hlist)]

/-! ### Primitive changes -/

@[simp] theorem view_addList (hc : c ∈ f.cells) (ids : List NodeId) :
    (f.addList ids).view c = f.view c := by
  have hne : c.list ≠ f.lists.size := Nat.ne_of_lt (f.list_lt c hc)
  simp [view, addList, Array.getElem?_push, hne]

theorem node?_addList (f : Forest) (ids : List NodeId) (j : NodeId) :
    (f.addList ids).node? j = f.node? j := by
  simp only [node?, addList]
  cases hc : f.cells[j]? with
  | none => rfl
  | some c => exact congrArg some (view_addList (Array.mem_of_getElem? hc) ids)

@[simp] theorem list?_addList (f : Forest) (ids : List NodeId) (j : NodeId) :
    (f.addList ids).list? j = f.list? j := rfl

theorem node?_put (h : list < f.lists.size) (j : NodeId) :
    (f.put i n list h).node? j =
      if i = j then (f.node? j).map fun _ => f.view (n.cell list) else f.node? j := by
  have hcell : (f.put i n list h).node? j = ((f.put i n list h).cells[j]?).map f.view := rfl
  rw [hcell, put, Array.getElem?_setIfInBounds, node?]
  split
  · next hij =>
    subst hij
    by_cases hi : i < f.cells.size <;> simp [hi]
  · rfl

theorem list?_put (h : list < f.lists.size) (j : NodeId) :
    (f.put i n list h).list? j = if i = j then (f.list? j).map fun _ => list else f.list? j := by
  rw [list?, put, Array.getElem?_setIfInBounds, list?]
  split
  · next hij =>
    subst hij
    by_cases hi : i < f.cells.size <;> simp [hi, Node.cell]
  · rfl

@[simp] theorem size_put (h : list < f.lists.size) : (f.put i n list h).size = f.size :=
  Array.size_setIfInBounds

theorem node?_push (h : list < f.lists.size) (j : NodeId) :
    (f.push n list h).node? j = if j = f.size then some (f.view (n.cell list)) else f.node? j := by
  have hcell : (f.push n list h).node? j = ((f.push n list h).cells[j]?).map f.view := rfl
  rw [hcell, push, Array.getElem?_push, node?, size]
  split <;> rfl

theorem list?_push (h : list < f.lists.size) (j : NodeId) :
    (f.push n list h).list? j = if j = f.size then some list else f.list? j := by
  rw [list?, push, Array.getElem?_push, list?, size]
  split <;> rfl

@[simp] theorem size_push (h : list < f.lists.size) : (f.push n list h).size = f.size + 1 :=
  Array.size_push _

/-- A node that is stored with a new list of its children is seen as it is. -/
theorem view_addList_cell (f : Forest) (n : Node) :
    (f.addList n.children).view (n.cell f.lists.size) = n := by
  simp [view, addList, Node.cell]

theorem view_cell_of_children_eq (h : n.children = (f.view c).children) :
    f.view (n.cell c.list) = n := by
  obtain ⟨kind, condition, name, children, owned⟩ := n
  obtain rfl : children = (f.view c).children := h
  rfl

@[simp] theorem size_insert (f : Forest) (n : Node) : (f.insert n).2.size = f.size + 1 :=
  Array.size_push _

theorem node?_insert (f : Forest) (n : Node) (j : NodeId) :
    (f.insert n).2.node? j = if j = f.size then some n else f.node? j := by
  have hpush := node?_push (n := n) (f.size_lists_lt_addList n.children) j
  rwa [view_addList_cell, node?_addList] at hpush

theorem list?_insert (f : Forest) (n : Node) (j : NodeId) :
    (f.insert n).2.list? j = if j = f.size then some f.lists.size else f.list? j :=
  list?_push (f.size_lists_lt_addList n.children) j

theorem modify_eq_self (hi : f.size ≤ i) (change : Node → Node) : f.modify i change = f := by
  have hnone : f.cells[i]? = none := Array.getElem?_eq_none_iff.2 hi
  unfold modify
  split
  · rfl
  · next hc => cases hnone.symm.trans hc

/-- A node is changed with the list that it has, or it gets a new one. -/
theorem modify_cases (hc : f.cells[i]? = some c) (change : Node → Node) :
    ((change (f.view c)).children = (f.view c).children ∧ ∃ h,
      f.modify i change = f.put i (change (f.view c)) c.list h) ∨
    ∃ h, f.modify i change =
      (f.addList (change (f.view c)).children).put i (change (f.view c)) f.lists.size h := by
  unfold modify
  split
  · next hnone => cases hnone.symm.trans hc
  · next c' hc' =>
    obtain rfl := Option.some.inj (hc.symm.trans hc')
    dsimp only
    split
    · next h => exact .inl ⟨h, f.list_lt c (Array.mem_of_getElem? hc), rfl⟩
    · exact .inr ⟨f.size_lists_lt_addList _, rfl⟩

@[simp] theorem size_modify (f : Forest) (i : NodeId) (change : Node → Node) :
    (f.modify i change).size = f.size := by
  cases hc : f.cells[i]? with
  | none => rw [modify_eq_self (Array.getElem?_eq_none_iff.1 hc)]
  | some c =>
    rcases modify_cases hc change with ⟨-, h, heq⟩ | ⟨h, heq⟩
    · rw [heq, size_put]
    · rw [heq, size_put]
      rfl

theorem node?_modify (f : Forest) (i : NodeId) (change : Node → Node) (j : NodeId) :
    (f.modify i change).node? j = if i = j then (f.node? j).map change else f.node? j := by
  cases hc : f.cells[i]? with
  | none =>
    have hi : f.size ≤ i := Array.getElem?_eq_none_iff.1 hc
    rw [modify_eq_self hi]
    split
    · next hij => rw [← hij, node?_eq_none_iff.2 hi, Option.map_none]
    · rfl
  | some c =>
    have hnode : f.node? i = some (f.view c) := by rw [node?, hc, Option.map_some]
    rcases modify_cases hc change with ⟨hsame, h, heq⟩ | ⟨h, heq⟩
    · rw [heq, node?_put, view_cell_of_children_eq hsame]
      split
      · next hij => rw [← hij, hnode, Option.map_some, Option.map_some]
      · rfl
    · rw [heq, node?_put, view_addList_cell, node?_addList]
      split
      · next hij => rw [← hij, hnode, Option.map_some, Option.map_some]
      · rfl

theorem list?_modify_of_ne (h : j ≠ i) (change : Node → Node) :
    (f.modify i change).list? j = f.list? j := by
  cases hc : f.cells[i]? with
  | none => rw [modify_eq_self (Array.getElem?_eq_none_iff.1 hc)]
  | some c =>
    rcases modify_cases hc change with ⟨-, h', heq⟩ | ⟨h', heq⟩
    · rw [heq, list?_put, if_neg h.symm]
    · rw [heq, list?_put, if_neg h.symm, list?_addList]

/-- A node keeps its list or gets a new one. -/
theorem list?_modify_self (f : Forest) (i : NodeId) (change : Node → Node) :
    (f.modify i change).list? i = f.list? i ∨ (f.modify i change).list? i = some f.lists.size := by
  cases hc : f.cells[i]? with
  | none =>
    rw [modify_eq_self (Array.getElem?_eq_none_iff.1 hc)]
    exact .inl rfl
  | some c =>
    have hlist : f.list? i = some c.list := by rw [list?, hc, Option.map_some]
    rcases modify_cases hc change with ⟨-, h, heq⟩ | ⟨h, heq⟩
    · left
      rw [heq, list?_put, if_pos rfl, hlist]
      rfl
    · right
      rw [heq, list?_put, if_pos rfl, list?_addList, hlist]
      rfl

/-- A node keeps its list if it keeps its children. -/
theorem list?_modify (h : ∀ n, (change n).children = n.children) (i j : NodeId) :
    (f.modify i change).list? j = f.list? j := by
  by_cases hij : j = i
  · subst hij
    unfold modify
    split
    · rfl
    · next c hc =>
      rw [if_pos (h _), list?_put, if_pos rfl, list?, hc]
      rfl
  · exact list?_modify_of_ne hij change

@[simp] theorem size_refill (f : Forest) (i : NodeId) (ids : List NodeId) :
    (f.refill i ids).size = f.size := by
  unfold refill
  split <;> rfl

@[simp] theorem list?_refill (f : Forest) (i : NodeId) (ids : List NodeId) (j : NodeId) :
    (f.refill i ids).list? j = f.list? j := by
  unfold refill
  split <;> rfl

/-- New children show in all nodes that have the list. -/
theorem node?_refill (f : Forest) (i : NodeId) (ids : List NodeId) (j : NodeId) :
    (f.refill i ids).node? j =
      (f.node? j).map fun n => if f.Shares i j then { n with children := ids } else n := by
  unfold refill
  split
  · next hnone =>
    have hi : ¬ f.Shares i j := fun h => Nat.not_le.2 h.1 (list?_eq_none_iff.1 hnone)
    simp [hi]
  · next list hlist =>
    have hi : i < f.size := exists_list?_iff.1 ⟨list, hlist⟩
    simp only [node?, Option.map_map]
    cases hc : f.cells[j]? with
    | none => rfl
    | some c =>
      have hshares : f.Shares i j ↔ c.list = list := by
        rw [Shares, hlist, list?, hc]
        simp [hi]
      simp only [Option.map_some, Function.comp_apply, hshares]
      have hlt := list?_lt hlist
      by_cases h : c.list = list
      · simp [view, h, hlt]
      · simp [view, h, Ne.symm h]

@[simp] theorem size_own (f : Forest) (ids : List NodeId) : (f.own ids).size = f.size := by
  induction ids generalizing f with
  | nil => rfl
  | cons i ids ih => exact (ih _).trans (size_modify f i _)

theorem own_cons (f : Forest) (i : NodeId) (ids : List NodeId) :
    f.own (i :: ids) = (f.modify i fun n => { n with owned := true }).own ids :=
  rfl

@[simp] theorem list?_own (f : Forest) (ids : List NodeId) (j : NodeId) :
    (f.own ids).list? j = f.list? j := by
  induction ids generalizing f with
  | nil => rfl
  | cons i ids ih =>
    rw [own_cons, ih]
    exact list?_modify (fun _ => by rfl) i j

theorem node?_own (f : Forest) (ids : List NodeId) (j : NodeId) :
    (f.own ids).node? j = (f.node? j).map fun n => n.own (decide (j ∈ ids)) := by
  induction ids generalizing f with
  | nil => simp [own]
  | cons i ids ih =>
    rw [own_cons, ih, node?_modify]
    by_cases hi : i = j
    · subst hi
      cases f.node? i <;> simp [Node.own]
    · have hj : j ≠ i := Ne.symm hi
      cases f.node? j <;> simp [hi, hj]

@[simp] theorem children_own (f : Forest) (ids : List NodeId) (i : NodeId) :
    (f.own ids).children i = f.children i := by
  rw [children, node?_own, children]
  cases f.node? i <;> rfl

@[simp] theorem shares_own : (f.own ids).Shares i j ↔ f.Shares i j := by
  simp [Shares]

theorem mem_children_iff {c : NodeId} :
    c ∈ f.children i ↔ ∃ n, f.node? i = some n ∧ c ∈ n.children := by
  rw [children]
  cases f.node? i <;> simp

/-! ### Checks -/

theorem require_eq_ok_iff (e : BuildError) (b : Bool) (u : Unit) : e.require b = .ok u ↔ b := by
  cases b <;> simp [BuildError.require]

theorem bind_eq_ok_iff {α β : Type} {x : Except BuildError α} {next : α → Except BuildError β}
    {b : β} : (x >>= next) = .ok b ↔ ∃ a, x = .ok a ∧ next a = .ok b := by
  cases x with
  | error e => exact ⟨nofun, fun ⟨_, h, _⟩ => nomatch h⟩
  | ok a => exact ⟨fun h => ⟨a, rfl, h⟩, fun ⟨_, h, h'⟩ => by cases h; exact h'⟩

theorem get_eq_ok_iff : f.get i = .ok n ↔ f.node? i = some n := by
  rw [get]
  cases f.node? i <;> simp

/-- A node may become a child of `parent`: it belongs to no node, it is not the parent, and if the
parent belongs to a node, the search for the parent below the child ends in vain. -/
def MayAdopt (f : Forest) (parent child : NodeId) : Prop :=
  ∃ p c, f.node? parent = some p ∧ f.node? child = some c ∧ c.owned = false ∧ child ≠ parent ∧
    (p.owned → f.contains? child parent = some false)

theorem requireNotBelow_eq_ok_iff {parent child : NodeId} {u : Unit} :
    f.requireNotBelow parent child = .ok u ↔ f.contains? child parent = some false := by
  rw [requireNotBelow]
  cases f.contains? child parent <;> simp [require_eq_ok_iff]

theorem requireAdoptable_eq_ok_iff {parent child : NodeId} {u : Unit} :
    f.requireAdoptable parent child = .ok u ↔ f.MayAdopt parent child := by
  have hsearch : ∀ p : Node, (if p.owned then f.requireNotBelow parent child else .ok ()) = .ok u ↔
      (p.owned → f.contains? child parent = some false) := by
    intro p
    cases p.owned <;> simp [requireNotBelow_eq_ok_iff]
  simp only [requireAdoptable, bind_eq_ok_iff, get_eq_ok_iff, require_eq_ok_iff, exists_const,
    hsearch, MayAdopt, Bool.not_eq_true', bne_iff_ne]
  grind

theorem requireBodies_eq_ok_iff {bodies : List NodeId} {u : Unit} :
    f.requireBodies i bodies = .ok u ↔
      ∀ b ∈ bodies, f.kind? b = some .block ∧ f.MayAdopt i b := by
  induction bodies with
  | nil => simp [requireBodies]
  | cons b bodies ih =>
    simp only [requireBodies, bind_eq_ok_iff, get_eq_ok_iff, require_eq_ok_iff, exists_const,
      requireAdoptable_eq_ok_iff, ih, List.forall_mem_cons, kind?, Option.map_eq_some_iff,
      beq_iff_eq]
    grind

/-! ### Building steps -/

/-- A node that can still become any statement. -/
def IsPlaceholder (f : Forest) (i : NodeId) : Prop := ∃ n, f.node? i = some n ∧ n.isEmpty

theorem requireEmpty_eq_ok_iff {u : Unit} : n.requireEmpty = .ok u ↔ n.isEmpty :=
  require_eq_ok_iff _ _ _

theorem requireKind_eq_ok_iff {kinds : List Kind} {u : Unit} :
    n.requireKind kinds = .ok u ↔ n.kind ∈ kinds := by
  rw [Node.requireKind, require_eq_ok_iff, List.contains_eq_mem, decide_eq_true_iff]

theorem assemble_eq_ok_iff {kind : Kind} {c : Condition} {bodies : List NodeId} :
    f.assemble i kind c bodies = .ok g ↔
      f.IsPlaceholder i ∧ (∀ b ∈ bodies, f.kind? b = some .block ∧ f.MayAdopt i b) ∧
      bodies.Nodup ∧ g = (f.own bodies).modify i fun n =>
        { n with kind := kind, condition := some c, children := bodies } := by
  simp only [assemble, bind_eq_ok_iff, get_eq_ok_iff, requireEmpty_eq_ok_iff,
    requireBodies_eq_ok_iff, require_eq_ok_iff, exists_const, decide_eq_true_iff,
    Except.ok.injEq, IsPlaceholder]
  grind

theorem assembleCall_eq_ok_iff {name : String} :
    f.assembleCall i name = .ok g ↔
      f.IsPlaceholder i ∧ Token.isIdentifier name ∧
      g = f.modify i fun n => { n with kind := .call, name := some name } := by
  simp only [assembleCall, bind_eq_ok_iff, get_eq_ok_iff, requireEmpty_eq_ok_iff,
    require_eq_ok_iff, exists_const, Except.ok.injEq, IsPlaceholder]
  grind

theorem addToBlock_eq_ok_iff {index : Int} {child : NodeId} :
    f.addToBlock i index child = .ok g ↔
      f.kind? i = some .block ∧ 0 ≤ index ∧ index ≤ (f.children i).length ∧
      (∃ k, f.kind? child = some k ∧ k ≠ .block) ∧ f.MayAdopt i child ∧
      g = (f.own [child]).refill i ((f.children i).insertIdx index.toNat child) := by
  simp only [addToBlock, bind_eq_ok_iff, get_eq_ok_iff, requireKind_eq_ok_iff,
    requireAdoptable_eq_ok_iff, require_eq_ok_iff, exists_const, Except.ok.injEq, kind?, children,
    Option.map_eq_some_iff, List.mem_singleton, Bool.and_eq_true, decide_eq_true_iff, bne_iff_ne]
  constructor
  · rintro ⟨n, hn, hk, ⟨hi, hi'⟩, c, hc, hck, ha, rfl⟩
    exact ⟨⟨n, hn, hk⟩, hi, by simpa [hn] using hi', ⟨c.kind, ⟨c, hc, rfl⟩, hck⟩, ha,
      by simp [hn]⟩
  · rintro ⟨⟨n, hn, hk⟩, hi, hi', ⟨_, ⟨c, hc, rfl⟩, hck⟩, ha, rfl⟩
    exact ⟨n, hn, hk, ⟨hi, by simpa [hn] using hi'⟩, c, hc, hck, ha, by simp [hn]⟩

end Forest

end BlockLang
