import BlockLang.Proofs.Forest.Growth
import BlockLang.Proofs.Forest.Legal
import BlockLang.Proofs.Forest.Sprouting

/-! Nodes that get new trees. A placeholder that becomes a statement is the only node to change; a
block changes together with all the nodes that have its list, and only by the new trees at its end.
Only new nodes lie below new ones. This is so whether the trees are planted at once or come from
building steps. -/

namespace BlockLang

open Relation

/-- The node that a placeholder becomes when it is made a statement with some nodes for children. -/
def Node.become (n : Node) (ids : List NodeId) : Statement → Node
  | .node kind condition name _ =>
    { n with
      kind := kind, condition := condition.or n.condition, name := name.or n.name, children := ids }

/-- A block with some more nodes at its end. -/
def Node.extend (n : Node) (ids : List NodeId) : Node := { n with children := n.children ++ ids }

namespace Forest

/-- Trees of nodes that are not in a forest `f` yet. -/
structure NewTrees (f g : Forest) (ids : List NodeId) (xs : List Statement) : Prop where
  nodup : ids.Nodup
  new : ∀ c ∈ ids, f.size ≤ c ∧ ∀ d, g.Below c d → f.size ≤ d
  trees : List.Forall₂ (fun c x => g.statement? c = some x) ids xs

/-- A node of a forest has changed and has new trees among its children, and apart from them nothing
has: no other node has changed, and all that lies below the new children is new. -/
structure Bears (f g : Forest) (i : NodeId) (m : Node) (ids : List NodeId)
    (xs : List Statement) : Prop extends f.NewTrees g ids xs where
  old : ∀ j < f.size, j ≠ i → g.node? j = f.node? j
  node : g.node? i = some m

/-- The list of a node has got new trees at its end, in all the nodes that have it, and apart from
that nothing has changed. -/
structure Appends (f g : Forest) (i : NodeId) (ids : List NodeId) (xs : List Statement) : Prop
    extends f.NewTrees g ids xs where
  holder : ∀ j, f.Shares i j → g.node? j = (f.node? j).map fun n => n.extend ids
  other : ∀ j < f.size, ¬ f.Shares i j → g.node? j = f.node? j

variable {f g k : Forest} {i j c d lo depth depth' : Nat} {n m : Node} {ids roots : List NodeId}
  {s x : Statement} {xs : List Statement} {change : Node → Node} {changed : NodeId → Prop}

theorem Appends.node (h : f.Appends g i ids xs) (hn : f.node? i = some n) :
    g.node? i = some (n.extend ids) := by
  rw [h.holder i (.refl (lt_size_of_node? hn)), hn, Option.map_some]

/-- If no other node has the list, the node is the only one to change. -/
theorem Appends.bears (h : f.Appends g i ids xs) (hn : f.node? i = some n) (ha : f.Alone i) :
    f.Bears g i (n.extend ids) ids xs where
  toNewTrees := h.toNewTrees
  old j hj hji := h.other j hj fun hij => hji (ha j hij)
  node := h.node hn

/-! ### Trees of nodes from some identity on -/

/-- A tree stays the same if its nodes change nothing but their owners; and more levels than a tree
has make no difference. -/
theorem unfold_of_same (hf : f.StaysFrom lo)
    (hg : ∀ j n, lo ≤ j → f.node? j = some n → ∃ b, g.node? j = some { n with owned := b })
    (hd : depth ≤ depth') (hi : lo ≤ i) (hx : f.unfold depth i = some x) :
    g.unfold depth' i = some x := by
  induction depth generalizing i x depth' with
  | zero => cases hx
  | succ depth ih =>
    obtain ⟨n, xs, hn, hxs, rfl⟩ := unfold_succ_eq_some_iff.1 hx
    obtain ⟨depth', rfl⟩ := Nat.exists_eq_add_of_le' hd
    obtain ⟨b, hb⟩ := hg i n hi hn
    refine unfold_succ_eq_some_iff.2 ⟨_, xs, hb, forall₂_imp_of_mem hxs fun c hc y _ hcy => ?_, rfl⟩
    exact ih (Nat.le_add_left _ _) (hf i c hi (mem_children_iff.2 ⟨n, hn, hc⟩)) hcy

/-! ### Planted trees -/

/-- The trees below nodes stay the same when more is planted. -/
theorem Planted.unfold_eq (hp : Planted f g roots) (hd : depth ≤ depth')
    (hx : f.unfold depth i = some x) : g.unfold depth' i = some x :=
  unfold_of_same f.staysFrom_zero
    (fun _ n _ hn => ⟨n.owned, hp.old.node?_of hn⟩) hd
    (Nat.zero_le i) hx

/-- Trees can be read off their roots, where the children are older than their parent. -/
def ShowsRoots (g : Forest) (ids : List NodeId) (xs : List Statement) : Prop :=
  List.Forall₂ (fun c x => g.unfold (c + 1) c = some x) ids xs

theorem showsRoots_plantAll_of (hxs : ∀ x ∈ xs, ∀ f : Forest,
    (plant x f).2.unfold ((plant x f).1 + 1) (plant x f).1 = some x) (f : Forest) :
    (plantAll xs f).2.ShowsRoots (plantAll xs f).1 xs := by
  induction xs generalizing f with
  | nil => exact .nil
  | cons x xs ih =>
    obtain ⟨hx, hxs⟩ := List.forall_mem_cons.1 hxs
    exact .cons ((planted_plantAll xs _).unfold_eq (Nat.le_refl _) (hx f)) (ih hxs _)

theorem unfold_plant (x : Statement) (f : Forest) :
    (plant x f).2.unfold ((plant x f).1 + 1) (plant x f).1 = some x := by
  induction x using Statement.children_induction generalizing f with
  | node kind condition name xs ih =>
    have hxs := showsRoots_plantAll_of ih f
    have hp := planted_plantAll xs f
    rw [plant]
    generalize plantAll xs f = planted at hxs hp ⊢
    obtain ⟨ids, g⟩ := planted
    have hroot : (g.insertAbove kind condition name ids).1 = g.size := size_own _ _
    dsimp only at hxs hp ⊢
    rw [hroot]
    have hnew : (g.insertAbove kind condition name ids).2.node? g.size =
        some ⟨kind, condition, name, ids, false⟩ := by rw [node?_insertAbove, if_pos rfl]
    refine unfold_succ_eq_some_iff.2 ⟨_, xs, hnew, forall₂_imp_of_mem hxs ?_, rfl⟩
    · intro c hc y _ hcy
      refine unfold_of_same g.staysFrom_zero (fun j n _ hn => ?_) (hp.roots c hc).2.1
        (Nat.zero_le c) hcy
      refine ⟨n.owned || decide (j ∈ ids), ?_⟩
      rw [node?_insertAbove, if_neg (Nat.ne_of_lt (lt_size_of_node? hn)), hn]
      rfl

theorem showsRoots_plantAll (xs : List Statement) (f : Forest) :
    (plantAll xs f).2.ShowsRoots (plantAll xs f).1 xs :=
  showsRoots_plantAll_of (fun x _ => unfold_plant x) f

/-- Planted trees stay the same when old nodes change. -/
theorem Planted.newTrees (hp : Planted f g ids) (hxs : g.ShowsRoots ids xs)
    (ha : g.Alters k changed ids change) (hchanged : ∀ j, changed j → j < f.size) :
    f.NewTrees k ids xs := by
  have hnot : ∀ j, f.size ≤ j → ¬ changed j := fun j hj hj' => Nat.not_lt.2 hj (hchanged j hj')
  refine ⟨hp.nodup, fun c hc => ⟨(hp.roots c hc).1, fun d hd => ?_⟩, ?_⟩
  · have hstays : k.StaysFrom f.size := fun j c hj hjc =>
      hp.le_child j c hj ((ha.child_of_not (hnot j hj)).1 hjc)
    exact hstays.le_of_below (hp.roots c hc).1 hd
  · refine forall₂_imp_of_mem hxs fun c hc y _ hcy => ?_
    refine unfold_of_same hp.le_child (fun j n hj hn => ?_) ?_ (hp.roots c hc).1 hcy
    · refine ⟨n.owned || decide (j ∈ ids), ?_⟩
      rw [ha.node?_other j (hnot j hj), hn]
      rfl
    · rw [ha.size_eq]
      exact (hp.roots c hc).2.1

/-- New nodes are owned without a change to the old ones. -/
theorem Extends.node?_of_alters (hfg : f.Extends g) (ha : g.Alters k changed ids change)
    (hids : ∀ c ∈ ids, f.size ≤ c) (hj : j < f.size) (hchanged : ¬ changed j) :
    k.node? j = f.node? j := by
  have hmem : j ∉ ids := fun hmem => Nat.not_lt.2 (hids j hmem) hj
  rw [ha.node?_other j hchanged, hfg.node?_eq j hj]
  simp [hmem]

theorem Extends.node?_of_feeds {ys : List NodeId} (hfg : f.Extends g) (ha : g.Feeds k i ids ys)
    (hids : ∀ c ∈ ids, f.size ≤ c) (hj : j < f.size) (hij : g.Shares i j) :
    k.node? j = (f.node? j).map fun n => { n with children := ys } := by
  have hmem : j ∉ ids := fun hmem => Nat.not_lt.2 (hids j hmem) hj
  rw [ha.node?_changed j hij, hfg.node?_eq j hj]
  simp [hmem]

theorem Planted.new (hp : Planted f g ids) : ∀ c ∈ ids, f.size ≤ c := fun c hc => (hp.roots c hc).1

theorem appends_append (hi : i < f.size) (xs : List Statement) :
    ∃ ids, f.Appends (f.append i xs) i ids xs := by
  have hp := planted_plantAll xs f
  have hfeeds := feeds_append f i xs
  have hiff : ∀ j, (plantAll xs f).2.Shares i j ↔ f.Shares i j := fun j => hp.old.shares_iff hi
  refine ⟨_, hp.newTrees (showsRoots_plantAll xs f) hfeeds.toAlters fun j hj =>
    ((hiff j).1 hj).lt_size, fun j hj => ?_, fun j hj hij => ?_⟩
  · refine (hp.old.node?_of_feeds hfeeds hp.new hj.lt_size ((hiff j).2 hj)).trans ?_
    rw [← hj.children_eq]
    cases hn : f.node? j <;> simp [children, hn, Node.extend]
  · exact hp.old.node?_of_alters hfeeds.toAlters hp.new hj (mt (hiff j).1 hij)

theorem bears_graft (hn : f.node? i = some n) (he : n.isEmpty) (x : Statement) :
    ∃ g ids, f.graft i x = .ok g ∧ f.Bears g i (n.become ids x) ids x.children := by
  obtain ⟨kind, condition, name, xs⟩ := x
  have hp := planted_plantAll xs f
  have hi := lt_size_of_node? hn
  have hmem : i ∉ (plantAll xs f).1 := fun hmem => Nat.not_lt.2 (hp.new i hmem) hi
  obtain ⟨g, hg, hadopts⟩ : ∃ g, f.graft i (.node kind condition name xs) = .ok g ∧
      (plantAll xs f).2.Adopts g i (plantAll xs f).1 fun n =>
        n.become (plantAll xs f).1 (.node kind condition name xs) :=
    ⟨_, bind_eq_ok_iff.2 ⟨n, get_eq_ok_iff.2 hn,
      bind_eq_ok_iff.2 ⟨(), requireEmpty_eq_ok_iff.2 he, rfl⟩⟩, adopts_modify hmem fun _ => rfl⟩
  refine ⟨g, _, hg, hp.newTrees (showsRoots_plantAll xs f) hadopts.toAlters ?_,
    fun _ hj => hp.old.node?_of_alters hadopts.toAlters hp.new hj,
    hadopts.node?_self (hp.old.node?_of hn)⟩
  rintro j rfl
  exact hi

/-! ### Refusals -/

theorem bind_requireEmpty_of_not {α : Type} (he : n.isEmpty = false)
    (next : Unit → Except BuildError α) :
    (n.requireEmpty >>= next) = .error (.assembled n.kind) := by
  rw [Node.requireEmpty, he]
  rfl

theorem graft_of_not_isEmpty (hn : f.node? i = some n) (he : n.isEmpty = false)
    (x : Statement) : f.graft i x = .error (.assembled n.kind) := by
  obtain ⟨kind, condition, name, xs⟩ := x
  rw [graft, get_eq_ok_iff.2 hn]
  exact bind_requireEmpty_of_not he _

theorem assemble_of_not_isEmpty (hn : f.node? i = some n) (he : n.isEmpty = false) (kind : Kind)
    (c : Condition) (bodies : List NodeId) :
    f.assemble i kind c bodies = .error (.assembled n.kind) := by
  rw [assemble, get_eq_ok_iff.2 hn]
  exact bind_requireEmpty_of_not he _

theorem assembleCall_of_not_isEmpty (hn : f.node? i = some n) (he : n.isEmpty = false)
    (name : String) : f.assembleCall i name = .error (.assembled n.kind) := by
  rw [assembleCall, get_eq_ok_iff.2 hn]
  exact bind_requireEmpty_of_not he _

/-! ### Built trees -/

theorem Shows.child (hs : f.Shows i s) (hc : f.Child i c) : i < c ∧ ∃ x, f.Shows c x := by
  cases hs with
  | node hn hlt hxs =>
    obtain ⟨n', hn', hc⟩ := mem_children_iff.1 hc
    obtain rfl := Option.some.inj (hn.symm.trans hn')
    obtain ⟨x, -, hx⟩ := exists_mem_of_forall₂ hxs.flip c hc
    exact ⟨hlt c hc, x, hx⟩

/-- All that lies below the root of a built tree is newer. -/
theorem Shows.lt_of_below (hs : f.Shows i s) (hb : f.Below i j) : i < j := by
  have hboth : i < j ∧ ∃ x, f.Shows j x := by
    induction hb with
    | single hic => exact hs.child hic
    | tail _ hjk ih =>
      obtain ⟨hij, x, hx⟩ := ih
      obtain ⟨hjk, y, hy⟩ := hx.child hjk
      exact ⟨hij.trans hjk, y, hy⟩
  exact hboth.1

/-- Below the root of a built tree the nodes get newer and newer, so a search there ends. -/
theorem Shows.contains?_eq_false (hs : f.Shows c s) (hi : i < c) :
    f.contains? c i = some false := by
  have hin : ∀ j d, (∃ x, f.Shows j x) → f.Child j d →
      (∃ x, f.Shows d x) ∧ f.size - d < f.size - j := by
    rintro j d ⟨x, hx⟩ hjd
    obtain ⟨hlt, y, hy⟩ := hx.child hjd
    exact ⟨⟨y, hy⟩, Nat.sub_lt_sub_left hjd.lt_size hlt⟩
  obtain ⟨found, hcontains⟩ := exists_contains?_of_rank hin ⟨s, hs⟩ i
  cases found with
  | false => exact hcontains
  | true =>
    have hbelow := (contains?_eq_some hcontains).1 rfl
    exact absurd (hs.lt_of_below hbelow) (Nat.not_lt.2 hi.le)

/-- The root of a built tree may become the child of any older node. -/
theorem Shows.mayAdopt (hs : f.Shows c s) (hfree : f.IsFree c) (hn : f.node? i = some n)
    (hi : i < c) : f.MayAdopt i c := by
  obtain ⟨m, hm, ho⟩ := hfree
  exact ⟨n, m, hn, hm, ho, hi.ne', fun _ => hs.contains?_eq_false hi⟩

/-- Roots of trees that have been built since a forest `f`. -/
structure NewRoots (f g : Forest) (ids : List NodeId) (xs : List Statement) : Prop where
  nodup : ids.Nodup
  new : ∀ c ∈ ids, f.size ≤ c
  trees : List.Forall₂ g.Shows ids xs

theorem newRoots_nil (f g : Forest) : f.NewRoots g [] [] :=
  ⟨List.nodup_nil, List.forall_mem_nil _, .nil⟩

theorem NewRoots.newTrees (h : f.NewRoots g ids xs) : f.NewTrees g ids xs where
  nodup := h.nodup
  new c hc := by
    obtain ⟨x, -, hx⟩ := exists_mem_of_forall₂ h.trees.flip c hc
    exact ⟨h.new c hc, fun d hd => (h.new c hc).trans (hx.lt_of_below hd).le⟩
  trees := h.trees.imp fun _ _ hx => hx.statement?_eq

theorem NewRoots.of_extends (h : f.NewRoots g ids xs) (hgk : g.Extends k) :
    f.NewRoots k ids xs :=
  ⟨h.nodup, h.new, h.trees.imp fun _ _ hx => hgk.shows_of hx⟩

theorem NewRoots.of_alters {more : List NodeId} (h : f.NewRoots g ids xs)
    (ha : g.Alters k changed more change) (hchanged : ∀ j, changed j → j < f.size) :
    f.NewRoots k ids xs where
  nodup := h.nodup
  new := h.new
  trees := forall₂_imp_of_mem h.trees fun c hc _ _ hx =>
    hx.of_alters ha fun j hj => (hchanged j hj).trans_le (h.new c hc)

/-- One more tree that has sprouted. -/
theorem NewRoots.concat (h : f.NewRoots g ids xs) (hsize : f.size ≤ g.size)
    (hgk : g.Sprouts x k) : f.NewRoots k (ids ++ [g.size]) (xs ++ [x]) where
  nodup := by
    refine List.nodup_append'.2 ⟨h.nodup, List.nodup_singleton _, fun c hc hmem => ?_⟩
    obtain ⟨y, -, hy⟩ := exists_mem_of_forall₂ h.trees.flip c hc
    exact Nat.lt_irrefl _ (List.mem_singleton.1 hmem ▸ hy.lt_size)
  new := List.forall_mem_append.2 ⟨h.new, by simpa using hsize⟩
  trees := List.rel_append (h.of_extends hgk.old).trees (.cons hgk.tree .nil)

/-- The list of a node has got trees at its end that have been built since, in all the nodes that
have it. -/
structure Carries (f g : Forest) (i : NodeId) (ids : List NodeId) (xs : List Statement) : Prop
    extends f.NewRoots g ids xs where
  size_le : f.size ≤ g.size
  shares_iff : ∀ j, g.Shares i j ↔ f.Shares i j
  holder : ∀ j, f.Shares i j → g.node? j = (f.node? j).map fun n => n.extend ids
  other : ∀ j < f.size, ¬ f.Shares i j → g.node? j = f.node? j

theorem Carries.appends (h : f.Carries g i ids xs) : f.Appends g i ids xs :=
  ⟨h.toNewRoots.newTrees, h.holder, h.other⟩

theorem carries_refl (f : Forest) (i : NodeId) : f.Carries f i [] [] where
  toNewRoots := newRoots_nil f f
  size_le := Nat.le_refl _
  shares_iff _ := Iff.rfl
  holder j _ := by cases hn : f.node? j <;> simp [Node.extend]
  other _ _ _ := rfl

/-- New nodes make no difference to what the list has got. -/
theorem Carries.of_extends (h : f.Carries g i ids xs) (hi : i < f.size) (hgk : g.Extends k) :
    f.Carries k i ids xs where
  toNewRoots := h.toNewRoots.of_extends hgk
  size_le := h.size_le.trans hgk.size_le
  shares_iff j := (hgk.shares_iff (hi.trans_le h.size_le)).trans (h.shares_iff j)
  holder j hj := (hgk.node?_eq j (hj.lt_size.trans_le h.size_le)).trans (h.holder j hj)
  other j hj hij := (hgk.node?_eq j (hj.trans_le h.size_le)).trans (h.other j hj hij)

/-- An old block takes a tree that has sprouted as its last element. -/
theorem Carries.exists_addToBlock (h : f.Carries g i ids xs) (hn : f.node? i = some n)
    (hk : n.kind = .block) (hgk : g.Sprouts x k) (hx : x.kind ≠ .block) :
    ∃ k', k.addToBlock i ((n.children ++ ids).length : Nat) g.size = .ok k' ∧
      f.Carries k' i (ids ++ [g.size]) (xs ++ [x]) := by
  have hi := lt_size_of_node? hn
  have hroots := h.toNewRoots.concat h.size_le hgk
  have hshares : ∀ j, k.Shares i j ↔ f.Shares i j := fun j =>
    (hgk.old.shares_iff (hi.trans_le h.size_le)).trans (h.shares_iff j)
  have hnode : ∀ j < f.size, k.node? j = g.node? j := fun j hj =>
    hgk.old.node?_eq j (hj.trans_le h.size_le)
  have hself : k.node? i = some (n.extend ids) := by
    rw [hnode i hi, h.holder i (.refl hi), hn, Option.map_some]
  have hkind : k.kind? g.size = some x.kind := by
    cases hgk.tree with
    | node hm _ _ => rw [kind?, hm]; rfl
  obtain ⟨k', hk'⟩ : ∃ k', k.addToBlock i ((n.children ++ ids).length : Nat) g.size = .ok k' := by
    refine ⟨_, addToBlock_eq_ok_iff.2 ⟨?_, Int.natCast_nonneg _, ?_, ⟨_, hkind, hx⟩,
      hgk.tree.mayAdopt hgk.free hself (hi.trans_le h.size_le), rfl⟩⟩
    · rw [kind?, hself, ← hk]
      rfl
    · simp [children, hself, Node.extend]
  have hfeeds := feeds_of_addToBlock hk'
  have hend : (k.children i).insertIdx ((n.children ++ ids).length : Int).toNat g.size =
      n.children ++ (ids ++ [g.size]) := by
    rw [children, hself, Int.toNat_natCast, ← List.append_assoc]
    exact List.insertIdx_length_self
  rw [hend] at hfeeds
  have hold : ∀ j < f.size, j ∉ [g.size] := by
    intro j hj hmem
    exact Nat.not_lt.2 h.size_le (List.mem_singleton.1 hmem ▸ hj)
  refine ⟨k', hk', hroots.of_alters hfeeds.toAlters fun j hj => ((hshares j).1 hj).lt_size,
    ?_, fun j => hfeeds.shares_iff.trans (hshares j), fun j hj => ?_, fun j hj hij => ?_⟩
  · rw [hfeeds.size_eq]
    exact h.size_le.trans hgk.old.size_le
  · have hchildren := hj.children_eq
    rw [hfeeds.node?_changed j ((hshares j).2 hj), hnode j hj.lt_size, h.holder j hj]
    obtain ⟨m, hm⟩ := exists_node?_iff.2 hj.lt_size
    simp only [children, hm, hn, Option.elim_some] at hchildren
    simp [hm, hold j hj.lt_size, Node.extend, hchildren]
  · rw [hfeeds.node?_other j (mt (hshares j).1 hij), hnode j hj, h.other j hj hij]
    simp [hold j hj]

/-- A node that adopts trees that have been built since bears them. -/
theorem NewRoots.bears (h : f.NewRoots g ids xs) (hfg : f.Extends g) (hn : f.node? i = some n)
    (ha : g.Adopts k i ids change) : f.Bears k i (change n) ids xs where
  toNewTrees := by
    refine (h.of_alters ha.toAlters ?_).newTrees
    rintro j rfl
    exact lt_size_of_node? hn
  old _ hj hji := hfg.node?_of_alters ha.toAlters h.new hj hji
  node := ha.node?_self (hfg.node?_of hn)

/-- Free blocks that have been built since, for the bodies of a statement. -/
structure NewBodies (f g : Forest) (ids : List NodeId) (xs : List Statement) : Prop
    extends f.NewRoots g ids xs where
  free : ∀ b ∈ ids, g.IsFree b ∧ g.kind? b = some .block

theorem Sprouts.newBodies (hs : f.Sprouts (.block xs) g) :
    f.NewBodies g [f.size] [.block xs] where
  toNewRoots := (newRoots_nil f f).concat (Nat.le_refl _) hs
  free := by simpa using hs.isFree_and_kind? (.refl g)

theorem Sprouts.newBodies_two {ys : List Statement} (hs : f.Sprouts (.block xs) g)
    (hs' : g.Sprouts (.block ys) k) :
    f.NewBodies k [f.size, g.size] [.block xs, .block ys] where
  toNewRoots := hs.newBodies.concat hs.old.size_le hs'
  free := by simpa using ⟨hs.isFree_and_kind? hs'.old, hs'.isFree_and_kind? (.refl k)⟩

/-- An old placeholder becomes a test with bodies that have been built since. -/
theorem NewBodies.exists_assemble (hb : f.NewBodies g ids xs) (hfg : f.Extends g)
    (hn : f.node? i = some n) (he : n.isEmpty) (kind : Kind) (c : Condition) :
    ∃ k, g.assemble i kind c ids = .ok k ∧
      f.Bears k i (n.become ids (.node kind (some c) none xs)) ids xs := by
  have hi := lt_size_of_node? hn
  have hn' := hfg.node?_of hn
  obtain ⟨k, hk⟩ : ∃ k, g.assemble i kind c ids = .ok k := by
    refine ⟨_, assemble_eq_ok_iff.2 ⟨⟨n, hn', he⟩, fun b hmem => ?_, hb.nodup, rfl⟩⟩
    obtain ⟨hfree, hk⟩ := hb.free b hmem
    obtain ⟨x, -, hx⟩ := exists_mem_of_forall₂ hb.trees.flip b hmem
    exact ⟨hk, hx.mayAdopt hfree hn' (hi.trans_le (hb.new b hmem))⟩
  exact ⟨k, hk, hb.toNewRoots.bears hfg hn (adopts_of_assemble hk)⟩

/-- An old placeholder becomes a call. -/
theorem Extends.exists_assembleCall (hfg : f.Extends g) (hn : f.node? i = some n)
    (he : n.isEmpty) {name : String} (hname : Token.isIdentifier name) :
    ∃ k, g.assembleCall i name = .ok k ∧ f.Bears k i (n.become [] (.call name)) [] [] := by
  have hnode : n.become [] (.call name) = { n with kind := .call, name := some name } := by
    obtain ⟨kind, condition, _, children, owned⟩ := n
    obtain rfl : children = [] := (Node.isEmpty_iff.1 he).2
    rfl
  obtain ⟨k, hk⟩ : ∃ k, g.assembleCall i name = .ok k :=
    ⟨_, assembleCall_eq_ok_iff.2 ⟨⟨n, hfg.node?_of hn, he⟩, hname, rfl⟩⟩
  refine ⟨k, hk, ?_⟩
  rw [hnode]
  exact (newRoots_nil f g).bears hfg hn (adopts_of_assembleCall hk)

end Forest

end BlockLang
