import BlockLang.Proofs.Forest.Change
import BlockLang.Proofs.Grammar

/-! Trees of new nodes. A forest sprouts a tree when new nodes are added to it and nothing else
changes: the root comes first, every child later than its parent, and the root is free. Such a tree
is put together by building steps, none of which is ever refused. -/

namespace BlockLang

namespace Forest

/-- A tree can be read off a forest from a node on, and every child is newer than its parent. -/
inductive Shows (f : Forest) : NodeId → Statement → Prop where
  | node {i : NodeId} {n : Node} {xs : List Statement} : f.node? i = some n →
      (∀ c ∈ n.children, i < c) → List.Forall₂ (Shows f) n.children xs →
      Shows f i (.node n.kind n.condition n.name xs)

/-- All nodes of a forest are there in another one, unchanged, and every new node has a list of its
own. -/
structure Extends (f g : Forest) : Prop where
  size_le : f.size ≤ g.size
  node?_eq : ∀ j < f.size, g.node? j = f.node? j
  list?_eq : ∀ j < f.size, g.list? j = f.list? j
  alone : ∀ j, f.size ≤ j → g.Alone j

/-- A node is known and belongs to no other. -/
def IsFree (f : Forest) (i : NodeId) : Prop := ∃ n, f.node? i = some n ∧ n.owned = false

/-- One forest is another one with new nodes, the first of which is the free root of a tree. -/
structure Sprouts (f : Forest) (s : Statement) (g : Forest) : Prop where
  old : f.Extends g
  tree : g.Shows f.size s
  free : g.IsFree f.size

variable {f g h : Forest} {i j k c : NodeId} {n : Node} {ids : List NodeId} {s : Statement}
  {xs : List Statement} {change : Node → Node}

/-! ### Reading trees -/

theorem forall₂_imp_of_mem {α β : Type} {R S : α → β → Prop} {as : List α} {bs : List β}
    (h : List.Forall₂ R as bs) (hRS : ∀ a ∈ as, ∀ b ∈ bs, R a b → S a b) :
    List.Forall₂ S as bs := by
  induction h with
  | nil => exact .nil
  | cons hab _ ih =>
    refine .cons (hRS _ List.mem_cons_self _ List.mem_cons_self hab) (ih fun a ha b hb => ?_)
    exact hRS a (List.mem_cons_of_mem _ ha) b (List.mem_cons_of_mem _ hb)

theorem Shows.lt_size (hs : f.Shows i s) : i < f.size := by
  cases hs with
  | node hn _ _ => exact lt_size_of_node? hn

/-- A tree stays as it is if its root and the newer nodes change nothing but their owners. -/
theorem Shows.of_same (hs : f.Shows i s)
    (hg : ∀ j n, i ≤ j → f.node? j = some n → ∃ b, g.node? j = some { n with owned := b }) :
    g.Shows i s := by
  induction s using Statement.children_induction generalizing i with
  | node k condition name xs ih =>
    obtain ⟨n, hn, hlt, hxs, rfl, rfl, rfl⟩ : ∃ n, f.node? i = some n ∧
        (∀ c ∈ n.children, i < c) ∧ List.Forall₂ f.Shows n.children xs ∧
        n.kind = k ∧ n.condition = condition ∧ n.name = name := by
      cases hs with
      | node hn hlt hxs => exact ⟨_, hn, hlt, hxs, rfl, rfl, rfl⟩
    obtain ⟨b, hb⟩ := hg i n (Nat.le_refl i) hn
    refine .node (n := { n with owned := b }) hb hlt ?_
    refine forall₂_imp_of_mem hxs fun c hc x hx hcx => ?_
    exact ih x hx hcx fun j m hj => hg j m (Nat.le_trans (Nat.le_of_lt (hlt c hc)) hj)

/-- As many levels as there are nodes from the root on are enough to read a tree. -/
theorem Shows.unfold_eq (hs : f.Shows i s) {depth : Nat} (hd : f.size ≤ i + depth) :
    f.unfold depth i = some s := by
  induction s using Statement.children_induction generalizing i depth with
  | node k condition name xs ih =>
    have hi := hs.lt_size
    cases hs with
    | @node _ n _ hn hlt hxs =>
      obtain ⟨depth, rfl⟩ := Nat.exists_eq_succ_of_ne_zero
        (Nat.pos_of_lt_add_right (hi.trans_le hd)).ne'
      refine unfold_succ_eq_some_iff.2 ⟨n, xs, hn, forall₂_imp_of_mem hxs ?_, rfl⟩
      intro c hc x hx hcx
      refine ih x hx hcx ?_
      calc f.size ≤ i + 1 + depth := by rwa [Nat.add_right_comm]
        _ ≤ c + depth := Nat.add_le_add_right (hlt c hc) depth

theorem Shows.statement?_eq (hs : f.Shows i s) : f.statement? i = some s :=
  hs.unfold_eq (Nat.le_add_left _ _)

/-! ### Extensions -/

theorem Extends.refl (f : Forest) : f.Extends f :=
  ⟨Nat.le_refl _, fun _ _ => rfl, fun _ _ => rfl, fun _ hj _ h => absurd h.1 (Nat.not_lt.2 hj)⟩

/-- Old nodes have lists between them as before. -/
theorem Extends.shares_iff (h : f.Extends g) (hj : j < f.size) : g.Shares j k ↔ f.Shares j k := by
  have hlist : ∀ l < f.size, g.list? l = f.list? l := h.list?_eq
  constructor
  · intro hjk
    have hk : k < f.size := by
      by_contra hk
      have hjk' := h.alone k (Nat.le_of_not_lt hk) j hjk.symm
      exact hk (hjk' ▸ hj)
    exact ⟨hj, by rw [← hlist k hk, ← hlist j hj, hjk.2]⟩
  · intro hjk
    exact ⟨hj.trans_le h.size_le, by rw [hlist k hjk.lt_size, hlist j hj, hjk.2]⟩

theorem Extends.trans (hfg : f.Extends g) (hgh : g.Extends h) : f.Extends h where
  size_le := hfg.size_le.trans hgh.size_le
  node?_eq j hj := (hgh.node?_eq j (hj.trans_le hfg.size_le)).trans (hfg.node?_eq j hj)
  list?_eq j hj := (hgh.list?_eq j (hj.trans_le hfg.size_le)).trans (hfg.list?_eq j hj)
  alone j hj := by
    by_cases hjg : j < g.size
    · exact fun k hjk => hfg.alone j hj k ((hgh.shares_iff hjg).1 hjk)
    · exact hgh.alone j (Nat.le_of_not_lt hjg)

theorem Extends.node?_of (hfg : f.Extends g) (hn : f.node? i = some n) : g.node? i = some n :=
  (hfg.node?_eq i (lt_size_of_node? hn)).trans hn

theorem Extends.children_eq (hfg : f.Extends g) (hi : i < f.size) :
    g.children i = f.children i := by
  rw [children, hfg.node?_eq i hi, children]

theorem Extends.shows_of (hfg : f.Extends g) (hs : f.Shows i s) : g.Shows i s :=
  hs.of_same fun _ n _ hn => ⟨n.owned, hfg.node?_of hn⟩

theorem Extends.isFree_of (hfg : f.Extends g) (hi : f.IsFree i) : g.IsFree i := by
  obtain ⟨n, hn, ho⟩ := hi
  exact ⟨n, hfg.node?_of hn, ho⟩

/-- It makes no difference to the old nodes if a new one comes to stand above new ones. -/
theorem Extends.insertAbove (hfg : f.Extends g) (hids : ∀ c ∈ ids, f.size ≤ c) (kind : Kind)
    (condition : Option Condition) (name : Option String) :
    f.Extends (g.insertAbove kind condition name ids).2 where
  size_le := by
    rw [size_insertAbove]
    exact hfg.size_le.trans (Nat.le_succ _)
  node?_eq j hj := by
    have hmem : j ∉ ids := fun hmem => Nat.not_lt.2 (hids j hmem) hj
    rw [node?_insertAbove, if_neg (Nat.ne_of_lt (hj.trans_le hfg.size_le)), hfg.node?_eq j hj]
    simp [hmem]
  list?_eq j hj := by
    rw [list?_insertAbove, if_neg (Nat.ne_of_lt (hj.trans_le hfg.size_le)), hfg.list?_eq j hj]
  alone j hj k hjk := (shares_insertAbove hjk).elim id (hfg.alone j hj k)

theorem extends_fresh (f : Forest) : f.Extends f.fresh.2 :=
  (Extends.refl f).insertAbove (List.forall_mem_nil _) .block none none

/-- It makes no difference to the old nodes what becomes of the new ones. -/
theorem Extends.of_adopts (hfg : f.Extends g) (ha : g.Adopts h i ids change) (hi : f.size ≤ i)
    (hids : ∀ c ∈ ids, f.size ≤ c) : f.Extends h where
  size_le := ha.size_eq ▸ hfg.size_le
  node?_eq j hj := by
    have hji : j ≠ i := (Nat.lt_of_lt_of_le hj hi).ne
    have hmem : j ∉ ids := fun hmem => Nat.not_lt.2 (hids j hmem) hj
    rw [ha.node?_other j hji, hfg.node?_eq j hj]
    simp [hmem]
  list?_eq j hj := by
    have hji : j ≠ i := (Nat.lt_of_lt_of_le hj hi).ne
    rw [ha.list?_other j hji, hfg.list?_eq j hj]
  alone j hj := ha.alone (hfg.alone j hj)

/-- Nodes may change without a change to the trees of newer nodes. -/
theorem Shows.of_alters {changed : NodeId → Prop} (hs : f.Shows c s)
    (ha : f.Alters g changed ids change) (hc : ∀ j, changed j → j < c) : g.Shows c s := by
  refine hs.of_same fun j n hj hn => ⟨n.owned || decide (j ∈ ids), ?_⟩
  rw [ha.node?_other j fun hj' => Nat.not_lt.2 hj (hc j hj'), hn]
  rfl

theorem Shows.of_adopts (hs : f.Shows c s) (ha : f.Adopts g i ids change) (hc : i < c) :
    g.Shows c s := by
  refine hs.of_alters ha.toAlters ?_
  rintro j rfl
  exact hc

theorem IsFree.mayAdopt (hi : f.IsFree i) (hc : f.IsFree c) (hne : c ≠ i) : f.MayAdopt i c := by
  obtain ⟨n, hn, ho⟩ := hi
  obtain ⟨m, hm, ho'⟩ := hc
  exact ⟨n, m, hn, hm, ho', hne, fun h => by rw [ho] at h; cases h⟩

/-! ### Sprouts -/

theorem node?_fresh_self (f : Forest) : f.fresh.2.node? f.size = some .placeholder := by
  rw [node?_fresh, if_pos rfl]

theorem lt_size_fresh (f : Forest) : f.size < f.fresh.2.size :=
  lt_size_of_node? (node?_fresh_self f)

/-- A fresh node is the root of an empty block. -/
theorem sprouts_fresh (f : Forest) : f.Sprouts (.block []) f.fresh.2 where
  old := f.extends_fresh
  tree := .node (node?_fresh_self f) (List.forall_mem_nil _) .nil
  free := ⟨_, node?_fresh_self f, rfl⟩

theorem Sprouts.exists_node (hs : f.Sprouts (.block xs) g) : ∃ ids,
    g.node? f.size = some ⟨.block, none, none, ids, false⟩ ∧ (∀ c ∈ ids, f.size < c) ∧
      List.Forall₂ g.Shows ids xs := by
  obtain ⟨n, hn, ho⟩ := hs.free
  have hshows := hs.tree
  generalize hb : Statement.block xs = s at hshows
  cases hshows with
  | @node _ m _ hm hlt hxs =>
    obtain rfl := Option.some.inj (hn.symm.trans hm)
    obtain ⟨kind, condition, name, ids, owned⟩ := n
    cases hb
    cases ho
    exact ⟨ids, hm, hlt, hxs⟩

/-- A block knows how many statements it has. -/
theorem Sprouts.blockLength_eq (hs : f.Sprouts (.block xs) g) :
    g.blockLength f.size = .ok xs.length := by
  obtain ⟨ids, hn, -, hxs⟩ := hs.exists_node
  rw [← hxs.length_eq]
  exact bind_eq_ok_iff.2 ⟨_, get_eq_ok_iff.2 hn, rfl⟩

/-- A fresh node can become a call. -/
theorem exists_sprouts_call {name : String} (hname : Token.isIdentifier name) :
    ∃ g, f.fresh.2.assembleCall f.size name = .ok g ∧ f.Sprouts (.call name) g := by
  have hn := node?_fresh_self f
  obtain ⟨g, hg⟩ : ∃ g, f.fresh.2.assembleCall f.size name = .ok g :=
    ⟨_, assembleCall_eq_ok_iff.2 ⟨⟨_, hn, rfl⟩, hname, rfl⟩⟩
  have hadopts := adopts_of_assembleCall hg
  have hself := hadopts.node?_self hn
  exact ⟨g, hg, f.extends_fresh.of_adopts hadopts (Nat.le_refl _) (List.forall_mem_nil _),
    .node hself (List.forall_mem_nil _) .nil, ⟨_, hself, rfl⟩⟩

/-- A fresh node can become a test that has free blocks of newer nodes for bodies. -/
theorem exists_sprouts_assemble {kind : Kind} {condition : Condition}
    (hfg : f.fresh.2.Extends g) (hd : ids.Nodup)
    (hids : ∀ c ∈ ids, f.size < c ∧ g.IsFree c ∧ g.kind? c = some .block)
    (hxs : List.Forall₂ g.Shows ids xs) :
    ∃ h, g.assemble f.size kind condition ids = .ok h ∧
      f.Sprouts (.node kind (some condition) none xs) h := by
  have hn := hfg.node?_of (node?_fresh_self f)
  have hfree : g.IsFree f.size := ⟨_, hn, rfl⟩
  obtain ⟨h, hh⟩ : ∃ h, g.assemble f.size kind condition ids = .ok h := by
    refine ⟨_, assemble_eq_ok_iff.2 ⟨⟨_, hn, rfl⟩, fun b hb => ?_, hd, rfl⟩⟩
    obtain ⟨hlt, hb', hk⟩ := hids b hb
    exact ⟨hk, hfree.mayAdopt hb' hlt.ne'⟩
  have hadopts := adopts_of_assemble hh
  have hself := hadopts.node?_self hn
  refine ⟨h, hh, ?_, ?_, ⟨_, hself, rfl⟩⟩
  · exact (f.extends_fresh.trans hfg).of_adopts hadopts (Nat.le_refl _) fun c hc =>
      (hids c hc).1.le
  · refine .node hself (fun c hc => (hids c hc).1) ?_
    exact forall₂_imp_of_mem hxs fun c hc x _ hcx => hcx.of_adopts hadopts (hids c hc).1

theorem Sprouts.isFree_and_kind? (hs : f.Sprouts (.block xs) g) (hgh : g.Extends h) :
    h.IsFree f.size ∧ h.kind? f.size = some .block := by
  obtain ⟨ids, hn, -⟩ := hs.exists_node
  exact ⟨hgh.isFree_of hs.free, by rw [kind?, hgh.node?_of hn]; rfl⟩

/-- A fresh node can become a test of the block that has sprouted after it. -/
theorem Sprouts.exists_assemble (hs : f.fresh.2.Sprouts (.block xs) g) (kind : Kind)
    (condition : Condition) :
    ∃ h, g.assemble f.size kind condition [f.fresh.2.size] = .ok h ∧
      f.Sprouts (.node kind (some condition) none [.block xs]) h := by
  refine exists_sprouts_assemble hs.old (List.nodup_singleton _) ?_ (.cons hs.tree .nil)
  obtain ⟨hfree, hk⟩ := hs.isFree_and_kind? (.refl g)
  simpa using ⟨lt_size_fresh f, hfree, hk⟩

/-- A fresh node can become a choice between the two blocks that have sprouted after it. -/
theorem Sprouts.exists_assembleIfElse {ys : List Statement}
    (hs : f.fresh.2.Sprouts (.block xs) g) (hs' : g.Sprouts (.block ys) h)
    (condition : Condition) :
    ∃ k, h.assembleIfElse f.size condition f.fresh.2.size g.size = .ok k ∧
      f.Sprouts (.ifElse condition xs ys) k := by
  have hlt : f.fresh.2.size < g.size := hs.tree.lt_size
  have hsize := lt_size_fresh f
  have hxs : List.Forall₂ h.Shows [f.fresh.2.size, g.size] [.block xs, .block ys] :=
    .cons (hs'.old.shows_of hs.tree) (.cons hs'.tree .nil)
  refine exists_sprouts_assemble (hs.old.trans hs'.old) ?_ ?_ hxs
  · simpa using hlt.ne
  · obtain ⟨hfree, hk⟩ := hs.isFree_and_kind? hs'.old
    obtain ⟨hfree', hk'⟩ := hs'.isFree_and_kind? (.refl h)
    simpa using ⟨⟨hsize, hfree, hk⟩, hsize.trans hlt, hfree', hk'⟩

/-- A block takes a tree that has sprouted after it as its last element. -/
theorem Sprouts.exists_addToBlock (hfg : f.Sprouts (.block xs) g) (hgh : g.Sprouts s h)
    (hk : s.kind ≠ .block) : ∃ k, h.addToBlock f.size xs.length g.size = .ok k ∧
      f.Sprouts (.block (xs ++ [s])) k := by
  obtain ⟨ids, hn, hlt, hxs⟩ := hfg.exists_node
  have hsize := lt_size_of_node? hn
  have hn' := hgh.old.node?_of hn
  have hlen := hxs.length_eq
  have hkind : h.kind? g.size = some s.kind := by
    cases hgh.tree with
    | node hm _ _ => rw [kind?, hm]; rfl
  have hmay : h.MayAdopt f.size g.size :=
    IsFree.mayAdopt ⟨_, hn', rfl⟩ hgh.free hsize.ne'
  obtain ⟨k, hk⟩ : ∃ k, h.addToBlock f.size xs.length g.size = .ok k := by
    refine ⟨_, addToBlock_eq_ok_iff.2 ⟨?_, Int.natCast_nonneg _, ?_, ⟨_, hkind, hk⟩, hmay, rfl⟩⟩
    · rw [kind?, hn']; rfl
    · rw [children, hn']
      exact Int.ofNat_le.2 hlen.ge
  have hold := hfg.old.trans hgh.old
  have hadopts := adopts_of_addToBlock (hold.alone f.size (Nat.le_refl _)) hk
  have hend : ids.insertIdx (Int.toNat xs.length) g.size = ids ++ [g.size] := by
    rw [Int.toNat_natCast, ← hlen, List.insertIdx_length_self]
  have hself : k.node? f.size = some ⟨.block, none, none, ids ++ [g.size], false⟩ := by
    rw [hadopts.node?_self hn', ← hend]
  refine ⟨k, hk, ?_, ?_, ⟨_, hself, rfl⟩⟩
  · refine hold.of_adopts hadopts (Nat.le_refl _) ?_
    simpa using hsize.le
  · refine .node hself ?_ (List.rel_append ?_ ?_)
    · simpa [or_imp, forall_and] using ⟨hlt, hsize⟩
    · exact forall₂_imp_of_mem hxs fun c hc x _ hcx =>
        (hgh.old.shows_of hcx).of_adopts hadopts (hlt c hc)
    · exact .cons (hgh.tree.of_adopts hadopts hsize) .nil

end Forest

end BlockLang
