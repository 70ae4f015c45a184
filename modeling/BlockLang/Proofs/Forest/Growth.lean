import BlockLang.Forest.Parse
import BlockLang.Proofs.Forest.Ownership
import BlockLang.Proofs.Forest.Sprouting

/-! How forests grow. Whatever is built, constructed or parsed, four steps are enough: a new node
comes to stand above known ones, or beside another one above the same children, or a known node
adopts others, or a list gets others in all the nodes that have it. All of them keep children owned.
What else they keep depends on what the steps keep to. -/

namespace BlockLang

open Relation

namespace Forest

variable {f g h : Forest} {i j c : NodeId} {n : Node} {ids xs : List NodeId}

/-! ### Slots -/

theorem mem_slots_iff : c ∈ f.slots ↔ ∃ i, f.Child i c := by
  rw [slots, List.mem_flatMap]
  exact exists_congr fun i => and_iff_right_of_imp fun hic => List.mem_range.2 (Child.lt_size hic)

/-- Identities that are not known yet have no children. -/
theorem flatMap_children_range (f : Forest) (k : Nat) :
    (List.range (f.size + k)).flatMap f.children = f.slots := by
  induction k with
  | zero => rfl
  | succ k ih =>
    have hnone : f.node? (f.size + k) = none := node?_eq_none_iff.2 (Nat.le_add_right _ _)
    rw [← Nat.add_assoc, List.range_succ, List.flatMap_append, ih]
    simp [children, hnone]

theorem Gains.slots_perm (hg : f.Gains g (· = i) ids) : g.slots.Perm (f.slots ++ ids) := by
  obtain ⟨k, hk⟩ := Nat.exists_eq_add_of_le hg.size_le
  rw [← flatMap_children_range f k, ← hk, slots]
  have hi : i ∈ List.range g.size := List.mem_range.2 (hg.lt_size i rfl)
  have hsplit := List.perm_cons_erase hi
  have hrest : ((List.range g.size).erase i).flatMap g.children =
      ((List.range g.size).erase i).flatMap f.children := by
    refine List.flatMap_congr fun j hj => hg.children_of_not j ?_
    exact (List.nodup_range.mem_erase_iff.1 hj).1
  generalize (List.range g.size).erase i = rest at hsplit hrest
  calc ((List.range g.size).flatMap g.children).Perm ((i :: rest).flatMap g.children) :=
        hsplit.flatMap_right _
    _ = g.children i ++ rest.flatMap f.children := by rw [List.flatMap_cons, hrest]
    List.Perm _ (f.children i ++ ids ++ rest.flatMap f.children) :=
        (hg.children_perm i rfl).append_right _
    List.Perm _ (f.children i ++ rest.flatMap f.children ++ ids) := by
        simpa only [List.append_assoc] using List.perm_append_comm.append_left _
    _ = (i :: rest).flatMap f.children ++ ids := by rw [List.flatMap_cons]
    List.Perm _ ((List.range g.size).flatMap f.children ++ ids) :=
        (hsplit.flatMap_right _).symm.append_right _

/-! ### Steps -/

/-- What the steps in the growth of a forest may keep to. -/
structure Rules where
  /-- A new node comes to stand above free and distinct nodes only. -/
  tidy : Prop
  /-- A new node has a list of its own. -/
  apart : Prop
  /-- No node gets a child that it is or that it lies below. -/
  safe : Prop

/-- No node that has the list of `i` is `c` or lies below it. -/
def Safe (f : Forest) (i c : NodeId) : Prop := ∀ p, f.Shares i p → c ≠ p ∧ ¬ f.Below c p

/-- A step in the growth of a forest. -/
inductive Step (r : Rules) (f : Forest) : Forest → Prop where
  | insert (kind : Kind) (condition : Option Condition) (name : Option String)
      {ids : List NodeId} : (∀ c ∈ ids, c < f.size) →
      (r.tidy → ids.Nodup ∧ ∀ c ∈ ids, ¬ f.IsOwned c) →
      Step r f (f.insertAbove kind condition name ids).2
  | share (kind : Kind) (condition : Option Condition) (name : Option String) {i : NodeId} :
      i < f.size → ¬ r.apart → Step r f (f.insertBeside kind condition name i).2
  | adopt {i : NodeId} {n : Node} {ids : List NodeId} {change : Node → Node} {g : Forest} :
      f.node? i = some n → ids.Nodup → (∀ c ∈ ids, f.Admits i c) →
      (change n).children.Perm (n.children ++ ids) → f.Adopts g i ids change → Step r f g
  | feed {i : NodeId} {ids xs : List NodeId} {g : Forest} :
      i < f.size → ids.Nodup → (∀ c ∈ ids, f.Admits i c) → (r.safe → ∀ c ∈ ids, f.Safe i c) →
      xs.Perm (f.children i ++ ids) → f.Feeds g i ids xs → Step r f g

/-- Any number of steps. -/
def Grows (r : Rules) : Forest → Forest → Prop := ReflTransGen (Step r)

/-- Every node has a list of its own and one slot at most, and none is owned without one. -/
structure Exclusive (f : Forest) : Prop where
  separate : f.Separate
  nodup : f.slots.Nodup
  attached : f.Attached

variable {r : Rules}

theorem exclusive_empty : empty.Exclusive := ⟨separate_empty, List.nodup_nil, attached_empty⟩

/-- In every step some nodes get new children, and if the step is safe, these neither are they nor
lie above one of them. -/
theorem Step.exists_gains (hs : Step r f g) (hf : f.Closed) :
    ∃ parents ids, f.Gains g parents ids ∧
      (r.safe → ∀ c ∈ ids, ∀ p, parents p → c ≠ p ∧ ¬ f.Below c p) := by
  -- Nothing leads to a node that was not known.
  have hnew : ∀ c, ¬ f.Below c f.size := by
    intro c hb
    obtain ⟨b, -, hbi⟩ := TransGen.tail'_iff.1 hb
    exact Nat.lt_irrefl _ (hf b f.size hbi)
  cases hs with
  | @insert kind condition name ids hids =>
    refine ⟨_, ids, gains_insertAbove kind condition name hids, ?_⟩
    rintro - c hc p rfl
    exact ⟨Nat.ne_of_lt (hids c hc), hnew c⟩
  | @share kind condition name i hi =>
    have hids : ∀ c ∈ f.children i, c < f.size := fun c hc => hf i c hc
    refine ⟨_, _, gains_insertBeside hi kind condition name hids, ?_⟩
    rintro - c hc p rfl
    exact ⟨Nat.ne_of_lt (hids c hc), hnew c⟩
  | @adopt i n ids change g hn _ ha hc hadopts =>
    refine ⟨_, ids, hadopts.gains hn (fun c hc => (ha c hc).lt_size) hc, ?_⟩
    rintro - c hc p rfl
    exact ⟨(ha c hc).ne, (ha c hc).not_below⟩
  | @feed i ids xs g _ _ ha hsafe hxs hfeeds =>
    exact ⟨_, ids, hfeeds.gains (fun c hc => (ha c hc).lt_size) hxs, hsafe⟩

/-- If every node has a list of its own, a tidy step gives free and distinct children to one node.
-/
theorem Step.exists_gains_self (hs : Step r f g) (ht : r.tidy) (hr : r.apart)
    (hf : f.Separate) : ∃ i ids, f.Gains g (· = i) ids ∧ ids.Nodup ∧ ∀ c ∈ ids, ¬ f.IsOwned c := by
  cases hs with
  | @insert kind condition name ids hids htidy =>
    exact ⟨_, ids, gains_insertAbove kind condition name hids, htidy ht⟩
  | share _ _ _ _ hshare => exact absurd hr hshare
  | @adopt i n ids change g hn hd ha hc hadopts =>
    exact ⟨i, ids, hadopts.gains hn (fun c hc => (ha c hc).lt_size) hc, hd,
      fun c hc => (ha c hc).free⟩
  | @feed i ids xs g hi hd ha _ hxs hfeeds =>
    have hmem : i ∉ ids := fun hmem => (ha i hmem).ne rfl
    obtain ⟨n, hn⟩ := exists_node?_iff.2 hi
    have hperm : xs.Perm (n.children ++ ids) := by simpa [children, hn] using hxs
    exact ⟨i, ids, (hfeeds.adopts hi (hf i) hmem).gains hn (fun c hc => (ha c hc).lt_size) hperm,
      hd, fun c hc => (ha c hc).free⟩

theorem Step.separate (hs : Step r f g) (hr : r.apart) (hf : f.Separate) : g.Separate := by
  cases hs with
  | insert kind condition name => exact separate_insertAbove hf kind condition name _
  | share _ _ _ _ hshare => exact absurd hr hshare
  | adopt _ _ _ _ hadopts => exact hadopts.separate hf
  | feed _ _ _ _ _ hfeeds => exact hfeeds.separate hf

theorem Step.ownsChildren (hs : Step r f g) (hf : f.OwnsChildren) : g.OwnsChildren := by
  obtain ⟨parents, ids, hg, -⟩ := hs.exists_gains hf.closed
  exact hf.of_gains hg

theorem Step.acyclic (hs : Step r f g) (hr : r.safe) (hf : f.OwnsChildren) (ha : f.Acyclic) :
    g.Acyclic := by
  obtain ⟨parents, ids, hg, hsafe⟩ := hs.exists_gains hf.closed
  exact ha.of_gains hg (hsafe hr)

theorem Step.exclusive (hs : Step r f g) (ht : r.tidy) (hr : r.apart) (hf : f.OwnsChildren)
    (he : f.Exclusive) : g.Exclusive := by
  obtain ⟨i, ids, hg, hd, hfree⟩ := hs.exists_gains_self ht hr he.separate
  refine ⟨hs.separate hr he.separate,
    hg.slots_perm.nodup_iff.2 (List.nodup_append'.2 ⟨he.nodup, hd, ?_⟩), he.attached.of_gains hg⟩
  intro c hc hcids
  obtain ⟨j, hjc⟩ := mem_slots_iff.1 hc
  exact hfree c hcids (hf j c hjc)

theorem Grows.separate (hg : Grows r f g) (hr : r.apart) (hf : f.Separate) : g.Separate := by
  induction hg with
  | refl => exact hf
  | tail _ hs ih => exact hs.separate hr ih

theorem Grows.ownsChildren (hg : Grows r f g) (hf : f.OwnsChildren) : g.OwnsChildren := by
  induction hg with
  | refl => exact hf
  | tail _ hs ih => exact hs.ownsChildren ih

theorem Grows.acyclic (hg : Grows r f g) (hr : r.safe) (hf : f.OwnsChildren) (ha : f.Acyclic) :
    g.Acyclic := by
  induction hg with
  | refl => exact ha
  | tail hg hs ih => exact hs.acyclic hr (Grows.ownsChildren hg hf) ih

theorem Grows.exclusive (hg : Grows r f g) (ht : r.tidy) (hr : r.apart) (hf : f.OwnsChildren)
    (he : f.Exclusive) : g.Exclusive := by
  induction hg with
  | refl => exact he
  | tail hg hs ih => exact hs.exclusive ht hr (Grows.ownsChildren hg hf) ih

/-! ### Building -/

theorem requireKnown_eq_ok_iff {u : Unit} :
    f.requireKnown ids = .ok u ↔ ∀ c ∈ ids, c < f.size := by
  induction ids with
  | nil => simp [requireKnown]
  | cons i ids ih =>
    simp only [requireKnown, bind_eq_ok_iff, get_eq_ok_iff, exists_node?_iff, ih,
      List.forall_mem_cons, exists_and_right]

/-- What is constructed is a new node above known nodes, or one beside a known node. -/
theorem construct_cases {kind : Kind} {condition : Option Condition} {name : Option String}
    {children : Children} (hc : f.construct kind condition name children = .ok (i, g)) :
    (∃ ids, (∀ c ∈ ids, c < f.size) ∧ (ids = [] ∨ children = .new ids) ∧
      (f.insertAbove kind condition name ids).2 = g) ∨
    ∃ j < f.size, children = .of j ∧ (f.insertBeside kind condition name j).2 = g := by
  cases children with
  | new ids =>
    obtain ⟨_, hknown, hok⟩ := bind_eq_ok_iff.1 hc
    exact .inl ⟨ids, requireKnown_eq_ok_iff.1 hknown, .inr rfl, by rw [Except.ok.inj hok]⟩
  | of j =>
    obtain ⟨n, hn, hok⟩ := bind_eq_ok_iff.1 hc
    split at hok
    · exact .inl ⟨[], List.forall_mem_nil _, .inl rfl, by rw [Except.ok.inj hok]⟩
    · exact .inr ⟨j, lt_size_of_node? (get_eq_ok_iff.1 hn), rfl, by rw [Except.ok.inj hok]⟩

/-- A new node without children is tidy, and one that is not given another one's list has a list of
its own. -/
theorem grows_construct {kind : Kind} {condition : Option Condition} {name : Option String}
    {children : Children} (hc : f.construct kind condition name children = .ok (i, g))
    (ht : r.tidy → children = .new []) (hr : r.apart → ∀ j, children ≠ .of j) : Grows r f g := by
  rcases construct_cases hc with ⟨ids, hknown, hids, rfl⟩ | ⟨j, hj, hchildren, rfl⟩
  · refine .single (.insert kind condition name hknown fun htidy => ?_)
    obtain rfl : ids = [] := by
      rcases hids with hids | hids
      · exact hids
      · simpa [hids] using ht htidy
    exact ⟨List.nodup_nil, List.forall_mem_nil _⟩
  · exact .single (.share kind condition name hj fun hapart => hr hapart j hchildren)

theorem grows_fresh (f : Forest) : Grows r f f.fresh.2 :=
  .single (.insert .block none none (List.forall_mem_nil _) fun _ =>
    ⟨List.nodup_nil, List.forall_mem_nil _⟩)

theorem grows_assemble {kind : Kind} {condition : Condition} {bodies : List NodeId}
    (hf : f.OwnsChildren) (ha : f.assemble i kind condition bodies = .ok g) : Grows r f g := by
  have hadopts := adopts_of_assemble ha
  obtain ⟨⟨n, hn, he⟩, hb, hd, -⟩ := assemble_eq_ok_iff.1 ha
  exact .single (.adopt hn hd (fun b hb' => hf.admits (hb b hb').2)
    (Node.perm_of_isEmpty he bodies) hadopts)

theorem grows_assembleCall {name : String} (ha : f.assembleCall i name = .ok g) :
    Grows r f g := by
  have hadopts := adopts_of_assembleCall ha
  obtain ⟨⟨n, hn, he⟩, -⟩ := assembleCall_eq_ok_iff.1 ha
  exact .single (.adopt hn List.nodup_nil (List.forall_mem_nil _) (by simp) hadopts)

theorem grows_addToBlock {index : Int} (hf : f.OwnsChildren)
    (ha : f.addToBlock i index c = .ok g) (hsafe : r.safe → f.Safe i c) : Grows r f g := by
  have hfeeds := feeds_of_addToBlock ha
  obtain ⟨hk, hindex, hl, -, hmay, -⟩ := addToBlock_eq_ok_iff.1 ha
  obtain ⟨n, hn, -⟩ := Option.map_eq_some_iff.1 hk
  have hlen : index.toNat ≤ (f.children i).length := by omega
  exact .single (.feed (lt_size_of_node? hn) (List.nodup_singleton c)
    (by simpa using hf.admits hmay) (by simpa using hsafe) (perm_insertIdx hlen) hfeeds)

/-! ### Planting -/

/-- New trees have been added to a forest: the old nodes are as they were, only new nodes lie below
new ones, and the roots are distinct and free. -/
structure Planted (f g : Forest) (roots : List NodeId) : Prop where
  grows : ∀ r, Grows r f g
  old : f.Extends g
  le_child : g.StaysFrom f.size
  nodup : roots.Nodup
  roots : ∀ c ∈ roots, f.size ≤ c ∧ c < g.size ∧ ¬ g.IsOwned c

theorem Planted.cons (hi : Planted f g [i]) (hids : Planted g h ids) :
    Planted f h (i :: ids) := by
  obtain ⟨hif, hig, hfree⟩ := hi.roots i (List.mem_singleton_self i)
  refine ⟨fun r => (hi.grows r).trans (hids.grows r), hi.old.trans hids.old,
    fun j c hj hjc => ?_, ?_, ?_⟩
  · -- A new node is one of the first tree or one of the others.
    by_cases hjg : j < g.size
    · refine hi.le_child j c hj ?_
      rwa [Child, children, hids.old.node?_eq j hjg] at hjc
    · exact hi.old.size_le.trans (hids.le_child j c (Nat.le_of_not_lt hjg) hjc)
  · rw [List.nodup_cons]
    refine ⟨fun hmem => ?_, hids.nodup⟩
    exact Nat.not_lt.2 (hids.roots i hmem).1 hig
  · rw [List.forall_mem_cons]
    refine ⟨⟨hif, hig.trans_le hids.old.size_le, ?_⟩, fun c hc => ?_⟩
    · rwa [IsOwned, hids.old.node?_eq i hig]
    · obtain ⟨hcg, hc'⟩ := hids.roots c hc
      exact ⟨hi.old.size_le.trans hcg, hc'⟩

theorem Planted.insertAbove (hp : Planted f g ids) (kind : Kind) (condition : Option Condition)
    (name : Option String) :
    Planted f (g.insertAbove kind condition name ids).2 [g.size] := by
  have hknown : ∀ c ∈ ids, c < g.size := fun c hc => (hp.roots c hc).2.1
  have hg := gains_insertAbove (f := g) kind condition name hknown
  refine ⟨fun r => (hp.grows r).tail (.insert kind condition name hknown fun _ => ?_),
    hp.old.insertAbove (fun c hc => (hp.roots c hc).1) kind condition name,
    fun j c hj hjc => ?_, List.nodup_singleton _, ?_⟩
  · exact ⟨hp.nodup, fun c hc => (hp.roots c hc).2.2⟩
  · rcases (hg.child_iff j c).1 hjc with hjc | ⟨-, hc⟩
    · exact hp.le_child j c hj hjc
    · exact (hp.roots c hc).1
  · rw [List.forall_mem_singleton, hg.isOwned_iff]
    refine ⟨hp.old.size_le, hg.lt_size _ rfl, ?_⟩
    rintro (⟨m, hm, -⟩ | hmem)
    · exact Nat.lt_irrefl _ (lt_size_of_node? hm)
    · exact Nat.lt_irrefl _ (hknown _ hmem)

theorem planted_plantAll_of {xs : List Statement}
    (hxs : ∀ x ∈ xs, ∀ f, Planted f (plant x f).2 [(plant x f).1]) (f : Forest) :
    Planted f (plantAll xs f).2 (plantAll xs f).1 := by
  induction xs generalizing f with
  | nil =>
    refine ⟨fun _ => .refl, .refl f, fun j c hj hjc => ?_, List.nodup_nil, List.forall_mem_nil _⟩
    exact absurd hjc.lt_size hj.not_gt
  | cons x xs ih =>
    obtain ⟨hx, hxs⟩ := List.forall_mem_cons.1 hxs
    exact (hx f).cons (ih hxs _)

theorem planted_plant (x : Statement) (f : Forest) : Planted f (plant x f).2 [(plant x f).1] := by
  induction x using Statement.children_induction generalizing f with
  | node kind condition name xs ih =>
    have hp := (planted_plantAll_of ih f).insertAbove kind condition name
    have hroot : ((plantAll xs f).2.insertAbove kind condition name (plantAll xs f).1).1 =
        (plantAll xs f).2.size := size_own _ _
    rw [plant]
    rwa [← hroot] at hp

theorem planted_plantAll (xs : List Statement) (f : Forest) :
    Planted f (plantAll xs f).2 (plantAll xs f).1 :=
  planted_plantAll_of (fun x _ => planted_plant x) f

/-- An old node may adopt the roots of new trees. -/
theorem Planted.admits (hp : Planted f g ids) (hi : i < f.size) : ∀ c ∈ ids, g.Admits i c := by
  intro c hc
  obtain ⟨hcf, hcg, hfree⟩ := hp.roots c hc
  have hnot : ¬ g.Below c i := fun hci => Nat.not_lt.2 (hp.le_child.le_of_below hcf hci) hi
  exact ⟨hcg, hfree, (Nat.lt_of_lt_of_le hi hcf).ne', hnot⟩

/-! ### Parsing -/

/-- A placeholder that becomes the root of a tree adopts the roots of new trees. -/
theorem exists_adopts_of_graft {t : Statement} (ht : f.graft i t = .ok g) :
    ∃ n h ids change, f.node? i = some n ∧ n.isEmpty ∧ Planted f h ids ∧
      h.Adopts g i ids change ∧ (change n).children = ids := by
  obtain ⟨kind, condition, name, xs⟩ := t
  simp only [graft, bind_eq_ok_iff, get_eq_ok_iff, requireEmpty_eq_ok_iff, exists_const,
    Except.ok.injEq] at ht
  obtain ⟨n, hn, he, rfl⟩ := ht
  have hp := planted_plantAll xs f
  have hmem : i ∉ (plantAll xs f).1 := fun hmem =>
    (hp.admits (lt_size_of_node? hn) i hmem).ne rfl
  exact ⟨n, _, _, fun n => { n with
    kind := kind, condition := condition.or n.condition, name := name.or n.name,
    children := (plantAll xs f).1 }, hn, he, hp, adopts_modify hmem fun _ => rfl, rfl⟩

theorem grows_graft {t : Statement} (ht : f.graft i t = .ok g) : Grows r f g := by
  obtain ⟨n, h, ids, change, hn, he, hp, hadopts, hids⟩ := exists_adopts_of_graft ht
  refine (hp.grows r).tail (.adopt (hp.old.node?_of hn) hp.nodup
    (hp.admits (lt_size_of_node? hn)) ?_ hadopts)
  rw [hids]
  exact Node.perm_of_isEmpty he ids

/-- A block to whose end trees are appended gets the roots of new trees in its list. -/
theorem feeds_append (f : Forest) (i : NodeId) (xs : List Statement) :
    (plantAll xs f).2.Feeds (f.append i xs) i (plantAll xs f).1
      (f.children i ++ (plantAll xs f).1) :=
  feeds_refill _ i _ _

theorem grows_append (hi : i < f.size) (xs : List Statement) : Grows r f (f.append i xs) := by
  have hp := planted_plantAll xs f
  refine (hp.grows r).tail (.feed (hi.trans_le hp.old.size_le) hp.nodup (hp.admits hi) ?_ ?_
    (feeds_append f i xs))
  · intro _ c hc p hp'
    have hadmits := hp.admits ((hp.old.shares_iff hi).1 hp').lt_size c hc
    exact ⟨hadmits.ne, hadmits.not_below⟩
  · rw [hp.old.children_eq hi]

theorem grows_parseStatement (f : Forest) (s : TokenStream) (beginning : Beginning) (i : NodeId) :
    Grows r f (f.parseStatement s beginning i).2.2 := by
  unfold parseStatement
  split
  · dsimp only
    split
    · exact .refl
    · split
      · exact .refl
      · next hgraft => exact grows_graft hgraft
  · exact .refl

theorem grows_parseBlock (f : Forest) (s : TokenStream) (i : NodeId) :
    Grows r f (f.parseBlock s i).2.2 := by
  unfold parseBlock
  split
  · exact .refl
  · next hlen =>
    obtain ⟨n, hn, -⟩ := bind_eq_ok_iff.1 hlen
    exact grows_append (lt_size_of_node? (get_eq_ok_iff.1 hn)) _

end Forest

end BlockLang
