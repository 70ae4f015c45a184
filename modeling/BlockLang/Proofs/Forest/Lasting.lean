import BlockLang.Proofs.Forest.Growth
import Mathlib.Data.List.InsertIdx

/-! What lasts. A placeholder can become any statement, but a node that is no placeholder keeps its
kind, its condition and its name, and its children in their order; a block can get others between
them, and so can a test or a call only if a block has the same list. No node is ever set free or
lost. -/

namespace BlockLang

open Relation

namespace Node

/-- What a node keeps when it has become another one. -/
structure Keeps (n m : Node) : Prop where
  data : n.isEmpty = false → m.kind = n.kind ∧ m.condition = n.condition ∧ m.name = n.name
  children : n.children.Sublist m.children
  owned : n.owned → m.owned

variable {n m k : Node}

theorem isEmpty_eq_false_iff : n.isEmpty = false ↔ n.kind ≠ .block ∨ n.children ≠ [] := by
  rw [Bool.eq_false_iff, Ne, isEmpty_iff, not_and_or]

theorem Keeps.refl (n : Node) : n.Keeps n :=
  ⟨fun _ => ⟨rfl, rfl, rfl⟩, List.Sublist.refl _, id⟩

/-- A node that is no placeholder never becomes one again. -/
theorem Keeps.isEmpty_eq_false (h : n.Keeps m) (hn : n.isEmpty = false) : m.isEmpty = false := by
  rcases isEmpty_eq_false_iff.1 hn with hk | hc
  · exact isEmpty_eq_false_iff.2 (.inl ((h.data hn).1 ▸ hk))
  · refine isEmpty_eq_false_iff.2 (.inr fun hm => hc ?_)
    exact List.sublist_nil.1 (hm ▸ h.children)

theorem Keeps.trans (h : n.Keeps m) (h' : m.Keeps k) : n.Keeps k where
  data hn := by
    obtain ⟨hkind, hcondition, hname⟩ := h.data hn
    obtain ⟨hkind', hcondition', hname'⟩ := h'.data (h.isEmpty_eq_false hn)
    exact ⟨hkind'.trans hkind, hcondition'.trans hcondition, hname'.trans hname⟩
  children := h.children.trans h'.children
  owned ho := h'.owned (h.owned ho)

/-- A test or a call stays one. -/
theorem Keeps.kind_ne (h : n.Keeps m) (hk : n.kind ≠ .block) : m.kind ≠ .block := by
  rwa [(h.data (isEmpty_eq_false_iff.2 (.inl hk))).1]

/-- A placeholder has nothing to keep but its owner. -/
theorem keeps_of_isEmpty (hn : n.isEmpty) (ho : n.owned → m.owned) : n.Keeps m := by
  obtain ⟨-, hc⟩ := isEmpty_iff.1 hn
  exact ⟨fun h => by simp [hn] at h, hc ▸ List.nil_sublist _, ho⟩

/-- A node may get more children, wherever they come to stand. -/
theorem keeps_of_sublist {ids : List NodeId} (h : n.children.Sublist ids) :
    n.Keeps { n with children := ids } :=
  ⟨fun _ => ⟨rfl, rfl, rfl⟩, h, id⟩

theorem Keeps.own (h : n.Keeps m) (b : Bool) : n.Keeps (m.own b) :=
  ⟨h.data, h.children, fun ho => by simp [h.owned ho]⟩

end Node

namespace Forest

/-- Every node of a forest is there in another one, with what it keeps. A test or a call keeps its
very children, unless it may have `fed` ones. -/
def Keeps (f : Forest) (fed : NodeId → Prop) (g : Forest) : Prop :=
  ∀ i n, f.node? i = some n → ∃ m, g.node? i = some m ∧ n.Keeps m ∧
    (n.kind ≠ .block → ¬ fed i → m.children = n.children)

variable {f g h : Forest} {i j c : NodeId} {n : Node} {ids : List NodeId} {change : Node → Node}
  {fed fed' changed : NodeId → Prop}

theorem Keeps.mono (h : f.Keeps fed g) (hfed : ∀ i, fed i → fed' i) : f.Keeps fed' g := by
  intro i n hn
  obtain ⟨m, hm, hnm, hchildren⟩ := h i n hn
  exact ⟨m, hm, hnm, fun hk hi => hchildren hk (mt (hfed i) hi)⟩

theorem Keeps.refl (f : Forest) : f.Keeps fed f := fun _ n hn => ⟨n, hn, .refl n, fun _ _ => rfl⟩

/-- What lies below a node stays there. -/
theorem Keeps.below (h : f.Keeps fed g) (hij : f.Below i j) : g.Below i j := by
  refine TransGen.mono (fun k c hkc => ?_) _ _ hij
  obtain ⟨n, hn, hc⟩ := mem_children_iff.1 hkc
  obtain ⟨m, hm, hnm, -⟩ := h k n hn
  exact mem_children_iff.2 ⟨m, hm, hnm.children.subset hc⟩

/-- Nodes keep what they have if each one that changes does, and is a block or may be fed. -/
theorem Alters.keeps (h : f.Alters g changed ids change)
    (hc : ∀ j n, changed j → f.node? j = some n → n.Keeps (change n))
    (hk : ∀ j, changed j → f.kind? j ≠ some .block → fed j) : f.Keeps fed g := by
  intro j n hn
  by_cases hj : changed j
  · refine ⟨_, by rw [h.node?_changed j hj, hn, Option.map_some], (hc j n hj hn).own _, ?_⟩
    intro hkind hfed
    refine absurd (hk j hj fun hkj => hkind ?_) hfed
    rw [kind?, hn] at hkj
    exact Option.some.inj hkj
  · exact ⟨_, by rw [h.node?_other j hj, hn, Option.map_some], (Node.Keeps.refl n).own _,
      fun _ _ => rfl⟩

/-- New nodes change nothing of the old ones but their owners. -/
theorem keeps_of_marks {marks : NodeId → Bool}
    (h : ∀ j < f.size, g.node? j = (f.node? j).map fun n => n.own (marks j)) : f.Keeps fed g := by
  intro j n hn
  exact ⟨_, by rw [h j (lt_size_of_node? hn), hn, Option.map_some], (Node.Keeps.refl n).own _,
    fun _ _ => rfl⟩

theorem keeps_insertAbove (f : Forest) (kind : Kind) (condition : Option Condition)
    (name : Option String) (ids : List NodeId) :
    f.Keeps fed (f.insertAbove kind condition name ids).2 :=
  keeps_of_marks fun j hj => by rw [node?_insertAbove, if_neg (Nat.ne_of_lt hj)]

theorem keeps_insertBeside (hi : i < f.size) (kind : Kind) (condition : Option Condition)
    (name : Option String) : f.Keeps fed (f.insertBeside kind condition name i).2 :=
  keeps_of_marks fun j hj => by rw [node?_insertBeside hi, if_neg (Nat.ne_of_lt hj)]

/-- A placeholder keeps what it has when it changes. -/
theorem Adopts.keeps (h : f.Adopts g i ids change) (hn : f.node? i = some n) (he : n.isEmpty) :
    f.Keeps fed g := by
  refine h.toAlters.keeps ?_ ?_
  · rintro j m rfl hm
    obtain rfl := Option.some.inj (hn.symm.trans hm)
    exact Node.keeps_of_isEmpty he fun ho => (h.owned_change n).trans ho
  · rintro j rfl hk
    rw [kind?, hn, Option.map_some, (Node.isEmpty_iff.1 he).1] at hk
    exact absurd rfl hk

theorem Feeds.keeps {xs : List NodeId} (h : f.Feeds g i ids xs)
    (hxs : (f.children i).Sublist xs) : f.Keeps (f.Shares i) g := by
  refine h.toAlters.keeps (fun j n hj hn => Node.keeps_of_sublist ?_) fun j hj _ => hj
  rw [← hj.children_eq] at hxs
  simpa [children, hn] using hxs

/-! ### Building -/

theorem keeps_construct {kind : Kind} {condition : Option Condition} {name : Option String}
    {children : Children} (hc : f.construct kind condition name children = .ok (i, g)) :
    f.Keeps fed g := by
  rcases construct_cases hc with ⟨ids, -, -, rfl⟩ | ⟨j, hj, -, rfl⟩
  · exact keeps_insertAbove f kind condition name ids
  · exact keeps_insertBeside hj kind condition name

theorem keeps_assemble {kind : Kind} {condition : Condition} {bodies : List NodeId}
    (ha : f.assemble i kind condition bodies = .ok g) : f.Keeps fed g := by
  obtain ⟨⟨n, hn, he⟩, -⟩ := assemble_eq_ok_iff.1 ha
  exact (adopts_of_assemble ha).keeps hn he

theorem keeps_assembleCall {name : String} (ha : f.assembleCall i name = .ok g) :
    f.Keeps fed g := by
  obtain ⟨⟨n, hn, he⟩, -⟩ := assembleCall_eq_ok_iff.1 ha
  exact (adopts_of_assembleCall ha).keeps hn he

theorem keeps_addToBlock {index : Int} (ha : f.addToBlock i index c = .ok g) :
    f.Keeps (f.Shares i) g :=
  (feeds_of_addToBlock ha).keeps (List.sublist_insertIdx _ _ _)

/-! ### Parsing -/

/-- What is done to old nodes when new ones have been added is done to the old nodes. -/
theorem Extends.keeps (hfg : f.Extends g) (hgh : g.Keeps fed h) : f.Keeps fed h := by
  intro j n hn
  exact hgh j n (hfg.node?_of hn)

theorem keeps_graft {t : Statement} (ht : f.graft i t = .ok g) : f.Keeps fed g := by
  obtain ⟨n, h, ids, change, hn, he, hp, hadopts, -⟩ := exists_adopts_of_graft ht
  exact hp.old.keeps (hadopts.keeps (hp.old.node?_of hn) he)

theorem keeps_append (hi : i < f.size) (xs : List Statement) :
    f.Keeps (f.Shares i) (f.append i xs) := by
  have hp := planted_plantAll xs f
  have hkeeps : (plantAll xs f).2.Keeps ((plantAll xs f).2.Shares i) (f.append i xs) := by
    refine (feeds_append f i xs).keeps ?_
    rw [hp.old.children_eq hi]
    exact List.sublist_append_left _ _
  exact hp.old.keeps (hkeeps.mono fun j hj => (hp.old.shares_iff hi).1 hj)

theorem shares_append (xs : List Statement) (h : f.Shares i j) : (f.append i xs).Shares i j := by
  rw [(feeds_append f i xs).shares_iff]
  exact ((planted_plantAll xs f).old.shares_iff h.1).2 h

theorem keeps_parseStatement (f : Forest) (s : TokenStream) (beginning : Beginning) (i : NodeId) :
    f.Keeps fed (f.parseStatement s beginning i).2.2 := by
  unfold parseStatement
  split
  · dsimp only
    split
    · exact .refl f
    · split
      · exact .refl f
      · next hgraft => exact keeps_graft hgraft
  · exact .refl f

theorem blockLength_eq_ok_iff {k : Nat} : f.blockLength i = .ok k ↔
    ∃ n, f.node? i = some n ∧ n.kind = .block ∧ k = n.children.length := by
  simp only [blockLength, bind_eq_ok_iff, get_eq_ok_iff, requireKind_eq_ok_iff, exists_const,
    Except.ok.injEq, List.mem_singleton, @eq_comm Nat k]

/-- A parse into a block leaves the forest as it is, or appends trees to the block. -/
theorem parseBlock_cases (f : Forest) (s : TokenStream) (i : NodeId) :
    (f.parseBlock s i).2.2 = f ∨
      f.kind? i = some .block ∧ ∃ xs, (f.parseBlock s i).2.2 = f.append i xs := by
  unfold parseBlock
  split
  · exact .inl rfl
  · next hlen =>
    obtain ⟨n, hn, hk, -⟩ := blockLength_eq_ok_iff.1 hlen
    exact .inr ⟨by rw [kind?, hn, ← hk]; rfl, _, rfl⟩

end Forest

end BlockLang
