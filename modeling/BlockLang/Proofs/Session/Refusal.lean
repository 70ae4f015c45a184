import BlockLang.Proofs.Forest.Refusal
import BlockLang.Proofs.Session.Ownership

/-! Refused steps. Where no node was constructed with children, a step that builds on a node is
refused if and only if its result would be illegal, and then nothing changes at all. A step that is
not refused changes the node that it builds on and marks the children of it that are new. -/

namespace BlockLang

open Forest

namespace Session

/-- The node that a step builds on. -/
def Action.receiver? : Action → Option NodeId
  | assembleIf i _ _ | assembleIfElse i _ _ _ | assembleWhile i _ _ | assembleCall i _
  | addToBlock i _ _ => some i
  | _ => none

/-- The nodes that a step gives to the node that it builds on. -/
def Action.supplied : Action → List NodeId
  | assembleIf _ _ b | assembleWhile _ _ b => [b]
  | assembleIfElse _ _ b b' => [b, b']
  | addToBlock _ _ c => [c]
  | _ => []

/-- What a step makes of the node that it builds on. -/
def Action.change (n : Node) : Action → Node
  | assembleIf _ c b => { n with kind := .ifThen, condition := some c, children := [b] }
  | assembleIfElse _ c b b' =>
    { n with kind := .ifElse, condition := some c, children := [b, b'] }
  | assembleWhile _ c b => { n with kind := .whileDo, condition := some c, children := [b] }
  | assembleCall _ name => { n with kind := .call, name := some name }
  | addToBlock _ index c =>
    { n with children := n.children.take index.toNat ++ c :: n.children.drop index.toNat }
  | _ => n

/-- The result of a step that builds on a node would be illegal: only a block has positions for
elements, which are no blocks, and only a placeholder can become a test with bodies, which are
different blocks, or a call with a name; and no node has two parents or lies below itself. -/
def Action.Illegal (f : Forest) : Action → Prop
  | assembleIf i _ b | assembleWhile i _ b => ¬ f.IsPlaceholder i ∨ f.UnfitBody i b
  | assembleIfElse i _ b b' =>
    ¬ f.IsPlaceholder i ∨ f.UnfitBody i b ∨ f.UnfitBody i b' ∨ b = b'
  | assembleCall i name => ¬ f.IsPlaceholder i ∨ ¬ Token.isIdentifier name
  | addToBlock i index c =>
    f.kind? i ≠ some .block ∨ index < 0 ∨ (f.children i).length < index ∨
      f.kind? c = some .block ∨ f.Unadoptable i c
  | _ => False

variable {s : Session} {a : Action} {i : NodeId}

/-- A step that builds on a node is decided by whether its result would be illegal. -/
theorem exists_decides (h : s.forest.Hierarchical) (he : s.forest.Exclusive)
    (hi : a.receiver? = some i) (hk : ∀ j ∈ i :: a.supplied, j < s.forest.size) :
    ∃ r v, s.perform a = s.build r v ∧
      s.forest.Decides (a.Illegal s.forest) i a.supplied a.change r := by
  obtain ⟨hknown, hsupplied⟩ := List.forall_mem_cons.1 hk
  cases a with
  | assembleIf _ c b =>
    obtain rfl := Option.some.inj hi
    exact ⟨_, _, rfl, (decides_assemble h he.attached hknown hsupplied .ifThen c).congr
      (by simp [Action.Illegal, Action.supplied])⟩
  | assembleIfElse _ c b b' =>
    obtain rfl := Option.some.inj hi
    exact ⟨_, _, rfl, (decides_assemble h he.attached hknown hsupplied .ifElse c).congr
      (by simp [Action.Illegal, Action.supplied, or_assoc])⟩
  | assembleWhile _ c b =>
    obtain rfl := Option.some.inj hi
    exact ⟨_, _, rfl, (decides_assemble h he.attached hknown hsupplied .whileDo c).congr
      (by simp [Action.Illegal, Action.supplied])⟩
  | assembleCall _ name =>
    obtain rfl := Option.some.inj hi
    exact ⟨_, _, rfl, decides_assembleCall hknown name⟩
  | addToBlock _ index c =>
    obtain rfl := Option.some.inj hi
    exact ⟨_, _, rfl, decides_addToBlock h he.attached he.separate hknown
      (hsupplied c (List.mem_singleton_self c)) index⟩
  | _ => cases hi

/-- The outcome of a step that builds on a node, in a session in which no node was constructed with
children. If its result would be illegal, then a check refuses it and nothing changes. Otherwise the
node becomes what the step makes of it, the nodes that are given to it are owned, and nothing else
changes. -/
theorem perform_refuses_iff_illegal (m : Machine) (stream : Option TokenStream)
    (backend : Option Backend) (as : List Action) (h : ∀ a ∈ as, a.given = .new [])
    (hs : run ⟨m, .empty, stream, backend⟩ as = s)
    (hi : a.receiver? = some i) (hk : ∀ j ∈ i :: a.supplied, j < s.forest.size) :
    (a.Illegal s.forest →
      ∃ e : BuildError, e.isRefusal ∧ s.perform a = (.error (.build e), s)) ∧
    (¬ a.Illegal s.forest →
      ∃ v g, s.perform a = (.ok v, { s with forest := g }) ∧
        ∀ j, g.node? j = (s.forest.node? j).map fun n =>
          if j = i then a.change n
          else if j ∈ a.supplied then { n with owned := true } else n) := by
  obtain ⟨ts, hts, hrun⟩ := exists_grow_eq_run ⟨m, .empty, stream, backend⟩ as
  have hgiven : ∀ t ∈ ts, t.action.given = .new [] := by
    intro t ht
    exact h t.action (hts ▸ List.mem_map_of_mem ht)
  have hforest : s.forest = grow .empty ts := hs ▸ hrun
  have hh : s.forest.Hierarchical :=
    hforest ▸ grow_hierarchical fun t ht i => by simp [hgiven t ht]
  have he : s.forest.Exclusive :=
    hforest ▸ grow_exclusive ownsChildren_empty exclusive_empty hgiven
  obtain ⟨r, v, hperform, hdecides⟩ := exists_decides hh he hi hk
  rw [hperform]
  constructor
  · intro hill
    obtain ⟨e, he, rfl⟩ := hdecides.1 hill
    exact ⟨e, he, rfl⟩
  · intro hill
    obtain ⟨g, rfl, hg⟩ := hdecides.2 hill
    exact ⟨v, g, rfl, hg.node?_eq⟩

/-- A choice is refused for its second body, which leaves the first one free; and a test becomes an
element of a block. -/
theorem perform_refuses_iff_illegal_returns :
    let s := run ⟨.usual, .empty, none, none⟩
      [.fresh, .fresh, .assembleIf 1 .always 0, .fresh, .fresh]
    (∃ e : BuildError, e.isRefusal ∧
      s.perform (.assembleIfElse 2 .random 3 0) = (.error (.build e), s)) ∧
    ∃ v g, s.perform (.addToBlock 3 0 1) = (.ok v, { s with forest := g }) ∧
      g.node? 3 = some ⟨.block, none, none, [1], false⟩ ∧
      g.node? 1 = some ⟨.ifThen, some .always, none, [0], true⟩ ∧
      g.node? 0 = s.forest.node? 0 := by
  intro s
  constructor
  · have hchild : 0 ∈ s.forest.children 1 := by decide +kernel
    exact (perform_refuses_iff_illegal .usual none none _ (by decide) rfl rfl (by decide +kernel)).1
      (.inr (.inr (.inl (.inr (.inl ⟨1, hchild⟩)))))
  · obtain ⟨hrefused, haccepted⟩ := perform_refuses_iff_illegal (s := s)
      (a := .addToBlock 3 0 1) .usual none none _ (by decide) rfl rfl (by decide +kernel)
    have hok : (s.perform (.addToBlock 3 0 1)).1.isOk := by decide +kernel
    obtain ⟨v, g, hperform, hg⟩ := haccepted fun hill => by
      obtain ⟨e, -, he⟩ := hrefused hill
      rw [he] at hok
      cases hok
    refine ⟨v, g, hperform, ?_, ?_, ?_⟩ <;> rw [hg] <;> decide +kernel

end Session

end BlockLang
