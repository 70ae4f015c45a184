import BlockLang.Proofs.Session.Lasting

/-! Ownership in sessions. Whatever is done with a forest, step by step and perhaps by many sessions
in turn, children are owned. A node comes to lie below itself in one way only: it is added to a
block, and a node that was constructed with the list of the block is the element or lies below it.
The checks do not look for such nodes. No node gets a second parent unless some node is constructed
with children. -/

namespace BlockLang

open Forest Relation

namespace Session

/-- What a step constructs a node with; other steps give no children. -/
def Action.given : Action → Children
  | construct _ _ _ children => children
  | _ => .new []

/-- A turn adds an element to a block, and a node with the list of the block is the element or lies
below it. -/
def Turn.TiesLoop (f : Forest) (t : Turn) : Prop :=
  ∃ b index c g, t.action = .addToBlock b index c ∧ f.addToBlock b index c = .ok g ∧
    ∃ p, f.Shares b p ∧ (p = c ∨ f.Below c p)

variable {s : Session} {a : Action} {f g : Forest} {t : Turn} {b c p : NodeId}

/-! ### One step -/

/-- In every step the forest grows: tidily unless a node is constructed with children, with lists
apart unless one is constructed with the list of another one, and safely unless a loop is tied. -/
theorem Turn.grows (hf : f.OwnsChildren) (t : Turn) :
    Grows ⟨t.action.given = .new [], ∀ i, t.action.given ≠ .of i, ¬ t.TiesLoop f⟩ f
      (t.perform f) := by
  obtain ⟨machine, stream, backend, a⟩ := t
  refine forest_perform_induction ⟨machine, f, stream, backend⟩ a .refl ?_ ?_ ?_ ?_ ?_ ?_ ?_
  · exact fun _ => grows_fresh f
  · rintro kind condition name children i g rfl hg
    exact grows_construct hg id id
  · exact fun i kind c bodies g => grows_assemble hf
  · exact fun i name g => grows_assembleCall
  · rintro i index child g rfl hg
    refine grows_addToBlock hf hg fun hsafe p hp => ⟨fun hc => ?_, fun hb => ?_⟩
    · exact hsafe ⟨i, index, child, g, rfl, hg, p, hp, .inl hc.symm⟩
    · exact hsafe ⟨i, index, child, g, rfl, hg, p, hp, .inr hb⟩
  · exact fun stream beginning i => grows_parseStatement _ _ _ _
  · exact fun stream i _ => grows_parseBlock _ _ _

/-- A loop that is tied is a cycle. -/
theorem Turn.TiesLoop.not_acyclic (h : t.TiesLoop f) : ¬ (t.perform f).Acyclic := by
  obtain ⟨machine, stream, backend, a⟩ := t
  obtain ⟨b, index, c, g, rfl, hg, p, hp, hc⟩ := h
  have hperform : Turn.perform f ⟨machine, stream, backend, .addToBlock b index c⟩ = g := by
    rw [Turn.perform, Session.perform, hg]
    rfl
  have hmay : f.MayAdopt b c := by
    obtain ⟨-, -, -, -, hmay, -⟩ := addToBlock_eq_ok_iff.1 hg
    exact hmay
  have hgains : f.Gains g (f.Shares b) [c] := by
    obtain ⟨-, hindex, hl, -⟩ := addToBlock_eq_ok_iff.1 hg
    exact (feeds_of_addToBlock hg).gains (by simpa using hmay.lt_size) (perm_insertIdx (by omega))
  have hpc : g.Child p c := (hgains.child_iff p c).2 (.inr ⟨hp, List.mem_singleton_self c⟩)
  rw [hperform]
  intro hg'
  rcases hc with rfl | hcp
  · exact hg' p (.single hpc)
  · exact hg' c (((keeps_addToBlock hg).below hcp).tail hpc)

theorem Turn.below (t : Turn) {i j : NodeId} (h : f.Below i j) : (t.perform f).Below i j :=
  (perform_keeps ⟨t.machine, f, t.stream, t.backend⟩ t.action).below h

theorem Turn.acyclic_iff (hf : f.OwnsChildren) (t : Turn) :
    (t.perform f).Acyclic ↔ f.Acyclic ∧ ¬ t.TiesLoop f :=
  ⟨fun h => ⟨fun i hi => h i (t.below hi), fun ht => ht.not_acyclic h⟩,
    fun ⟨ha, ht⟩ => (t.grows hf).acyclic ht hf ha⟩

/-! ### All steps -/

theorem grow_ownsChildren (hf : f.OwnsChildren) (ts : List Turn) : (grow f ts).OwnsChildren := by
  induction ts generalizing f with
  | nil => exact hf
  | cons t ts ih => exact ih ((t.grows hf).ownsChildren hf)

theorem grow_acyclic_iff (hf : f.OwnsChildren) (ts : List Turn) :
    (grow f ts).Acyclic ↔ f.Acyclic ∧
      ∀ k (hk : k < ts.length), ¬ ts[k].TiesLoop (grow f (ts.take k)) := by
  induction ts generalizing f with
  | nil => simp [grow]
  | cons t ts ih =>
    refine (ih ((t.grows hf).ownsChildren hf)).trans ?_
    rw [t.acyclic_iff hf, and_assoc,
      forall_getElem_cons_iff (p := fun us (u : Turn) => ¬ u.TiesLoop (grow f us))]
    rfl

theorem grow_separate (hf : f.OwnsChildren) (hs : f.Separate) {ts : List Turn}
    (hts : ∀ t ∈ ts, ∀ i, t.action.given ≠ .of i) : (grow f ts).Separate := by
  induction ts generalizing f with
  | nil => exact hs
  | cons t ts ih =>
    obtain ⟨ht, hts⟩ := List.forall_mem_cons.1 hts
    exact ih ((t.grows hf).ownsChildren hf) ((t.grows hf).separate ht hs) hts

/-- Where every node has a list of its own, the checks keep loops away. -/
theorem not_tiesLoop_of_separate (hf : f.OwnsChildren) (hs : f.Separate) : ¬ t.TiesLoop f := by
  rintro ⟨b, index, c, g, -, hg, p, hp, hc⟩
  obtain rfl : p = b := hs b p hp
  obtain ⟨-, -, -, -, hmay, -⟩ := addToBlock_eq_ok_iff.1 hg
  rcases hc with rfl | hcp
  · exact hmay.ne rfl
  · exact (hf.admits hmay).not_below hcp

theorem grow_exclusive (hf : f.OwnsChildren) (he : f.Exclusive) {ts : List Turn}
    (hts : ∀ t ∈ ts, t.action.given = .new []) : (grow f ts).Exclusive := by
  induction ts generalizing f with
  | nil => exact he
  | cons t ts ih =>
    obtain ⟨ht, hts⟩ := List.forall_mem_cons.1 hts
    have hapart : ∀ i, t.action.given ≠ .of i := by simp [ht]
    exact ih ((t.grows hf).ownsChildren hf) ((t.grows hf).exclusive ht hapart hf he) hts

theorem grow_hierarchical {ts : List Turn} (hts : ∀ t ∈ ts, ∀ i, t.action.given ≠ .of i) :
    (grow .empty ts).Hierarchical := by
  refine ⟨(grow_acyclic_iff ownsChildren_empty ts).2 ⟨acyclic_empty, fun k hk => ?_⟩,
    grow_ownsChildren ownsChildren_empty ts⟩
  refine not_tiesLoop_of_separate (grow_ownsChildren ownsChildren_empty _)
    (grow_separate ownsChildren_empty separate_empty fun t ht => ?_)
  exact hts t (List.mem_of_mem_take ht)

/-- In every forest that is reached all children are owned. Nodes lie below themselves if and only
if a turn has tied a loop, which none does if no node is constructed with the list of another one.
If no node was constructed with children, every node has one slot at most among all the children
lists, and the owned nodes are those that have one. -/
theorem grow_ownership (ts : List Turn) :
    (∀ i c, (grow .empty ts).Child i c → (grow .empty ts).IsOwned c) ∧
      ((grow .empty ts).Acyclic ↔
        ∀ k (hk : k < ts.length), ¬ ts[k].TiesLoop (grow .empty (ts.take k))) ∧
      ((∀ t ∈ ts, ∀ i, t.action.given ≠ .of i) → (grow .empty ts).Acyclic) ∧
      ((∀ t ∈ ts, t.action.given = .new []) → (grow .empty ts).slots.Nodup ∧
        ∀ c, (grow .empty ts).IsOwned c ↔ ∃ i, (grow .empty ts).Child i c) := by
  have howns := grow_ownsChildren ownsChildren_empty ts
  refine ⟨howns, (grow_acyclic_iff ownsChildren_empty ts).trans (and_iff_right acyclic_empty),
    fun hts => (grow_hierarchical hts).acyclic, fun hts => ?_⟩
  have he := grow_exclusive ownsChildren_empty exclusive_empty hts
  exact ⟨he.nodup, fun c => ⟨he.attached c, fun ⟨i, hic⟩ => howns i c hic⟩⟩

/-- Two blocks have a list between them, and a loop around one of them is added to the other one. -/
theorem not_acyclic_of_shared_list :
    let f := grow .empty [⟨.usual, none, none, .fresh⟩,
      ⟨.usual, none, none, .assembleCall 0 "a"⟩,
      ⟨.usual, none, none, .construct .block none none (.new [0])⟩,
      ⟨.usual, none, none, .construct .block none none (.of 1)⟩, ⟨.usual, none, none, .fresh⟩,
      ⟨.usual, none, none, .assembleWhile 3 .always 2⟩, ⟨.usual, none, none, .addToBlock 1 1 3⟩]
    ¬ f.Acyclic := by
  intro f h
  have hbody : f.Child 3 2 := show 2 ∈ f.children 3 by decide +kernel
  have helement : f.Child 2 3 := show 3 ∈ f.children 2 by decide +kernel
  exact h 3 (.head hbody (.single helement))

example : (grow .empty [⟨.usual, none, none, .fresh⟩,
    ⟨.usual, none, none, .construct .block none none (.new [0])⟩,
    ⟨.usual, none, none, .construct .block none none (.new [0])⟩]).slots = [0, 0] := by decide

/-- The forest of a session is reached by turns. -/
theorem exists_grow_eq_run (s : Session) (as : List Action) :
    ∃ ts : List Turn, ts.map Turn.action = as ∧ (run s as).forest = grow s.forest ts := by
  induction as generalizing s with
  | nil => exact ⟨[], rfl, rfl⟩
  | cons a as ih =>
    obtain ⟨ts, hts, hrun⟩ := ih (s.perform a).2
    exact ⟨⟨s.machine, s.stream, s.backend, a⟩ :: ts, by rw [List.map_cons, hts], hrun⟩

end Session

end BlockLang
