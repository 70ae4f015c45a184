import BlockLang.Proofs.Forest.Lasting
import BlockLang.Proofs.Session.Building
import BlockLang.Proofs.Session.Frame

/-! What lasts in sessions. Nodes are assembled once and blocks only grow, whatever is built, parsed
or printed in between, by steps that succeed and by steps that fail, and whatever forest the steps
begin with. A test or a call gets no other children, except where it was constructed with the list
of a block and that block gets more elements. -/

namespace BlockLang

open Forest

namespace Session

/-- A step that is taken on a machine, with a token stream and a backend of its own. -/
structure Turn where
  machine : Machine
  stream : Option TokenStream
  backend : Option Backend
  action : Action

/-- The forest after a turn. -/
def Turn.perform (f : Forest) (t : Turn) : Forest :=
  (Session.perform ⟨t.machine, f, t.stream, t.backend⟩ t.action).2.forest

/-- The forest after turns that are taken one after another, whether they succeed or fail. -/
def grow (f : Forest) (ts : List Turn) : Forest := ts.foldl Turn.perform f

/-- The block that a step is to give more elements. -/
def Action.extended? : Action → Option NodeId
  | addToBlock i _ _ | parseBlock i => some i
  | _ => none

/-- A turn gives more elements to a block that has the list of a node. -/
def Turn.Feeds (f : Forest) (t : Turn) (i : NodeId) : Prop :=
  ∃ b ∈ t.action.extended?, f.kind? b = some .block ∧ f.Shares b i ∧
    (t.perform f).children b ≠ f.children b

variable {s : Session} {a : Action} {f : Forest} {t : Turn} {b i : NodeId} {n : Node}

/-! ### One step -/

/-- In every step the nodes of the forest keep what they have. A failing parse may add elements to
the block that it was given, and only that. -/
theorem perform_keeps (s : Session) (a : Action) :
    s.forest.Keeps (fun i => ∃ b ∈ a.extended?, s.forest.kind? b = some .block ∧
      s.forest.Shares b i) (s.perform a).2.forest := by
  refine forest_perform_induction s a (.refl _) ?_ ?_ ?_ ?_ ?_ ?_ ?_
  · exact fun _ => keeps_insertAbove s.forest .block none none []
  · exact fun kind condition name children i g _ => keeps_construct
  · exact fun i kind c bodies g => keeps_assemble
  · exact fun i name g => keeps_assembleCall
  · rintro i index child g rfl hg
    exact (keeps_addToBlock hg).mono fun j hj => ⟨i, rfl, (addToBlock_eq_ok_iff.1 hg).1, hj⟩
  · exact fun stream beginning i => keeps_parseStatement _ _ _ _
  · rintro stream i rfl
    rcases parseBlock_cases s.forest stream i with h | ⟨hk, xs, h⟩
    · rw [h]
      exact .refl _
    · obtain ⟨n, hn, -⟩ := Option.map_eq_some_iff.1 hk
      rw [h]
      exact (keeps_append (lt_size_of_node? hn) xs).mono fun j hj => ⟨i, rfl, hk, hj⟩

/-- A node that has the list of a block has it still when the block gets more elements. -/
theorem shares_perform (hb : b ∈ a.extended?) (h : s.forest.Shares b i) :
    (s.perform a).2.forest.Shares b i := by
  cases a with
  | addToBlock j index c =>
    obtain rfl : j = b := Option.some.inj hb
    rw [perform]
    cases hg : s.forest.addToBlock j index c with
    | error e => exact h
    | ok g => exact (feeds_of_addToBlock hg).shares_iff.2 h
  | parseBlock j =>
    obtain rfl : j = b := Option.some.inj hb
    have hparse : ∀ stream, (s.forest.parseBlock stream j).2.2.Shares j i := by
      intro stream
      rcases parseBlock_cases s.forest stream j with hsame | ⟨-, xs, hxs⟩
      · rwa [hsame]
      · rw [hxs]
        exact shares_append xs h
    rw [perform, parse]
    split
    · exact h
    · next stream _ =>
      have hstep := hparse stream
      split <;> next heq => rwa [heq] at hstep
  | _ => cases hb

theorem node?_perform (t : Turn) (hn : f.node? i = some n) :
    ∃ m, (t.perform f).node? i = some m ∧ n.Keeps m := by
  obtain ⟨m, hm, hkeeps, -⟩ := perform_keeps ⟨t.machine, f, t.stream, t.backend⟩ t.action i n hn
  exact ⟨m, hm, hkeeps⟩

/-- A turn changes the children of a test or a call exactly if it gives more elements to a block
that has the same list. -/
theorem Turn.children_eq_iff (hn : f.node? i = some n) (hk : n.kind ≠ .block) :
    (t.perform f).children i = f.children i ↔ ¬ t.Feeds f i := by
  obtain ⟨m, hm, -, hsame⟩ :=
    perform_keeps ⟨t.machine, f, t.stream, t.backend⟩ t.action i n hn
  constructor
  · rintro heq ⟨b, hb, -, hshares, hne⟩
    have hshares' : (t.perform f).Shares b i := shares_perform hb hshares
    exact hne (hshares'.children_eq.symm.trans (heq.trans hshares.children_eq))
  · intro hnot
    have hm' : (t.perform f).node? i = some m := hm
    rw [children, children, hm', hn]
    by_contra hne
    refine hne (hsame hk ?_)
    rintro ⟨b, hb, hkb, hshares⟩
    refine hnot ⟨b, hb, hkb, hshares, fun heq => hne ?_⟩
    have hshares' : (t.perform f).Shares b i := shares_perform hb hshares
    have hchildren : (t.perform f).children i = f.children i :=
      hshares'.children_eq.trans (heq.trans hshares.children_eq.symm)
    rwa [children, children, hm', hn] at hchildren

/-! ### All steps -/

theorem grow_append (f : Forest) (ts us : List Turn) :
    grow f (ts ++ us) = grow (grow f ts) us :=
  List.foldl_append

theorem node?_grow (ts : List Turn) (hn : f.node? i = some n) :
    ∃ m, (grow f ts).node? i = some m ∧ n.Keeps m := by
  induction ts generalizing f n with
  | nil => exact ⟨n, hn, .refl n⟩
  | cons t ts ih =>
    obtain ⟨m, hm, hnm⟩ := node?_perform t hn
    obtain ⟨k, hk, hmk⟩ := ih hm
    exact ⟨k, hk, hnm.trans hmk⟩

/-- The children of a test or a call have changed exactly if one of the turns has changed them. -/
theorem grow_children_eq_iff (hn : f.node? i = some n) (hk : n.kind ≠ .block) (ts : List Turn) :
    (grow f ts).children i = f.children i ↔
      ∀ k (hk : k < ts.length), ¬ ts[k].Feeds (grow f (ts.take k)) i := by
  induction ts generalizing f n with
  | nil => simp [grow]
  | cons t ts ih =>
    obtain ⟨m, hm, hnm⟩ := node?_perform t hn
    obtain ⟨l, hl, hml⟩ := node?_grow ts hm
    have hsplit : (grow f (t :: ts)).children i = f.children i ↔
        (t.perform f).children i = f.children i ∧
          (grow (t.perform f) ts).children i = (t.perform f).children i := by
      have hl' : (grow f (t :: ts)).node? i = some l := hl
      simp only [children, hl', hl, hm, hn, Option.elim_some]
      constructor
      · intro heq
        have hm' : m.children = n.children :=
          (hnm.children.antisymm (heq ▸ hml.children)).symm
        exact ⟨hm', heq.trans hm'.symm⟩
      · rintro ⟨h, h'⟩
        exact h'.trans h
    rw [hsplit, t.children_eq_iff hn hk, ih hm (hnm.kind_ne hk),
      forall_getElem_cons_iff (p := fun us (u : Turn) => ¬ u.Feeds (grow f us) i)]
    rfl

/-- A node that is there at one moment is there at each later one. If it was a test or a call, it
is the same one with the same children, except that a turn in between may have given more elements
to a block that has the same list; if it was a block with elements, it is a block; the children it
had are still there in their order; and it does not lose its owner. -/
theorem grow_lasting (f : Forest) (ts us : List Turn) {i : NodeId} {n : Node}
    (hn : (grow f ts).node? i = some n) :
    ∃ m, (grow f (ts ++ us)).node? i = some m ∧
      (n.kind ≠ .block → m.kind = n.kind ∧ m.condition = n.condition ∧ m.name = n.name ∧
        (m.children = n.children ↔
          ∀ k (hk : k < us.length), ¬ us[k].Feeds (grow f (ts ++ us.take k)) i)) ∧
      (n.kind = .block → n.children ≠ [] → m.kind = .block) ∧
      n.children.Sublist m.children ∧ (n.owned → m.owned) := by
  obtain ⟨m, hm, hkeeps⟩ := node?_grow us hn
  refine ⟨m, by rw [grow_append, hm], fun hk => ?_, fun hk hc => ?_, hkeeps.children, hkeeps.owned⟩
  · obtain ⟨hkind, hcondition, hname⟩ := hkeeps.data (Node.isEmpty_eq_false_iff.2 (.inl hk))
    have hiff := grow_children_eq_iff hn hk us
    rw [children, children, hm, hn] at hiff
    simpa only [hkind, hcondition, hname, true_and, grow_append, Option.elim_some] using hiff
  · rw [(hkeeps.data (Node.isEmpty_eq_false_iff.2 (.inr hc))).1, hk]

/-- A block keeps its call when a parse of `turn IF` into it fails, and when it is to be assembled
as a loop. -/
theorem grow_lasting_block :
    let ts := [⟨.usual, none, none, .fresh⟩,
      ⟨.usual, none, none, .construct .call none (some "move") (.new [])⟩,
      ⟨.usual, none, none, .addToBlock 0 0 1⟩]
    let us := [⟨.usual, some (.ofTokens ["turn", "IF"]), none, .parseBlock 0⟩,
      ⟨.usual, none, none, .fresh⟩, ⟨.usual, none, none, .assembleWhile 0 .always 3⟩]
    ∃ m, (grow .empty (ts ++ us)).node? 0 = some m ∧ m.kind = .block ∧ [1].Sublist m.children := by
  intro ts us
  obtain ⟨m, hm, -, hkind, hchildren, -⟩ := grow_lasting .empty ts us (i := 0)
    (n := ⟨.block, none, none, [1], false⟩) (by decide)
  exact ⟨m, hm, hkind rfl (by decide), hchildren⟩

/-- A loop gets a second child when its body gets an element, if a block was constructed with the
list of the loop. -/
theorem grow_children_ne :
    let ts : List Turn := [⟨.usual, none, none, .fresh⟩,
      ⟨.usual, none, none, .construct .whileDo (some .always) none (.new [0])⟩,
      ⟨.usual, none, none, .construct .block none none (.of 1)⟩,
      ⟨.usual, none, none, .construct .call none (some "move") (.new [])⟩]
    let t : Turn := ⟨.usual, none, none, .addToBlock 2 1 3⟩
    (grow .empty ts).node? 1 = some ⟨.whileDo, some .always, none, [0], false⟩ ∧
      (grow .empty (ts ++ [t])).node? 1 = some ⟨.whileDo, some .always, none, [0, 3], false⟩ := by
  decide

example : (grow .empty [⟨.usual, none, none, .fresh⟩,
    ⟨.usual, some (.ofTokens ["turn", "IF"]), none, .parseBlock 0⟩]).children 0 = [1] := by
  decide +kernel

end Session

end BlockLang
