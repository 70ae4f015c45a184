import BlockLang.Proofs.Forest.Ownership
import BlockLang.Proofs.Grammar

/-! Legal forests: every node could stand in a program. Building keeps all that legality asks for,
except that a body may cease to be a block: a placeholder that already is a body of a statement can
still become something else. Only this makes a forest illegal, and for good. -/

namespace BlockLang

namespace Forest

/-- A node is a legal statement, as far as its own data and the kinds of its children go. -/
def LegalAt (f : Forest) (n : Node) : Prop :=
  match n.kind with
  | .block => ∀ c ∈ n.children, ∃ k, f.kind? c = some k ∧ k ≠ .block
  | .ifThen | .whileDo =>
    n.condition.isSome ∧ ∃ b, n.children = [b] ∧ f.kind? b = some .block
  | .ifElse =>
    n.condition.isSome ∧ ∃ b b', n.children = [b, b'] ∧ b ≠ b' ∧ f.kind? b = some .block ∧
      f.kind? b' = some .block
  | .call => n.children = [] ∧ ∃ name, n.name = some name ∧ Token.isIdentifier name

/-- All nodes are legal statements. -/
def Legal (f : Forest) : Prop := ∀ i n, f.node? i = some n → f.LegalAt n

/-- The children of tests are blocks. -/
def BodiesAreBlocks (f : Forest) : Prop :=
  ∀ i c, f.Child i c → f.kind? i ≠ some .block → f.kind? c = some .block

/-- What building keeps in every case. -/
structure Built (f : Forest) : Prop where
  separate : f.Separate
  hierarchical : f.Hierarchical
  attached : f.Attached
  shaped : ∀ i n, f.node? i = some n → n.Shaped
  elements : ∀ i c, f.Child i c → f.kind? i = some .block → ∃ k, f.kind? c = some k ∧ k ≠ .block

variable {f g : Forest} {a : Option NodeId} {i j c : NodeId} {n m : Node} {ids : List NodeId}
  {change : Node → Node}

theorem kind?_of_node? (hn : f.node? i = some n) : f.kind? i = some n.kind := by
  rw [kind?, hn, Option.map_some]

theorem child_of_mem (hn : f.node? i = some n) (hc : c ∈ n.children) : f.Child i c :=
  mem_children_iff.2 ⟨n, hn, hc⟩

theorem LegalAt.bodies (h : f.LegalAt n) (hk : n.kind ≠ .block) :
    ∀ c ∈ n.children, f.kind? c = some .block := by
  unfold LegalAt at h
  cases hkind : n.kind with
  | block => exact absurd hkind hk
  | ifThen | whileDo =>
    obtain ⟨-, b, hb, hbk⟩ : _ ∧ _ := by simpa only [hkind] using h
    simpa [hb] using hbk
  | ifElse =>
    obtain ⟨-, b, b', hb, -, hbk⟩ : _ ∧ _ := by simpa only [hkind] using h
    simpa [hb] using hbk
  | call =>
    obtain ⟨hnil, -⟩ : _ ∧ _ := by simpa only [hkind] using h
    simp [hnil]

theorem legalAt_of_bodies (hs : n.Shaped)
    (he : n.kind = .block → ∀ c ∈ n.children, ∃ k, f.kind? c = some k ∧ k ≠ .block)
    (hb : n.kind ≠ .block → ∀ c ∈ n.children, f.kind? c = some .block) : f.LegalAt n := by
  unfold LegalAt
  unfold Node.Shaped at hs
  cases hkind : n.kind with
  | block => exact he hkind
  | ifThen | whileDo =>
    simp only [hkind] at hs
    obtain ⟨b, hl⟩ := List.length_eq_one_iff.1 hs.2.2
    exact ⟨hs.1, b, hl, hb (by simp [hkind]) b (by simp [hl])⟩
  | ifElse =>
    simp only [hkind] at hs
    obtain ⟨b, b', hl⟩ := List.length_eq_two.1 hs.2.2.1
    have hne : b ≠ b' := by simpa [hl] using hs.2.2.2
    have hbodies := hb (by simp [hkind])
    exact ⟨hs.1, b, b', hl, hne, hbodies b (by simp [hl]), hbodies b' (by simp [hl])⟩
  | call =>
    simp only [hkind] at hs
    exact hs.2

theorem Built.legal_iff (h : f.Built) : f.Legal ↔ f.BodiesAreBlocks := by
  constructor
  · intro hl i c hic hk
    obtain ⟨n, hn, hc⟩ := mem_children_iff.1 hic
    rw [kind?_of_node? hn] at hk
    exact (hl i n hn).bodies (fun hkind => hk (congrArg some hkind)) c hc
  · intro hb i n hn
    refine legalAt_of_bodies (h.shaped i n hn) (fun hk c hc => ?_) (fun hk c hc => ?_)
    · exact h.elements i c (child_of_mem hn hc) (by rw [kind?_of_node? hn, hk])
    · exact hb i c (child_of_mem hn hc) (by simpa [kind?_of_node? hn] using hk)

/-! ### Changes -/

theorem built_empty : empty.Built :=
  ⟨separate_empty, hierarchical_empty, attached_empty, by simp,
    fun i c h => absurd h (not_child_empty i c)⟩

theorem legal_empty : empty.Legal := by simp [Legal]

theorem Adopts.shaped (h : f.Adopts g i ids change) (hf : ∀ j n, f.node? j = some n → n.Shaped)
    (hn : f.node? i = some n) (hs : (change n).Shaped) :
    ∀ j m, g.node? j = some m → m.Shaped := by
  intro j m hm
  by_cases hj : j = i
  · subst hj
    obtain rfl : change n = m := Option.some.inj ((h.node?_self hn).symm.trans hm)
    exact hs
  · rw [h.node?_other j hj] at hm
    obtain ⟨m', hm', rfl⟩ := Option.map_eq_some_iff.1 hm
    exact hf j m' hm'

theorem Adopts.kind?_self (h : f.Adopts g i ids change) (hn : f.node? i = some n) :
    g.kind? i = some (change n).kind :=
  kind?_of_node? (h.node?_self hn)

theorem Adopts.kind?_eq (h : f.Adopts g i ids change) (hn : f.node? i = some n)
    (hk : (change n).kind = n.kind) (j : NodeId) : g.kind? j = f.kind? j := by
  by_cases hj : j = i
  · rw [hj, h.kind?_self hn, hk, kind?_of_node? hn]
  · exact h.kind?_of_not hj

theorem Built.of_change (h : f.Built) (hc : f.Change a g) : g.Built := by
  refine ⟨hc.separate h.separate, h.hierarchical.of_change hc, h.attached.of_change hc, ?_, ?_⟩
  · cases hc with
    | fresh =>
      intro j m hm
      rw [node?_fresh] at hm
      split at hm
      · obtain rfl := Option.some.inj hm
        exact ⟨rfl, rfl⟩
      · exact h.shaped j m hm
    | become hn hb _ hadopts =>
      exact hadopts.shaped h.shaped hn (hb.shaped (h.shaped _ _ hn))
    | @add i child n index g hn hk _ _ _ hadopts =>
      refine hadopts.shaped h.shaped hn ?_
      have hs := h.shaped i n hn
      simpa only [Node.Shaped, hk] using hs
  · intro j c hjc hkj
    cases hc with
    | fresh =>
      have hjc' := child_fresh.1 hjc
      rw [kind?_fresh hjc'.lt_size] at hkj
      rw [kind?_fresh (h.hierarchical.isOwned.closed j c hjc')]
      exact h.elements j c hjc' hkj
    | @become i n bodies change g hn hb hbodies hadopts =>
      have hki := hadopts.kind?_self hn
      have hj : j ≠ i := by
        rintro rfl
        exact hb.kind (Option.some.inj (hki.symm.trans hkj))
      have hjc' := (hadopts.child_of_not hj).1 hjc
      rw [hadopts.kind?_of_not hj] at hkj
      by_cases hci : c = i
      · subst hci
        exact ⟨_, hki, hb.kind⟩
      · rw [hadopts.kind?_of_not hci]
        exact h.elements j c hjc' hkj
    | @add i child n index g hn hk hl hchild _ hadopts =>
      rw [hadopts.kind?_eq hn rfl] at hkj ⊢
      rcases (hadopts.child_iff hn (perm_insertIdx hl) j c).1 hjc with hjc' | ⟨-, hc⟩
      · exact h.elements j c hjc' hkj
      · obtain rfl := List.mem_singleton.1 hc
        exact hchild

/-- A placeholder has no children, and only tests have it as a child. -/
theorem Built.child_of_placeholder (h : f.Built) (hn : f.node? i = some n) (he : n.isEmpty) :
    (∀ c, ¬ f.Child i c) ∧ ∀ p, f.Child p i → p ≠ i ∧ f.kind? p ≠ some .block := by
  obtain ⟨hk, hnil⟩ := Node.isEmpty_iff.1 he
  have hnone : ∀ c, ¬ f.Child i c := by simp [Child, mem_children_iff, hn, hnil]
  refine ⟨hnone, fun p hp => ⟨?_, fun hkp => ?_⟩⟩
  · rintro rfl
    exact hnone p hp
  · obtain ⟨k, hki, hne⟩ := h.elements p i hp hkp
    rw [kind?_of_node? hn, hk] at hki
    exact hne (Option.some.inj hki).symm

theorem Built.bodiesAreBlocks_become_iff (h : f.Built) (hn : f.node? i = some n)
    {bodies : List NodeId} (hb : n.Becomes (change n) bodies)
    (hbodies : ∀ b ∈ bodies, f.kind? b = some .block ∧ f.MayAdopt i b)
    (hadopts : f.Adopts g i bodies change) :
    g.BodiesAreBlocks ↔ f.BodiesAreBlocks ∧ ¬ f.IsOwned i := by
  have hki : ∀ k, g.kind? i = some k → k ≠ .block := by
    rintro k hk rfl
    exact hb.kind (Option.some.inj ((hadopts.kind?_self hn).symm.trans hk))
  obtain ⟨hnone, hparent⟩ := h.child_of_placeholder hn hb.placeholder
  constructor
  · intro hg
    constructor
    · intro j c hjc hkj
      have hj : j ≠ i := fun hj => hnone c (hj ▸ hjc)
      have hkc := hg j c ((hadopts.child_of_not hj).2 hjc) (by rwa [hadopts.kind?_of_not hj])
      have hc : c ≠ i := fun hc => hki .block (hc ▸ hkc) rfl
      rwa [hadopts.kind?_of_not hc] at hkc
    · intro ho
      obtain ⟨p, hp⟩ := h.attached i ho
      obtain ⟨hpi, hkp⟩ := hparent p hp
      rw [← hadopts.kind?_of_not hpi] at hkp
      exact hki .block (hg p i ((hadopts.child_of_not hpi).2 hp) hkp) rfl
  · rintro ⟨hf, ho⟩ j c hjc hkj
    rcases (hadopts.child_iff hn hb.children_perm j c).1 hjc with hjc | ⟨rfl, hc⟩
    · have hj : j ≠ i := fun hj => hnone c (hj ▸ hjc)
      have hc : c ≠ i := fun hc => ho (hc ▸ h.hierarchical.isOwned j c hjc)
      rw [hadopts.kind?_of_not hj] at hkj
      rw [hadopts.kind?_of_not hc]
      exact hf j c hjc hkj
    · obtain ⟨hkc, ha⟩ := hbodies c hc
      rwa [hadopts.kind?_of_not ha.ne]

/-- A change keeps bodies blocks if and only if it does not turn an owned placeholder into another
statement; and it never makes blocks of bodies that were none. -/
theorem Built.bodiesAreBlocks_iff (h : f.Built) (hc : f.Change a g) :
    g.BodiesAreBlocks ↔ f.BodiesAreBlocks ∧ ∀ i ∈ a, ¬ f.IsOwned i := by
  cases hc with
  | fresh =>
    simp only [Option.mem_def, reduceCtorEq, false_imp_iff, implies_true, and_true]
    refine forall_congr' fun j => forall_congr' fun c => ?_
    rw [child_fresh]
    refine imp_congr_right fun hjc => ?_
    rw [kind?_fresh hjc.lt_size, kind?_fresh (h.hierarchical.isOwned.closed j c hjc)]
  | become hn hb hbodies hadopts =>
    simpa using h.bodiesAreBlocks_become_iff hn hb hbodies hadopts
  | @add i child n index g hn hk hl _ _ hadopts =>
    simp only [Option.mem_def, reduceCtorEq, false_imp_iff, implies_true, and_true]
    refine forall_congr' fun j => forall_congr' fun c => ?_
    rw [hadopts.child_iff hn (perm_insertIdx hl), hadopts.kind?_eq hn rfl, hadopts.kind?_eq hn rfl]
    refine ⟨fun hb hjc => hb (.inl hjc), fun hb hjc hkj => ?_⟩
    rcases hjc with hjc | ⟨rfl, -⟩
    · exact hb hjc hkj
    · rw [kind?_of_node? hn, hk] at hkj
      exact absurd rfl hkj

/-! ### Trees -/

theorem exists_mem_of_forall₂ {α β : Type} {R : α → β → Prop} {xs : List α} {ys : List β}
    (h : List.Forall₂ R xs ys) : ∀ y ∈ ys, ∃ x ∈ xs, R x y := by
  induction h with
  | nil => simp
  | cons hxy _ ih => simp_all

theorem wellFormed_node {ts : List Statement} (hs : n.Shaped)
    (hlen : n.children.length = ts.length) (hts : ∀ t ∈ ts, t.WellFormed)
    (he : n.kind = .block → ∀ t ∈ ts, t.kind ≠ .block)
    (hb : n.kind ≠ .block → ∀ t ∈ ts, t.kind = .block) :
    (Statement.node n.kind n.condition n.name ts).WellFormed := by
  have hall : Statement.AllWellFormed ts := (Statement.allWellFormed_iff ts).2 hts
  unfold Node.Shaped at hs
  cases hkind : n.kind with
  | block =>
    simp only [hkind] at hs
    exact ⟨hs.1, hs.2, hall, he hkind⟩
  | ifThen | whileDo =>
    simp only [hkind] at hs
    exact ⟨hs.1, hs.2.1, hall, hlen.symm.trans hs.2.2, hb (by simp [hkind])⟩
  | ifElse =>
    simp only [hkind] at hs
    exact ⟨hs.1, hs.2.1, hall, hlen.symm.trans hs.2.2.1, hb (by simp [hkind])⟩
  | call =>
    simp only [hkind] at hs
    rw [hs.2.1, List.length_nil] at hlen
    exact ⟨hs.1, List.length_eq_zero_iff.1 hlen.symm, hs.2.2⟩

/-- In a legal forest every tree is one that programs denote. -/
theorem Built.wellFormed_of_unfold (h : f.Built) (hl : f.Legal) {depth : Nat} {t : Statement}
    (ht : f.unfold depth i = some t) : t.WellFormed ∧ f.kind? i = some t.kind := by
  induction depth generalizing i t with
  | zero => cases ht
  | succ depth ih =>
    obtain ⟨n, ts, hn, hts, rfl⟩ := unfold_succ_eq_some_iff.1 ht
    have hchild : ∀ t ∈ ts, ∃ c ∈ n.children, t.WellFormed ∧ f.kind? c = some t.kind := by
      intro t ht
      obtain ⟨c, hc, hct⟩ := exists_mem_of_forall₂ hts t ht
      exact ⟨c, hc, ih hct⟩
    refine ⟨wellFormed_node (h.shaped i n hn) hts.length_eq ?_ ?_ ?_, kind?_of_node? hn⟩
    · intro t ht
      obtain ⟨_, _, hwf, _⟩ := hchild t ht
      exact hwf
    · intro hk t ht
      obtain ⟨c, hc, _, hct⟩ := hchild t ht
      obtain ⟨k, hck, hne⟩ := h.elements i c (child_of_mem hn hc) (by rw [kind?_of_node? hn, hk])
      rwa [Option.some.inj (hct.symm.trans hck)]
    · intro hk t ht
      obtain ⟨c, hc, _, hct⟩ := hchild t ht
      exact Option.some.inj (hct.symm.trans ((hl i n hn).bodies hk c hc))

theorem Built.exists_wellFormed (h : f.Built) (hl : f.Legal) (hi : i < f.size) :
    ∃ t, f.statement? i = some t ∧ t.WellFormed := by
  obtain ⟨t, ht⟩ := h.hierarchical.acyclic.exists_statement? h.hierarchical.isOwned.closed hi
  exact ⟨t, ht, (h.wellFormed_of_unfold hl ht).1⟩

end Forest

end BlockLang
