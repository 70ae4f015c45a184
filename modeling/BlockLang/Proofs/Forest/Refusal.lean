import BlockLang.Proofs.Forest.Ownership

/-! Refusals. The checks of a building step look at the marks of nodes and search only where they
have to. In a forest where exactly the children are marked as owned they find what they are there
for: a child that has a parent, or that is the receiver or lies above it. What is refused is refused
before anything has changed. -/

namespace BlockLang

/-- The errors of checks, as opposed to those of looking for a node or a child that is not there and
to a search that never ends. -/
def BuildError.isRefusal : BuildError → Bool
  | unknownNode _ | noIndex | noSuchChild | endlessSearch => false
  | _ => true

namespace Forest

variable {f g : Forest} {i b c : NodeId} {n : Node} {ids bodies : List NodeId} {α β : Type}

/-! ### What checks refuse -/

/-- A node cannot become a child of `i`: it has a parent, or it is `i` or lies above it. -/
def Unadoptable (f : Forest) (i c : NodeId) : Prop := (∃ p, f.Child p c) ∨ c = i ∨ f.Below c i

/-- A node cannot become a body of `i`. -/
def UnfitBody (f : Forest) (i b : NodeId) : Prop := f.kind? b ≠ some .block ∨ f.Unadoptable i b

/-- Where exactly the children are owned, the check of a child is right. The search is needed only
for a parent that has a parent, since there is nothing above one that has none. -/
theorem Hierarchical.mayAdopt_iff (h : f.Hierarchical) (ha : f.Attached) (hi : i < f.size)
    (hc : c < f.size) : f.MayAdopt i c ↔ ¬ f.Unadoptable i c := by
  constructor
  · intro hm
    have hadmits := h.isOwned.admits hm
    rintro (⟨p, hp⟩ | heq | hci)
    · exact hadmits.free (h.isOwned p c hp)
    · exact hadmits.ne heq
    · exact hadmits.not_below hci
  · intro hu
    obtain ⟨hparent, hne, hbelow⟩ : (¬ ∃ p, f.Child p c) ∧ c ≠ i ∧ ¬ f.Below c i := by
      simpa only [Unadoptable, not_or] using hu
    obtain ⟨m, hm⟩ := exists_node?_iff.2 hi
    obtain ⟨n, hn⟩ := exists_node?_iff.2 hc
    refine ⟨m, n, hm, hn, ?_, hne, fun _ => ?_⟩
    · exact Bool.eq_false_iff.2 fun ho => hparent (ha c ⟨n, hn, ho⟩)
    · obtain ⟨found, hfound, hiff⟩ := h.acyclic.exists_contains?_eq c i
      rw [hfound, Bool.eq_false_iff.2 (mt hiff.1 hbelow)]

/-! ### Errors of checks -/

/-- Nothing but a check fails. -/
def OnlyRefuses (x : Except BuildError α) : Prop := ∀ e, x = .error e → e.isRefusal

theorem OnlyRefuses.bind {x : Except BuildError α} {next : α → Except BuildError β}
    (hx : OnlyRefuses x) (h : ∀ a, OnlyRefuses (next a)) : OnlyRefuses (x >>= next) := by
  intro e he
  cases x with
  | error e' =>
    obtain rfl : e' = e := Except.error.inj he
    exact hx e' rfl
  | ok a => exact h a e he

theorem onlyRefuses_ok (a : α) : OnlyRefuses (.ok a) := nofun

theorem onlyRefuses_require {e : BuildError} (he : e.isRefusal) (holds : Bool) :
    OnlyRefuses (e.require holds) := by
  cases holds with
  | true => exact onlyRefuses_ok ()
  | false =>
    rintro _ ⟨⟩
    exact he

theorem onlyRefuses_get (hi : i < f.size) : OnlyRefuses (f.get i) := by
  obtain ⟨n, hn⟩ := exists_node?_iff.2 hi
  rw [get, hn]
  exact onlyRefuses_ok n

theorem onlyRefuses_requireNotBelow (h : f.Acyclic) (i c : NodeId) :
    OnlyRefuses (f.requireNotBelow i c) := by
  obtain ⟨found, hfound, -⟩ := h.exists_contains?_eq c i
  rw [requireNotBelow, hfound]
  exact onlyRefuses_require rfl _

theorem onlyRefuses_requireAdoptable (h : f.Acyclic) (hi : i < f.size) (hc : c < f.size) :
    OnlyRefuses (f.requireAdoptable i c) := by
  refine (onlyRefuses_get hi).bind fun p => (onlyRefuses_get hc).bind fun _ =>
    (onlyRefuses_require rfl _).bind fun _ => (onlyRefuses_require rfl _).bind fun _ => ?_
  cases p.owned with
  | true => exact onlyRefuses_requireNotBelow h i c
  | false => exact onlyRefuses_ok ()

theorem onlyRefuses_requireBodies (h : f.Acyclic) (hi : i < f.size)
    (hb : ∀ b ∈ bodies, b < f.size) : OnlyRefuses (f.requireBodies i bodies) := by
  induction bodies with
  | nil => exact onlyRefuses_ok ()
  | cons b bodies ih =>
    obtain ⟨hb, hbodies⟩ := List.forall_mem_cons.1 hb
    exact (onlyRefuses_get hb).bind fun _ => (onlyRefuses_require rfl _).bind fun _ =>
      (onlyRefuses_requireAdoptable h hi hb).bind fun _ => ih hbodies

theorem onlyRefuses_assemble (h : f.Acyclic) (hi : i < f.size) (hb : ∀ b ∈ bodies, b < f.size)
    (kind : Kind) (c : Condition) : OnlyRefuses (f.assemble i kind c bodies) :=
  (onlyRefuses_get hi).bind fun _ => (onlyRefuses_require rfl _).bind fun _ =>
    (onlyRefuses_requireBodies h hi hb).bind fun _ => (onlyRefuses_require rfl _).bind fun _ =>
      onlyRefuses_ok _

theorem onlyRefuses_assembleCall (hi : i < f.size) (name : String) :
    OnlyRefuses (f.assembleCall i name) :=
  (onlyRefuses_get hi).bind fun _ => (onlyRefuses_require rfl _).bind fun _ =>
    (onlyRefuses_require rfl _).bind fun _ => onlyRefuses_ok _

theorem onlyRefuses_addToBlock (h : f.Acyclic) (hi : i < f.size) (hc : c < f.size)
    (index : Int) : OnlyRefuses (f.addToBlock i index c) :=
  (onlyRefuses_get hi).bind fun _ => (onlyRefuses_require rfl _).bind fun _ =>
    (onlyRefuses_require rfl _).bind fun _ => (onlyRefuses_get hc).bind fun _ =>
      (onlyRefuses_require rfl _).bind fun _ =>
        (onlyRefuses_requireAdoptable h hi hc).bind fun _ => onlyRefuses_ok _

/-! ### Results of steps -/

/-- A step on a node is refused by a check if something is against it. Otherwise the node adopts
others and is changed. -/
def Decides (f : Forest) (against : Prop) (i : NodeId) (ids : List NodeId) (change : Node → Node)
    (r : Except BuildError Forest) : Prop :=
  (against → ∃ e : BuildError, e.isRefusal ∧ r = .error e) ∧
    (¬ against → ∃ g, r = .ok g ∧ f.Adopts g i ids change)

theorem decides_of_onlyRefuses {against : Prop} {change : Node → Node}
    {r : Except BuildError Forest} (hr : OnlyRefuses r)
    (hok : (∃ g, r = .ok g) ↔ ¬ against) (hg : ∀ g, r = .ok g → f.Adopts g i ids change) :
    f.Decides against i ids change r := by
  constructor
  · intro hagainst
    cases r with
    | error e => exact ⟨e, hr e rfl, rfl⟩
    | ok g => exact absurd hagainst (hok.1 ⟨g, rfl⟩)
  · intro hagainst
    obtain ⟨g, hrg⟩ := hok.2 hagainst
    exact ⟨g, hrg, hg g hrg⟩

theorem Decides.congr {p q : Prop} {change : Node → Node} {r : Except BuildError Forest}
    (h : f.Decides p i ids change r) (hpq : p ↔ q) : f.Decides q i ids change r := by
  rwa [propext hpq] at h

theorem insertIdx_eq_take_append_drop {xs : List NodeId} {k : Nat} (hk : k ≤ xs.length) :
    xs.insertIdx k c = xs.take k ++ c :: xs.drop k := by
  induction xs generalizing k with
  | nil =>
    obtain rfl : k = 0 := Nat.le_zero.1 hk
    rfl
  | cons x xs ih =>
    cases k with
    | zero => rfl
    | succ k => simp [ih (Nat.le_of_succ_le_succ hk)]

theorem decides_assembleCall (hi : i < f.size) (name : String) :
    f.Decides (¬ f.IsPlaceholder i ∨ ¬ Token.isIdentifier name) i []
      (fun n => { n with kind := .call, name := some name }) (f.assembleCall i name) := by
  refine decides_of_onlyRefuses (onlyRefuses_assembleCall hi name) ?_ fun g => ?_
  · simp [assembleCall_eq_ok_iff]
  · exact adopts_of_assembleCall

variable (h : f.Hierarchical) (ha : f.Attached)

include h ha

theorem mayBecomeBody_iff (hi : i < f.size) (hb : b < f.size) :
    f.kind? b = some .block ∧ f.MayAdopt i b ↔ ¬ f.UnfitBody i b := by
  rw [UnfitBody, h.mayAdopt_iff ha hi hb, not_or, not_not]

theorem decides_assemble (hi : i < f.size) (hb : ∀ b ∈ bodies, b < f.size) (kind : Kind)
    (c : Condition) :
    f.Decides (¬ f.IsPlaceholder i ∨ (∃ b ∈ bodies, f.UnfitBody i b) ∨ ¬ bodies.Nodup) i bodies
      (fun n => { n with kind := kind, condition := some c, children := bodies })
      (f.assemble i kind c bodies) := by
  refine decides_of_onlyRefuses (onlyRefuses_assemble h.acyclic hi hb kind c) ?_ fun g => ?_
  · simp only [assemble_eq_ok_iff, exists_and_left, exists_eq, and_true, not_or, not_not,
      not_exists, not_and]
    refine and_congr_right fun _ => and_congr_left fun _ => forall₂_congr fun b hbodies => ?_
    exact mayBecomeBody_iff h ha hi (hb b hbodies)
  · exact adopts_of_assemble

theorem decides_addToBlock (hs : f.Separate) (hi : i < f.size) (hc : c < f.size) (index : Int) :
    f.Decides (f.kind? i ≠ some .block ∨ index < 0 ∨ (f.children i).length < index ∨
        f.kind? c = some .block ∨ f.Unadoptable i c) i [c]
      (fun n => { n with
        children := n.children.take index.toNat ++ c :: n.children.drop index.toNat })
      (f.addToBlock i index c) := by
  refine decides_of_onlyRefuses (onlyRefuses_addToBlock h.acyclic hi hc index) ?_ fun g hg => ?_
  · obtain ⟨n, hn⟩ := exists_node?_iff.2 hc
    simp only [addToBlock_eq_ok_iff, h.mayAdopt_iff ha hi hc, exists_and_left, exists_eq, and_true,
      not_or, not_not, not_lt]
    simp [kind?, hn]
  · refine (adopts_of_addToBlock (hs i) hg).congr (fun _ => rfl) fun n hn => ?_
    obtain ⟨-, -, hl, -⟩ := addToBlock_eq_ok_iff.1 hg
    have hk : index.toNat ≤ n.children.length := by
      simp only [children, hn, Option.elim_some] at hl
      omega
    rw [insertIdx_eq_take_append_drop hk]

end Forest

end BlockLang
