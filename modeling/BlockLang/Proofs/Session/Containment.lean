import BlockLang.Proofs.Session.Ownership

/-! Nodes that would come to lie below themselves. In a forest without cycles, shared children or
not, the search below a node ends and finds what lies there. In the forests that sessions reach it
is only made for a receiver that belongs to another node; the check of a free child finds all the
same whether the child is the receiver or lies above it, as long as the search ends. -/

namespace BlockLang

open Relation

namespace Forest

variable {f : Forest} {i c : NodeId} {m n : Node}

theorem require_eq_error_iff (e e' : BuildError) (b : Bool) :
    e.require b = .error e' ↔ b = false ∧ e = e' := by
  cases b <;> simp [BuildError.require]

theorem requireNotBelow_eq_error_iff :
    f.requireNotBelow i c = .error .containsItself ↔ f.contains? c i = some true := by
  rw [requireNotBelow]
  cases f.contains? c i <;> simp [require_eq_error_iff]

/-- For a free child the check comes down to its last question. -/
theorem requireAdoptable_of_free (hm : f.node? i = some m) (hn : f.node? c = some n)
    (hfree : n.owned = false) (hne : c ≠ i) :
    f.requireAdoptable i c = if m.owned then f.requireNotBelow i c else .ok () := by
  simp only [requireAdoptable, get_eq_ok_iff.2 hm, get_eq_ok_iff.2 hn]
  show (BuildError.alreadyOwned.require (!n.owned) >>= fun _ =>
    BuildError.containsItself.require (c != i) >>= fun _ => _) = _
  rw [hfree, bne_iff_ne.2 hne]
  rfl

theorem requireAdoptable_self (hm : f.node? i = some m) (hfree : m.owned = false) :
    f.requireAdoptable i i = .error .containsItself := by
  simp only [requireAdoptable, get_eq_ok_iff.2 hm]
  show (BuildError.alreadyOwned.require (!m.owned) >>= fun _ =>
    BuildError.containsItself.require (i != i) >>= fun _ => _) = _
  rw [hfree, bne_self_eq_false]
  rfl

/-- The check of a free child finds all that it is there for, unless its search never ends. Only a
node that belongs to another one lies below something, so the search may be left out for the
others. -/
theorem OwnsChildren.requireAdoptable_eq_error_iff (h : f.OwnsChildren) (hi : i < f.size)
    (hc : c < f.size) (hfree : ¬ f.IsOwned c) :
    f.requireAdoptable i c = .error .containsItself ↔
      c = i ∨ f.Below c i ∧ ∃ found, f.contains? c i = some found := by
  obtain ⟨m, hm⟩ := exists_node?_iff.2 hi
  obtain ⟨n, hn⟩ := exists_node?_iff.2 hc
  have hn' : n.owned = false := Bool.eq_false_iff.2 fun ho => hfree ⟨n, hn, ho⟩
  by_cases hne : c = i
  · subst hne
    obtain rfl := Option.some.inj (hm.symm.trans hn)
    simp [requireAdoptable_self hm hn']
  have hfound : f.contains? c i = some true ↔
      f.Below c i ∧ ∃ found, f.contains? c i = some found := by
    refine ⟨fun h => ⟨(contains?_eq_some h).1 rfl, true, h⟩, ?_⟩
    rintro ⟨hb, found, h⟩
    rw [h, (contains?_eq_some h).2 hb]
  rw [requireAdoptable_of_free hm hn hn' hne, or_iff_right hne, ← hfound]
  cases ho : m.owned with
  | true => exact requireNotBelow_eq_error_iff
  | false =>
    have hnot : ¬ f.Below c i := by
      intro hb
      obtain ⟨m', hm', ho'⟩ := h.isOwned_of_below hb
      obtain rfl := Option.some.inj (hm.symm.trans hm')
      rw [ho] at ho'
      cases ho'
    exact iff_of_false nofun fun hfound' => hnot (hfound.1 hfound').1

end Forest

open Forest

namespace Session

/-- The search for a node below another one is right, and ends where there are no cycles. In a
forest without cycles it comes to an answer within the limit of rounds, and would come to the same
in any larger number of them; the answer is whether one or more steps lead down from the one node to
the other. So in every forest that is reached without cycles a free child is refused as containing
the receiver if and only if it is the receiver or lies above it. In a forest with cycles it is
refused if and only if moreover the search comes to an answer in some number of rounds. -/
theorem search_ends_and_finds (f : Forest) (ts : List Turn) :
    (f.Acyclic → ∀ c n : NodeId, ∃ found : Bool,
      f.contains? c n = some found ∧
      (∀ rounds ≥ f.roundLimit, f.search n rounds (f.children c).reverse = some found) ∧
      (found = true ↔ f.Below c n)) ∧
    ∀ r c : NodeId, r < (grow .empty ts).size → c < (grow .empty ts).size →
      ¬ (grow .empty ts).IsOwned c →
      ((grow .empty ts).Acyclic →
        ((grow .empty ts).requireAdoptable r c = .error .containsItself ↔
          c = r ∨ (grow .empty ts).Below c r)) ∧
      ((grow .empty ts).requireAdoptable r c = .error .containsItself ↔
        c = r ∨ (grow .empty ts).Below c r ∧ ∃ rounds found,
          (grow .empty ts).search r rounds ((grow .empty ts).children c).reverse = some found) := by
  constructor
  · intro hf c n
    obtain ⟨found, hfound, hright⟩ := hf.exists_contains?_eq c n
    exact ⟨found, hfound, fun rounds hrounds => search_mono hfound hrounds, hright⟩
  · intro r c hr hc hfree
    have hiff := (grow_ownsChildren ownsChildren_empty ts).requireAdoptable_eq_error_iff hr hc hfree
    refine ⟨fun ha => ?_, ?_⟩
    · obtain ⟨found, hfound, -⟩ := ha.exists_contains?_eq c r
      rw [hiff, and_iff_left ⟨found, hfound⟩]
    · simp only [contains?_eq_some_iff] at hiff
      rw [hiff, exists_comm]

/-- Ten ways lead down to the shared node, and it is found; and the body of a loop cannot take a
choice whose body holds the loop. -/
theorem search_ends_and_finds_shared :
    let shared := grow .empty [⟨.usual, none, none, .fresh⟩,
      ⟨.usual, none, none, .construct .block none none (.new [0, 0])⟩,
      ⟨.usual, none, none, .construct .block none none (.new [1, 1, 1, 1, 1])⟩]
    let f := grow .empty [⟨.usual, none, none, .fresh⟩, ⟨.usual, none, none, .fresh⟩,
      ⟨.usual, none, none, .assembleWhile 1 .random 0⟩, ⟨.usual, none, none, .fresh⟩,
      ⟨.usual, none, none, .addToBlock 2 0 1⟩, ⟨.usual, none, none, .fresh⟩,
      ⟨.usual, none, none, .assembleIf 3 .always 2⟩]
    shared.Acyclic ∧ shared.contains? 2 0 = some true ∧ f.Acyclic ∧
      0 < f.size ∧ 3 < f.size ∧ ¬ f.IsOwned 3 ∧
        f.requireAdoptable 0 3 = .error .containsItself := by
  intro shared f
  have hshared : shared.Acyclic := (grow_hierarchical (by simp [Action.given])).acyclic
  have hf : f.Acyclic := (grow_hierarchical (by simp [Action.given])).acyclic
  have hways : shared.Below 2 0 := by
    have hlast : shared.Child 1 0 := show 0 ∈ shared.children 1 by decide +kernel
    have hfirst : shared.Child 2 1 := show 1 ∈ shared.children 2 by decide +kernel
    exact .head hfirst (.single hlast)
  have habove : f.Below 3 0 := by
    have hlast : f.Child 1 0 := show 0 ∈ f.children 1 by decide +kernel
    have hmiddle : f.Child 2 1 := show 1 ∈ f.children 2 by decide +kernel
    have hfirst : f.Child 3 2 := show 2 ∈ f.children 3 by decide +kernel
    exact .head hfirst (.head hmiddle (.single hlast))
  have hsize : 0 < f.size ∧ 3 < f.size := by decide +kernel
  have hfree : ¬ f.IsOwned 3 := by decide +kernel
  obtain ⟨hsearch, hcheck⟩ := search_ends_and_finds shared _
  obtain ⟨found, hfound, -, hright⟩ := hsearch hshared 2 0
  rw [hright.2 hways] at hfound
  exact ⟨hshared, hfound, hf, hsize.1, hsize.2, hfree,
    ((hcheck 0 3 hsize.1 hsize.2 hfree).1 hf).2 (.inr habove)⟩

/-- The receiver lies below a free child, but the search for it goes round in a loop that has been
tied between two blocks with one list. -/
theorem search_never_ends :
    let f := grow .empty [⟨.usual, none, none, .fresh⟩,
      ⟨.usual, none, none, .construct .block none none (.new [0])⟩,
      ⟨.usual, none, none, .construct .block none none (.of 1)⟩, ⟨.usual, none, none, .fresh⟩,
      ⟨.usual, none, none, .assembleWhile 3 .always 2⟩, ⟨.usual, none, none, .addToBlock 1 1 3⟩]
    0 < f.size ∧ 1 < f.size ∧ ¬ f.IsOwned 1 ∧ f.Below 1 0 ∧
      (∀ rounds, f.search 0 rounds (f.children 1).reverse = none) ∧
      f.requireAdoptable 0 1 ≠ .error .containsItself := by
  intro f
  have hbelow : f.Below 1 0 := .single (show 0 ∈ f.children 1 by decide +kernel)
  have hone : (f.children 1).reverse = [3, 0] := by decide +kernel
  have htwo : (f.children 2).reverse = [3, 0] := by decide +kernel
  have hthree : (f.children 3).reverse = [2] := by decide +kernel
  have hsize : 0 < f.size ∧ 1 < f.size := by decide +kernel
  have hfree : ¬ f.IsOwned 1 := by decide +kernel
  have hnever : ∀ rounds, f.search 0 rounds (f.children 1).reverse = none := by
    have hloop : ∀ i, i = 2 ∨ i = 3 → i ≠ 0 ∧
        ∃ c rest, (f.children i).reverse = c :: rest ∧ (c = 2 ∨ c = 3) := by
      rintro i (rfl | rfl)
      · exact ⟨by decide, 3, [0], htwo, .inr rfl⟩
      · exact ⟨by decide, 2, [], hthree, .inl rfl⟩
    intro rounds
    rw [hone]
    exact search_eq_none_of_loop hloop (.inr rfl) rounds [0]
  refine ⟨hsize.1, hsize.2, hfree, hbelow, hnever, fun h => ?_⟩
  have howns : f.OwnsChildren := grow_ownsChildren ownsChildren_empty _
  rcases (howns.requireAdoptable_eq_error_iff hsize.1 hsize.2 hfree).1 h with h | ⟨-, found, hfound⟩
  · cases h
  · cases (contains?_eq_none_iff.2 hnever).symm.trans hfound

end Session

end BlockLang
