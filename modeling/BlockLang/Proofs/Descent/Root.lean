import BlockLang.Proofs.Descent.Ending

/-! What a parse does to the node that it parses into. A placeholder is still one after an error, or
it has become a statement and the error is in what closes that statement. A node that is no
placeholder never changes: the parse ends at the place where it would have changed, or before. -/

namespace BlockLang

open BlockLang.Parser State

/-- A statement is put together on a stream, and what should close it has an error instead. -/
def TokenStream.Breaks (s : TokenStream) (beginning : Beginning) (x : Statement) (e : SyntaxError)
    (s' : TokenStream) : Prop :=
  ∃ s₁, s.Reaches beginning x s₁ ∧ Closes x.kind s₁ (some e) s'

namespace Descent

variable {s s' : TokenStream} {f g : Forest} {i : NodeId} {n : Node} {depth : Nat}
  {beginning : Beginning} {e : SyntaxError} {x : Statement} {parse : NodeId → Descent Unit}
  {fault? : Option Fault} {k : Kind}

theorem kind_of_closes (h : Closes k s (some e) s') : k ∈ [Kind.ifThen, .ifElse, .whileDo] := by
  cases h with
  | wrongIf hk _ => rcases hk with rfl | rfl <;> decide
  | missingIf hk => rcases hk with rfl | rfl <;> decide
  | wrongEndOfElse _ => decide
  | wrongWhile _ => decide
  | wrongEndOfLoop _ => decide

/-- Whatever happens to the node, no other node that was there changes. -/
theorem Ending.old (h : Ending s beginning f i n fault? ⟨s', g⟩) :
    ∀ j < f.size, j ≠ i → g.node? j = f.node? j := by
  cases h with
  | refused _ => exact fun _ _ _ => rfl
  | early _ _ _ hfg => exact fun j hj _ => hfg.node?_eq j hj
  | blocked _ _ hfg => exact fun j hj _ => hfg.node?_eq j hj
  | late _ _ _ hbears => exact hbears.old

/-! ### Placeholders -/

/-- After a violation the root is the placeholder that it was, or it has become the statement that
was put together from the tokens taken; and this is so if and only if the violation is in what
closes that statement. No other node that was there has changed. -/
theorem root_after_violation (hparse : IsParse depth beginning parse)
    (hlen : s.rest.length ≤ depth) (hn : f.node? i = some n) (he : n.isEmpty)
    (h : Ends (parse i) ⟨s, f⟩ (some (.parse (.violation e))) ⟨s', g⟩) :
    (∀ j < f.size, j ≠ i → g.node? j = f.node? j) ∧
      (g.node? i = some n ∨ ∃ x ids, s.Breaks beginning x e s' ∧
        x.kind ∈ [Kind.ifThen, .ifElse, .whileDo] ∧
        f.Bears g i (n.become ids x) ids x.children) ∧
      (g.node? i ≠ some n ↔ ∃ x, s.Breaks beginning x e s') := by
  obtain ⟨fault?, site, hending, hends⟩ := hparse.exists_ending hlen hn
  obtain ⟨hfault, rfl⟩ := h.unique hends
  refine ⟨hending.old, ?_⟩
  cases hending with
  | refused _ => cases hfault
  | early _ hnone _ hfg =>
    have hi := hfg.node?_of hn
    refine ⟨.inl hi, fun hne => absurd hi hne, ?_⟩
    rintro ⟨x, s₁, hreaches, -⟩
    exact absurd hreaches (hnone x s₁)
  | blocked _ hn' _ => cases he.symm.trans hn'
  | @late x s₁ _ e? _ ids hreaches _ hcloses hbears =>
    obtain rfl : some e = e? := by
      cases e? with
      | none => cases hfault
      | some e' =>
        cases hfault
        rfl
    have hbreaks : s.Breaks beginning x e s' := ⟨s₁, hreaches, hcloses⟩
    have hkind := kind_of_closes hcloses
    refine ⟨.inr ⟨x, ids, hbreaks, hkind, hbears⟩, fun _ => ⟨x, hbreaks⟩, fun _ hi => ?_⟩
    have hsame : n.become ids x = n := Option.some.inj (hbears.node.symm.trans hi)
    have hblock : x.kind = .block := by
      obtain ⟨kind, _, _, _⟩ := x
      exact (congrArg Node.kind hsame).trans (Node.isEmpty_iff.1 he).1
    rw [hblock] at hkind
    exact absurd hkind (by decide)

/-- A choice that is closed as a loop has become a choice all the same. -/
theorem root_after_wrong_closer :
    let parse : NodeId → Descent Unit := fun i =>
      ofParse fun f s => f.parseStatement s .anyStatement i
    let s : TokenStream := ⟨["IF", "random", "THEN", "move", "END", "WHILE"], 3⟩
    let f : Forest := ⟨#[⟨.call, none, some "turn", 0, false⟩, ⟨.block, none, none, 1, false⟩],
      #[[], []], by decide⟩
    let g := (f.parseStatement s .anyStatement 1).2.2
    let e := (Violation.closer .ifThen).error 8 (some "WHILE")
    Ends (parse 1) ⟨s, f⟩ (some (.parse (.violation e))) ⟨⟨[], 9⟩, g⟩ ∧
      g.node? 1 = some ⟨.ifThen, some .random, none, [3], false⟩ ∧
      ∃ x, s.Breaks .anyStatement x e ⟨[], 9⟩ := by
  intro parse s f g e
  have hparse : IsParse 6 .anyStatement parse := .run .anyStatement
  have hn : f.node? 1 = some .placeholder := rfl
  have hverdict : (f.parseStatement s .anyStatement 1).1 = Forest.verdict (some e) := by
    decide +kernel
  have hstream : (f.parseStatement s .anyStatement 1).2.1 = ⟨[], 9⟩ := by decide +kernel
  have hrun : f.parseStatement s .anyStatement 1 = (Forest.verdict (some e), ⟨[], 9⟩, g) := by
    rw [← hverdict, ← hstream]
  have hends : Ends (parse 1) ⟨s, f⟩ (some (.parse (.violation e))) ⟨⟨[], 9⟩, g⟩ :=
    ends_ofParse (some e) hrun
  have hi : g.node? 1 = some ⟨.ifThen, some .random, none, [3], false⟩ := by decide +kernel
  have hne : g.node? 1 ≠ some .placeholder := by
    rw [hi]
    decide
  exact ⟨hends, hi, (root_after_violation hparse (by decide) hn rfl hends).2.2.1 hne⟩

/-! ### Other nodes -/

/-- A node that is no placeholder is never parsed into. The parse fails as the same parse into a
fresh node does, if that fails before it puts a statement together. Otherwise the parse fails
because of the node, at the place where the fresh node becomes the statement. No node that was there
changes. -/
theorem assembled_node_refuses (hparse : IsParse depth beginning parse)
    (hlen : s.rest.length ≤ depth) (hn : f.node? i = some n) (he : n.isEmpty = false) :
    ∃ fault s' g, Ends (parse i) ⟨s, f⟩ (some fault) ⟨s', g⟩ ∧
      (∀ j < f.size, g.node? j = f.node? j) ∧
      ((∀ x s₁, ¬ s.Reaches beginning x s₁) ∧
        (∀ f₀ : Forest, ∃ g₀, Ends (parse f₀.size) ⟨s, f₀.fresh.2⟩ (some fault) ⟨s', g₀⟩ ∧
          g₀.node? f₀.size = some .placeholder) ∨
      ∃ x, s.Reaches beginning x s' ∧ fault = .parse (.build (.assembled n.kind)) ∧
        (BuildError.assembled n.kind).message = "Statement already assembled as " ++ n.kind.name ∧
        ∀ f₀ : Forest, ∃ e? s₀ g₀ ids, Closes x.kind s' e? s₀ ∧
          Ends (parse f₀.size) ⟨s, f₀.fresh.2⟩ (Fault.ofError? e?) ⟨s₀, g₀⟩ ∧
          f₀.fresh.2.Bears g₀ f₀.size (Node.placeholder.become ids x) ids x.children) := by
  have hfresh : ∀ f₀ : Forest, ∃ fault? site,
      Ending s beginning f₀.fresh.2 f₀.size .placeholder fault? site ∧
        Ends (parse f₀.size) ⟨s, f₀.fresh.2⟩ fault? site :=
    fun f₀ => hparse.exists_ending hlen f₀.node?_fresh_self
  obtain ⟨fault?, ⟨s', g⟩, hending, hends⟩ := hparse.exists_ending hlen hn
  -- The stream alone tells which end it is, up to the place where a statement is put together.
  cases hending with
  | refused hb =>
    have hnone : ∀ x s₁, ¬ s.Reaches beginning x s₁ := fun _ _ h => hb h.1
    refine ⟨_, _, _, hends, fun _ _ => rfl, .inl ⟨hnone, fun f₀ => ?_⟩⟩
    obtain ⟨_, _, hending, hends⟩ := hfresh f₀
    cases hending with
    | refused _ => exact ⟨_, hends, f₀.node?_fresh_self⟩
    | early hb' _ _ _ => exact absurd hb' hb
    | blocked h _ _ => exact absurd h.1 hb
    | late h _ _ _ => exact absurd h.1 hb
  | early hb hnone herror hfg =>
    refine ⟨_, _, _, hends, hfg.node?_eq, .inl ⟨hnone, fun f₀ => ?_⟩⟩
    obtain ⟨_, _, hending, hends⟩ := hfresh f₀
    cases hending with
    | refused hb' => exact absurd hb hb'
    | early _ _ herror' hfg' =>
      cases herror.symm.trans herror'
      exact ⟨_, hends, hfg'.node?_of f₀.node?_fresh_self⟩
    | blocked h _ _ => exact absurd h (hnone _ _)
    | late h _ _ _ => exact absurd h (hnone _ _)
  | @blocked x _ _ hreaches _ hfg =>
    refine ⟨_, _, _, hends, hfg.node?_eq, .inr ⟨x, hreaches, rfl, rfl, fun f₀ => ?_⟩⟩
    obtain ⟨_, _, hending, hends⟩ := hfresh f₀
    cases hending with
    | refused hb => exact absurd hreaches.1 hb
    | early _ hnone _ _ => exact absurd hreaches (hnone _ _)
    | blocked _ hplaceholder _ => cases hplaceholder
    | late h _ hcloses hbears =>
      obtain ⟨rfl, rfl⟩ := hreaches.unique h
      exact ⟨_, _, _, _, hcloses, hends, hbears⟩
  | late _ he' _ _ => cases he.symm.trans he'

/-- A call is not made a loop: the loop is read up to the end of its block. -/
theorem assembled_call_refuses :
    let s : TokenStream := ⟨["WHILE", "true", "DO", "END", "WHILE"], 0⟩
    let f : Forest := ⟨#[⟨.call, none, some "turn", 0, false⟩], #[[]], by decide⟩
    ∃ g, Ends (loop (statement 5) 0) ⟨s, f⟩ (some (.parse (.build (.assembled .call))))
      ⟨⟨["END", "WHILE"], 3⟩, g⟩ ∧ g.node? 0 = f.node? 0 := by
  intro s f
  have hparse : IsParse 5 .whileDo (loop (statement 5)) := .loop
  have hn : f.node? 0 = some ⟨.call, none, some "turn", [], false⟩ := rfl
  have hleads : Leads ["WHILE", "true", "DO"] (.whileBody .always) := .first (h := .whileDo) rfl
  have hreaches : s.Reaches .whileDo (.whileDo .always []) ⟨["END", "WHILE"], 3⟩ :=
    ⟨rfl, _, rfl, .compound hleads .empty rfl rfl, rfl⟩
  obtain ⟨fault, s', g, hends, hold, ⟨hnone, -⟩ | ⟨x, hreaches', rfl, -, -⟩⟩ :=
    assembled_node_refuses (s := s) hparse (by decide) hn rfl
  · exact absurd hreaches (hnone _ _)
  · obtain ⟨-, rfl⟩ := hreaches.unique hreaches'
    exact ⟨g, hends, hold 0 (by decide)⟩

end Descent

end BlockLang
