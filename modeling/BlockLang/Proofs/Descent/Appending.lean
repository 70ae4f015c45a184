import BlockLang.Proofs.Descent.Inner
import BlockLang.Proofs.Forest.Bearing
import BlockLang.Proofs.Forest.Lasting
import BlockLang.Proofs.Parser.Elements

/-! Parsing into a block appends to it, in the list that the block has. What a stream yields does
not depend on the block: the statements come after those that the block has, also when the next one
fails, and the parse ends as it does for a fresh block. The half-built nodes of a statement that
fails belong to nothing old. -/

namespace BlockLang

open BlockLang.Parser State

namespace Descent

variable {s s' : TokenStream} {f g : Forest} {i : NodeId} {n : Node} {depth left m : Nat}
  {ts p r : List Token} {ids : List NodeId} {xs ys : List Statement} {x : Statement}
  {e? : Option SyntaxError} {parse : NodeId → Descent Unit}

/-! ### The loop -/

theorem elements_succ (he : ¬ (Parser.front ts).endsBlock) (statement : NodeId → Descent Unit)
    (i : NodeId) (left k m : Nat) (f : Forest) :
    elements statement i (left + 1) k ⟨⟨ts, m⟩, f⟩ =
      (inFresh statement >>= fun child =>
        (build fun f => f.addToBlock i k child) >>= fun _ =>
          elements statement i left (k + 1)) ⟨⟨ts, m⟩, f⟩ := by
  have hfront : front ⟨⟨ts, m⟩, f⟩ = .ok (Parser.front ts) ⟨⟨ts, m⟩, f⟩ := rfl
  rw [elements, bind_of_ok hfront, if_neg he]

theorem not_endsBlock_of_derives (hp : Derives .statement p x) (r : List Token) :
    ¬ (Parser.front (p ++ r)).endsBlock := by
  have hif : ¬ Token.endsBlock "IF" := by decide
  have hwhile : ¬ Token.endsBlock "WHILE" := by decide
  cases hp with
  | call hid => exact Bool.eq_false_iff.1 (Token.not_endsBlock_of_isIdentifier hid)
  | ifThen _ _ => exact hif
  | ifElse _ _ _ => exact hif
  | whileDo _ _ => exact hwhile

/-- The block takes one more statement. -/
theorem elements_of_derives (hp : Derives .statement p x) (hlen : (p ++ r).length ≤ depth)
    (hn : f.node? i = some n) (hk : n.kind = .block) (hg : f.Carries g i ids xs)
    (left m : Nat) : ∃ c h, f.Carries h i (ids ++ [c]) (xs ++ [x]) ∧
      elements (statement depth) i (left + 1) (n.children ++ ids).length ⟨⟨p ++ r, m⟩, g⟩ =
        elements (statement depth) i left (n.children ++ (ids ++ [c])).length
          ⟨⟨r, m + p.length⟩, h⟩ := by
  obtain ⟨k, hx, hsprouts⟩ := inFresh_statement_of_derives hp hlen m g
  have hkind : x.kind ≠ .block := (Statement.goal_eq_statement_iff x).1 hp.wellFormed.2
  obtain ⟨h, hadd, hh⟩ := hg.exists_addToBlock hn hk hsprouts hkind
  refine ⟨g.size, h, hh, ?_⟩
  rw [elements_succ (not_endsBlock_of_derives hp r), bind_of_ok hx,
    bind_of_ok (build_of_ok hadd _)]
  simp only [List.length_append, List.length_singleton, Nat.add_assoc]

/-- The block takes statement after statement. -/
theorem elements_of_derives_block (hp : Derives .block p (.block ys))
    (hlen : (p ++ r).length ≤ depth) (hleft : (p ++ r).length ≤ left)
    (hn : f.node? i = some n) (hk : n.kind = .block) (hg : f.Carries g i ids xs)
    (m : Nat) : ∃ ids' left' h, r.length ≤ left' ∧
      f.Carries h i ids' (xs ++ ys) ∧
      elements (statement depth) i left (n.children ++ ids).length ⟨⟨p ++ r, m⟩, g⟩ =
        elements (statement depth) i left' (n.children ++ ids').length
          ⟨⟨r, m + p.length⟩, h⟩ := by
  -- The block has the statements `xs` already; every further one takes at least a token.
  induction ys generalizing p left g ids xs m with
  | nil =>
    obtain rfl : p = [] := hp.eq_tokens
    exact ⟨ids, left, g, hleft, by simpa using hg, rfl⟩
  | cons y ys ih =>
    cases hp with
    | @cons p q _ _ hp hq =>
      have hpos := length_pos_of_derives hp
      rw [List.append_assoc] at hlen hleft ⊢
      have hsplit : (p ++ (q ++ r)).length = p.length + (q ++ r).length := List.length_append
      obtain ⟨left, rfl⟩ := Nat.exists_eq_add_of_le' (by omega : 1 ≤ left)
      have hlen' : (q ++ r).length ≤ depth := by omega
      have hleft' : (q ++ r).length ≤ left := by omega
      obtain ⟨c, h, hh, hfirst⟩ := elements_of_derives hp hlen hn hk hg left m
      obtain ⟨ids', left', k, hr, hk', hrest⟩ := ih hq hlen' hleft' hh (m + p.length)
      have hcount : m + p.length + q.length = m + (p ++ q).length := by
        rw [List.length_append, Nat.add_assoc]
      rw [hcount] at hrest
      exact ⟨ids', left', k, hr, by simpa using hk', hfirst.trans hrest⟩

theorem elements_of_fails (he : ¬ (Parser.front r).endsBlock) (hleft : r.length ≤ left)
    {o : Outcome} (h : FailsAs o g (inFresh (statement depth)) ⟨⟨r, m⟩, g⟩) (i : NodeId) (k : Nat) :
    FailsAs o g (elements (statement depth) i left k) ⟨⟨r, m⟩, g⟩ := by
  have hpos : 0 < r.length := by
    refine List.length_pos_iff.2 ?_
    rintro rfl
    exact he (by decide)
  obtain ⟨left, rfl⟩ := Nat.exists_eq_add_of_le' (hpos.trans_le hleft)
  obtain ⟨e, k, he', hx, hk⟩ := h
  exact ⟨e, k, he', by rw [elements_succ he, bind_of_error hx], hk⟩

/-! ### Blocks -/

theorem block_eq_elements (hn : f.node? i = some n) (hk : n.kind = .block)
    (statement : NodeId → Descent Unit) (s : TokenStream) :
    block statement i ⟨s, f⟩ =
      elements statement i s.rest.length (n.children ++ []).length ⟨s, f⟩ := by
  have hlen : blockLength i ⟨s, f⟩ = .ok n.children.length ⟨s, f⟩ :=
    blockLength_of_ok (Forest.blockLength_eq_ok_iff.2 ⟨n, hn, hk, rfl⟩) s
  rw [block, bind_of_ok hlen, List.append_nil]
  rfl

/-- A block takes what the stream yields, and ends as the stream does. -/
theorem block_of_yields (h : Yields s xs e? s') (hlen : s.rest.length ≤ depth)
    (hn : f.node? i = some n) (hk : n.kind = .block) :
    ∃ g ids, Ends (block (statement depth) i) ⟨s, f⟩ (Fault.ofError? e?) ⟨s', g⟩ ∧
      f.Appends g i ids xs := by
  have hstart := Forest.carries_refl f i
  have helements := block_eq_elements hn hk (statement depth) s
  cases h with
  | @whole p r _ m hp he =>
    obtain ⟨ids, left, g, -, hg, hrun⟩ :=
      elements_of_derives_block hp hlen (Nat.le_refl _) hn hk hstart m
    have hend : elements (statement depth) i left (n.children ++ ids).length
        ⟨⟨r, m + p.length⟩, g⟩ = .ok () ⟨⟨r, m + p.length⟩, g⟩ :=
      elements_of_endsBlock he i left _ _
    exact ⟨g, ids, ends_of_ok (helements.trans (hrun.trans hend)), hg.appends⟩
  | @broken p r _ m e hp he hfail =>
    obtain ⟨ids, left, g, hleft, hg, hrun⟩ :=
      elements_of_derives_block hp hlen (Nat.le_refl _) hn hk hstart m
    -- What the failing statement has built is new and stays outside the block.
    have hlen' : r.length ≤ depth := by
      refine Nat.le_trans ?_ hlen
      rw [List.length_append]
      exact Nat.le_add_left _ _
    have hfails : FailsAs (run .statement none (initial (m + p.length)) r) g
        (inFresh (statement depth)) ⟨⟨r, m + p.length⟩, g⟩ := by
      rcases inFresh_statement_cases hlen' (m + p.length) g with
        ⟨q, x, r', -, rfl, hq, -⟩ | hfails
      · have hreturns : (run .statement none (initial (m + p.length)) (q ++ r')).Returns
            .statement x r' := returns_of_derives hq (by simp) _ trivial
        cases hreturns.error?_eq.symm.trans hfail
      · exact hfails
    obtain ⟨e', k, he', hx, hgk⟩ := elements_of_fails he hleft hfails i (n.children ++ ids).length
    obtain rfl := Option.some.inj (he'.symm.trans hfail)
    have hcarries := hg.of_extends (Forest.lt_size_of_node? hn) hgk
    exact ⟨k, ids, ends_of_error (helements.trans (hrun.trans hx)), hcarries.appends⟩

theorem parseBlock_of_yields (h : Yields s xs e? s') (hn : f.node? i = some n)
    (hk : n.kind = .block) :
    ∃ g ids, Ends (ofParse fun f s => f.parseBlock s i) ⟨s, f⟩ (Fault.ofError? e?) ⟨s', g⟩ ∧
      f.Appends g i ids xs := by
  obtain ⟨herror, hstream, ho⟩ := run_block_of_yields h
  obtain ⟨ids, happends⟩ := Forest.appends_append (Forest.lt_size_of_node? hn) xs
  have hlen := Forest.blockLength_eq_ok_iff.2 ⟨n, hn, hk, rfl⟩
  have hparse : f.parseBlock s i = (Forest.verdict e?, s', f.append i xs) := by
    rw [← herror, ← hstream, ← ho, Forest.parseBlock, hlen]
    rfl
  exact ⟨_, ids, ends_ofParse _ hparse, happends⟩

theorem IsBlockParse.of_yields (hparse : IsBlockParse depth parse) (h : Yields s xs e? s')
    (hlen : s.rest.length ≤ depth) (hn : f.node? i = some n) (hk : n.kind = .block) :
    ∃ g ids, Ends (parse i) ⟨s, f⟩ (Fault.ofError? e?) ⟨s', g⟩ ∧
      f.Appends g i ids xs := by
  cases hparse with
  | run => exact parseBlock_of_yields h hn hk
  | block => exact block_of_yields h hlen hn hk

/-- A parse into a block of a forest ends as the parse of the same stream into a fresh block ends,
with the same fault or none and the same stream left. The statements that the fresh block has then
are those that the stream yields; the block has as many new children after those it had, with equal
trees of new nodes. So has every other node that has the list of the block, and apart from these no
node of the forest has changed. -/
theorem appends_as_to_fresh (hparse : IsBlockParse depth parse) (hlen : s.rest.length ≤ depth)
    (hn : f.node? i = some n) (hk : n.kind = .block) :
    ∃ xs e? s', Yields s xs e? s' ∧
      (∀ f₀ : Forest, ∃ g₀ ids₀,
        Ends (parse f₀.size) ⟨s, f₀.fresh.2⟩ (Fault.ofError? e?) ⟨s', g₀⟩ ∧
        f₀.fresh.2.Bears g₀ f₀.size (Node.placeholder.extend ids₀) ids₀ xs) ∧
      ∃ g ids, Ends (parse i) ⟨s, f⟩ (Fault.ofError? e?) ⟨s', g⟩ ∧
        f.Appends g i ids xs := by
  obtain ⟨xs, e?, s', h⟩ := exists_yields s
  refine ⟨xs, e?, s', h, fun f₀ => ?_, hparse.of_yields h hlen hn hk⟩
  have hfresh := f₀.node?_fresh_self
  obtain ⟨g₀, ids₀, hends, happends⟩ := hparse.of_yields h hlen hfresh rfl
  have halone : f₀.fresh.2.Alone f₀.size := f₀.extends_fresh.alone _ (Nat.le_refl _)
  exact ⟨g₀, ids₀, hends, happends.bears hfresh halone⟩

/-- A block that belongs to a choice keeps its call and gets another one, before a loop that is not
closed. -/
theorem appends_before_broken_loop :
    let n : Node := ⟨.block, none, none, [2], true⟩
    let f : Forest := ⟨#[⟨.ifThen, some .random, none, 0, false⟩, ⟨.block, none, none, 1, true⟩,
      ⟨.call, none, some "move", 2, true⟩], #[[1], [2], []], by decide⟩
    let s : TokenStream := ⟨["jump", "WHILE", "random", "DO", "END"], 5⟩
    let e := (Violation.closer .whileDo).error 10 (some Token.endOfInput)
    s.rest.length ≤ 5 ∧ f.node? 1 = some n ∧ n.kind = .block ∧ ∃ g ids,
      Ends (block (statement 5) 1) ⟨s, f⟩ (some (.parse (.violation e))) ⟨⟨[], 10⟩, g⟩ ∧
        f.Appends g 1 ids [.call "jump"] := by
  intro n f s e
  have hparse : IsBlockParse 5 (block (statement 5)) := .block
  have hn : f.node? 1 = some n := rfl
  obtain ⟨xs, e?, s', h, -, g, ids, hends, happends⟩ :=
    appends_as_to_fresh (s := s) hparse (by decide) hn rfl
  have h : Yields ⟨["jump", "WHILE", "random", "DO", "END"], 5⟩ xs e? s' := h
  obtain ⟨rfl, rfl, rfl⟩ := run_block_of_yields h
  exact ⟨by decide, hn, rfl, g, ids, hends, happends⟩

/-- A parse of `jump` into one of two blocks that have a list between them changes both of them. -/
theorem block_changes_other :
    let f : Forest := ⟨#[⟨.call, none, some "move", 0, true⟩, ⟨.block, none, none, 1, false⟩,
      ⟨.block, none, none, 1, false⟩], #[[], [0]], by decide⟩
    ∃ g c, Ends (block (statement 1) 1) ⟨⟨["jump"], 0⟩, f⟩ none ⟨⟨[], 1⟩, g⟩ ∧
      f.node? 2 = some ⟨.block, none, none, [0], false⟩ ∧
      g.node? 2 = some ⟨.block, none, none, [0, c], false⟩ := by
  intro f
  have hcall : Derives .block ["jump"] (.block [.call "jump"]) := .cons (.call (by decide)) .empty
  have hyields : Yields ⟨["jump"], 0⟩ [.call "jump"] none ⟨[], 1⟩ := .whole hcall (by decide)
  have hparse : IsBlockParse 1 (block (statement 1)) := .block
  have hn : f.node? 1 = some ⟨.block, none, none, [0], false⟩ := rfl
  obtain ⟨g, ids, hends, happends⟩ := hparse.of_yields hyields (by decide) hn rfl
  obtain ⟨c, rfl⟩ : ∃ c, ids = [c] := List.length_eq_one_iff.1 happends.trees.length_eq
  refine ⟨g, c, hends, rfl, ?_⟩
  rw [happends.holder 2 (by decide)]
  rfl

end Descent

end BlockLang
