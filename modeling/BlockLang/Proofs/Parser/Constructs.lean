import BlockLang.Proofs.Parser.Acceptance

/-! Where the nodes of a tree stand among its tokens. The nodes are listed from the leaves up, each
after those below it and with the number of tokens before it; there its own tokens stand, from which
alone it is parsed. -/

namespace BlockLang

open BlockLang.Parser (Event front)

/-- The tokens of a node before those of its first child. -/
def Kind.lead : Kind → Nat
  | .block | .call => 0
  | .ifThen | .ifElse | .whileDo => 3

/-- The tokens between the children of a node. -/
def Kind.gap : Kind → Nat
  | .block | .call => 0
  | .ifThen | .ifElse | .whileDo => 1

/-- A node of a tree, and the number of tokens before it. -/
structure Construct where
  start : Nat
  node : Statement

namespace Construct

/-- The number of tokens before the one that follows the node. -/
def stop (q : Construct) : Nat := q.start + q.node.tokens.length

/-- The tokens of a stream where the node stands. -/
def slice (ts : List Token) (q : Construct) : List Token :=
  (ts.drop q.start).take (q.stop - q.start)

/-- The tokens of a node stand in a stream, and they alone are parsed as the node. -/
def Stands (ts : List Token) (q : Construct) : Prop :=
  q.slice ts = q.node.tokens ∧
    (Parser.run q.node.goal none (.initial 0) (q.slice ts)).Returns q.node.goal q.node []

end Construct

namespace Statement

mutual
/-- The nodes of a tree that has `start` tokens before it, each after those below it. -/
def constructs (start : Nat) : Statement → List Construct
  | node k c n xs => constructsAll k.gap (start + k.lead) xs ++ [⟨start, node k c n xs⟩]

/-- The nodes of trees one after another, with `gap` tokens between two of them. -/
def constructsAll (gap start : Nat) : List Statement → List Construct
  | [] => []
  | x :: xs => constructs start x ++ constructsAll gap (start + x.tokens.length + gap) xs
end

variable (start : Nat) (c : Condition)

@[simp] theorem constructsAll_nil (gap : Nat) : constructsAll gap start [] = [] := rfl

@[simp] theorem constructsAll_cons (gap : Nat) (x : Statement) (xs : List Statement) :
    constructsAll gap start (x :: xs) =
      x.constructs start ++ constructsAll gap (start + x.tokens.length + gap) xs := rfl

@[simp] theorem constructs_call (name : String) :
    (call name).constructs start = [⟨start, call name⟩] := rfl

@[simp] theorem constructs_block (xs : List Statement) :
    (block xs).constructs start = constructsAll 0 start xs ++ [⟨start, block xs⟩] := rfl

@[simp] theorem constructs_ifThen (body : List Statement) :
    (ifThen c body).constructs start =
      (block body).constructs (start + 3) ++ [⟨start, ifThen c body⟩] := by
  simp [ifThen, constructs, constructsAll, Kind.lead]

@[simp] theorem constructs_ifElse (thenBody elseBody : List Statement) :
    (ifElse c thenBody elseBody).constructs start =
      (block thenBody).constructs (start + 3) ++
        (block elseBody).constructs (start + 3 + (tokensAll thenBody).length + 1) ++
        [⟨start, ifElse c thenBody elseBody⟩] := by
  simp [ifElse, constructs, constructsAll, Kind.lead, Kind.gap, block, tokens]

@[simp] theorem constructs_whileDo (body : List Statement) :
    (whileDo c body).constructs start =
      (block body).constructs (start + 3) ++ [⟨start, whileDo c body⟩] := by
  simp [whileDo, constructs, constructsAll, Kind.lead]

theorem constructsAll_append (xs ys : List Statement) : constructsAll 0 start (xs ++ ys) =
    constructsAll 0 start xs ++ constructsAll 0 (start + (tokensAll xs).length) ys := by
  induction xs generalizing start with
  | nil => simp
  | cons x xs ih => simp [ih, Nat.add_assoc]

end Statement

open Statement

variable {g : Parser.Goal} {p w w' : List Token} {s : Statement} {q : Construct} {n : Nat}

/-- The tokens of a node stand among some tokens, of which the first has the number `n`. -/
def Construct.LiesIn (q : Construct) (n : Nat) (p : List Token) : Prop :=
  ∃ before after, p = before ++ q.node.tokens ++ after ∧ q.start = n + before.length

theorem Construct.LiesIn.extend (h : q.LiesIn (n + w.length) p) (w' : List Token) :
    q.LiesIn n (w ++ p ++ w') := by
  obtain ⟨before, after, rfl, hstart⟩ := h
  exact ⟨w ++ before, after ++ w', by simp, by rw [hstart]; simp [Nat.add_assoc]⟩

theorem Derives.liesIn_self (h : Derives g p s) (n : Nat) :
    (⟨n, s⟩ : Construct).node.WellFormed ∧ (⟨n, s⟩ : Construct).LiesIn n p :=
  ⟨h.wellFormed.1, [], [], by simp [h.eq_tokens], by simp⟩

/-- Every node of a tree stands among the tokens of the tree, and is well-formed itself. -/
theorem Derives.liesIn (h : Derives g p s) (hq : q ∈ s.constructs n) :
    q.node.WellFormed ∧ q.LiesIn n p := by
  induction h generalizing n with
  | @call t ht =>
    rw [constructs_call, List.mem_singleton] at hq
    subst hq
    exact (Derives.call ht).liesIn_self n
  | @ifThen t c p body hc hb ih =>
    rw [constructs_ifThen, List.mem_append, List.mem_singleton] at hq
    rcases hq with hq | rfl
    · exact ⟨(ih hq).1, (ih hq).2.extend (w := ["IF", t, "THEN"]) _⟩
    · exact (Derives.ifThen hc hb).liesIn_self n
  | @ifElse t c p p' thenBody elseBody hc hb hb' ih ih' =>
    rw [constructs_ifElse, List.mem_append, List.mem_append, List.mem_singleton] at hq
    rcases hq with (hq | hq) | rfl
    · have hlies := (ih hq).2.extend (w := ["IF", t, "THEN"]) (["ELSE"] ++ p' ++ ["END", "IF"])
      simp only [List.append_assoc] at hlies ⊢
      exact ⟨(ih hq).1, hlies⟩
    · have hlength : n + 3 + (tokensAll thenBody).length + 1 =
          n + (["IF", t, "THEN"] ++ p ++ ["ELSE"]).length := by
        rw [hb.eq_tokens]
        simp
        omega
      rw [hlength] at hq
      exact ⟨(ih' hq).1, (ih' hq).2.extend _⟩
    · exact (Derives.ifElse hc hb hb').liesIn_self n
  | @whileDo t c p body hc hb ih =>
    rw [constructs_whileDo, List.mem_append, List.mem_singleton] at hq
    rcases hq with hq | rfl
    · exact ⟨(ih hq).1, (ih hq).2.extend (w := ["WHILE", t, "DO"]) _⟩
    · exact (Derives.whileDo hc hb).liesIn_self n
  | empty =>
    rw [constructs_block, constructsAll_nil, List.nil_append, List.mem_singleton] at hq
    subst hq
    exact Derives.empty.liesIn_self n
  | @cons p p' x rest hx hrest ih ih' =>
    rw [constructs_block, constructsAll_cons, List.mem_append, List.mem_append,
      List.mem_singleton] at hq
    rcases hq with (hq | hq) | rfl
    · have hlies := (ih hq).2.extend (w := []) p'
      exact ⟨(ih hq).1, hlies⟩
    · rw [← hx.eq_tokens, Nat.add_zero] at hq
      have hlies := ih' (n := n + p.length) (by simp [hq])
      have hall := hlies.2.extend (w := p) []
      rw [List.append_nil] at hall
      exact ⟨hlies.1, hall⟩
    · exact (Derives.cons hx hrest).liesIn_self n

/-- A node stands where its place says, in every stream that has its tokens there. -/
theorem Construct.LiesIn.stands {ts u : List Token} (h : q.LiesIn 0 u) (hw : q.node.WellFormed)
    (hu : u.take q.stop <+: ts) : q.Stands ts := by
  obtain ⟨before, after, rfl, hstart⟩ := h
  obtain ⟨rest, rfl⟩ := hu
  have hstop : q.stop = (before ++ q.node.tokens).length := by
    rw [stop, hstart]
    simp
  have hslice : q.slice ((before ++ q.node.tokens ++ after).take q.stop ++ rest) =
      q.node.tokens := by
    have hlength : q.stop - q.start = q.node.tokens.length := Nat.add_sub_cancel_left _ _
    rw [slice, hlength, hstop, List.take_left, List.append_assoc, hstart, Nat.zero_add,
      List.drop_left, List.take_left]
  have hleave : q.node.goal.MayLeave [] := by
    cases q.node.goal with
    | statement => trivial
    | block => exact .inl rfl
  have hreturns : (Parser.run q.node.goal none (.initial 0) (q.node.tokens ++ [])).Returns
      q.node.goal q.node [] := Parser.returns_of_derives (derives_tokens hw) (by simp) 0 hleave
  rw [List.append_nil] at hreturns
  refine ⟨hslice, ?_⟩
  rw [hslice]
  exact hreturns

end BlockLang
