import BlockLang.Parser.State
import Mathlib.Data.List.Basic

/-! The grammar of the language as a relation between token lists and statement trees, and the one
token list that a tree of a program is read from.

    statement := IF condition THEN block (ELSE block)? END IF
               | WHILE condition DO block END WHILE
               | identifier
    block     := statement*

The trees with a derivation are the well-formed ones, and the token list of a derivation is a
function of its tree. -/

namespace BlockLang

open BlockLang.Parser (Goal)

/-! ### Conditions -/

namespace Condition

@[simp] theorem ofToken?_token (c : Condition) : ofToken? c.token = some c := by
  cases c <;> decide

theorem token_of_ofToken? {t : Token} {c : Condition} (h : ofToken? t = some c) : c.token = t := by
  simpa using List.find?_some h

end Condition

/-! ### Derivations -/

/-- What a list of tokens can be read as: the productions of the grammar, each with the tree that
it denotes. -/
inductive Derives : Goal → List Token → Statement → Prop where
  | call {t : Token} : t.isIdentifier → Derives .statement [t] (.call t)
  | ifThen {t : Token} {c : Condition} {p : List Token} {body : List Statement} :
      Condition.ofToken? t = some c → Derives .block p (.block body) →
      Derives .statement (["IF", t, "THEN"] ++ p ++ ["END", "IF"]) (.ifThen c body)
  | ifElse {t : Token} {c : Condition} {p q : List Token} {thenBody elseBody : List Statement} :
      Condition.ofToken? t = some c → Derives .block p (.block thenBody) →
      Derives .block q (.block elseBody) →
      Derives .statement (["IF", t, "THEN"] ++ p ++ ["ELSE"] ++ q ++ ["END", "IF"])
        (.ifElse c thenBody elseBody)
  | whileDo {t : Token} {c : Condition} {p : List Token} {body : List Statement} :
      Condition.ofToken? t = some c → Derives .block p (.block body) →
      Derives .statement (["WHILE", t, "DO"] ++ p ++ ["END", "WHILE"]) (.whileDo c body)
  | empty : Derives .block [] (.block [])
  | cons {p q : List Token} {s : Statement} {rest : List Statement} :
      Derives .statement p s → Derives .block q (.block rest) →
      Derives .block (p ++ q) (.block (s :: rest))

namespace Statement

@[simp] theorem kind_block (xs : List Statement) : (block xs).kind = .block := rfl

@[simp] theorem kind_call (name : String) : (call name).kind = .call := rfl

@[simp] theorem kind_ifThen (c : Condition) (body : List Statement) :
    (ifThen c body).kind = .ifThen := rfl

@[simp] theorem kind_ifElse (c : Condition) (thenBody elseBody : List Statement) :
    (ifElse c thenBody elseBody).kind = .ifElse := rfl

@[simp] theorem kind_whileDo (c : Condition) (body : List Statement) :
    (whileDo c body).kind = .whileDo := rfl

@[simp] theorem children_block (xs : List Statement) : (block xs).children = xs := rfl

mutual
/-- The tokens that a tree is read from. -/
def tokens : Statement → List Token
  | node .block _ _ xs => tokensAll xs
  | node .call _ name _ => name.toList
  | node .whileDo c _ xs =>
    ["WHILE"] ++ (c.map Condition.token).toList ++ ["DO"] ++ bodyTokens xs ++ ["END", "WHILE"]
  | node _ c _ xs =>
    ["IF"] ++ (c.map Condition.token).toList ++ ["THEN"] ++ bodyTokens xs ++ ["END", "IF"]

/-- The tokens of statements one after another. -/
def tokensAll : List Statement → List Token
  | [] => []
  | x :: xs => tokens x ++ tokensAll xs

/-- The tokens of bodies, with the keyword that stands between two of them. -/
def bodyTokens : List Statement → List Token
  | [] => []
  | [x] => tokens x
  | x :: xs => tokens x ++ ["ELSE"] ++ bodyTokens xs
end

@[simp] theorem tokens_call (name : String) : (call name).tokens = [name] := rfl

@[simp] theorem tokens_block (xs : List Statement) : (block xs).tokens = tokensAll xs := rfl

@[simp] theorem tokens_ifThen (c : Condition) (body : List Statement) :
    (ifThen c body).tokens = ["IF", c.token, "THEN"] ++ tokensAll body ++ ["END", "IF"] := rfl

@[simp] theorem tokens_ifElse (c : Condition) (thenBody elseBody : List Statement) :
    (ifElse c thenBody elseBody).tokens =
      ["IF", c.token, "THEN"] ++ tokensAll thenBody ++ ["ELSE"] ++ tokensAll elseBody ++
        ["END", "IF"] := by
  simp [ifElse, tokens, bodyTokens, block]

@[simp] theorem tokens_whileDo (c : Condition) (body : List Statement) :
    (whileDo c body).tokens = ["WHILE", c.token, "DO"] ++ tokensAll body ++ ["END", "WHILE"] := rfl

@[simp] theorem tokensAll_nil : tokensAll [] = [] := rfl

@[simp] theorem tokensAll_cons (x : Statement) (xs : List Statement) :
    tokensAll (x :: xs) = x.tokens ++ tokensAll xs := rfl

@[simp] theorem tokensAll_append (xs ys : List Statement) :
    tokensAll (xs ++ ys) = tokensAll xs ++ tokensAll ys := by
  induction xs with
  | nil => rfl
  | cons x xs ih => simp [ih]

mutual
/-- The greatest number of compound statements inside one another. -/
def depth : Statement → Nat
  | node .block _ _ xs => depthAll xs
  | node .call _ _ xs => depthAll xs
  | node _ _ _ xs => depthAll xs + 1

def depthAll : List Statement → Nat
  | [] => 0
  | x :: xs => max (depth x) (depthAll xs)
end

@[simp] theorem depth_call (name : String) : (call name).depth = 0 := rfl

@[simp] theorem depth_block (xs : List Statement) : (block xs).depth = depthAll xs := rfl

@[simp] theorem depth_ifThen (c : Condition) (body : List Statement) :
    (ifThen c body).depth = depthAll body + 1 := by
  simp [ifThen, block, depth, depthAll]

@[simp] theorem depth_ifElse (c : Condition) (thenBody elseBody : List Statement) :
    (ifElse c thenBody elseBody).depth = max (depthAll thenBody) (depthAll elseBody) + 1 := by
  simp [ifElse, block, depth, depthAll]

@[simp] theorem depth_whileDo (c : Condition) (body : List Statement) :
    (whileDo c body).depth = depthAll body + 1 := by
  simp [whileDo, block, depth, depthAll]

@[simp] theorem depthAll_nil : depthAll [] = 0 := rfl

@[simp] theorem depthAll_cons (x : Statement) (xs : List Statement) :
    depthAll (x :: xs) = max x.depth (depthAll xs) := rfl

/-- To prove something of all trees, prove it of a node whose children have it. -/
theorem children_induction {motive : Statement → Prop}
    (node : ∀ k c n xs, (∀ x ∈ xs, motive x) → motive (.node k c n xs)) (s : Statement) :
    motive s :=
  @Statement.rec motive (fun xs => ∀ x ∈ xs, motive x)
    (fun k c n xs ih => node k c n xs ih) (by simp)
    (fun _ _ hx hxs => List.forall_mem_cons.2 ⟨hx, hxs⟩) s

/-! ### Programs -/

/-- A tree that stands for a single statement of a program. -/
def IsProgram (s : Statement) : Prop := s.WellFormed ∧ s.kind ≠ .block

theorem allWellFormed_iff (xs : List Statement) : AllWellFormed xs ↔ ∀ x ∈ xs, x.WellFormed := by
  induction xs with
  | nil => simp [AllWellFormed]
  | cons x xs ih => simp [AllWellFormed, ih]

theorem wellFormed_block (xs : List Statement) :
    (block xs).WellFormed ↔ ∀ x ∈ xs, x.IsProgram := by
  simp only [block, WellFormed, allWellFormed_iff, IsProgram, true_and]
  exact forall₂_and.symm

@[simp] theorem isProgram_call (name : String) :
    (call name).IsProgram ↔ Token.isIdentifier name := by
  simp [IsProgram, call, WellFormed, kind]

@[simp] theorem isProgram_ifThen (c : Condition) (body : List Statement) :
    (ifThen c body).IsProgram ↔ ∀ x ∈ body, x.IsProgram := by
  rw [← wellFormed_block]
  simp [IsProgram, ifThen, WellFormed, AllWellFormed, kind, block]

@[simp] theorem isProgram_ifElse (c : Condition) (thenBody elseBody : List Statement) :
    (ifElse c thenBody elseBody).IsProgram ↔
      (∀ x ∈ thenBody, x.IsProgram) ∧ ∀ x ∈ elseBody, x.IsProgram := by
  rw [← wellFormed_block, ← wellFormed_block]
  simp [IsProgram, ifElse, WellFormed, AllWellFormed, kind, block]

@[simp] theorem isProgram_whileDo (c : Condition) (body : List Statement) :
    (whileDo c body).IsProgram ↔ ∀ x ∈ body, x.IsProgram := by
  rw [← wellFormed_block]
  simp [IsProgram, whileDo, WellFormed, AllWellFormed, kind, block]

/-- What a tree is parsed as. -/
def goal (s : Statement) : Goal := if s.kind = .block then .block else .statement

theorem goal_eq_statement_iff (s : Statement) : s.goal = .statement ↔ s.kind ≠ .block := by
  by_cases h : s.kind = .block <;> simp [goal, h]

theorem goal_eq_block_iff (s : Statement) : s.goal = .block ↔ s.kind = .block := by
  by_cases h : s.kind = .block <;> simp [goal, h]

@[simp] theorem goal_block (xs : List Statement) : (block xs).goal = .block := rfl

theorem IsProgram.parses {s : Statement} (h : s.IsProgram) :
    s.WellFormed ∧ s.goal = .statement :=
  ⟨h.1, (goal_eq_statement_iff s).2 h.2⟩

end Statement

/-! ### Derivations and trees -/

open Statement

/-- Only one token list derives a tree. -/
theorem Derives.eq_tokens {g : Goal} {p : List Token} {s : Statement} (h : Derives g p s) :
    p = s.tokens := by
  induction h with
  | call _ => rfl
  | ifThen hc _ ih => simp [ih, Condition.token_of_ofToken? hc]
  | ifElse hc _ _ ih ih' => simp [ih, ih', Condition.token_of_ofToken? hc]
  | whileDo hc _ ih => simp [ih, Condition.token_of_ofToken? hc]
  | empty => rfl
  | cons _ _ ih ih' => simp [ih, ih']

theorem Derives.wellFormed {g : Goal} {p : List Token} {s : Statement} (h : Derives g p s) :
    s.WellFormed ∧ s.goal = g := by
  induction h with
  | @call t ht => exact ((isProgram_call t).2 ht).parses
  | @ifThen _ c _ body _ _ ih =>
    exact ((isProgram_ifThen c body).2 ((wellFormed_block body).1 ih.1)).parses
  | @ifElse _ c _ _ thenBody elseBody _ _ _ ih ih' =>
    have ht := (wellFormed_block thenBody).1 ih.1
    have he := (wellFormed_block elseBody).1 ih'.1
    exact ((isProgram_ifElse c thenBody elseBody).2 ⟨ht, he⟩).parses
  | @whileDo _ c _ body _ _ ih =>
    exact ((isProgram_whileDo c body).2 ((wellFormed_block body).1 ih.1)).parses
  | empty => simp [wellFormed_block]
  | cons _ _ ih ih' =>
    refine ⟨(wellFormed_block _).2 ?_, rfl⟩
    rw [List.forall_mem_cons]
    exact ⟨⟨ih.1, (goal_eq_statement_iff _).1 ih.2⟩, (wellFormed_block _).1 ih'.1⟩

theorem WellFormed.eq_block {s : Statement} (h : s.WellFormed) (hk : s.kind = .block) :
    s = block s.children := by
  obtain ⟨k, c, n, xs⟩ := s
  simp only [kind] at hk
  subst hk
  obtain ⟨rfl, rfl, -⟩ := h
  rfl

theorem derives_block {xs : List Statement} (h : ∀ x ∈ xs, Derives .statement x.tokens x) :
    Derives .block (tokensAll xs) (block xs) := by
  induction xs with
  | nil => exact .empty
  | cons x xs ih =>
    rw [List.forall_mem_cons] at h
    exact .cons h.1 (ih h.2)

/-- Every well-formed tree has a derivation. -/
theorem derives_tokens {s : Statement} (h : s.WellFormed) : Derives s.goal s.tokens s := by
  induction s using Statement.children_induction with
  | node k c n xs ih =>
    have bodies : AllWellFormed xs → (∀ x ∈ xs, x.kind = .block) →
        ∀ x ∈ xs, ∃ ys, x = block ys ∧ Derives .block (tokensAll ys) (block ys) := by
      intro hw hk x hx
      have hd := ih x hx ((allWellFormed_iff xs).1 hw x hx)
      have he := WellFormed.eq_block ((allWellFormed_iff xs).1 hw x hx) (hk x hx)
      rw [he] at hd
      exact ⟨x.children, he, hd⟩
    cases k with
    | block =>
      obtain ⟨rfl, rfl, hw, hk⟩ := h
      refine derives_block fun x hx => ?_
      have hd := ih x hx ((allWellFormed_iff xs).1 hw x hx)
      rwa [(goal_eq_statement_iff x).2 (hk x hx)] at hd
    | call =>
      obtain ⟨rfl, rfl, name, rfl, hn⟩ := h
      exact .call hn
    | ifThen =>
      obtain ⟨hc, rfl, hw, hl, hk⟩ := h
      obtain ⟨c, rfl⟩ := Option.isSome_iff_exists.1 hc
      obtain ⟨b, rfl⟩ := List.length_eq_one_iff.1 hl
      obtain ⟨body, rfl, hb⟩ := bodies hw hk b (by simp)
      exact .ifThen (Condition.ofToken?_token c) hb
    | whileDo =>
      obtain ⟨hc, rfl, hw, hl, hk⟩ := h
      obtain ⟨c, rfl⟩ := Option.isSome_iff_exists.1 hc
      obtain ⟨b, rfl⟩ := List.length_eq_one_iff.1 hl
      obtain ⟨body, rfl, hb⟩ := bodies hw hk b (by simp)
      exact .whileDo (Condition.ofToken?_token c) hb
    | ifElse =>
      obtain ⟨hc, rfl, hw, hl, hk⟩ := h
      obtain ⟨c, rfl⟩ := Option.isSome_iff_exists.1 hc
      obtain ⟨b, b', rfl⟩ := List.length_eq_two.1 hl
      obtain ⟨thenBody, rfl, hb⟩ := bodies hw hk b (by simp)
      obtain ⟨elseBody, rfl, hb'⟩ := bodies hw hk b' (by simp)
      have hd := Derives.ifElse (Condition.ofToken?_token c) hb hb'
      rwa [← tokens_ifElse] at hd

/-- A tree is derived from its own tokens, and only well-formed trees are. -/
theorem derives_iff {g : Goal} {p : List Token} {s : Statement} :
    Derives g p s ↔ s.WellFormed ∧ s.goal = g ∧ p = s.tokens := by
  constructor
  · intro h
    exact ⟨h.wellFormed.1, h.wellFormed.2, h.eq_tokens⟩
  · rintro ⟨hw, rfl, rfl⟩
    exact derives_tokens hw

end BlockLang
