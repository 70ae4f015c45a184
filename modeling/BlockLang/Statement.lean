import BlockLang.Condition

/-! Statements as trees. A node has a kind, and whatever condition, name and children it was given;
`WellFormed` singles out the trees that programs denote. -/

namespace BlockLang

/-- The kinds of statement. -/
inductive Kind where
  | block
  | ifThen
  | ifElse
  | whileDo
  | call
  deriving DecidableEq, Repr

namespace Kind

def all : List Kind := [block, ifThen, ifElse, whileDo, call]

def name : Kind → String
  | block => "BLOCK"
  | ifThen => "IF"
  | ifElse => "IF_ELSE"
  | whileDo => "WHILE"
  | call => "CALL"

/-- The kind as it is written in data. -/
def label : Kind → String
  | block => "block"
  | ifThen => "if"
  | ifElse => "if_else"
  | whileDo => "while"
  | call => "call"

def ofName? (s : String) : Option Kind := all.find? fun k => k.name == s

end Kind

/-- A statement tree. -/
inductive Statement where
  | node (kind : Kind) (condition : Option Condition) (name : Option String)
      (children : List Statement)

namespace Statement

instance : Inhabited Statement := ⟨node .block none none []⟩

/-! ### The statements of programs -/

/-- Statements one after another. -/
def block (statements : List Statement) : Statement := node .block none none statements

/-- A block under a condition. -/
def ifThen (c : Condition) (body : List Statement) : Statement :=
  node .ifThen (some c) none [block body]

/-- One of two blocks, by a condition. -/
def ifElse (c : Condition) (thenBody elseBody : List Statement) : Statement :=
  node .ifElse (some c) none [block thenBody, block elseBody]

/-- A block that is repeated under a condition. -/
def whileDo (c : Condition) (body : List Statement) : Statement :=
  node .whileDo (some c) none [block body]

/-- A call of a procedure. -/
def call (name : String) : Statement := node .call none (some name) []

def kind : Statement → Kind
  | node k _ _ _ => k

def children : Statement → List Statement
  | node _ _ _ xs => xs

mutual
/-- The trees that programs denote: bodies are blocks, elements of blocks are not, calls have
identifiers for names, and conditions stand exactly where they are tested. -/
def WellFormed : Statement → Prop
  | node .block c n xs => c = none ∧ n = none ∧ AllWellFormed xs ∧ ∀ x ∈ xs, x.kind ≠ .block
  | node .ifThen c n xs =>
    c.isSome ∧ n = none ∧ AllWellFormed xs ∧ xs.length = 1 ∧ ∀ x ∈ xs, x.kind = .block
  | node .ifElse c n xs =>
    c.isSome ∧ n = none ∧ AllWellFormed xs ∧ xs.length = 2 ∧ ∀ x ∈ xs, x.kind = .block
  | node .whileDo c n xs =>
    c.isSome ∧ n = none ∧ AllWellFormed xs ∧ xs.length = 1 ∧ ∀ x ∈ xs, x.kind = .block
  | node .call c n xs => c = none ∧ xs = [] ∧ ∃ name, n = some name ∧ Token.isIdentifier name

def AllWellFormed : List Statement → Prop
  | [] => True
  | x :: xs => WellFormed x ∧ AllWellFormed xs
end

/-! ### Equality -/

mutual
/-- Decides whether two trees are equal. -/
def decEq : (a b : Statement) → Decidable (a = b)
  | node k c n xs, node k' c' n' ys =>
    match decEqAll xs ys with
    | isTrue h => decidable_of_iff (k = k' ∧ c = c' ∧ n = n') (by simp [h])
    | isFalse h => isFalse (by simp [h])

def decEqAll : (as bs : List Statement) → Decidable (as = bs)
  | [], [] => isTrue rfl
  | [], _ :: _ => isFalse (by simp)
  | _ :: _, [] => isFalse (by simp)
  | a :: as, b :: bs =>
    match decEq a b, decEqAll as bs with
    | isTrue h, isTrue h' => isTrue (by simp [h, h'])
    | isFalse h, _ => isFalse (by simp [h])
    | _, isFalse h => isFalse (by simp [h])
end

instance : DecidableEq Statement := decEq

end Statement

end BlockLang
