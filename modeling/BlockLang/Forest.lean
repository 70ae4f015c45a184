import BlockLang.Statement

/-! A forest of statement nodes that are built step by step. Nodes have identities, know their
children by identity, and are marked once they belong to another node. The lists of children have
identities too: two nodes may have one list between them, and then what is added to it shows in
both. -/

namespace BlockLang

/-- The identity of a node. -/
abbrev NodeId := Nat

/-- The identity of a list of children. -/
abbrev ListId := Nat

/-- A node under construction. A block without children is a placeholder, which can still become
any statement. -/
structure Node where
  kind : Kind
  condition : Option Condition
  name : Option String
  children : List NodeId
  owned : Bool
  deriving DecidableEq, Repr

/-- What is stored of a node: its children are those of a list. -/
structure Cell where
  kind : Kind
  condition : Option Condition
  name : Option String
  list : ListId
  owned : Bool
  deriving DecidableEq, Repr

namespace Node

/-- A fresh node. -/
def placeholder : Node := ⟨.block, none, none, [], false⟩

/-- Whether a node can still become any statement. -/
def isEmpty (n : Node) : Bool := n.kind == .block && n.children.isEmpty

/-- What is stored of a node whose children are those of a list. -/
def cell (n : Node) (list : ListId) : Cell := ⟨n.kind, n.condition, n.name, list, n.owned⟩

end Node

/-- All nodes and all lists of children, in the order of their creation. -/
structure Forest where
  cells : Array Cell
  lists : Array (List NodeId)
  list_lt : ∀ c ∈ cells, c.list < lists.size

namespace Forest

def empty : Forest := ⟨#[], #[], by simp⟩

def size (f : Forest) : Nat := f.cells.size

/-- A node, as it is stored. -/
def view (f : Forest) (c : Cell) : Node :=
  ⟨c.kind, c.condition, c.name, f.lists[c.list]?.getD [], c.owned⟩

def node? (f : Forest) (i : NodeId) : Option Node := f.cells[i]?.map f.view

/-- The list that has the children of a node. -/
def list? (f : Forest) (i : NodeId) : Option ListId := f.cells[i]?.map Cell.list

/-- The children of a node; an unknown node has none. -/
def children (f : Forest) (i : NodeId) : List NodeId := (f.node? i).elim [] Node.children

/-! ### Changes -/

/-- Adds a list of children. -/
def addList (f : Forest) (ids : List NodeId) : Forest where
  cells := f.cells
  lists := f.lists.push ids
  list_lt c hc := by
    rw [Array.size_push]
    exact Nat.lt_succ_of_lt (f.list_lt c hc)

/-- Adds a node that has a given list, whatever children it is given with. -/
def push (f : Forest) (n : Node) (list : ListId) (h : list < f.lists.size) : Forest where
  cells := f.cells.push (n.cell list)
  lists := f.lists
  list_lt c hc := by
    rcases Array.mem_push.1 hc with hc | rfl
    · exact f.list_lt c hc
    · exact h

/-- Puts a node that has a given list in the place of another one. -/
def put (f : Forest) (i : NodeId) (n : Node) (list : ListId) (h : list < f.lists.size) :
    Forest where
  cells := f.cells.setIfInBounds i (n.cell list)
  lists := f.lists
  list_lt c hc := by
    rcases Array.mem_or_eq_of_mem_setIfInBounds hc with hc | rfl
    · exact f.list_lt c hc
    · exact h

theorem size_lists_lt_addList (f : Forest) (ids : List NodeId) :
    f.lists.size < (f.addList ids).lists.size := by
  simp [addList]

/-- Adds a node to the forest, with a new list for its children. -/
def insert (f : Forest) (n : Node) : NodeId × Forest :=
  (f.size, (f.addList n.children).push n f.lists.size (f.size_lists_lt_addList _))

/-- Adds a placeholder to the forest. -/
def fresh (f : Forest) : NodeId × Forest := f.insert .placeholder

/-- Changes one node. If it gets other children, they are a new list. -/
def modify (f : Forest) (i : NodeId) (change : Node → Node) : Forest :=
  match h : f.cells[i]? with
  | none => f
  | some c =>
    let n := change (f.view c)
    if n.children = (f.view c).children then
      f.put i n c.list (f.list_lt c (Array.mem_of_getElem? h))
    else (f.addList n.children).put i n f.lists.size (f.size_lists_lt_addList _)

/-- Changes the list of a node. All nodes that have the list get the new children. -/
def refill (f : Forest) (i : NodeId) (ids : List NodeId) : Forest :=
  match f.list? i with
  | none => f
  | some list => ⟨f.cells, f.lists.setIfInBounds list ids, by simpa using f.list_lt⟩

/-- Marks nodes as belonging to another one. -/
def own (f : Forest) (ids : List NodeId) : Forest :=
  ids.foldl (fun f i => f.modify i fun n => { n with owned := true }) f

/-- Adds a node above nodes of the forest, which then belong to it. -/
def insertAbove (f : Forest) (kind : Kind) (condition : Option Condition) (name : Option String)
    (children : List NodeId) : NodeId × Forest :=
  (f.own children).insert ⟨kind, condition, name, children, false⟩

/-- Adds a node above the children of another one, with the list that they are in. -/
def insertBeside (f : Forest) (kind : Kind) (condition : Option Condition) (name : Option String)
    (i : NodeId) : NodeId × Forest :=
  let f := f.own (f.children i)
  match h : f.cells[i]? with
  | none => (f.size, f)
  | some c => (f.size, f.push ⟨kind, condition, name, [], false⟩ c.list
      (f.list_lt c (Array.mem_of_getElem? h)))

/-! ### Views -/

/-- Searches for a node among the pending ones and all that lies below them. Every round takes one
pending node and puts its children before the others, the last child first; a node to which several
ways lead is taken several times. There is no answer if the rounds do not last to the end. -/
def search (f : Forest) (goal : NodeId) : (rounds : Nat) → (pending : List NodeId) → Option Bool
  | _, [] => some false
  | 0, _ :: _ => none
  | rounds + 1, i :: pending =>
    if i = goal then some true else f.search goal rounds ((f.children i).reverse ++ pending)

/-- The children of all nodes, one after another. -/
def slots (f : Forest) : List NodeId := (List.range f.size).flatMap f.children

/-- The number of children of all nodes together. -/
def edges (f : Forest) : Nat := f.slots.length

/-- A number of rounds that no search exceeds that ends at all: on its ways down it takes no node
twice, and no step has more choices than there are children. -/
def roundLimit (f : Forest) : Nat := Nat.pow (f.edges + 1) (f.size + 1)

/-- Searches for a node below another one. A search without an answer would never end. -/
def contains? (f : Forest) (i below : NodeId) : Option Bool :=
  f.search below f.roundLimit (f.children i).reverse

/-- The tree below a node, if it has at most `depth` levels. -/
def unfold (f : Forest) : Nat → NodeId → Option Statement
  | 0, _ => none
  | depth + 1, i => do
    let n ← f.node? i
    let children ← n.children.mapM (f.unfold depth)
    some (.node n.kind n.condition n.name children)

/-- The tree below a node. -/
def statement? (f : Forest) (i : NodeId) : Option Statement := f.unfold f.size i

end Forest

end BlockLang
