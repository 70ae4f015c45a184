import BlockLang.Forest
import BlockLang.Index
import BlockLang.Text.Quoted

/-! Building statements in a forest. Every operation checks that the receiver and its new children
make a legal statement, and that no child has a parent or holds the receiver. Only a node that is
constructed whole is not checked; it may also have the very list of children that another node has,
and the checks do not look for such nodes. -/

namespace BlockLang

/-- Why a building step was refused. -/
inductive BuildError where
  | unknownNode (i : NodeId)
  | wrongKind (expected : List Kind) (found : Kind)
  /-- The node is no placeholder any more. -/
  | assembled (kind : Kind)
  | bodyNotBlock (kind : Kind)
  | alreadyOwned
  | containsItself
  /-- The search for the node below its new child never ends. -/
  | endlessSearch
  | sameBodies
  | invalidName (name : String)
  | indexOutOfRange (index : Int) (length : Nat)
  | blockInBlock
  /-- The position of a child is no index. -/
  | noIndex
  | noSuchChild
  deriving DecidableEq, Repr

def BuildError.message : BuildError → String
  | unknownNode i => s!"No node {i}"
  | wrongKind expected found =>
    let names := ", ".intercalate (expected.map Kind.name)
    s!"Expected a {names} statement, got {found.name}"
  | assembled kind => s!"Statement already assembled as {kind.name}"
  | bodyNotBlock kind => s!"Body must be a BLOCK statement, got {kind.name}"
  | alreadyOwned => "Statement already belongs to another statement"
  | containsItself => "A statement cannot contain itself"
  | endlessSearch => ""
  | sameBodies => "IF and ELSE bodies must be distinct statements"
  | invalidName name => s!"Invalid procedure name: {Text.quote name}"
  | indexOutOfRange index length => s!"Block index {index} out of range for length {length}"
  | blockInBlock => "A block cannot be added as an element of a block"
  | noIndex => noIndexMessage
  | noSuchChild => "list index out of range"

/-- Fails with an error if what is required does not hold. -/
def BuildError.require (e : BuildError) (holds : Bool) : Except BuildError Unit :=
  if holds then .ok () else .error e

/-- The children that a node is constructed with: those of a new list, or the very list that another
node has. -/
inductive Children where
  | new (ids : List NodeId)
  | of (i : NodeId)
  deriving DecidableEq, Repr

namespace Node

def requireKind (n : Node) (kinds : List Kind) : Except BuildError Unit :=
  (BuildError.wrongKind kinds n.kind).require (kinds.contains n.kind)

def requireEmpty (n : Node) : Except BuildError Unit :=
  (BuildError.assembled n.kind).require n.isEmpty

end Node

namespace Forest

/-- The node of an identity. -/
def get (f : Forest) (i : NodeId) : Except BuildError Node :=
  match f.node? i with
  | some n => .ok n
  | none => .error (.unknownNode i)

/-- Requires that nodes exist. -/
def requireKnown (f : Forest) : List NodeId → Except BuildError Unit
  | [] => .ok ()
  | i :: rest => do
    let _ ← f.get i
    f.requireKnown rest

/-- Adds a node with the given contents, whatever they are. Its children may belong to other
nodes already. A list without children is not kept: the node gets a new one. -/
def construct (f : Forest) (kind : Kind) (condition : Option Condition) (name : Option String) :
    Children → Except BuildError (NodeId × Forest)
  | .new ids => do
    f.requireKnown ids
    .ok (f.insertAbove kind condition name ids)
  | .of i => do
    let n ← f.get i
    if n.children.isEmpty then .ok (f.insertAbove kind condition name [])
    else .ok (f.insertBeside kind condition name i)

/-! ### Parts of statements -/

/-- The child at a position that counts from zero, or from the end if it is negative. -/
def child (f : Forest) (i : NodeId) (index : Int) : Except BuildError NodeId := do
  let n ← f.get i
  BuildError.noIndex.require (IsIndex index)
  let position := if index < 0 then index + n.children.length else index
  if position < 0 then .error .noSuchChild
  else match n.children[position.toNat]? with
    | some c => .ok c
    | none => .error .noSuchChild

/-- The child at a position of a statement of one of the given kinds. -/
def part (f : Forest) (i : NodeId) (kinds : List Kind) (index : Int) :
    Except BuildError NodeId := do
  let n ← f.get i
  n.requireKind kinds
  f.child i index

/-- The body of a choice with one block or of a loop. -/
def body (f : Forest) (i : NodeId) : Except BuildError NodeId := f.part i [.ifThen, .whileDo] 0

/-- The first body of a choice with two. -/
def thenBody (f : Forest) (i : NodeId) : Except BuildError NodeId := f.part i [.ifElse] 0

/-- The second body of a choice with two. -/
def elseBody (f : Forest) (i : NodeId) : Except BuildError NodeId := f.part i [.ifElse] 1

/-- The number of elements of a block. -/
def blockLength (f : Forest) (i : NodeId) : Except BuildError Nat := do
  let n ← f.get i
  n.requireKind [.block]
  .ok n.children.length

/-! ### Assembly -/

/-- Requires that a search below `child` ends without `parent`. -/
def requireNotBelow (f : Forest) (parent child : NodeId) : Except BuildError Unit :=
  match f.contains? child parent with
  | some found => BuildError.containsItself.require !found
  | none => .error .endlessSearch

/-- Requires that a node may become a child of `parent`. The child is searched only if the parent
belongs to another node, since what belongs to none lies below none. -/
def requireAdoptable (f : Forest) (parent child : NodeId) : Except BuildError Unit := do
  let p ← f.get parent
  let c ← f.get child
  BuildError.alreadyOwned.require !c.owned
  BuildError.containsItself.require (child != parent)
  if p.owned then f.requireNotBelow parent child else .ok ()

/-- Requires that nodes may become bodies of `parent`. -/
def requireBodies (f : Forest) (parent : NodeId) : List NodeId → Except BuildError Unit
  | [] => .ok ()
  | b :: rest => do
    let n ← f.get b
    (BuildError.bodyNotBlock n.kind).require (n.kind == .block)
    f.requireAdoptable parent b
    f.requireBodies parent rest

/-- Turns a placeholder into a test with the given bodies. -/
def assemble (f : Forest) (i : NodeId) (kind : Kind) (c : Condition) (bodies : List NodeId) :
    Except BuildError Forest := do
  let n ← f.get i
  n.requireEmpty
  f.requireBodies i bodies
  BuildError.sameBodies.require bodies.Nodup
  .ok ((f.own bodies).modify i fun n =>
    { n with kind := kind, condition := some c, children := bodies })

def assembleIf (f : Forest) (i : NodeId) (c : Condition) (body : NodeId) :
    Except BuildError Forest :=
  f.assemble i .ifThen c [body]

def assembleIfElse (f : Forest) (i : NodeId) (c : Condition) (thenBody elseBody : NodeId) :
    Except BuildError Forest :=
  f.assemble i .ifElse c [thenBody, elseBody]

def assembleWhile (f : Forest) (i : NodeId) (c : Condition) (body : NodeId) :
    Except BuildError Forest :=
  f.assemble i .whileDo c [body]

/-- Turns a placeholder into a call. -/
def assembleCall (f : Forest) (i : NodeId) (name : String) : Except BuildError Forest := do
  let n ← f.get i
  n.requireEmpty
  (BuildError.invalidName name).require (Token.isIdentifier name)
  .ok (f.modify i fun n => { n with kind := .call, name := some name })

/-- Inserts a statement at a position of a block, in the list that the block has. -/
def addToBlock (f : Forest) (i : NodeId) (index : Int) (child : NodeId) :
    Except BuildError Forest := do
  let n ← f.get i
  n.requireKind [.block]
  (BuildError.indexOutOfRange index n.children.length).require
    (0 ≤ index && index ≤ n.children.length)
  let c ← f.get child
  BuildError.blockInBlock.require (c.kind != .block)
  f.requireAdoptable i child
  .ok ((f.own [child]).refill i (n.children.insertIdx index.toNat child))

end Forest

end BlockLang
