import BlockLang.Forest.Build
import BlockLang.TokenStream

/-! Parsing from a token stream into a node of a forest. The node takes the parsed statement at the
moment when all its blocks are complete, which is before its closing keywords are read. -/

namespace BlockLang

/-- The statements that a parse may begin with. -/
inductive Beginning where
  | anyStatement
  | ifThen
  | whileDo
  | call
  deriving DecidableEq, Repr

/-- Whether a parse may begin with a token. -/
def Beginning.admits (t : Token) : Beginning → Bool
  | anyStatement => true
  | ifThen => t == Parser.Header.ifThen.keyword
  | whileDo => t == Parser.Header.whileDo.keyword
  | call => t.isIdentifier

/-- Why a parse into a node failed. -/
inductive ParseError where
  /-- The stream does not begin as the caller promised. -/
  | wrongBeginning (beginning : Beginning)
  | violation (e : SyntaxError)
  | build (e : BuildError)
  deriving DecidableEq, Repr

def ParseError.message : ParseError → String
  | wrongBeginning .anyStatement => ""
  | wrongBeginning .ifThen => "Violation of: <IF> is a prefix of tokens"
  | wrongBeginning .whileDo => "Violation of: <WHILE> is a prefix of tokens"
  | wrongBeginning .call => "Violation of: identifier string is a prefix of tokens"
  | violation e => e.message
  | build e => e.message

namespace Forest

mutual
/-- Adds a tree to the forest, each of its nodes as a new one. -/
def plant : Statement → Forest → NodeId × Forest
  | .node kind condition name xs, f =>
    let (ids, f) := plantAll xs f
    f.insertAbove kind condition name ids

def plantAll : List Statement → Forest → List NodeId × Forest
  | [], f => ([], f)
  | x :: xs, f =>
    let (i, f) := plant x f
    let (ids, f) := plantAll xs f
    (i :: ids, f)
end

/-- Makes a placeholder the root of a tree whose other nodes are new. -/
def graft (f : Forest) (i : NodeId) : Statement → Except BuildError Forest
  | .node kind condition name xs => do
    let n ← f.get i
    n.requireEmpty
    let (ids, f) := plantAll xs f
    .ok ((f.own ids).modify i fun n =>
      { n with
        kind := kind, condition := condition.or n.condition, name := name.or n.name,
        children := ids })

/-- Adds trees of new nodes at the end of a block, in the list that the block has. -/
def append (f : Forest) (i : NodeId) (xs : List Statement) : Forest :=
  let (ids, g) := plantAll xs f
  (g.own ids).refill i (f.children i ++ ids)

/-- What a parse reports. -/
def verdict (error? : Option SyntaxError) : Except ParseError Unit :=
  match error? with
  | some e => .error (.violation e)
  | none => .ok ()

/-- Parses one statement into a node. -/
def parseStatement (f : Forest) (s : TokenStream) (beginning : Beginning) (i : NodeId) :
    Except ParseError Unit × TokenStream × Forest :=
  if beginning.admits s.front then
    let start := Parser.State.initial s.position
    let outcome := Parser.run .statement none start s.rest
    let after : TokenStream := ⟨outcome.rest, outcome.last.position⟩
    match Parser.assembly? start s.rest with
    | none => (verdict outcome.error?, after, f)
    | some (tree, σ, rest) =>
      match f.graft i tree with
      | .error e => (.error (.build e), ⟨rest, σ.position⟩, f)
      | .ok f => (verdict outcome.error?, after, f)
  else (.error (.wrongBeginning beginning), s, f)

/-- Parses statements into a block, after those it has. Complete statements stay in the block also
when a later one fails. -/
def parseBlock (f : Forest) (s : TokenStream) (i : NodeId) :
    Except ParseError Unit × TokenStream × Forest :=
  match f.blockLength i with
  | .error e => (.error (.build e), s, f)
  | .ok _ =>
    let outcome := Parser.run .block none (.initial s.position) s.rest
    (verdict outcome.error?, ⟨outcome.rest, outcome.last.position⟩,
      f.append i outcome.last.outer)

end Forest

end BlockLang
