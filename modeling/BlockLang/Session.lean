import BlockLang.Forest.Parse
import BlockLang.Render
import BlockLang.Statement.Describe

/-! A session: a forest, a token stream and an output backend, on which building, parsing and
printing steps are performed one after another, whether they succeed or fail. -/

namespace BlockLang

/-- Where statements are printed to. -/
inductive Backend where
  | printer (p : Printer)
  /-- JSON with an indent, and the object of the statement printed last. -/
  | json (indent : Option Int) (root : Json)

/-- The text of what was printed, as far as a machine has room for the work. -/
def Backend.output (m : Machine) : Backend → Except PrintError String
  | printer p => .ok p.output
  | json indent root => root.encode m indent

/-- The state of a session, with the machine that it runs on. -/
structure Session where
  machine : Machine
  forest : Forest
  stream : Option TokenStream
  backend : Option Backend

namespace Session

/-- What can be done in a session. -/
inductive Action where
  | fresh
  | construct (kind : Kind) (condition : Option Condition) (name : Option String)
      (children : Children)
  | body (i : NodeId)
  | thenBody (i : NodeId)
  | elseBody (i : NodeId)
  | child (i : NodeId) (index : Int)
  | assembleIf (i : NodeId) (c : Condition) (body : NodeId)
  | assembleIfElse (i : NodeId) (c : Condition) (thenBody elseBody : NodeId)
  | assembleWhile (i : NodeId) (c : Condition) (body : NodeId)
  | assembleCall (i : NodeId) (name : String)
  | addToBlock (i : NodeId) (index : Int) (child : NodeId)
  | isEmpty (i : NodeId)
  | blockLength (i : NodeId)
  | describe (i : NodeId)
  | toJson (i : NodeId)
  | same (i j : NodeId)
  | equal (i j : NodeId)
  | render (target : String) (i : Option NodeId)
  | openPrinter (level : Int)
  | openJson (indent : Option Int)
  | emit (i : NodeId)
  | emitUnsupported (name : String)
  | emitLine (text : String)
  | output
  | front
  | dequeue
  | expect (keyword : Token) (text : String)
  | parseStatement (beginning : Beginning) (i : NodeId)
  | parseBlock (i : NodeId)

/-- What a step gives. -/
inductive Value where
  | nothing
  | node (i : NodeId)
  | flag (b : Bool)
  | number (n : Nat)
  | text (s : String)
  | data (j : Json)

/-- Why a step failed. -/
inductive Failure where
  | build (e : BuildError)
  | parse (e : ParseError)
  | print (e : PrintError)
  | render (e : RenderError)
  /-- A test without a condition cannot be described. -/
  | indescribable
  /-- There is no token stream. -/
  | noStream
  /-- There is no output backend that can do this. -/
  | noBackend

/-- Reads from the forest. -/
def look (s : Session) (r : Except BuildError α) (value : α → Value) :
    Except Failure Value × Session :=
  match r with
  | .ok a => (.ok (value a), s)
  | .error e => (.error (.build e), s)

/-- Changes the forest by building on a node. -/
def build (s : Session) (r : Except BuildError Forest) (value : Value) :
    Except Failure Value × Session :=
  match r with
  | .ok f => (.ok value, { s with forest := f })
  | .error e => (.error (.build e), s)

/-- Adds a node to the forest. -/
def create (s : Session) (r : Except BuildError (NodeId × Forest)) :
    Except Failure Value × Session :=
  match r with
  | .ok (i, f) => (.ok (.node i), { s with forest := f })
  | .error e => (.error (.build e), s)

/-- The tree below a node. -/
def tree (s : Session) (i : NodeId) : Except BuildError Statement :=
  match s.forest.statement? i with
  | some t => .ok t
  | none => .error (.unknownNode i)

/-- Reads from the token stream. -/
def read (s : Session) (step : TokenStream → Except SyntaxError Token × TokenStream) :
    Except Failure Value × Session :=
  match s.stream with
  | none => (.error .noStream, s)
  | some stream =>
    match step stream with
    | (.ok t, stream) => (.ok (.text t), { s with stream := some stream })
    | (.error e, stream) => (.error (.parse (.violation e)), { s with stream := some stream })

/-- Parses from the token stream into a node. -/
def parse (s : Session) (i : NodeId)
    (step : TokenStream → Except ParseError Unit × TokenStream × Forest) :
    Except Failure Value × Session :=
  match s.stream with
  | none => (.error .noStream, s)
  | some stream =>
    match step stream with
    | (.ok (), stream, f) => (.ok (.node i), { s with stream := some stream, forest := f })
    | (.error e, stream, f) => (.error (.parse e), { s with stream := some stream, forest := f })

/-- Performs a printing step on the current printer. -/
def print (s : Session) (step : Printing Unit) : Except Failure Value × Session :=
  match s.backend with
  | some (.printer p) =>
    match p.run step with
    | (.ok (), p) => (.ok .nothing, { s with backend := some (.printer p) })
    | (.error e, p) => (.error (.print e), { s with backend := some (.printer p) })
  | _ => (.error .noBackend, s)

/-- Prints a tree to the current backend. -/
def emit (s : Session) (t : Statement) : Except Failure Value × Session :=
  match s.backend with
  | some (.json indent _) =>
    match t.data s.machine with
    | .ok root => (.ok .nothing, { s with backend := some (.json indent root) })
    | .error e => (.error (.print e), s)
  | _ => s.print (Printer.emit s.machine t (s.machine.calls .printing))

/-- Continues with the tree below a node. -/
def withTree (s : Session) (i : NodeId) (next : Statement → Except Failure Value × Session) :
    Except Failure Value × Session :=
  match s.tree i with
  | .ok t => next t
  | .error e => (.error (.build e), s)

/-- What a tree is printed or rendered as. -/
def shown (s : Session) (r : Except ε α) (failure : ε → Failure) (value : α → Value) :
    Except Failure Value × Session :=
  match r with
  | .ok a => (.ok (value a), s)
  | .error e => (.error (failure e), s)

/-- Performs one step. -/
def perform (s : Session) : Action → Except Failure Value × Session
  | .fresh => s.create (.ok s.forest.fresh)
  | .construct kind condition name children =>
    s.create (s.forest.construct kind condition name children)
  | .body i => s.look (s.forest.body i) .node
  | .thenBody i => s.look (s.forest.thenBody i) .node
  | .elseBody i => s.look (s.forest.elseBody i) .node
  | .child i index => s.look (s.forest.child i index) .node
  | .assembleIf i c body => s.build (s.forest.assembleIf i c body) (.node i)
  | .assembleIfElse i c thenBody elseBody =>
    s.build (s.forest.assembleIfElse i c thenBody elseBody) (.node i)
  | .assembleWhile i c body => s.build (s.forest.assembleWhile i c body) (.node i)
  | .assembleCall i name => s.build (s.forest.assembleCall i name) (.node i)
  | .addToBlock i index child => s.build (s.forest.addToBlock i index child) .nothing
  | .isEmpty i => s.look (s.forest.get i) fun n => .flag n.isEmpty
  | .blockLength i => s.look (s.forest.blockLength i) .number
  | .describe i => s.withTree i fun t =>
    match t.describe? with
    | some text => (.ok (.text text), s)
    | none => (.error .indescribable, s)
  | .toJson i => s.withTree i fun t => s.shown (t.data s.machine) .print .data
  | .same i j => (.ok (.flag (i == j)), s)
  | .equal i j => s.withTree i fun t => s.withTree j fun u => (.ok (.flag (t = u)), s)
  | .render target none => s.shown (BlockLang.render s.machine target none) .render .text
  | .render target (some i) => s.withTree i fun t =>
    s.shown (BlockLang.render s.machine target (some t)) .render .text
  | .openPrinter level =>
    (.ok .nothing, { s with backend := some (.printer (.atLevel level)) })
  | .openJson indent => (.ok .nothing, { s with backend := some (.json indent .null) })
  | .emit i => s.withTree i s.emit
  | .emitUnsupported name => s.print (Printer.emitUnsupported name)
  | .emitLine text => s.print (Printer.line s.machine text)
  | .output =>
    match s.backend with
    | some b => s.shown (b.output s.machine) .print .text
    | none => (.error .noBackend, s)
  | .front => s.read fun stream => (.ok stream.front, stream)
  | .dequeue => s.read TokenStream.dequeue
  | .expect keyword text => s.read fun stream => stream.expect keyword text
  | .parseStatement beginning i =>
    s.parse i fun stream => s.forest.parseStatement stream beginning i
  | .parseBlock i => s.parse i fun stream => s.forest.parseBlock stream i

end Session

end BlockLang
