import BlockLang.Session

/-! What the steps of a session leave alone. Looking and printing change neither the forest nor the
token stream, building does not touch the stream, and reading does not touch the forest. -/

namespace BlockLang

namespace Session

/-- A step that reads from the token stream. -/
def Action.reads : Action → Bool
  | front | dequeue | expect .. | parseStatement .. | parseBlock .. => true
  | _ => false

/-- A step that can change the forest: it builds or parses. -/
def Action.grows : Action → Bool
  | fresh | construct .. | assembleIf .. | assembleIfElse .. | assembleWhile .. | assembleCall ..
  | addToBlock .. | parseStatement .. | parseBlock .. => true
  | _ => false

/-- A result of a step that does without the token stream. -/
structure LeavesStream (s : Session) (r : Except Failure Value × Session) : Prop where
  stream_eq : r.2.stream = s.stream
  answer_ne : ∀ e, r.1 ≠ .error (.parse e)

/-- A result of a step that does without the token stream and does not change the forest. -/
structure LeavesAll (s : Session) (r : Except Failure Value × Session) : Prop
    extends s.LeavesStream r where
  forest_eq : r.2.forest = s.forest

variable {s : Session} {a : Action} {α : Type} {r : Except Failure Value × Session}

theorem leavesAll_of_eq {answer : Except Failure Value} (h : ∀ e, answer ≠ .error (.parse e)) :
    s.LeavesAll (answer, s) :=
  ⟨⟨rfl, h⟩, rfl⟩

/-! ### Kinds of steps -/

theorem leavesAll_look (r : Except BuildError α) (value : α → Value) :
    s.LeavesAll (s.look r value) := by
  cases r <;> exact leavesAll_of_eq nofun

theorem leavesAll_withTree (i : NodeId) {next : Statement → Except Failure Value × Session}
    (h : ∀ t, s.LeavesAll (next t)) : s.LeavesAll (s.withTree i next) := by
  unfold withTree
  cases s.tree i with
  | error e => exact leavesAll_of_eq nofun
  | ok t => exact h t

theorem leavesAll_shown {ε : Type} (r : Except ε α) {failure : ε → Failure} (value : α → Value)
    (h : ∀ e e', failure e ≠ .parse e') : s.LeavesAll (s.shown r failure value) := by
  cases r with
  | ok a => exact leavesAll_of_eq nofun
  | error e => exact leavesAll_of_eq fun e' he => h e e' (Except.error.inj he)

theorem leavesAll_print (step : Printing Unit) : s.LeavesAll (s.print step) := by
  unfold print
  split
  · split <;> exact ⟨⟨rfl, nofun⟩, rfl⟩
  · exact leavesAll_of_eq nofun

theorem leavesAll_emit (t : Statement) : s.LeavesAll (s.emit t) := by
  unfold emit
  split
  · split <;> exact ⟨⟨rfl, nofun⟩, rfl⟩
  · exact leavesAll_print _

theorem leavesStream_build (r : Except BuildError Forest) (value : Value) :
    s.LeavesStream (s.build r value) := by
  cases r <;> exact ⟨rfl, nofun⟩

theorem leavesStream_create (r : Except BuildError (NodeId × Forest)) :
    s.LeavesStream (s.create r) := by
  cases r <;> exact ⟨rfl, nofun⟩

theorem forest_read (step : TokenStream → Except SyntaxError Token × TokenStream) :
    (s.read step).2.forest = s.forest := by
  unfold read
  split
  · rfl
  · split <;> rfl

/-! ### All steps -/

/-- A step that neither builds nor reads leaves the forest and the token stream as they are. -/
theorem leavesAll_perform (hg : a.grows = false) (hr : a.reads = false) :
    s.LeavesAll (s.perform a) := by
  cases a with
  | body i => exact leavesAll_look _ _
  | thenBody i => exact leavesAll_look _ _
  | elseBody i => exact leavesAll_look _ _
  | child i index => exact leavesAll_look _ _
  | isEmpty i => exact leavesAll_look _ _
  | blockLength i => exact leavesAll_look _ _
  | describe i =>
    refine leavesAll_withTree i fun t => ?_
    cases t.describe? <;> exact leavesAll_of_eq nofun
  | toJson i => exact leavesAll_withTree i fun t => leavesAll_shown _ _ fun _ _ h => by cases h
  | same i j => exact leavesAll_of_eq nofun
  | equal i j =>
    exact leavesAll_withTree i fun t => leavesAll_withTree j fun u => leavesAll_of_eq nofun
  | render target i =>
    cases i with
    | none => exact leavesAll_shown _ _ fun _ _ h => by cases h
    | some i => exact leavesAll_withTree i fun t => leavesAll_shown _ _ fun _ _ h => by cases h
  | openPrinter level => exact ⟨⟨rfl, nofun⟩, rfl⟩
  | openJson indent => exact ⟨⟨rfl, nofun⟩, rfl⟩
  | emit i => exact leavesAll_withTree i leavesAll_emit
  | emitUnsupported name => exact leavesAll_print (Printer.emitUnsupported name)
  | emitLine text => exact leavesAll_print _
  | output =>
    simp only [perform]
    split
    · exact leavesAll_shown _ _ fun _ _ h => by cases h
    · exact leavesAll_of_eq nofun
  | _ => contradiction

theorem leavesStream_perform (hr : a.reads = false) : s.LeavesStream (s.perform a) := by
  cases hg : a.grows with
  | false => exact (leavesAll_perform hg hr).toLeavesStream
  | true =>
    cases a with
    | fresh => exact leavesStream_create (.ok s.forest.fresh)
    | construct kind condition name children => exact leavesStream_create _
    | assembleIf i c body => exact leavesStream_build _ _
    | assembleIfElse i c thenBody elseBody => exact leavesStream_build _ _
    | assembleWhile i c body => exact leavesStream_build _ _
    | assembleCall i name => exact leavesStream_build _ _
    | addToBlock i index child => exact leavesStream_build _ _
    | _ => contradiction

theorem forest_perform (hg : a.grows = false) : (s.perform a).2.forest = s.forest := by
  cases hr : a.reads with
  | false => exact (leavesAll_perform hg hr).forest_eq
  | true =>
    cases a with
    | front => exact forest_read _
    | dequeue => exact forest_read _
    | expect keyword text => exact forest_read _
    | _ => contradiction

/-! ### Changes of the forest -/

/-- What a step can make of the forest: it stays, or a node is constructed, assembled or extended,
or a statement or a block is parsed into a node. What holds of the forest and of all these results
holds of the forest after the step. -/
theorem forest_perform_induction {motive : Forest → Prop} (s : Session) (a : Action)
    (same : motive s.forest)
    (fresh : a = .fresh → motive s.forest.fresh.2)
    (construct : ∀ kind condition name children i g, a = .construct kind condition name children →
      s.forest.construct kind condition name children = .ok (i, g) → motive g)
    (assemble : ∀ i kind c bodies g, s.forest.assemble i kind c bodies = .ok g → motive g)
    (assembleCall : ∀ i name g, s.forest.assembleCall i name = .ok g → motive g)
    (addToBlock : ∀ i index child g, a = .addToBlock i index child →
      s.forest.addToBlock i index child = .ok g → motive g)
    (parseStatement : ∀ stream beginning i,
      motive (s.forest.parseStatement stream beginning i).2.2)
    (parseBlock : ∀ stream i, a = .parseBlock i →
      motive (s.forest.parseBlock stream i).2.2) :
    motive (s.perform a).2.forest := by
  have build : ∀ (r : Except BuildError Forest) (v : Value),
      (∀ g, r = .ok g → motive g) → motive (s.build r v).2.forest := by
    intro r v h
    cases r with
    | error e => exact same
    | ok g => exact h g rfl
  have create : ∀ r : Except BuildError (NodeId × Forest),
      (∀ i g, r = .ok (i, g) → motive g) → motive (s.create r).2.forest := by
    intro r h
    cases r with
    | error e => exact same
    | ok x => exact h x.1 x.2 rfl
  have parse : ∀ (i : NodeId) (step : TokenStream → Except ParseError Unit × TokenStream × Forest),
      (∀ stream, motive (step stream).2.2) → motive (s.parse i step).2.forest := by
    intro i step h
    unfold Session.parse
    split
    · exact same
    · next stream _ =>
      have hstep := h stream
      split <;> next heq => rwa [heq] at hstep
  cases hg : a.grows with
  | false =>
    rw [forest_perform hg]
    exact same
  | true =>
    cases a with
    | fresh => exact fresh rfl
    | construct kind condition name children =>
      exact create _ fun i g => construct kind condition name children i g rfl
    | assembleIf i c body => exact build _ _ fun g => assemble i .ifThen c [body] g
    | assembleIfElse i c thenBody elseBody =>
      exact build _ _ fun g => assemble i .ifElse c [thenBody, elseBody] g
    | assembleWhile i c body => exact build _ _ fun g => assemble i .whileDo c [body] g
    | assembleCall i name => exact build _ _ fun g => assembleCall i name g
    | addToBlock i index child => exact build _ _ fun g => addToBlock i index child g rfl
    | parseStatement beginning i => exact parse i _ fun stream => parseStatement stream beginning i
    | parseBlock i => exact parse i _ fun stream => parseBlock stream i rfl
    | _ => cases hg

end Session

end BlockLang
