import BlockLang.Descent

/-! Plans. A routine does one thing to the node that it parses into, somewhere in the middle: it
makes the node a call or a test. What comes before finds out what the node is to become, and does
not depend on the node; what comes after takes the closing keywords. -/

namespace BlockLang

open BlockLang.Parser (Header Violation)

namespace Descent

/-- Takes the closing keywords of a choice. -/
def closeChoice : Descent Unit := do
  let _ ← expect "END" .endOfElse
  close "IF" (.closer .ifThen)

/-- Takes the closing keywords of a loop. -/
def closeLoop : Descent Unit := do
  let t ← front
  let _ ← expect "END" (.endOfLoop t)
  let _ ← expect "WHILE" (.closer .whileDo)

end Descent

/-- What a node is to become. -/
inductive Plan where
  | call (name : String)
  | test (kind : Kind) (c : Condition) (bodies : List NodeId)

namespace Plan

def build (i : NodeId) (f : Forest) : Plan → Except BuildError Forest
  | call name => f.assembleCall i name
  | test kind c bodies => f.assemble i kind c bodies

/-- Takes the closing keywords. -/
def close : Plan → Descent Unit
  | call _ => pure ()
  | test .whileDo _ _ => Descent.closeLoop
  | test _ _ _ => Descent.closeChoice

end Plan

namespace Descent

/-- Makes a node what is planned, and takes the closing keywords. -/
def finish (i : NodeId) (plan : Plan) : Descent Unit := do
  build fun f => plan.build i f
  plan.close

/-! ### Planning -/

section Plans

variable (statement : NodeId → Descent Unit)

/-- Parses a choice up to the end of its last block. -/
def planChoice : Descent Plan := do
  let opened ← opening statement .ifThen .ifThen
  let t ← front
  check (t == "ELSE" || t == "END") (.elseOrEnd t)
  if t == "ELSE" then do
    let _ ← dequeue
    let elseBody ← inFresh (block statement)
    return .test .ifElse opened.1 [opened.2, elseBody]
  else return .test .ifThen opened.1 [opened.2]

/-- Parses a loop up to the end of its block. -/
def planLoop : Descent Plan := do
  let opened ← opening statement .whileDo .whileDo
  return .test .whileDo opened.1 [opened.2]

end Plans

def planCall : Descent Plan := do
  begins .call
  let t ← dequeue
  return .call t

/-- Parses a compound statement up to the end of its last block, with fewer than `depth` compound
statements inside it. -/
def planCompound : (depth : Nat) → Header → Descent Plan
  | 0, _ => do
    check false .shallowerNesting
    throw .stalled
  | depth + 1, .ifThen => planChoice (statement depth)
  | depth + 1, .whileDo => planLoop (statement depth)

/-- Parses a statement up to the place where it is put together. -/
def planStatement (compound : Header → Descent Plan) : Descent Plan := do
  let t ← front
  check ((Header.ofToken? t).isSome || t.isIdentifier) (.statementStart t)
  match Header.ofToken? t with
  | some header => compound header
  | none => planCall

/-- Parses a statement that begins as promised up to the place where it is put together, with at
most `depth` compound statements inside the outermost one. -/
def plan (depth : Nat) : Beginning → Descent Plan
  | .anyStatement => planStatement (planCompound (depth + 1))
  | .ifThen => planCompound (depth + 1) .ifThen
  | .whileDo => planCompound (depth + 1) .whileDo
  | .call => planCall

/-! ### Routines as plans -/

section Plans

variable (statement : NodeId → Descent Unit) (i : NodeId)

theorem alternative_bind_eq (c : Condition) (body : NodeId) :
    (alternative statement i c body >>= fun _ => closeChoice) = (do
      let t ← front
      check (t == "ELSE" || t == "END") (.elseOrEnd t)
      if t == "ELSE" then do
        let _ ← dequeue
        let elseBody ← inFresh (block statement)
        finish i (.test .ifElse c [body, elseBody])
      else finish i (.test .ifThen c [body])) := by
  simp only [alternative, bind_assoc]
  congr 1
  funext t
  congr 1
  funext _
  split
  · simp only [bind_assoc]
    rfl
  · rfl

theorem choice_eq_plan : choice statement i = planChoice statement >>= finish i := by
  have hclose : choice statement i = opening statement .ifThen .ifThen >>= fun opened =>
      alternative statement i opened.1 opened.2 >>= fun _ => closeChoice := rfl
  rw [hclose, planChoice]
  simp only [alternative_bind_eq, bind_assoc]
  congr 1
  funext opened
  congr 1
  funext t
  congr 1
  funext _
  split <;> simp only [bind_assoc, pure_bind]

theorem loop_eq_plan : loop statement i = planLoop statement >>= finish i := by
  simp only [planLoop, bind_assoc, pure_bind]
  rfl

end Plans

theorem call_eq_plan (i : NodeId) : call i = planCall >>= finish i := by
  have hpure (x : Descent Unit) : x = x >>= fun _ => pure () := by simp
  simp only [planCall, bind_assoc, pure_bind, call]
  congr 1
  funext _
  congr 1
  funext t
  exact hpure _

theorem dispatch_eq_plan {compound : Header → NodeId → Descent Unit}
    {planned : Header → Descent Plan} {i : NodeId}
    (h : ∀ header, compound header i = planned header >>= finish i) :
    dispatch compound i = planStatement planned >>= finish i := by
  simp only [dispatch, planStatement, bind_assoc]
  congr 1
  funext t
  congr 1
  funext _
  cases Header.ofToken? t with
  | some header => exact h header
  | none => exact call_eq_plan i

theorem compound_eq_plan (depth : Nat) (header : Header) (i : NodeId) :
    compound (statement depth) header i = planCompound (depth + 1) header >>= finish i := by
  cases header with
  | ifThen => exact choice_eq_plan (statement depth) i
  | whileDo => exact loop_eq_plan (statement depth) i

/-- A statement is parsed by a plan that does not depend on the node. -/
theorem statement_eq_plan (depth : Nat) (i : NodeId) :
    statement depth i = planStatement (planCompound depth) >>= finish i := by
  cases depth with
  | zero => exact dispatch_eq_plan fun _ => rfl
  | succ depth => exact dispatch_eq_plan fun header => compound_eq_plan depth header i

end Descent

end BlockLang
