import BlockLang.Proofs.Parser.Reading

/-! Derivations as runs. Whatever tokens derive a tree lead every state where a statement may begin
to the same state with the tree added, its length counted and its constructs recorded. -/

namespace BlockLang

open Statement

namespace Statement

mutual
/-- The constructs of a tree in the order of their ends, if `start` tokens stand before it. The end
of an outermost block is left out, since the token after it is no part of the tree. -/
def events (start : Nat) : Statement → List Parser.Event
  | node .block _ _ xs => eventsAll start xs
  | node .ifThen _ _ [node _ _ _ body] =>
    eventsAll (start + 3) body ++
      [.block body.length "END", .statement .ifThen start (start + (tokensAll body).length + 4)]
  | node .ifElse _ _ [node _ _ _ thenBody, node _ _ _ elseBody] =>
    eventsAll (start + 3) thenBody ++ [.block thenBody.length "ELSE"] ++
      eventsAll (start + 3 + (tokensAll thenBody).length + 1) elseBody ++
      [.block elseBody.length "END", .statement .ifElse start
        (start + (tokensAll thenBody).length + (tokensAll elseBody).length + 5)]
  | node .whileDo _ _ [node _ _ _ body] =>
    eventsAll (start + 3) body ++
      [.block body.length "END", .statement .whileDo start (start + (tokensAll body).length + 4)]
  | _ => []

def eventsAll (start : Nat) : List Statement → List Parser.Event
  | [] => []
  | x :: xs => events start x ++ eventsAll (start + x.tokens.length) xs
end

@[simp] theorem events_call (start : Nat) (name : String) : (call name).events start = [] := by
  simp [call, events]

@[simp] theorem events_block (start : Nat) (xs : List Statement) :
    (block xs).events start = eventsAll start xs := by
  simp [block, events]

@[simp] theorem events_ifThen (start : Nat) (c : Condition) (body : List Statement) :
    (ifThen c body).events start = eventsAll (start + 3) body ++
      [.block body.length "END",
        .statement .ifThen start (start + (tokensAll body).length + 4)] := by
  simp [ifThen, block, events]

@[simp] theorem events_ifElse (start : Nat) (c : Condition) (thenBody elseBody : List Statement) :
    (ifElse c thenBody elseBody).events start =
      eventsAll (start + 3) thenBody ++ [.block thenBody.length "ELSE"] ++
        eventsAll (start + 3 + (tokensAll thenBody).length + 1) elseBody ++
        [.block elseBody.length "END", .statement .ifElse start
          (start + (tokensAll thenBody).length + (tokensAll elseBody).length + 5)] := by
  simp [ifElse, block, events]

@[simp] theorem events_whileDo (start : Nat) (c : Condition) (body : List Statement) :
    (whileDo c body).events start = eventsAll (start + 3) body ++
      [.block body.length "END",
        .statement .whileDo start (start + (tokensAll body).length + 4)] := by
  simp [whileDo, block, events]

end Statement

namespace Parser

/-- The statements that a tree adds to a state. -/
def Goal.parts (s : Statement) : Goal → List Statement
  | statement => [s]
  | block => s.children

namespace State

/-- Adds complete statements to the innermost block. -/
def addAll (σ : State) (xs : List Statement) : State :=
  match σ.frames with
  | [] => { σ with outer := σ.outer ++ xs }
  | f :: frames => { σ with frames := { f with done := f.done ++ xs } :: frames }

/-- The state after a tree. -/
def after (σ : State) (g : Goal) (s : Statement) : State :=
  { σ.addAll (g.parts s) with
    mode := .statement, position := σ.position + s.tokens.length,
    log := σ.log ++ s.events σ.position }

/-- The state at the beginning of the first block of a compound statement. -/
def enter (σ : State) (b : Branch) : State :=
  { σ with
    frames := ⟨b, σ.position, []⟩ :: σ.frames, mode := .statement, position := σ.position + 3 }

/-- The state after the end of the innermost compound statement. -/
def leave (σ : State) (f : Frame) (frames : List Frame) : State :=
  { { σ with frames := frames }.add (f.branch.close f.done) with
    mode := .statement, position := σ.position + 2,
    log := σ.log ++ [.block f.done.length "END",
      .statement (f.branch.close f.done).kind f.start (σ.position + 1)] }

/-- The state after the `END` of the innermost compound statement. -/
def atEnd (σ : State) (f : Frame) (frames : List Frame) : State :=
  { σ.record (.block f.done.length "END") with frames := frames }.shift
    (.closer f.branch.header (f.branch.close f.done) f.start)

/-- The state at the beginning of the second block of a choice. -/
def turn (σ : State) (c : Condition) (start : Nat) (thenBody : List Statement)
    (frames : List Frame) : State :=
  { σ with
    frames := ⟨.elseBody c thenBody, start, []⟩ :: frames, mode := .statement,
    position := σ.position + 1, log := σ.log ++ [.block thenBody.length "ELSE"] }

variable {goal : Goal} {limit : Option Nat} {σ : State}

theorem shifts_enter {t : Token} {c : Condition} (h : Header) (hf : σ.finished goal = false)
    (hm : σ.mode = .statement) (hl : ∀ n ∈ limit, σ.frames.length < n)
    (hc : Condition.ofToken? t = some c) :
    Shifts goal limit σ [h.keyword, t, h.opener] (σ.enter (h.branch c)) :=
  .cons hf (.header hm hl) (.cons hf (.condition rfl hc) (.cons hf (.opener rfl) .nil))

theorem Shifts.of_eq {τ : State} (h : σ = τ) : Shifts goal limit σ [] τ := h ▸ .nil

theorem shifts_turn {c : Condition} {start : Nat} {thenBody : List Statement}
    {frames : List Frame} (hf : σ.finished goal = false) (hm : σ.mode = .statement)
    (hfr : σ.frames = ⟨.ifBody c, start, thenBody⟩ :: frames) :
    Shifts goal limit σ ["ELSE"] (σ.turn c start thenBody frames) :=
  .cons hf (.elseBody hm hfr) .nil

/-- The keyword after `END` completes the statement. -/
theorem close_atEnd (σ : State) (f : Frame) (frames : List Frame) :
    (((σ.atEnd f frames).add (f.branch.close f.done)).record
      (.statement (f.branch.close f.done).kind f.start (σ.atEnd f frames).position)).shift
        .statement = σ.leave f frames := by
  cases frames <;> simp [atEnd, leave, shift, record, add]

theorem shifts_leave {f : Frame} {frames : List Frame} (hf : σ.finished goal = false)
    (hm : σ.mode = .statement) (hfr : σ.frames = f :: frames) :
    Shifts goal limit σ ["END", f.branch.header.keyword] (σ.leave f frames) :=
  .cons hf (.endBlock hm hfr) (.cons hf (.closer rfl) (.of_eq (close_atEnd σ f frames)))

theorem add_call (σ : State) (t : Token) :
    (σ.add (.call t)).shift .statement = σ.after .statement (.call t) := by
  obtain ⟨outer, frames, mode, position, log⟩ := σ
  cases frames <;> simp [after, addAll, add, shift, Goal.parts]

theorem after_cons (σ : State) (x : Statement) (xs : List Statement) :
    (σ.after .statement x).after .block (block xs) = σ.after .block (block (x :: xs)) := by
  obtain ⟨outer, frames, mode, position, log⟩ := σ
  cases frames <;> simp [after, addAll, Goal.parts, eventsAll, Nat.add_assoc]

theorem after_nil (hm : σ.mode = .statement) : σ.after .block (block []) = σ := by
  obtain ⟨outer, frames, mode, position, log⟩ := σ
  cases frames <;> simp_all [after, addAll, Goal.parts, eventsAll]

@[simp] theorem length_frames_after (σ : State) (g : Goal) (s : Statement) :
    (σ.after g s).frames.length = σ.frames.length := by
  cases hfr : σ.frames <;> simp [after, addAll, hfr]

theorem outer_after (g : Goal) (s : Statement) (hfr : σ.frames ≠ []) :
    (σ.after g s).outer = σ.outer := by
  cases hf : σ.frames with
  | nil => exact absurd hf hfr
  | cons f frames => simp [after, addAll, hf]

theorem frames_after_ne_nil (g : Goal) (s : Statement) (hfr : σ.frames ≠ []) :
    (σ.after g s).frames ≠ [] := by
  rwa [← List.length_pos_iff, length_frames_after, List.length_pos_iff]

/-- A statement is no reason to stop if a block is to be read or another statement is open. -/
theorem finished_after {g : Goal} {s : Statement} (hf : σ.finished goal = false)
    (hg : goal = .block ∨ σ.frames ≠ []) : (σ.after g s).finished goal = false := by
  rcases hg with rfl | hfr
  · rfl
  · simpa [finished, outer_after _ _ hfr] using hf

@[simp] theorem header_branch (h : Header) (c : Condition) : (h.branch c).header = h := by
  cases h <;> rfl

/-- What is to be shown of the tokens of a block: they lead into it from every open statement. -/
def ReadsBlock (goal : Goal) (limit : Option Nat) (p : List Token) (xs : List Statement) : Prop :=
  ∀ σ : State, σ.mode = .statement → σ.finished goal = false → σ.frames ≠ [] →
    (∀ n ∈ limit, σ.frames.length + depthAll xs ≤ n) →
    Shifts goal limit σ p (σ.after .block (block xs))

theorem leave_after_enter (σ : State) (h : Header) (c : Condition) (body : List Statement) :
    ((σ.enter (h.branch c)).after .block (block body)).leave
        ⟨h.branch c, σ.position, body⟩ σ.frames =
      σ.after .statement ((h.branch c).close body) := by
  obtain ⟨outer, frames, mode, position, log⟩ := σ
  cases h <;> cases frames <;>
    simp [leave, after, enter, addAll, add, Goal.parts, Header.branch, Branch.close] <;> omega

theorem leave_after_turn (σ : State) (c : Condition) (thenBody elseBody : List Statement) :
    ((((σ.enter (.ifBody c)).after .block (block thenBody)).turn c σ.position thenBody
        σ.frames).after .block (block elseBody)).leave
        ⟨.elseBody c thenBody, σ.position, elseBody⟩ σ.frames =
      σ.after .statement (.ifElse c thenBody elseBody) := by
  obtain ⟨outer, frames, mode, position, log⟩ := σ
  cases frames <;>
    simp [leave, turn, after, enter, addAll, add, Goal.parts, Branch.close, Nat.add_assoc] <;> omega

/-- A compound statement with one block is read if its block is. -/
theorem shifts_oneBlock {t : Token} {c : Condition} {p : List Token} {body : List Statement}
    (h : Header) (hm : σ.mode = .statement) (hf : σ.finished goal = false)
    (hl : ∀ n ∈ limit, σ.frames.length + (depthAll body + 1) ≤ n)
    (hc : Condition.ofToken? t = some c) (hp : ReadsBlock goal limit p body) :
    Shifts goal limit σ ([h.keyword, t, h.opener] ++ p ++ ["END", h.keyword])
      (σ.after .statement ((h.branch c).close body)) := by
  have hin := shifts_enter h hf hm (fun n hn => by have := hl n hn; omega) hc
  have hbody := hp (σ.enter (h.branch c)) rfl hf (by simp [enter])
    (fun n hn => by have := hl n hn; simp only [enter, List.length_cons]; omega)
  have hout : Shifts goal limit _ _ _ :=
    shifts_leave (σ := (σ.enter (h.branch c)).after .block (block body)) hf rfl rfl
  rw [← leave_after_enter σ h c body]
  rw [header_branch] at hout
  exact (hin.append hbody).append hout

/-- A choice between two blocks is read if both blocks are. -/
theorem shifts_twoBlocks {t : Token} {c : Condition} {p q : List Token}
    {thenBody elseBody : List Statement} (hm : σ.mode = .statement)
    (hf : σ.finished goal = false)
    (hl : ∀ n ∈ limit, σ.frames.length + (max (depthAll thenBody) (depthAll elseBody) + 1) ≤ n)
    (hc : Condition.ofToken? t = some c) (hp : ReadsBlock goal limit p thenBody)
    (hq : ReadsBlock goal limit q elseBody) :
    Shifts goal limit σ (["IF", t, "THEN"] ++ p ++ ["ELSE"] ++ q ++ ["END", "IF"])
      (σ.after .statement (.ifElse c thenBody elseBody)) := by
  have hin := shifts_enter .ifThen hf hm (fun n hn => by have := hl n hn; omega) hc
  have hbody := hp (σ.enter (.ifBody c)) rfl hf (by simp [enter])
    (fun n hn => by have := hl n hn; simp only [enter, List.length_cons]; omega)
  have helse : Shifts goal limit _ _ _ :=
    shifts_turn (σ := (σ.enter (.ifBody c)).after .block (block thenBody)) hf rfl rfl
  have hbody' := hq (((σ.enter (.ifBody c)).after .block (block thenBody)).turn c σ.position
    thenBody σ.frames) rfl hf (by simp [turn])
    (fun n hn => by have := hl n hn; simp only [turn, List.length_cons]; omega)
  have hout : Shifts goal limit _ _ _ :=
    shifts_leave (σ := (((σ.enter (.ifBody c)).after .block (block thenBody)).turn c σ.position
      thenBody σ.frames).after .block (block elseBody)) hf rfl rfl
  rw [← leave_after_turn σ c thenBody elseBody]
  exact (((hin.append hbody).append helse).append hbody').append hout

end State

end Parser

open BlockLang.Parser State

/-- A derivation is a run. At most `limit` compound statements may be open, and a block outside
all of them can be read only if a block is to be read. -/
theorem Derives.shifts {g : Goal} {p : List Token} {s : Statement} (h : Derives g p s)
    {goal : Goal} {limit : Option Nat} (σ : State) (hm : σ.mode = .statement)
    (hf : σ.finished goal = false) (hl : ∀ n ∈ limit, σ.frames.length + s.depth ≤ n)
    (hg : g = .block → goal = .block ∨ σ.frames ≠ []) :
    Shifts goal limit σ p (σ.after g s) := by
  induction h generalizing σ with
  | @call t ht =>
    exact .cons hf (.call hm ht) (.of_eq (add_call σ t))
  | @ifThen t c p body hc _ ih =>
    exact shifts_oneBlock .ifThen hm hf (by simpa using hl) hc
      fun τ hm hf hfr hl => ih τ hm hf hl fun _ => .inr hfr
  | @ifElse t c p q thenBody elseBody hc _ _ ih ih' =>
    exact shifts_twoBlocks hm hf (by simpa using hl) hc
      (fun τ hm hf hfr hl => ih τ hm hf hl fun _ => .inr hfr)
      fun τ hm hf hfr hl => ih' τ hm hf hl fun _ => .inr hfr
  | @whileDo t c p body hc _ ih =>
    exact shifts_oneBlock .whileDo hm hf (by simpa using hl) hc
      fun τ hm hf hfr hl => ih τ hm hf hl fun _ => .inr hfr
  | empty => exact .of_eq (after_nil hm).symm
  | @cons p q s rest _ _ ih ih' =>
    have hd : s.depth ≤ (block (s :: rest)).depth := Nat.le_max_left _ _
    have hd' : (block rest).depth ≤ (block (s :: rest)).depth := Nat.le_max_right _ _
    have hs := ih σ hm hf (fun n hn => by have := hl n hn; omega) (by simp)
    have hrest := ih' (σ.after .statement s) rfl (finished_after hf (hg rfl))
      (fun n hn => by have := hl n hn; rw [length_frames_after]; omega)
      (fun _ => (hg rfl).imp_right (frames_after_ne_nil _ _))
    rw [after_cons] at hrest
    exact hs.append hrest

/-- From the beginning a derivation leads to the state after its tree. -/
theorem Parser.shifts_of_derives {goal : Goal} {p : List Token} {s : Statement}
    (h : Derives goal p s) : Shifts goal none (initial 0) p ((initial 0).after goal s) :=
  h.shifts (initial 0) rfl (by cases goal <;> rfl) (by simp) fun hg => .inl hg

end BlockLang
