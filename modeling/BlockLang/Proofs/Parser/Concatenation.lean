import BlockLang.Proofs.Parser.Acceptance
import BlockLang.Proofs.Parser.Position
import BlockLang.Proofs.Token.Concatenation

/-! Programs one after the other. The parser of a block treats what comes later as it would treat it
alone: what is complete before only stands before, and positions are larger by what has been taken.
So a program with a line feed and another program after it is parsed as both are. -/

namespace BlockLang

open Token

/-- An error of a parse that begins after `n` more tokens. -/
def SyntaxError.later (n : Nat) (e : SyntaxError) : SyntaxError :=
  { e with position := e.position.map fun p => n + p }

namespace Parser

/-! ### States after other statements -/

def Frame.later (n : Nat) (f : Frame) : Frame := { f with start := n + f.start }

def Mode.later (n : Nat) : Mode → Mode
  | .statement => .statement
  | .condition header start => .condition header (n + start)
  | .opener header c start => .opener header c (n + start)
  | .closer header s start => .closer header s (n + start)

/-- A state of a parse that begins after `n` more tokens, when the statements `xs` are complete. -/
def State.later (xs : List Statement) (n : Nat) (log : List Event) (σ : State) : State :=
  ⟨xs ++ σ.outer, σ.frames.map (Frame.later n), σ.mode.later n, n + σ.position, log⟩

def Step.later (xs : List Statement) (n : Nat) (log : List Event) : Step → Step
  | .shift next => .shift (next.later xs n log)
  | .halt last => .halt (last.later xs n log)
  | .fail last v => .fail (last.later xs n log) v
  | .reject last v => .reject (last.later xs n log) v

def Outcome.later (xs : List Statement) (n : Nat) (log : List Event) (o : Outcome) : Outcome :=
  ⟨o.error?.map (SyntaxError.later n), o.last.later xs n log, o.rest⟩

variable {xs : List Statement} {n : Nat} {log : List Event} {σ : State}

theorem add_later (s : Statement) :
    (σ.later xs n log).add s = (σ.add s).later xs n log := by
  unfold State.add State.later
  cases σ.frames with
  | nil => simp
  | cons f frames => rfl

/-! ### Steps

Only the record tells how a step was made; it counts the statements of the outermost block. -/

theorem beginStatement_later (xs : List Statement) (n : Nat) (log : List Event) (σ : State)
    (limit : Option Nat) (t : Token) :
    (σ.later xs n log).beginStatement limit t = (σ.beginStatement limit t).later xs n log := by
  have hlen : (σ.later xs n log).frames.length = σ.frames.length := List.length_map _
  unfold State.beginStatement
  cases Header.ofToken? t with
  | some header =>
    simp only [hlen]
    split <;> rfl
  | none =>
    simp only [add_later]
    split <;> rfl

theorem endBlock_later (xs : List Statement) (n : Nat) (log : List Event) (σ : State) (t : Token) :
    ∃ log', (σ.later xs n log).endBlock .block t = (σ.endBlock .block t).later xs n log' := by
  have hframes : (σ.later xs n log).frames = σ.frames.map (Frame.later n) := rfl
  unfold State.endBlock
  rw [hframes]
  cases σ.frames with
  | nil => exact ⟨_, rfl⟩
  | cons f frames =>
    obtain ⟨branch, start, done⟩ := f
    refine ⟨log ++ [.block done.length t], ?_⟩
    simp only [List.map_cons, Frame.later]
    split <;> rfl

theorem closeStatement_later (xs : List Statement) (n : Nat) (log : List Event) (σ : State)
    (header : Header) (s : Statement) (start : Nat) (t : Token) :
    ∃ log', (σ.later xs n log).closeStatement header s (n + start) t =
      (σ.closeStatement header s start t).later xs n log' := by
  unfold State.closeStatement
  rw [add_later]
  split
  · exact ⟨_, rfl⟩
  · cases header <;> exact ⟨log, rfl⟩

theorem step_later (xs : List Statement) (n : Nat) (log : List Event) (σ : State)
    (limit : Option Nat) (t : Token) :
    ∃ log', (σ.later xs n log).step .block limit t = (σ.step .block limit t).later xs n log' := by
  have hmode : (σ.later xs n log).mode = σ.mode.later n := rfl
  unfold State.step
  rw [hmode]
  cases σ.mode with
  | statement =>
    simp only [Mode.later]
    split
    · exact endBlock_later xs n log σ t
    · exact ⟨log, beginStatement_later xs n log σ limit t⟩
  | condition header start =>
    simp only [Mode.later]
    cases Condition.ofToken? t <;> exact ⟨log, rfl⟩
  | opener header c start =>
    simp only [Mode.later]
    split <;> exact ⟨log, rfl⟩
  | closer header s start => exact closeStatement_later xs n log σ header s start t

/-! ### Runs -/

theorem run_later (xs : List Statement) (n : Nat) (log : List Event) (σ : State)
    (limit : Option Nat) (ts : List Token) :
    ∃ log', run .block limit (σ.later xs n log) ts = (run .block limit σ ts).later xs n log' := by
  induction ts generalizing σ log with
  | nil =>
    obtain ⟨log', hstep⟩ := step_later xs n log σ limit endOfInput
    rw [run_nil, run_nil, hstep]
    cases σ.step .block limit endOfInput with
    | halt last => exact ⟨log', rfl⟩
    | fail last v => exact ⟨log', rfl⟩
    | shift next => exact ⟨log, rfl⟩
    | reject last v => exact ⟨log, rfl⟩
  | cons t ts ih =>
    obtain ⟨log', hstep⟩ := step_later xs n log σ limit t
    rw [run_cons, run_cons, hstep]
    cases σ.step .block limit t with
    | halt last => exact ⟨log', rfl⟩
    | fail last v => exact ⟨log', rfl⟩
    | shift next => exact ih log' next
    | reject last v => exact ⟨log', rfl⟩

/-- A derivation of a block leads from the beginning to a state after its statements. -/
theorem run_append {p : List Token} {s : Statement} (h : Derives .block p s)
    (ts : List Token) :
    ∃ log, run .block none (.initial 0) (p ++ ts) =
      (run .block none (.initial 0) ts).later s.children p.length log := by
  have hs : State.Shifts .block none (.initial 0) p ((State.initial 0).after .block s) :=
    h.shifts (.initial 0) rfl rfl (by simp) (by simp)
  have hlength : s.tokens.length = p.length := by rw [(derives_iff.1 h).2.2]
  have hstate : (State.initial 0).after .block s =
      (State.initial 0).later s.children p.length (s.events 0) := by
    simp [State.after, State.addAll, State.initial, State.later, Mode.later, Goal.parts, hlength]
  rw [run_of_shifts hs, hstate]
  exact run_later s.children p.length (s.events 0) (.initial 0) none ts

/-! ### Programs -/

/-- The parse of a program text as a block, with statements nested as deep as they are. -/
def blockOf (source : String) : Outcome := run .block none (.initial 0) (streamOf source)

/-- An error of a parse has a position. -/
theorem position_of_blockOf {source : String} {e : SyntaxError}
    (h : (blockOf source).error? = some e) : ∃ p : Int, e.position = some p := by
  have hstart := TokenStream.isRestOf_ofTokens (streamOf source)
  obtain ⟨p, hp, -⟩ := (isRestOf_run (σ := .initial 0) hstart rfl rfl).2.2 e h
  exact ⟨p, hp.position_eq⟩

/-- Programs one after the other, with a line feed between them. If the first is a block and nothing
but the sentinel is left of it, then both are parsed as the second one is: the statements of the
first come before, and the position of an error is larger by its number of tokens. -/
theorem blockOf_append_newline (a b : String) (first : Statement)
    (h : (blockOf a).Returns .block first [endOfInput]) :
    streamOf (a ++ "\n" ++ b) = (streamOf a).dropLast ++ streamOf b ∧
      (blockOf (a ++ "\n" ++ b)).rest = (blockOf b).rest ∧
      (∀ tree, (blockOf (a ++ "\n" ++ b)).result .block = .ok tree ↔
        ∃ second, (blockOf b).result .block = .ok second ∧
          tree = .block (first.children ++ second.children)) ∧
      ∀ e, (blockOf (a ++ "\n" ++ b)).result .block = .error e ↔
        ∃ e' p, (blockOf b).result .block = .error e' ∧ e'.position = some p ∧
          e = { e' with position := some (p + (streamOf a).dropLast.length) } := by
  obtain ⟨p, hp, hd, -⟩ := derives_of_returns h
  obtain rfl : ofSource a = p := List.append_cancel_right hp
  have hlast : (streamOf a).dropLast = ofSource a := List.dropLast_concat
  obtain ⟨log, hrun⟩ := run_append hd (streamOf b)
  have hboth : blockOf (a ++ "\n" ++ b) =
      (blockOf b).later first.children (ofSource a).length log := by
    rw [blockOf, streamOf_append_newline]
    exact hrun
  rw [hlast, hboth]
  refine ⟨streamOf_append_newline a b, rfl, ?_⟩
  unfold Outcome.result Outcome.later
  cases he : (blockOf b).error? with
  | none => simp [State.result, State.later, eq_comm, Statement.block, Statement.children]
  | some e =>
    obtain ⟨p, hp⟩ := position_of_blockOf he
    simp [SyntaxError.later, hp, eq_comm, Int.add_comm]

/-- The first program may end in a comment, and the second may fail. -/
theorem blockOf_append_newline_fails :
    let a := "WHILE random DO move END WHILE # on"
    let b := "IF true move"
    let e : SyntaxError := (Violation.opener .ifThen).error 2 (some "move")
    (blockOf a).Returns .block (.block [.whileDo .random [.call "move"]]) [endOfInput] ∧
      (blockOf b).result .block = .error e ∧
      (blockOf (a ++ "\n" ++ b)).result .block = .error { e with position := some 8 } := by
  intro a b e
  have htokens : streamOf a = ["WHILE", "random", "DO", "move", "END", "WHILE", endOfInput] := by
    decide +kernel
  have htokens' : streamOf b = ["IF", "true", "move", endOfInput] := by decide +kernel
  have ha : (blockOf a).Returns .block (.block [.whileDo .random [.call "move"]])
      [endOfInput] := by
    rw [blockOf, htokens]
    exact ⟨rfl, rfl⟩
  have hb : (blockOf b).result .block = .error e := by
    rw [blockOf, htokens']
    rfl
  obtain ⟨-, -, -, herror⟩ := blockOf_append_newline a b _ ha
  refine ⟨ha, hb, (herror _).2 ⟨e, 2, hb, rfl, ?_⟩⟩
  rw [htokens]
  rfl

end Parser

end BlockLang
