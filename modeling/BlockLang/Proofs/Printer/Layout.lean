import BlockLang.Proofs.Grammar
import BlockLang.Printer
import Mathlib.Data.List.Basic

/-! The layout of programs: the lines that a tree is printed as, each with its level. The printer
appends exactly these lines and comes back to its level, as long as the machine has room for the
calls and for the spaces before the lines. -/

namespace BlockLang

open Statement

namespace Printer

/-- A printed line: the level that it stands at, and its text. -/
structure Line where
  level : Int
  text : String

/-- The line with the spaces before it. -/
def Line.string (l : Line) : String :=
  String.ofList (List.replicate (4 * l.level.toNat) ' ') ++ l.text

/-- The spaces before a line can be made on a machine. -/
def Line.IsPrintable (m : Machine) (l : Line) : Prop :=
  Text.requireRepeatable m 4 l.level = .ok ()

instance (m : Machine) (l : Line) : Decidable (l.IsPrintable m) := by
  unfold Line.IsPrintable
  infer_instance

variable {m : Machine}

/-- A printing step appends lines at a level and does nothing else. -/
def Prints (step : Printing Unit) (level : Int) (ls : List Line) : Prop :=
  ∀ lines : List String,
    run ⟨lines, level⟩ step = (.ok (), ⟨lines ++ ls.map Line.string, level⟩)

theorem run_bind (p : Printer) (a b : Printing Unit) :
    p.run (a >>= fun _ => b) =
      match p.run a with
      | (.ok (), q) => q.run b
      | (.error e, q) => (.error e, q) := by
  have h : p.run (a >>= fun _ => b) = match (ExceptT.run a).run p with
      | (.ok (), q) => q.run b
      | (.error e, q) => (.error e, q) := by
    simp only [run, ExceptT.run_bind, StateT.run_bind]
    cases (ExceptT.run a).run p with
    | mk r q => cases r <;> rfl
  exact h

theorem Prints.bind {a b : Printing Unit} {level : Int} {ls ms : List Line}
    (ha : Prints a level ls) (hb : Prints b level ms) :
    Prints (a >>= fun _ => b) level (ls ++ ms) := by
  intro lines
  rw [run_bind, ha lines]
  simpa using hb (lines ++ ls.map Line.string)

theorem margin_eq {l : Line} (h : l.IsPrintable m) :
    margin m l.level = .ok (String.ofList (List.replicate (4 * l.level.toNat) ' ')) := by
  have hr : Text.requireRepeatable m (List.replicate 4 ' ').length l.level = .ok () := h
  have ht : Text.repeated m (List.replicate 4 ' ') l.level =
      .ok (List.replicate l.level.toNat (List.replicate 4 ' ')).flatten := by
    rw [Text.repeated, hr]
    rfl
  rw [margin, ht, List.flatten_replicate_replicate, Nat.mul_comm]
  rfl

theorem run_line (lines : List String) (level : Int) (text : String) :
    run ⟨lines, level⟩ (line m text) =
      match margin m level with
      | .ok spaces => (.ok (), ⟨lines ++ [spaces ++ text], level⟩)
      | .error e => (.error (.margin e), ⟨lines, level⟩) := by
  have h : run ⟨lines, level⟩ (line m text) = ExceptT.run
      (match margin m level with
        | .ok spaces => set (⟨lines ++ [spaces ++ text], level⟩ : Printer)
        | .error e => throw (.margin e) : Printing Unit) ⟨lines, level⟩ := rfl
  rw [h]
  cases margin m level <;> rfl

theorem prints_line {l : Line} (h : l.IsPrintable m) : Prints (line m l.text) l.level [l] := by
  intro lines
  rw [run_line, margin_eq h]
  rfl

theorem run_shift (lines : List String) (level k : Int) :
    run ⟨lines, level⟩ (shift k) = (.ok (), ⟨lines, level + k⟩) := rfl

theorem prints_body {s : Statement} {level : Int} {ls : List Line} {calls : Nat}
    (h : Prints (emit m s calls) (level + 1) ls) (rest : List Statement) :
    Prints (emitBody m 0 (s :: rest) (calls + 1)) level ls := by
  intro lines
  rw [emitBody, run_bind, run_shift]
  simp only
  rw [run_bind, h lines]
  simp only [run_shift]
  congr 2
  omega

end Printer

open Printer

namespace Statement

mutual
/-- The lines of a program, if its outermost statements stand at a level. -/
def layout (level : Int) : Statement → List Line
  | node .block _ _ xs => layoutAll level xs
  | node .call _ name _ => [⟨level, name.getD "None"⟩]
  | node .ifThen (some c) _ [body] =>
    [⟨level, s!"IF {c.token} THEN"⟩] ++ layout (level + 1) body ++ [⟨level, "END IF"⟩]
  | node .ifElse (some c) _ [thenBody, elseBody] =>
    [⟨level, s!"IF {c.token} THEN"⟩] ++ layout (level + 1) thenBody ++ [⟨level, "ELSE"⟩] ++
      layout (level + 1) elseBody ++ [⟨level, "END IF"⟩]
  | node .whileDo (some c) _ [body] =>
    [⟨level, s!"WHILE {c.token} DO"⟩] ++ layout (level + 1) body ++ [⟨level, "END WHILE"⟩]
  | _ => []

def layoutAll (level : Int) : List Statement → List Line
  | [] => []
  | x :: xs => layout level x ++ layoutAll level xs
end

variable (level : Int) (c : Condition)

@[simp] theorem layout_call (name : String) : (call name).layout level = [⟨level, name⟩] := by
  simp [call, layout]

@[simp] theorem layout_block_nil : (block []).layout level = [] := by
  simp [block, layout, layoutAll]

@[simp] theorem layout_block_cons (x : Statement) (xs : List Statement) :
    (block (x :: xs)).layout level = x.layout level ++ (block xs).layout level := by
  simp [block, layout, layoutAll]

@[simp] theorem layout_ifThen (body : List Statement) : (ifThen c body).layout level =
    [⟨level, s!"IF {c.token} THEN"⟩] ++ (block body).layout (level + 1) ++
      [⟨level, "END IF"⟩] := by
  simp [ifThen, layout]

@[simp] theorem layout_ifElse (thenBody elseBody : List Statement) :
    (ifElse c thenBody elseBody).layout level =
      [⟨level, s!"IF {c.token} THEN"⟩] ++ (block thenBody).layout (level + 1) ++
        [⟨level, "ELSE"⟩] ++ (block elseBody).layout (level + 1) ++ [⟨level, "END IF"⟩] := by
  simp [ifElse, layout]

@[simp] theorem layout_whileDo (body : List Statement) : (whileDo c body).layout level =
    [⟨level, s!"WHILE {c.token} DO"⟩] ++ (block body).layout (level + 1) ++
      [⟨level, "END WHILE"⟩] := by
  simp [whileDo, layout]

/-! ### Calls -/

mutual
/-- The calls that stand inside one another while a tree is printed: one for a statement, one for
its kind, and one for a body. -/
def printingCalls : Statement → Nat
  | node .block _ _ xs => printingCallsAll xs + 2
  | node .call _ _ _ => 2
  | node _ _ _ xs => printingCallsAll xs + 3

def printingCallsAll : List Statement → Nat
  | [] => 0
  | x :: xs => max (printingCalls x) (printingCallsAll xs)
end

@[simp] theorem printingCalls_call (name : String) : (call name).printingCalls = 2 := rfl

@[simp] theorem printingCalls_block_nil : (block []).printingCalls = 2 := rfl

@[simp] theorem printingCalls_block_cons (x : Statement) (xs : List Statement) :
    (block (x :: xs)).printingCalls = max (x.printingCalls + 2) (block xs).printingCalls := by
  simp [block, printingCalls, printingCallsAll]

@[simp] theorem printingCalls_ifThen (body : List Statement) :
    (ifThen c body).printingCalls = (block body).printingCalls + 3 := by
  simp [ifThen, printingCalls, printingCallsAll]

@[simp] theorem printingCalls_ifElse (thenBody elseBody : List Statement) :
    (ifElse c thenBody elseBody).printingCalls =
      max (block thenBody).printingCalls (block elseBody).printingCalls + 3 := by
  simp [ifElse, printingCalls, printingCallsAll]

@[simp] theorem printingCalls_whileDo (body : List Statement) :
    (whileDo c body).printingCalls = (block body).printingCalls + 3 := by
  simp [whileDo, printingCalls, printingCallsAll]

end Statement

namespace Printer

variable {m : Machine} {g : Parser.Goal} {p : List Token} {s : Statement} {calls : Nat}

/-- Without two calls nothing is printed. -/
theorem emit_of_lt (h : calls < 2) (s : Statement) : emit m s calls = throw .tooDeep := by
  match calls, h with
  | 0, _ | 1, _ => cases s; rw [emit]; all_goals simp

/-- A compound statement with one body prints its header, its body and its closer. -/
theorem prints_oneBody {level : Int} (header closer : String) {body : Statement} {ls : List Line}
    (hb : Prints (emit m body calls) (level + 1) ls)
    (hh : (⟨level, header⟩ : Line).IsPrintable m) (rest : List Statement) :
    Prints (line m header >>= fun _ => emitBody m 0 (body :: rest) (calls + 1) >>= fun _ =>
      line m closer) level ([⟨level, header⟩] ++ ls ++ [⟨level, closer⟩]) := by
  rw [List.append_assoc]
  exact (prints_line hh).bind ((prints_body hb rest).bind (prints_line (l := ⟨level, closer⟩) hh))

/-- The printer prints the layout of a program, if the machine has room for it. -/
theorem prints_emit (h : Derives g p s) (level : Int) (hc : s.printingCalls ≤ calls)
    (hl : ∀ l ∈ s.layout level, l.IsPrintable m) :
    Prints (emit m s calls) level (s.layout level) := by
  induction h generalizing level calls with
  | @call t _ =>
    obtain ⟨calls, rfl⟩ := Nat.exists_eq_add_of_le' hc
    rw [layout_call] at hl ⊢
    exact prints_line (l := ⟨level, t⟩) (hl _ (by simp))
  | @ifThen _ c _ body _ _ ih =>
    rw [printingCalls_ifThen] at hc
    obtain ⟨calls, rfl⟩ := Nat.exists_eq_add_of_le' (Nat.le_of_add_left_le hc)
    simp only [layout_ifThen, List.forall_mem_append] at hl ⊢
    exact prints_oneBody _ _ (ih (level + 1) (by omega) hl.1.2) (hl.1.1 _ (by simp)) []
  | @ifElse _ c _ _ thenBody elseBody _ _ _ ih ih' =>
    rw [printingCalls_ifElse] at hc
    obtain ⟨calls, rfl⟩ := Nat.exists_eq_add_of_le' (Nat.le_of_add_left_le hc)
    simp only [layout_ifElse, List.forall_mem_append] at hl ⊢
    have hh : (⟨level, s!"IF {c.token} THEN"⟩ : Line).IsPrintable m := hl.1.1.1.1 _ (by simp)
    have hc : (block thenBody).printingCalls ≤ calls ∧ (block elseBody).printingCalls ≤ calls := by
      omega
    have hthen := prints_body (ih (level + 1) hc.1 hl.1.1.1.2) [block elseBody]
    have helse := prints_oneBody "ELSE" "END IF" (ih' (level + 1) hc.2 hl.1.2) hh []
    have hall := (prints_line hh).bind (hthen.bind helse)
    simp only [List.append_assoc] at hall ⊢
    exact hall
  | @whileDo _ c _ body _ _ ih =>
    rw [printingCalls_whileDo] at hc
    obtain ⟨calls, rfl⟩ := Nat.exists_eq_add_of_le' (Nat.le_of_add_left_le hc)
    simp only [layout_whileDo, List.forall_mem_append] at hl ⊢
    exact prints_oneBody _ _ (ih (level + 1) (by omega) hl.1.2) (hl.1.1 _ (by simp)) []
  | empty =>
    obtain ⟨calls, rfl⟩ := Nat.exists_eq_add_of_le' hc
    intro lines
    rw [layout_block_nil, List.map_nil, List.append_nil]
    rfl
  | @cons _ _ _ xs _ _ ih ih' =>
    rw [printingCalls_block_cons] at hc
    obtain ⟨calls, rfl⟩ := Nat.exists_eq_add_of_le' (by omega : 2 ≤ calls)
    rw [layout_block_cons, List.forall_mem_append] at hl
    rw [layout_block_cons]
    have hrest : Prints (emit m (block xs) (calls + 2)) level ((block xs).layout level) :=
      ih' level (by omega) hl.2
    exact (ih level (by omega) hl.1).bind hrest

example : run (atLevel 1) (emit .usual (.whileDo .random [.call "move"]) 7) =
    (.ok (), ⟨["    WHILE random DO", "        move", "    END WHILE"], 1⟩) := by rfl

/-- Every level of nesting takes five calls: two for a compound statement, one for its body, and two
for the block that is its body. A call in it takes two more, and so does a block around it. -/
theorem printingCalls_of_derives (h : Derives g p s) :
    match g with
    | .statement => 5 * s.depth ≤ s.printingCalls ∧ s.printingCalls ≤ 5 * s.depth + 2
    | .block => 5 * s.depth + 2 ≤ s.printingCalls ∧ s.printingCalls ≤ 5 * s.depth + 4 := by
  induction h with
  | call _ => simp
  | ifThen _ _ ih | whileDo _ _ ih =>
    simp only [depth_ifThen, depth_whileDo, printingCalls_ifThen, printingCalls_whileDo,
      depth_block] at ih ⊢
    omega
  | ifElse _ _ _ ih ih' =>
    simp only [depth_ifElse, printingCalls_ifElse, depth_block] at ih ih' ⊢
    omega
  | empty => simp
  | cons _ _ ih ih' =>
    simp only [depth_block, depthAll_cons, printingCalls_block_cons] at ih ih' ⊢
    omega

/-- No line stands further out than the whole program, or further in than its statements do. -/
theorem level_of_mem_layout (h : Derives g p s) {level : Int} {l : Line}
    (hl : l ∈ s.layout level) : level ≤ l.level ∧ l.level ≤ level + s.depth := by
  induction h generalizing level with
  | call _ =>
    obtain rfl : l = _ := by simpa using hl
    simp
  | ifThen _ _ ih | whileDo _ _ ih =>
    simp only [layout_ifThen, layout_whileDo, List.mem_append, List.mem_singleton] at hl
    simp only [depth_ifThen, depth_whileDo, Int.natCast_add, Int.natCast_one]
    rcases hl with (rfl | hl) | rfl
    · simp; omega
    · have := ih hl
      rw [depth_block] at this
      omega
    · simp; omega
  | ifElse _ _ _ ih ih' =>
    simp only [layout_ifElse, List.mem_append, List.mem_singleton] at hl
    simp only [depth_ifElse, Int.natCast_add, Int.natCast_one]
    rcases hl with (((rfl | hl) | rfl) | hl) | rfl
    · simp; omega
    · have := ih hl
      rw [depth_block] at this
      omega
    · simp; omega
    · have := ih' hl
      rw [depth_block] at this
      omega
    · simp; omega
  | empty => simp at hl
  | cons _ _ ih ih' =>
    rw [layout_block_cons, List.mem_append] at hl
    rw [depth_block, depthAll_cons]
    rcases hl with hl | hl
    · have := ih hl
      omega
    · have := ih' hl
      rw [depth_block] at this
      omega

end Printer

end BlockLang
