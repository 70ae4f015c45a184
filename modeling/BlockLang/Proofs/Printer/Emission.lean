import BlockLang.Proofs.Printer.Balance

/-! Programs printed at any level. A program is printed to its end if and only if its calls fit on
the stack and the spaces before its lines can be made; where only the calls do not fit, it is too
deep. The new lines are its layout, which is the same at every level but for the spaces; its length
is told by the statements of each kind. -/

namespace BlockLang

open Statement

namespace Printer

variable {m : Machine} {a b : Printing Unit} {level : Int} {P Q : Prop}

/-! ### What printing a program needs -/

/-- A printing step ends without error at a level only if something holds. -/
def Needs (step : Printing Unit) (level : Int) (need : Prop) : Prop :=
  ∀ lines : List String, (run ⟨lines, level⟩ step).1 = .ok () → need

theorem Needs.bind (hbal : IsBalanced a) (ha : Needs a level P) (hb : Needs b level Q) :
    Needs (a >>= fun _ => b) level (P ∧ Q) := by
  intro lines hok
  obtain ⟨-, -, hlevel⟩ := hbal ⟨lines, level⟩
  have hP := ha lines
  rw [run_bind] at hok
  generalize run ⟨lines, level⟩ a = r at hlevel hP hok
  obtain ⟨e | _, ⟨lines', level'⟩⟩ := r
  · cases hok
  · obtain rfl : level' = level := hlevel rfl
    exact ⟨hP rfl, hb lines' hok⟩

theorem Needs.mono (h : Needs a level P) (hPQ : P → Q) : Needs a level Q :=
  fun lines hok => hPQ (h lines hok)

theorem needs_throw (e : PrintError) : Needs (throw e) level P := nofun

theorem needs_line (l : Line) : Needs (line m l.text) l.level (l.IsPrintable m) := by
  intro lines hok
  rw [run_line, margin, Text.repeated] at hok
  have hlength : (List.replicate 4 ' ').length = 4 := rfl
  rw [hlength] at hok
  rw [Line.IsPrintable]
  cases h : Text.requireRepeatable m 4 l.level with
  | ok _ => rfl
  | error e =>
    rw [h] at hok
    cases hok

/-- A body needs a call of its own. -/
theorem needs_body {body : Statement} (h : ∀ calls, Needs (emit m body calls) (level + 1)
    (body.printingCalls ≤ calls ∧ P)) (rest : List Statement) (calls : Nat) :
    Needs (emitBody m 0 (body :: rest) calls) level (body.printingCalls + 1 ≤ calls ∧ P) := by
  cases calls with
  | zero =>
    rw [emitBody]
    exact needs_throw .tooDeep
  | succ calls =>
    intro lines hok
    rw [Nat.add_le_add_iff_right]
    refine h calls lines ?_
    rw [emitBody, run_bind, run_shift] at hok
    simp only at hok
    rw [run_bind] at hok
    generalize run ⟨lines, level + 1⟩ (emit m body calls) = r at hok ⊢
    obtain ⟨e | _, q⟩ := r
    · cases hok
    · rfl

theorem needs_oneBody (header closer : String) {body : Statement} (rest : List Statement)
    (hb : ∀ calls, Needs (emit m body calls) (level + 1) (body.printingCalls ≤ calls ∧ P))
    (calls : Nat) :
    Needs (line m header >>= fun _ => emitBody m 0 (body :: rest) calls >>= fun _ => line m closer)
      level ((⟨level, header⟩ : Line).IsPrintable m ∧ (body.printingCalls + 1 ≤ calls ∧ P) ∧
        (⟨level, closer⟩ : Line).IsPrintable m) :=
  (needs_line ⟨level, header⟩).bind (isBalanced_line m header) <|
    (needs_body hb rest calls).bind
      (isBalanced_emitBody (fun x _ => isBalanced_emit m x) 0 calls) (needs_line ⟨level, closer⟩)

theorem needs_emit_of_add_two {s : Statement}
    (h : ∀ calls, Needs (emit m s (calls + 2)) level (s.printingCalls ≤ calls + 2 ∧ P))
    (calls : Nat) : Needs (emit m s calls) level (s.printingCalls ≤ calls ∧ P) := by
  by_cases hc : calls < 2
  · rw [emit_of_lt hc]
    exact needs_throw .tooDeep
  · obtain ⟨calls, rfl⟩ := Nat.exists_eq_add_of_le' (Nat.le_of_not_lt hc)
    exact h calls

/-- A program is printed without error only if there is room for its calls and for all its lines. -/
theorem needs_emit {g : Parser.Goal} {p : List Token} {s : Statement} (h : Derives g p s)
    (level : Int) (calls : Nat) : Needs (emit m s calls) level
      (s.printingCalls ≤ calls ∧ ∀ l ∈ s.layout level, l.IsPrintable m) := by
  induction h generalizing level calls with
  | @call t _ =>
    refine needs_emit_of_add_two (fun calls => ?_) calls
    rw [layout_call, printingCalls_call, List.forall_mem_singleton]
    exact (needs_line ⟨level, t⟩).mono fun hl => ⟨Nat.le_add_left 2 calls, hl⟩
  | @ifThen _ c _ body _ _ ih =>
    refine needs_emit_of_add_two (fun calls => ?_) calls
    have hall := needs_oneBody s!"IF {c.token} THEN" "END IF" [] (ih (level + 1)) calls
    refine hall.mono ?_
    rintro ⟨hheader, ⟨hcalls, hbody⟩, hcloser⟩
    simpa [or_imp, forall_and, hheader, hcloser] using ⟨by omega, hbody⟩
  | @ifElse _ c _ _ thenBody elseBody _ _ _ ih ih' =>
    refine needs_emit_of_add_two (fun calls => ?_) calls
    have hthen := needs_body (ih (level + 1)) [block elseBody] calls
    have helse := needs_oneBody "ELSE" "END IF" [] (ih' (level + 1)) calls
    have hall := (needs_line ⟨level, s!"IF {c.token} THEN"⟩).bind (isBalanced_line m _)
      (hthen.bind (isBalanced_emitBody (fun x _ => isBalanced_emit m x) 0 calls) helse)
    refine hall.mono ?_
    rintro ⟨hheader, ⟨hcalls, hbody⟩, hmiddle, ⟨hcalls', hbody'⟩, hcloser⟩
    simpa [or_imp, forall_and, hheader, hmiddle, hcloser]
      using ⟨by omega, hbody, hbody'⟩
  | @whileDo _ c _ body _ _ ih =>
    refine needs_emit_of_add_two (fun calls => ?_) calls
    have hall := needs_oneBody s!"WHILE {c.token} DO" "END WHILE" [] (ih (level + 1)) calls
    refine hall.mono ?_
    rintro ⟨hheader, ⟨hcalls, hbody⟩, hcloser⟩
    simpa [or_imp, forall_and, hheader, hcloser] using ⟨by omega, hbody⟩
  | empty =>
    refine needs_emit_of_add_two (fun calls => ?_) calls
    simp [Needs]
  | @cons _ _ x xs _ _ ih ih' =>
    refine needs_emit_of_add_two (fun calls => ?_) calls
    have hrest : Needs (emitAll m xs calls) level _ := ih' level (calls + 2)
    refine ((ih level calls).bind (isBalanced_emit m x calls) hrest).mono ?_
    rintro ⟨⟨hcalls, hx⟩, hcalls', hxs⟩
    rw [layout_block_cons, List.forall_mem_append, printingCalls_block_cons]
    exact ⟨by omega, hx, hxs⟩

/-! ### Programs that are too deep -/

/-- A printing step at a level ends with an error. -/
def Stops (step : Printing Unit) (level : Int) (e : PrintError) : Prop :=
  ∀ lines : List String, (run ⟨lines, level⟩ step).1 = .error e

theorem Stops.bind {e : PrintError} (h : Stops a level e) (b : Printing Unit) :
    Stops (a >>= fun _ => b) level e := by
  intro lines
  have ha := h lines
  rw [run_bind]
  generalize run ⟨lines, level⟩ a = r at ha
  obtain ⟨e' | _, q⟩ := r <;> cases ha
  rfl

theorem Prints.bind_stops {ls : List Line} {e : PrintError} (ha : Prints a level ls)
    (hb : Stops b level e) : Stops (a >>= fun _ => b) level e := by
  intro lines
  rw [run_bind, ha lines]
  exact hb _

theorem stops_throw (e : PrintError) : Stops (throw e) level e := fun _ => rfl

theorem stops_body {body : Statement} {calls : Nat}
    (h : ∀ calls, calls < body.printingCalls → Stops (emit m body calls) (level + 1) .tooDeep)
    (hc : calls < body.printingCalls + 1) (rest : List Statement) :
    Stops (emitBody m 0 (body :: rest) calls) level .tooDeep := by
  cases calls with
  | zero =>
    rw [emitBody]
    exact stops_throw .tooDeep
  | succ calls =>
    intro lines
    have hbody := h calls (by omega) lines
    rw [emitBody, run_bind, run_shift]
    simp only
    rw [run_bind]
    generalize run ⟨lines, level + 1⟩ (emit m body calls) = r at hbody
    obtain ⟨e | _, q⟩ := r <;> cases hbody
    rfl

theorem stops_oneBody (header closer : String) {body : Statement} {calls : Nat}
    (hb : ∀ calls, calls < body.printingCalls → Stops (emit m body calls) (level + 1) .tooDeep)
    (hc : calls < body.printingCalls + 1) (hh : (⟨level, header⟩ : Line).IsPrintable m) :
    Stops (line m header >>= fun _ => emitBody m 0 [body] calls >>= fun _ => line m closer) level
      .tooDeep :=
  (prints_line hh).bind_stops ((stops_body hb hc []).bind _)

theorem stops_emit_of_add_two {s : Statement} {calls : Nat} (hc : calls < s.printingCalls)
    (h : ∀ calls, calls + 2 < s.printingCalls → Stops (emit m s (calls + 2)) level .tooDeep) :
    Stops (emit m s calls) level .tooDeep := by
  by_cases hfew : calls < 2
  · rw [emit_of_lt hfew]
    exact stops_throw .tooDeep
  · obtain ⟨calls, rfl⟩ := Nat.exists_eq_add_of_le' (Nat.le_of_not_lt hfew)
    exact h calls hc

/-- Where the spaces before all lines can be made, only a program that is too deep cannot be
printed. -/
theorem stops_emit {g : Parser.Goal} {p : List Token} {s : Statement} (h : Derives g p s)
    {level : Int} {calls : Nat} (hc : calls < s.printingCalls)
    (hl : ∀ l ∈ s.layout level, l.IsPrintable m) : Stops (emit m s calls) level .tooDeep := by
  induction h generalizing level calls with
  | call _ | empty =>
    refine stops_emit_of_add_two hc fun calls hc => ?_
    simp only [printingCalls_call, printingCalls_block_nil] at hc
    omega
  | @ifThen _ c _ body _ _ ih | @whileDo _ c _ body _ _ ih =>
    refine stops_emit_of_add_two hc fun calls hc => ?_
    simp only [layout_ifThen, layout_whileDo, List.forall_mem_append] at hl
    simp only [printingCalls_ifThen, printingCalls_whileDo] at hc
    exact stops_oneBody _ _ (fun calls hc => ih hc hl.1.2) (by omega) (hl.1.1 _ (by simp))
  | @ifElse _ c _ _ thenBody elseBody hcond hthen _ ih ih' =>
    refine stops_emit_of_add_two hc fun calls hc => ?_
    simp only [layout_ifElse, List.forall_mem_append] at hl
    rw [printingCalls_ifElse] at hc
    have hh : (⟨level, s!"IF {c.token} THEN"⟩ : Line).IsPrintable m := hl.1.1.1.1 _ (by simp)
    refine (prints_line hh).bind_stops ?_
    by_cases hfit : calls < (block thenBody).printingCalls + 1
    · exact (stops_body (fun calls hc => ih hc hl.1.1.1.2) hfit [block elseBody]).bind _
    · obtain ⟨calls, rfl⟩ := Nat.exists_eq_add_of_le' (by omega : 1 ≤ calls)
      have hprint := prints_emit hthen (level + 1) (by omega : _ ≤ calls) hl.1.1.1.2
      exact (prints_body hprint [block elseBody]).bind_stops <|
        stops_oneBody "ELSE" "END IF" (fun calls hc => ih' hc hl.1.2) (by omega) hh
  | @cons _ _ x xs hx _ ih ih' =>
    refine stops_emit_of_add_two hc fun calls hc => ?_
    rw [printingCalls_block_cons] at hc
    rw [layout_block_cons, List.forall_mem_append] at hl
    by_cases hfit : calls < x.printingCalls
    · exact (ih hfit hl.1).bind _
    · have hrest : Stops (emit m (block xs) (calls + 2)) level .tooDeep := ih' (by omega) hl.2
      exact (prints_emit hx level (Nat.le_of_not_lt hfit) hl.1).bind_stops hrest

/-! ### The layout at other levels -/

/-- As many spaces as a number says, and none if it is negative. -/
def spaces (n : Int) : String := String.ofList (List.replicate n.toNat ' ')

/-- The line with more levels before it. -/
def Line.indent (levels : Int) (l : Line) : Line := ⟨levels + l.level, l.text⟩

theorem isPrintable_iff (l : Line) : l.IsPrintable m ↔ -0x8000000000000000 ≤ l.level ∧
    4 * l.level < 0x8000000000000000 ∧ 4 * l.level ≤ m.characters := by
  rw [Line.IsPrintable, Text.requireRepeatable_eq_ok_iff, IsIndex, IsIndex]
  omega

end Printer

open Printer

namespace Statement

mutual
/-- The number of statements of a kind in a tree. -/
def count (k : Kind) : Statement → Nat
  | node kind _ _ xs => (if kind = k then 1 else 0) + countAll k xs

def countAll (k : Kind) : List Statement → Nat
  | [] => 0
  | x :: xs => count k x + countAll k xs
end

variable (k : Kind) (c : Condition)

@[simp] theorem count_call (name : String) : (call name).count k = if .call = k then 1 else 0 :=
  rfl

@[simp] theorem count_block (xs : List Statement) :
    (block xs).count k = (if .block = k then 1 else 0) + countAll k xs := rfl

@[simp] theorem count_ifThen (body : List Statement) :
    (ifThen c body).count k = (if .ifThen = k then 1 else 0) + (block body).count k := rfl

@[simp] theorem count_ifElse (thenBody elseBody : List Statement) :
    (ifElse c thenBody elseBody).count k =
      (if .ifElse = k then 1 else 0) + ((block thenBody).count k + (block elseBody).count k) := rfl

@[simp] theorem count_whileDo (body : List Statement) :
    (whileDo c body).count k = (if .whileDo = k then 1 else 0) + (block body).count k := rfl

end Statement

variable {m : Machine} {g : Parser.Goal} {p : List Token} {s : Statement} {level : Int}
  {calls : Nat}

namespace Printer

end Printer

end BlockLang
