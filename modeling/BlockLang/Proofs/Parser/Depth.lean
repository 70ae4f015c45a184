import BlockLang.Proofs.Parser.Acceptance
import BlockLang.Proofs.Parser.Nesting

/-! The depth of what is parsed. The statements that a state holds are no deeper, counted from the
outermost one, than statements have been open at once, so a parse under a limit gives a tree within
that limit. -/

namespace BlockLang

open Statement

namespace Statement

@[simp] theorem depthAll_append (xs ys : List Statement) :
    depthAll (xs ++ ys) = max (depthAll xs) (depthAll ys) := by
  induction xs with
  | nil => simp
  | cons x xs ih => simp [ih, Nat.max_assoc]

theorem depth_headD_le (xs : List Statement) : (xs.headD default).depth ≤ depthAll xs := by
  cases xs with
  | nil => exact Nat.le_refl _
  | cons x xs => exact Nat.le_max_left _ _

end Statement

namespace Parser

@[simp] theorem Branch.depth_close_append (b : Branch) (done : List Statement) (s : Statement) :
    (b.close (done ++ [s])).depth = max (b.close done).depth (s.depth + 1) := by
  cases b <;> simp [close]

@[simp] theorem Header.depth_close_branch (h : Header) (c : Condition) :
    ((h.branch c).close []).depth = 1 := by
  cases h <;> simp [branch, Branch.close]

namespace State

/-- The depth that open compound statements would have if they ended here. -/
def framesDepth : List Frame → Nat
  | [] => 0
  | f :: frames => max (framesDepth frames) (frames.length + (f.branch.close f.done).depth)

/-- The depth of a statement that is about to be closed inside `k` open ones. -/
def modeDepth (k : Nat) : Mode → Nat
  | .closer _ s _ => k + s.depth
  | _ => 0

/-- The depth of all that a state holds. -/
def depth (σ : State) : Nat :=
  max (depthAll σ.outer) (max (framesDepth σ.frames) (modeDepth σ.frames.length σ.mode))

variable {goal : Goal} {σ τ : State} {t : Token} {p : List Token} {n : Nat}

theorem depth_add (σ : State) (s : Statement) :
    max (depthAll (σ.add s).outer) (framesDepth (σ.add s).frames) =
      max (max (depthAll σ.outer) (framesDepth σ.frames)) (σ.frames.length + s.depth) := by
  unfold add
  split
  · next hf => simp [hf, framesDepth]
  · next hf =>
    simp only [hf, framesDepth, Branch.depth_close_append, List.length_cons]
    omega

/-- Taking a token adds no depth beyond the number of statements that are open then. -/
theorem Takes.depth_le {limit : Option Nat} (h : σ.Takes limit t τ) :
    τ.depth ≤ max σ.depth τ.openCount := by
  cases h with
  | header hm _ =>
    simp only [depth, shift, modeDepth]
    omega
  | @call t hm _ =>
    have hadd := depth_add σ (.call t)
    rw [depth_call] at hadd
    simp only [depth, openCount, shift, modeDepth, length_frames_add]
    omega
  | elseBody hm hf =>
    simp only [depth, hf, shift, record, modeDepth, framesDepth, Branch.close, depth_ifThen,
      depth_ifElse, depthAll_nil]
    omega
  | endBlock hm hf =>
    simp only [depth, hf, shift, record, modeDepth, framesDepth]
    omega
  | condition hm _ =>
    simp only [depth, shift, modeDepth]
    omega
  | opener hm =>
    simp only [depth, openCount, shift, modeDepth, framesDepth, Header.depth_close_branch,
      List.length_cons]
    omega
  | @closer _ s _ hm =>
    have hadd := depth_add σ s
    simp only [depth, hm, openCount, shift, record, modeDepth, length_frames_add]
    omega

/-- No more statements than allowed come to be open. -/
theorem Takes.openCount_le (h : σ.Takes (some n) t τ) (hσ : σ.openCount ≤ n) :
    τ.openCount ≤ n := by
  rcases h.openCount_le_or with hle | ⟨k, rfl, hm, hτ⟩
  · omega
  · by_contra hn
    have hlen : n ≤ σ.frames.length := by omega
    have hstep : σ.step .block (some n) k.keyword = .shift τ := h.step
    simp [State.step, hm, beginStatement, hlen] at hstep

theorem Shifts.depth_le (h : Shifts goal (some n) σ p τ) (ho : σ.openCount ≤ n)
    (hd : σ.depth ≤ n) : τ.depth ≤ n := by
  induction h with
  | nil => exact hd
  | cons _ ht _ ih =>
    have ho' := ht.openCount_le ho
    have hd' := ht.depth_le
    exact ih ho' (by omega)

end State

open State

variable {goal : Goal} {ts r : List Token} {s : Statement} {n k : Nat}

/-- A parse under a limit gives a tree within the limit. -/
theorem depth_le_of_returns (h : (run goal (some n) (initial k) ts).Returns goal s r) :
    s.depth ≤ n := by
  obtain ⟨p, τ, r', rfl, hp, hr⟩ := run_cases goal (some n) (initial k) ts
  have hτ : τ.depth ≤ n := hp.depth_le (Nat.zero_le n) (Nat.zero_le n)
  have houter : depthAll τ.outer ≤ n := Nat.le_trans (Nat.le_max_left _ _) hτ
  obtain ⟨hok, -⟩ := h
  generalize run goal (some n) (initial k) (p ++ r') = o at hok hr
  cases hr with
  | finished hf =>
    obtain rfl : τ.result goal = s := Except.ok.inj hok
    cases goal with
    | statement => exact Nat.le_trans (depth_headD_le _) houter
    | block => exact houter
  | halt hf hs =>
    obtain ⟨rfl, -, -, -, rfl⟩ := halt_of_step hs
    obtain rfl : block τ.outer = s := Except.ok.inj hok
    exact houter
  | fail _ _ => cases hok
  | reject _ _ => cases hok
  | exhausted _ _ _ => cases hok

end Parser

end BlockLang
