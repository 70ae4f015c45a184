import BlockLang.Proofs.Descent.Agreement
import BlockLang.Proofs.Descent.Tidiness
import BlockLang.Proofs.Parser.Nesting

/-! Routines at what goes into a fresh node. A statement or a block is either taken from the front
of the stream as the grammar has it, and its tree sprouts; or the routine ends as the run of the
parser does, with the same error and the same stream, and only adds nodes. There is room enough if
as many statements may be open as there are tokens. -/

namespace BlockLang

open BlockLang.Parser State

namespace Parser

/-- Every token opens one compound statement at most. -/
theorem deepest_le (goal : Goal) (σ : State) (ts : List Token) :
    deepest goal σ ts ≤ σ.openCount + ts.length := by
  obtain ⟨p, τ, r, rfl, hp, hr⟩ := run_cases goal none σ ts
  generalize run goal none σ (p ++ r) = o at hr
  induction hp with
  | nil =>
    rw [List.nil_append, deepest_of_stops hr]
    exact Nat.le_add_right _ _
  | @cons σ υ τ t p hf ht _ ih =>
    have hopen : υ.openCount ≤ σ.openCount + 1 := by
      rcases ht.openCount_le_or with hle | ⟨_, -, hm, hυ⟩
      · omega
      · rw [hυ]
        simp only [openCount, hm, Nat.le_refl]
    have := ih hr
    rw [List.cons_append, deepest_of_takes hf ht, List.length_cons]
    omega

/-- As many open statements as there are tokens are never too many. -/
theorem run_eq_of_length_le {goal : Goal} {n depth : Nat} {ts : List Token}
    (h : ts.length ≤ depth) :
    run goal (some depth) (initial n) ts = run goal none (initial n) ts := by
  have hle := deepest_le goal (initial n) ts
  rw [openCount_initial, Nat.zero_add] at hle
  exact run_eq_of_deepest_le (hle.trans h)

end Parser

namespace Descent

variable {α : Type} {x : Descent α} {s s' : Site} {goal : Goal} {limit : Option Nat} {σ : State}
  {ts p r : List Token} {f g : Forest} {Q : α → Prop}
  {post : α → State → List Token → Forest → Prop} {depth n : Nat} {u : Statement}
  {xs : List Statement}

/-- A routine ends as the run does, with an error and the stream that is left then. -/
def FailsAs (o : Outcome) (f : Forest) (x : Descent α) (s : Site) : Prop :=
  ∃ e g, o.error? = some e ∧ x s = .error (.parse (.violation e)) ⟨o.stream, g⟩ ∧ f.Extends g

theorem not_failsAs_of_derives {x : Descent α} (hp : Derives goal p u) (hr : goal.MayLeave r) :
    ¬ FailsAs (run goal none (initial n) (p ++ r)) f x s := by
  rintro ⟨e, g, he, -, -⟩
  have hreturns : (run goal none (initial n) (p ++ r)).Returns goal u r :=
    returns_of_derives hp (by simp) n hr
  cases hreturns.error?_eq.symm.trans he

/-- A tidy routine that follows a run as a descent leaves the stream where the run does. -/
theorem ok_or_failsAs (hfollows : Follows goal limit x σ ts f post)
    (ht : Tidy f x Q) :
    (∃ a τ r g, x ⟨⟨ts, σ.position⟩, f⟩ = .ok a ⟨⟨r, τ.position⟩, g⟩ ∧
      run goal limit σ ts = run goal limit τ r ∧ post a τ r g) ∨
    FailsAs (run goal limit σ ts) f x ⟨⟨ts, σ.position⟩, f⟩ := by
  have htidy := ht ⟨⟨ts, σ.position⟩, f⟩ (.refl f)
  rcases hfollows with ⟨a, τ, r, g, hx, hrun, -, hpost⟩ | ⟨e, ⟨stream, g⟩, hx, he⟩
  · exact .inl ⟨a, τ, r, g, hx, hrun, hpost⟩
  · rw [hx] at htidy
    obtain ⟨hpass, hold, hleaves⟩ := htidy
    obtain ⟨hpass', hleaves'⟩ := passes_run (rfl : run goal limit σ ts = _)
    obtain rfl : stream = (run goal limit σ ts).stream :=
      TokenStream.eq_of_leavesAt hpass hpass' (hleaves e rfl) (hleaves' e he)
    exact .inr ⟨e, g, he, hx, hold⟩

/-! ### Statements -/

/-- A statement sprouts from the front of a stream, or the routine fails as the run. -/
theorem inFresh_statement_cases (hlen : ts.length ≤ depth) (n : Nat) (f : Forest) :
    (∃ p u r g, ts = p ++ r ∧ Derives .statement p u ∧
      inFresh (statement depth) ⟨⟨ts, n⟩, f⟩ = .ok f.size ⟨⟨r, n + p.length⟩, g⟩ ∧
      f.Sprouts u g) ∨
    FailsAs (run .statement none (initial n) ts) f (inFresh (statement depth)) ⟨⟨ts, n⟩, f⟩ := by
  have hparse := parsesStatements_statement .statement depth 0
  rw [Nat.zero_add] at hparse
  have hfollows := follows_inFresh
    (hparse (initial n) ts f rfl rfl rfl fun _ => ⟨rfl, rfl⟩)
  have hcases := ok_or_failsAs hfollows (tidy_inFresh_statement f depth)
  rw [run_eq_of_length_le hlen] at hcases
  refine hcases.imp_left ?_
  rintro ⟨_, _, r, g, hx, hrun, rfl, u, -, -, rfl, hg⟩
  have hreturns : (run .statement none (initial n) ts).Returns .statement u r := by
    rw [hrun, (Stops.finished rfl).run_eq]
    exact ⟨rfl, rfl⟩
  obtain ⟨p, rfl, hp, -⟩ := derives_of_returns hreturns
  obtain rfl := hp.eq_tokens
  exact ⟨_, u, r, g, rfl, hp, hx, hg⟩

/-- Tokens that derive a statement sprout it. -/
theorem inFresh_statement_of_derives (hp : Derives .statement p u)
    (hlen : (p ++ r).length ≤ depth) (n : Nat) (f : Forest) :
    ∃ g, inFresh (statement depth) ⟨⟨p ++ r, n⟩, f⟩ = .ok f.size ⟨⟨r, n + p.length⟩, g⟩ ∧
      f.Sprouts u g := by
  rcases inFresh_statement_cases hlen n f with ⟨p', u', r', g, hts, hp', hx, hg⟩ | hfails
  · obtain ⟨rfl, rfl, rfl⟩ := eq_of_derives hp trivial hp' trivial hts
    exact ⟨g, hx, hg⟩
  · exact absurd hfails (not_failsAs_of_derives hp trivial)

/-! ### Blocks -/

/-- A block sprouts from the front of a stream, or the routine fails as the run. -/
theorem inFresh_block_cases (hlen : ts.length ≤ depth) (n : Nat) (f : Forest) :
    (∃ p xs r g, ts = p ++ r ∧ Derives .block p (.block xs) ∧ (Parser.front r).endsBlock ∧
      inFresh (block (statement depth)) ⟨⟨ts, n⟩, f⟩ = .ok f.size ⟨⟨r, n + p.length⟩, g⟩ ∧
      f.Sprouts (.block xs) g) ∨
    FailsAs (run .block none (initial n) ts) f (inFresh (block (statement depth)))
      ⟨⟨ts, n⟩, f⟩ := by
  have hparse := parsesStatements_statement .block depth 0
  rw [Nat.zero_add] at hparse
  have hfollows : Follows .block (some depth)
      (inFresh (block (statement depth))) (initial n) ts f _ :=
    follows_block hparse rfl rfl rfl (.inl rfl)
  have hcases := ok_or_failsAs hfollows (tidy_inFresh_block f depth)
  rw [run_eq_of_length_le hlen] at hcases
  refine hcases.imp_left ?_
  rintro ⟨_, _, r, g, hx, hrun, rfl, xs, rfl, he, hg⟩
  have hreturns : (run .block none (initial n) ts).Returns .block (.block xs) r := by
    rw [hrun, (Stops.halt rfl (step_halt rfl rfl he)).run_eq]
    exact ⟨rfl, rfl⟩
  obtain ⟨p, rfl, hp, -⟩ := derives_of_returns hreturns
  obtain rfl := hp.eq_tokens
  exact ⟨_, xs, r, g, rfl, hp, he, hx, hg⟩

/-- Tokens that derive a block sprout it, before a token that ends blocks. -/
theorem inFresh_block_of_derives (hp : Derives .block p (.block xs))
    (he : (Parser.front r).endsBlock) (hlen : (p ++ r).length ≤ depth) (n : Nat) (f : Forest) :
    ∃ g, inFresh (block (statement depth)) ⟨⟨p ++ r, n⟩, f⟩ =
      .ok f.size ⟨⟨r, n + p.length⟩, g⟩ ∧ f.Sprouts (.block xs) g := by
  have hr := (Goal.mayLeave_block_iff r).2 he
  rcases inFresh_block_cases hlen n f with ⟨p', xs', r', g, hts, hp', he', hx, hg⟩ | hfails
  · obtain ⟨rfl, rfl, ⟨⟩⟩ := eq_of_derives hp hr hp' ((Goal.mayLeave_block_iff r').2 he') hts
    exact ⟨g, hx, hg⟩
  · exact absurd hfails (not_failsAs_of_derives hp hr)

end Descent

end BlockLang
