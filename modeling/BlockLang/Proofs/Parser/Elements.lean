import BlockLang.Proofs.Parser.Concatenation

/-! What a stream yields to a block. Statements come one after the other, and then a token that ends
blocks or a statement that fails; the run for a block keeps the statements that are complete, and
fails as the run for the one statement does. -/

namespace BlockLang

@[simp] theorem SyntaxError.later_zero (e : SyntaxError) : e.later 0 = e := by
  obtain ⟨kind, text, position, token⟩ := e
  cases position <;> simp [later]

namespace Parser

open State Statement

/-- A stream yields some statements, up to a token that ends blocks, or up to a statement that
cannot be read; and this much of the stream is left then. -/
inductive Yields : TokenStream → List Statement → Option SyntaxError → TokenStream → Prop where
  | whole {p r : List Token} {xs : List Statement} {n : Nat} : Derives .block p (.block xs) →
      (front r).endsBlock → Yields ⟨p ++ r, n⟩ xs none ⟨r, n + p.length⟩
  | broken {p r : List Token} {xs : List Statement} {n : Nat} {e : SyntaxError} :
      Derives .block p (.block xs) → ¬ (front r).endsBlock →
      (run .statement none (initial (n + p.length)) r).error? = some e →
      Yields ⟨p ++ r, n⟩ xs (some e) (run .statement none (initial (n + p.length)) r).stream

variable {σ τ : State} {s s' : TokenStream} {p ts : List Token} {t : Token} {x : Statement}
  {xs : List Statement} {e : SyntaxError} {e? : Option SyntaxError} {limit : Option Nat}
  {goal : Goal} {n : Nat}

/-! ### Every stream yields something -/

theorem Yields.cons {r : List Token} (hp : Derives .statement p x)
    (h : Yields ⟨r, n + p.length⟩ xs e? s') : Yields ⟨p ++ r, n⟩ (x :: xs) e? s' := by
  generalize hs : (⟨r, n + p.length⟩ : TokenStream) = s at h
  cases h with
  | @whole q r' _ m hq he =>
    cases hs
    have hlen : n + p.length + q.length = n + (p ++ q).length := by simp [Nat.add_assoc]
    rw [← List.append_assoc, hlen]
    exact .whole (.cons hp hq) he
  | @broken q r' _ m e hq he hfail =>
    cases hs
    have hlen : n + p.length + q.length = n + (p ++ q).length := by simp [Nat.add_assoc]
    rw [hlen] at hfail ⊢
    rw [← List.append_assoc]
    exact .broken (.cons hp hq) he hfail

theorem length_pos_of_derives (h : Derives .statement p x) : 0 < p.length := by
  cases h <;> simp

theorem returns_or_fails (n : Nat) (ts : List Token) :
    (∃ p x r, ts = p ++ r ∧ Derives .statement p x) ∨
      ∃ e, (run .statement none (initial n) ts).error? = some e := by
  cases he : (run .statement none (initial n) ts).error? with
  | some e => exact .inr ⟨e, rfl⟩
  | none =>
    have hreturns : (run .statement none (initial n) ts).Returns .statement
        ((run .statement none (initial n) ts).last.result .statement)
        (run .statement none (initial n) ts).rest := ⟨by rw [Outcome.result, he], rfl⟩
    obtain ⟨p, hts, hp, -⟩ := derives_of_returns hreturns
    exact .inl ⟨p, _, _, hts, hp⟩

theorem exists_yields (s : TokenStream) : ∃ xs e? s', Yields s xs e? s' := by
  obtain ⟨ts, n⟩ := s
  induction h : ts.length using Nat.strong_induction_on generalizing ts n with
  | _ k ih =>
    by_cases he : (front ts).endsBlock
    · exact ⟨[], none, _, .whole (p := []) .empty he⟩
    · rcases returns_or_fails n ts with ⟨p, x, r, rfl, hp⟩ | ⟨e, hfail⟩
      · have hpos := length_pos_of_derives hp
        have hlt : r.length < k := by
          rw [← h, List.length_append]
          omega
        obtain ⟨xs, e?, s', hs⟩ := ih r.length hlt r (n + p.length) rfl
        exact ⟨x :: xs, e?, s', .cons hp hs⟩
      · exact ⟨[], some e, _, .broken (p := []) .empty he hfail⟩

/-! ### The run for a block -/

theorem State.Shifts.to_block (h : Shifts .statement limit σ p τ) : Shifts .block limit σ p τ := by
  induction h with
  | nil => exact .nil
  | cons _ ht _ ih => exact .cons rfl ht ih

/-- What is to be parsed makes a difference only where a block may end outside every statement. -/
theorem State.step_block (h : σ.mode = .statement → σ.frames = [] → ¬ t.endsBlock) :
    σ.step .block limit t = σ.step .statement limit t := by
  unfold State.step
  cases hm : σ.mode with
  | statement =>
    cases he : t.endsBlock with
    | false => rfl
    | true =>
      cases hfr : σ.frames with
      | nil => exact absurd he (h hm hfr)
      | cons f frames => simp only [endBlock, hfr]
  | condition header start => rfl
  | opener header c start => rfl
  | closer header s start => rfl

/-- A failure of the first statement is the failure of the block. -/
theorem run_block_of_error (he : ¬ (front ts).endsBlock)
    (h : (run .statement none (initial n) ts).error? = some e) :
    run .block none (initial n) ts = run .statement none (initial n) ts ∧
      (run .statement none (initial n) ts).last.outer = [] := by
  obtain ⟨p, τ, r, rfl, hp, hstop⟩ := run_cases .statement none (initial n) ts
  generalize run .statement none (initial n) (p ++ r) = o at h hstop
  rw [run_of_shifts hp.to_block]
  have htokens : τ.tokens = p := by simpa using hp.tokens (isProper_initial n)
  have hstep : τ.outer = [] → τ.step .block none (front r) = τ.step .statement none (front r) := by
    refine fun ho => step_block fun hm hfr hend => he ?_
    -- Outside every statement nothing has been taken yet.
    obtain rfl : p = [] := by simpa [State.tokens, ho, hfr, hm, frameTokens, Mode.tokens] using
      htokens.symm
    exact hend
  cases hstop with
  | finished _ => cases h
  | halt _ _ => cases h
  | fail hf hs =>
    have ho := (finished_statement τ).1 hf
    obtain ⟨⟨log, hlast⟩, -, -⟩ := fail_of_step hs
    exact ⟨(Stops.fail rfl ((hstep ho).trans hs)).run_eq, by rw [hlast]; exact ho⟩
  | reject hf hs =>
    have ho := (finished_statement τ).1 hf
    obtain ⟨hlast, -⟩ := reject_of_step hs
    exact ⟨(Stops.reject rfl ((hstep ho).trans hs)).run_eq, by rw [hlast]; exact ho⟩
  | exhausted hf hh hv =>
    have ho := (finished_statement τ).1 hf
    have hs := hstep ho
    exact ⟨(Stops.exhausted rfl (hs ▸ hh) (hs ▸ hv)).run_eq, ho⟩

/-- A block is as if it began after the statements that it has. -/
theorem after_block_eq_later (hp : Derives .block p (.block xs)) (n : Nat) :
    ∃ log, (initial n).after .block (.block xs) = (initial (n + p.length)).later xs 0 log := by
  obtain rfl := hp.eq_tokens
  exact ⟨eventsAll n xs, by
    simp [State.after, State.addAll, State.initial, State.later, Mode.later, Goal.parts]⟩

/-- The run for a block ends as the stream does, and has the statements that the stream yields. -/
theorem run_block_of_yields (h : Yields s xs e? s') :
    (run .block none (initial s.position) s.rest).error? = e? ∧
      (run .block none (initial s.position) s.rest).stream = s' ∧
      (run .block none (initial s.position) s.rest).last.outer = xs := by
  cases h with
  | @whole p r _ n hp he =>
    obtain rfl := hp.eq_tokens
    rw [run_block hp (by simp) n ((Goal.mayLeave_block_iff r).2 he)]
    exact ⟨rfl, rfl, rfl⟩
  | @broken p r _ n e hp he hfail =>
    have hs : Shifts .block none _ _ _ := hp.shifts (initial n) rfl rfl (by simp) (by simp)
    obtain ⟨log, hlater⟩ := after_block_eq_later hp n
    obtain ⟨log', hrun⟩ := run_later xs 0 log (initial (n + p.length)) none r
    obtain ⟨hblock, ho⟩ := run_block_of_error he hfail
    have hall : run .block none (initial n) (p ++ r) =
        (run .statement none (initial (n + p.length)) r).later xs 0 log' := by
      rw [run_of_shifts hs, hlater, hrun, hblock]
    simp [hall, Outcome.later, Outcome.stream, State.later, hfail, ho]

end Parser

end BlockLang
