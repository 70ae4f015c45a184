import BlockLang.Proofs.Parser.Derivation

/-! The parser accepts exactly its grammar: it returns a tree and leaves some tokens if and only if
the tokens before them derive the tree, and it has no choice in this. -/

namespace BlockLang

open Statement

namespace Parser

open State

/-- Before which tokens a parse can end: a block ends before a token that ends blocks or at the end
of the stream, a statement wherever it is complete. -/
def Goal.MayLeave (r : List Token) : Goal → Prop
  | statement => True
  | block => r = [] ∨ ∃ t rest, r = t :: rest ∧ (t = "END" ∨ t = "ELSE" ∨ t = Token.endOfInput)

/-- A parse ends without error, with a tree as its result and with some tokens left. -/
def Outcome.Returns (o : Outcome) (goal : Goal) (s : Statement) (r : List Token) : Prop :=
  o.result goal = .ok s ∧ o.rest = r

theorem Goal.mayLeave_block_iff (r : List Token) :
    Goal.block.MayLeave r ↔ (front r).endsBlock := by
  cases r with
  | nil =>
    have he : (front []).endsBlock = true := by decide
    simp [MayLeave, he]
  | cons t r =>
    simp only [MayLeave, front, List.headD_cons, Token.endsBlock, Token.blockEnds,
      List.contains_eq_mem, List.mem_cons, List.not_mem_nil, or_false, decide_eq_true_eq,
      reduceCtorEq, List.cons.injEq, false_or]
    constructor
    · rintro ⟨_, _, ⟨rfl, rfl⟩, rfl | rfl | rfl⟩ <;> simp
    · rintro (rfl | rfl | rfl) <;> exact ⟨_, _, ⟨rfl, rfl⟩, by simp⟩

variable {goal : Goal} {limit : Option Nat} {p r ts : List Token} {s : Statement} {n : Nat}

theorem run_statement (h : Derives .statement p s) (hl : ∀ n ∈ limit, s.depth ≤ n) (n : Nat)
    (r : List Token) :
    run .statement limit (initial n) (p ++ r) = ⟨none, (initial n).after .statement s, r⟩ := by
  have hs : Shifts .statement limit _ _ _ :=
    h.shifts (initial n) rfl rfl (by simpa [initial] using hl) (by simp)
  rw [run_of_shifts hs]
  exact (Stops.finished rfl).run_eq

theorem run_block (h : Derives .block p s) (hl : ∀ n ∈ limit, s.depth ≤ n) (n : Nat)
    (hr : Goal.block.MayLeave r) :
    run .block limit (initial n) (p ++ r) =
      ⟨none, ((initial n).after .block s).record (.block s.children.length (front r)), r⟩ := by
  have hs : Shifts .block limit _ _ _ :=
    h.shifts (initial n) rfl rfl (by simpa [initial] using hl) (by simp)
  rw [run_of_shifts hs]
  exact (Stops.halt rfl (step_halt rfl rfl ((Goal.mayLeave_block_iff r).1 hr))).run_eq

/-- What the grammar derives, the parser reads. -/
theorem returns_of_derives (h : Derives goal p s) (hl : ∀ n ∈ limit, s.depth ≤ n) (n : Nat)
    (hr : goal.MayLeave r) : (run goal limit (initial n) (p ++ r)).Returns goal s r := by
  cases goal with
  | statement =>
    rw [run_statement h hl n r]
    exact ⟨rfl, rfl⟩
  | block =>
    rw [run_block h hl n hr]
    have hw := h.wellFormed
    have hb := WellFormed.eq_block hw.1 ((goal_eq_block_iff s).1 hw.2)
    exact ⟨congrArg Except.ok hb.symm, rfl⟩

/-- What the parser reads, the grammar derives. -/
theorem derives_of_returns (h : (run goal limit (initial n) ts).Returns goal s r) :
    ∃ p, ts = p ++ r ∧ Derives goal p s ∧ goal.MayLeave r := by
  obtain ⟨p, τ, r', rfl, hp, hr⟩ := run_cases goal limit (initial n) ts
  obtain ⟨hok, rfl⟩ := h
  have hτ := hp.isProper (isProper_initial n)
  have htok : τ.tokens = p := by simpa using hp.tokens (isProper_initial n)
  generalize run goal limit (initial n) (p ++ r') = o at hok hr
  cases hr with
  | finished hf =>
    cases goal with
    | statement =>
      rcases hp.isSingle (.inl rfl) with ho | ⟨s', ho, hfr, hm⟩
      · simp [finished, ho] at hf
      · obtain rfl : s' = s := by simpa [Outcome.result, State.result, ho] using hok
        have hs : s'.IsProgram := hτ.outer s' (by simp [ho])
        refine ⟨p, rfl, derives_iff.2 ⟨hs.1, hs.parses.2, ?_⟩, trivial⟩
        simpa [State.tokens, ho, hfr, hm, frameTokens, Mode.tokens] using htok.symm
    | block => cases hf
  | halt hf hh =>
    obtain ⟨rfl, hm, hfr, he, rfl⟩ := halt_of_step hh
    obtain rfl : block τ.outer = s := by simpa [Outcome.result, State.result, record] using hok
    refine ⟨p, rfl, derives_iff.2 ⟨(wellFormed_block _).2 hτ.outer, rfl, ?_⟩,
      (Goal.mayLeave_block_iff _).2 he⟩
    simpa [State.tokens, hfr, hm, frameTokens, Mode.tokens] using htok.symm
  | fail _ _ => cases hok
  | reject _ _ => cases hok
  | exhausted _ _ _ => cases hok

/-- What a run reads is a function of the stream. -/
theorem Outcome.Returns.unique {o : Outcome} {x y : Statement} {r r' : List Token}
    (h : o.Returns goal x r) (h' : o.Returns goal y r') : x = y ∧ r = r' :=
  ⟨Except.ok.inj (h.1.symm.trans h'.1), h.2.symm.trans h'.2⟩

theorem Outcome.Returns.error?_eq {o : Outcome} (h : o.Returns goal s r) : o.error? = none := by
  cases he : o.error? with
  | none => rfl
  | some e =>
    have hok := h.1
    rw [Outcome.result, he] at hok
    cases hok

/-- A stream begins with one derivation only. -/
theorem eq_of_derives {p' r' : List Token} {s' : Statement} (hp : Derives goal p s)
    (hr : goal.MayLeave r) (hp' : Derives goal p' s') (hr' : goal.MayLeave r')
    (h : p ++ r = p' ++ r') : p = p' ∧ r = r' ∧ s = s' := by
  have hreturns : (run goal none (initial 0) (p ++ r)).Returns goal s r :=
    returns_of_derives hp (by simp) 0 hr
  have hreturns' : (run goal none (initial 0) (p ++ r)).Returns goal s' r' :=
    h ▸ returns_of_derives hp' (by simp) 0 hr'
  obtain ⟨hs, rfl⟩ := hreturns.unique hreturns'
  exact ⟨List.append_cancel_right h, rfl, hs⟩

/-- The parser returns a tree and leaves the tokens after it if and only if the grammar says so,
and no token list can be parsed in two ways. -/
theorem returns_iff_derives (goal : Goal) (ts : List Token) :
    (∀ s r, (run goal none (initial 0) ts).Returns goal s r ↔
      ∃ p, ts = p ++ r ∧ Derives goal p s ∧ goal.MayLeave r) ∧
    ∀ p r s p' r' s', ts = p ++ r → Derives goal p s → goal.MayLeave r →
      ts = p' ++ r' → Derives goal p' s' → goal.MayLeave r' → p = p' ∧ r = r' ∧ s = s' := by
  have complete : ∀ p r s, ts = p ++ r → Derives goal p s → goal.MayLeave r →
      (run goal none (initial 0) ts).Returns goal s r := by
    rintro p r s rfl hp hr
    exact returns_of_derives hp (by simp) 0 hr
  refine ⟨fun s r => ⟨derives_of_returns, fun ⟨p, ht, hp, hr⟩ => complete p r s ht hp hr⟩, ?_⟩
  intro p r s p' r' s' ht hp hr ht' hp' hr'
  obtain ⟨hs, rfl⟩ := complete p r s ht hp hr
  obtain ⟨hs', rfl⟩ := complete p' r' s' ht' hp' hr'
  refine ⟨List.append_cancel_right (ht.symm.trans ht'), rfl, ?_⟩
  simpa [hs] using hs'

end Parser

end BlockLang
