import BlockLang.Proofs.Parser.Acceptance

/-! Errors stand at the first token that no program could have there. Whatever was taken before the
error can be completed, since every open statement can be closed from every state; and the error is
decided by the state and the one token before it, so no other continuation avoids it. -/

namespace BlockLang.Parser

open State

/-! ### Completions -/

/-- The compound statements that are open, from the innermost outwards. -/
def State.headers (σ : State) : List Header := σ.frames.map fun f => f.branch.header

/-- The tokens that close open compound statements. -/
def closers (hs : List Header) : List Token := hs.flatMap fun h => ["END", h.keyword]

/-- Tokens that complete what a state has read a part of. -/
def State.completion (goal : Goal) (σ : State) : List Token :=
  match σ.mode with
  | .statement => if goal = .statement ∧ σ.frames = [] then ["move"] else closers σ.headers
  | .condition h _ => [Condition.always.token, h.opener] ++ closers (h :: σ.headers)
  | .opener h _ _ => [h.opener] ++ closers (h :: σ.headers)
  | .closer h _ _ => [h.keyword] ++ closers σ.headers

/-- A state where nothing but closing keywords is missing. -/
structure State.CanClose (goal : Goal) (σ : State) : Prop where
  mode : σ.mode = .statement
  complete : σ.frames = [] → goal = .statement → σ.outer ≠ []
  live : σ.frames ≠ [] → σ.finished goal = false

variable {goal : Goal} {limit : Option Nat} {σ τ : State} {p : List Token} {o : Outcome}

@[simp] theorem State.headers_add (σ : State) (s : Statement) : (σ.add s).headers = σ.headers := by
  unfold add headers
  split
  · rfl
  · next hf => simp [hf]

/-- A state can be closed once a statement has been added to it. -/
theorem canClose_add {s : Statement} (hf : σ.finished goal = false) (ho : τ.outer = (σ.add s).outer)
    (hfr : τ.frames = (σ.add s).frames) (hm : τ.mode = .statement) : τ.CanClose goal := by
  unfold add at ho hfr
  refine ⟨hm, fun h _ => ?_, fun h => ?_⟩
  · split at ho <;> simp_all
  · split at ho <;> simp_all [finished]

theorem shifts_closers (hs : List Header) (h : σ.CanClose goal) (hh : σ.headers = hs) :
    ∃ τ, Shifts goal none σ (closers hs) τ ∧ τ.CanClose goal ∧ τ.frames = [] := by
  induction hs generalizing σ with
  | nil => exact ⟨σ, .nil, h, List.map_eq_nil_iff.1 hh⟩
  | cons k hs ih =>
    obtain ⟨f, frames, hfr, rfl, rfl⟩ := List.map_eq_cons_iff.1 hh
    have hf := h.live (by simp [hfr])
    have hout : Shifts goal none _ _ _ := shifts_leave hf h.mode hfr
    have hc : (σ.leave f frames).CanClose goal :=
      canClose_add (σ := { σ with frames := frames }) hf rfl rfl rfl
    obtain ⟨τ, hτ, hc', hfr'⟩ := ih hc (State.headers_add { σ with frames := frames } _)
    exact ⟨τ, hout.append hτ, hc', hfr'⟩

theorem run_nil_of_canClose (h : σ.CanClose goal) (hfr : σ.frames = []) :
    ∃ last, run goal none σ [] = ⟨none, last, []⟩ := by
  cases goal with
  | statement =>
    have hf : σ.finished .statement = true := by simpa [finished] using h.complete hfr rfl
    exact ⟨_, (Stops.finished hf).run_eq⟩
  | block => exact ⟨_, (Stops.halt rfl (step_halt h.mode hfr (by decide))).run_eq⟩

theorem shifts_completion_opener {h : Header} {c : Condition} {start : Nat}
    (hm : σ.mode = .opener h c start) (hf : σ.finished goal = false) :
    ∃ τ, Shifts goal none σ ([h.opener] ++ closers (h :: σ.headers)) τ ∧ τ.CanClose goal ∧
      τ.frames = [] := by
  have ht : Shifts goal none σ [h.opener]
      ({ σ with frames := ⟨h.branch c, start, []⟩ :: σ.frames }.shift .statement) :=
    .cons hf (.opener hm) .nil
  obtain ⟨τ, hτ, hc⟩ := shifts_closers (h :: σ.headers)
    (σ := { σ with frames := ⟨h.branch c, start, []⟩ :: σ.frames }.shift .statement)
    ⟨rfl, by simp [shift], fun _ => hf⟩ (by simp [headers, shift])
  exact ⟨τ, ht.append hτ, hc⟩

/-- Every state that has not reached its goal leads to it by its completion. -/
theorem shifts_completion (hf : σ.finished goal = false) :
    ∃ τ, Shifts goal none σ (σ.completion goal) τ ∧ τ.CanClose goal ∧ τ.frames = [] := by
  cases hm : σ.mode with
  | statement =>
    simp only [completion, hm]
    split
    · next h =>
      obtain ⟨rfl, hfr⟩ := h
      have ht : Shifts .statement none σ ["move"] _ := .cons hf (.call hm (by decide)) .nil
      exact ⟨_, ht, canClose_add hf rfl rfl rfl, by simp [shift, add, hfr]⟩
    · next h =>
      exact shifts_closers σ.headers ⟨hm, fun hfr hg => absurd ⟨hg, hfr⟩ h, fun _ => hf⟩ rfl
  | condition h start =>
    have ht : Shifts goal none σ [Condition.always.token] _ :=
      .cons hf (.condition hm (Condition.ofToken?_token _)) .nil
    obtain ⟨τ, hτ, hc⟩ := shifts_completion_opener
      (σ := σ.shift (.opener h .always start)) rfl hf
    simp only [completion, hm]
    exact ⟨τ, ht.append hτ, hc⟩
  | opener h c start =>
    simp only [completion, hm]
    exact shifts_completion_opener hm hf
  | closer h s start =>
    have ht : Shifts goal none σ [h.keyword]
        (((σ.add s).record (.statement s.kind start σ.position)).shift .statement) :=
      .cons hf (.closer hm) .nil
    have hadd : CanClose goal
        (((σ.add s).record (.statement s.kind start σ.position)).shift .statement) :=
      canClose_add hf rfl rfl rfl
    obtain ⟨τ, hτ, hc⟩ := shifts_closers σ.headers hadd (State.headers_add σ s)
    simp only [completion, hm]
    exact ⟨τ, ht.append hτ, hc⟩

/-- Whatever has been taken before the goal is reached can be completed. -/
theorem run_completion (h : Shifts goal none σ p τ) (hf : τ.finished goal = false) :
    ∃ last, run goal none σ (p ++ τ.completion goal) = ⟨none, last, []⟩ := by
  obtain ⟨υ, hυ, hc, hfr⟩ := shifts_completion hf
  obtain ⟨last, hl⟩ := run_nil_of_canClose hc hfr
  have hu := run_of_shifts (h.append hυ) []
  rw [List.append_nil] at hu
  exact ⟨last, hu.trans hl⟩

/-! ### Errors -/

/-- An error is seen in a state that has not reached its goal, and at the token before it if there
is one. -/
theorem Stops.error {r : List Token} {e : SyntaxError} (h : Stops goal limit τ r o)
    (he : o.error? = some e) :
    τ.finished goal = false ∧ e.position = some (τ.position : Int) ∧
      ∀ t rest, r = t :: rest → ∀ u, (run goal limit τ (t :: u)).error? = some e := by
  cases h with
  | finished _ => cases he
  | halt _ _ => cases he
  | fail hf hs =>
    cases he
    refine ⟨hf, rfl, ?_⟩
    rintro t rest rfl u
    rw [(Stops.fail (r := t :: u) hf hs).run_eq]
    rfl
  | reject hf hs =>
    cases he
    refine ⟨hf, rfl, ?_⟩
    rintro t rest ⟨rfl, rfl⟩ u
    rw [(Stops.reject (r := u) hf hs).run_eq]
  | exhausted hf _ _ =>
    cases he
    exact ⟨hf, rfl, by simp⟩

theorem Outcome.result_eq_error_iff {e : SyntaxError} :
    o.result goal = .error e ↔ o.error? = some e := by
  unfold result
  split <;> simp_all

theorem Outcome.result_eq_ok {last : State} {r : List Token} :
    (Outcome.mk none last r).Returns goal (last.result goal) r := ⟨rfl, rfl⟩

/-- An error with position `p` comes at the first possible point: the first `p` tokens can be
completed so that all is read, and if there is a token at `p`, whatever follows it leads to the
same error. -/
theorem error_at_first_violation (goal : Goal) (ts : List Token) (e : SyntaxError)
    (he : (run goal none (initial 0) ts).result goal = .error e) :
    ∃ p : Nat, e.position = some (p : Int) ∧ p ≤ ts.length ∧
      (∃ u s, (run goal none (initial 0) (ts.take p ++ u)).Returns goal s []) ∧
      (p < ts.length → ∀ u,
        (run goal none (initial 0) (ts.take (p + 1) ++ u)).result goal = .error e) := by
  rw [Outcome.result_eq_error_iff] at he
  obtain ⟨p, τ, r, rfl, hp, hr⟩ := run_cases goal none (initial 0) ts
  obtain ⟨hf, hpos, hlocal⟩ := hr.error he
  obtain ⟨last, hlast⟩ := run_completion hp hf
  have hlen : τ.position = p.length := by simpa [initial] using hp.position
  refine ⟨p.length, by rw [hpos, hlen], by simp, ⟨τ.completion goal, last.result goal, ?_⟩, ?_⟩
  · rw [List.take_left, hlast]
    exact Outcome.result_eq_ok
  · intro hlt u
    cases r with
    | nil => simp at hlt
    | cons t rest =>
      have htake : (p ++ t :: rest).take (p.length + 1) = p ++ [t] := by
        rw [List.take_length_add_append]
        rfl
      rw [Outcome.result_eq_error_iff, htake, List.append_assoc, List.singleton_append,
        run_of_shifts hp]
      exact hlocal t rest rfl u

theorem error_at_first_violation_wrong_closer :
    let ts : List Token := ["IF", "true", "THEN", "move", "END", "WHILE", "move"]
    let e : SyntaxError := ⟨.unexpectedToken, "Expected IF", some 5, some "WHILE"⟩
    (run .block none (initial 0) ts).result .block = .error e ∧
    ∃ p : Nat, e.position = some (p : Int) ∧ p ≤ ts.length ∧
      (∃ u s, (run .block none (initial 0) (ts.take p ++ u)).Returns .block s []) ∧
      (p < ts.length → ∀ u,
        (run .block none (initial 0) (ts.take (p + 1) ++ u)).result .block = .error e) := by
  intro ts e
  have he : (run .block none (initial 0) ts).result .block = .error e := by rfl
  exact ⟨he, error_at_first_violation .block ts e he⟩

end BlockLang.Parser
