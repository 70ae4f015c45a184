import BlockLang.Proofs.Parser.Run

/-! Nesting. A run that may have only so many compound statements open at once is the unlimited run,
unless that one opens more of them; then it ends where the first of these begins, with an error of
its own, whatever the unlimited run comes to later. -/

namespace BlockLang.Parser

namespace State

/-- The number of compound statements that have begun and not ended. -/
def openCount (σ : State) : Nat :=
  match σ.mode with
  | .statement => σ.frames.length
  | _ => σ.frames.length + 1

variable {goal : Goal} {limit : Option Nat} {σ τ : State} {t : Token} {n : Nat}

@[simp] theorem openCount_initial (n : Nat) : (initial n).openCount = 0 := rfl

@[simp] theorem length_frames_add (σ : State) (s : Statement) :
    (σ.add s).frames.length = σ.frames.length := by
  unfold add
  split
  · rfl
  · next hf => simp [hf]

/-- Only the first keyword of a compound statement opens one more. -/
theorem Takes.openCount_le_or (h : σ.Takes limit t τ) :
    τ.openCount ≤ σ.openCount ∨
      ∃ k : Header, t = k.keyword ∧ σ.mode = .statement ∧ τ.openCount = σ.frames.length + 1 := by
  cases h with
  | @header k hm _ => exact .inr ⟨k, rfl, hm, rfl⟩
  | call hm _ => simp [openCount, hm, shift]
  | elseBody hm hf => simp [openCount, hm, hf, shift]
  | endBlock hm hf => simp [openCount, hm, hf, shift]
  | condition hm _ => simp [openCount, hm, shift]
  | opener hm => simp [openCount, hm, shift]
  | closer hm => simp [openCount, hm, shift, record]

/-- A token that opens no more than `n` statements is also taken if only `n` may be open. -/
theorem Takes.of_openCount_le (h : σ.Takes none t τ) (hn : τ.openCount ≤ n) :
    σ.Takes (some n) t τ := by
  cases h with
  | header hm _ =>
    have hlt : σ.frames.length < n := hn
    exact .header hm (by simpa using hlt)
  | call hm ht => exact .call hm ht
  | elseBody hm hf => exact .elseBody hm hf
  | endBlock hm hf => exact .endBlock hm hf
  | condition hm hc => exact .condition hm hc
  | opener hm => exact .opener hm
  | closer hm => exact .closer hm

/-- A token that opens more than `n` statements is refused where it stands if only `n` may be
open. -/
theorem Takes.step_of_lt_openCount (h : σ.Takes none t τ) (hσ : σ.openCount ≤ n)
    (hn : n < τ.openCount) : σ.step goal (some n) t = .fail σ .shallowerNesting := by
  rcases h.openCount_le_or with hle | ⟨k, rfl, hm, hτ⟩
  · omega
  · have hlen : n ≤ σ.frames.length := by omega
    simp [State.step, hm, beginStatement, hlen]

/-- A limit makes no difference where no token is taken. -/
theorem step_of_not_shift (h : ∀ next, σ.step goal none t ≠ .shift next) :
    σ.step goal limit t = σ.step goal none t := by
  unfold State.step at h ⊢
  split
  · next hm =>
    simp only [hm] at h
    split
    · rfl
    · next he =>
      simp only [he] at h
      unfold beginStatement at h ⊢
      split
      · next hh => simp [hh] at h
      · rfl
  all_goals rfl

end State

open State

/-- The greatest number of compound statements that are open at once while a parser without limit
runs on a stream. -/
def deepest (goal : Goal) (σ : State) (ts : List Token) : Nat :=
  if σ.finished goal then σ.openCount
  else match σ.step goal none (front ts), ts with
    | .shift next, _ :: rest => max σ.openCount (deepest goal next rest)
    | _, _ => σ.openCount
termination_by structural ts

example : deepest .block (.initial 0) ["IF", "true", "THEN", "move", "WHILE", "move"] = 2 := by
  decide

variable {goal : Goal} {limit : Option Nat} {σ τ : State} {t : Token} {ts : List Token} {n : Nat}
  {o : Outcome}

theorem deepest_of_takes (hf : σ.finished goal = false) (h : σ.Takes none t τ) (ts : List Token) :
    deepest goal σ (t :: ts) = max σ.openCount (deepest goal τ ts) := by
  rw [deepest.eq_def]
  simp [hf, front, h.step]

theorem openCount_le_deepest (goal : Goal) (σ : State) (ts : List Token) :
    σ.openCount ≤ deepest goal σ ts := by
  rw [deepest.eq_def]
  split
  · exact Nat.le_refl _
  · split
    · exact Nat.le_max_left _ _
    · exact Nat.le_refl _

theorem deepest_of_stops (h : Stops goal none σ ts o) : deepest goal σ ts = σ.openCount := by
  rw [deepest.eq_def]
  cases h with
  | finished hf => simp [hf]
  | halt hf hs => simp [hf, hs]
  | fail hf hs => simp [hf, hs]
  | reject hf hs => simp [hf, hs, front]
  | exhausted hf _ _ => simp [hf]

/-! ### Runs with a limit -/

/-- A run stops in the same way whether nesting is limited or not. -/
theorem Stops.of_none (h : Stops goal none σ ts o) (limit : Option Nat) :
    Stops goal limit σ ts o := by
  have hstep : ∀ t, (∀ next, σ.step goal none t ≠ .shift next) →
      σ.step goal limit t = σ.step goal none t := fun t => step_of_not_shift
  cases h with
  | finished hf => exact .finished hf
  | halt hf hs => exact .halt hf (by rw [hstep _ (by simp [hs]), hs])
  | fail hf hs => exact .fail hf (by rw [hstep _ (by simp [hs]), hs])
  | reject hf hs => exact .reject hf (by rw [hstep _ (by simp [hs]), hs])
  | exhausted hf hh he =>
    have hs := hstep Token.endOfInput fun _ hs => (takes_of_step hs).ne_endOfInput rfl
    exact .exhausted hf (hs ▸ hh) (hs ▸ he)

theorem State.Shifts.of_deepest_le {p r : List Token} (h : Shifts goal none σ p τ)
    (hn : deepest goal σ (p ++ r) ≤ n) : Shifts goal (some n) σ p τ := by
  induction h with
  | nil => exact .nil
  | cons hf ht _ ih =>
    rw [List.cons_append, deepest_of_takes hf ht] at hn
    have hrest := Nat.le_trans (Nat.le_max_right _ _) hn
    exact .cons hf (ht.of_openCount_le (Nat.le_trans (openCount_le_deepest _ _ _) hrest)) (ih hrest)

/-- A limit that is not exceeded makes no difference. -/
theorem run_eq_of_deepest_le (h : deepest goal σ ts ≤ n) :
    run goal (some n) σ ts = run goal none σ ts := by
  obtain ⟨p, τ, r, rfl, hp, hr⟩ := run_cases goal none σ ts
  rw [run_of_shifts (hp.of_deepest_le h), (hr.of_none _).run_eq]

/-- A limit that is exceeded at any time ends the run with an error of its own. -/
theorem run_error_of_lt_deepest (hσ : σ.openCount ≤ n) (h : n < deepest goal σ ts) :
    ∃ p t, (run goal (some n) σ ts).error? =
      some (Violation.shallowerNesting.error p (some t)) := by
  obtain ⟨p, τ, r, rfl, hp, hr⟩ := run_cases goal none σ ts
  generalize run goal none σ (p ++ r) = o at hr
  -- By induction on the tokens that the unlimited run takes: the first that opens too many
  -- statements is refused, so nothing that comes after it matters.
  induction hp with
  | nil =>
    rw [List.nil_append, deepest_of_stops hr] at h
    omega
  | @cons σ τ υ t p hf ht _ ih =>
    rw [List.cons_append] at h ⊢
    by_cases hτ : τ.openCount ≤ n
    · rw [run_cons, hf, (ht.of_openCount_le hτ).step]
      refine ih hτ ?_ hr
      rw [deepest_of_takes hf ht] at h
      omega
    · rw [run_cons, hf, ht.step_of_lt_openCount hσ (by omega)]
      exact ⟨_, _, rfl⟩

/-- Without a limit, nesting is never an error. -/
theorem kind_ne_of_run {e : SyntaxError} (h : (run goal none σ ts).error? = some e) :
    e.kind ≠ .nestingTooDeep := by
  obtain ⟨p, τ, r, -, -, hr⟩ := run_cases goal none σ ts
  have hkind : ∀ v : Violation, v ≠ .shallowerNesting → v.kind ≠ .nestingTooDeep := by
    intro v hv
    cases v <;> simp_all [Violation.kind]
  generalize run goal none σ ts = o at h hr
  cases hr with
  | finished _ => cases h
  | halt _ _ => cases h
  | fail _ hs =>
    cases h
    exact hkind _ ((fail_of_step hs).2.2 rfl)
  | reject _ hs =>
    cases h
    exact hkind _ (by simp [(reject_of_step hs).2])
  | exhausted _ _ _ =>
    cases h
    exact hkind .moreTokens nofun

/-! ### Parsing -/

/-- A parse ends with the error that statements are nested too deeply. -/
def Outcome.IsTooDeep (o : Outcome) : Prop := ∃ e, o.error? = some e ∧ e.kind = .nestingTooDeep

/-- On every machine a parse is the unlimited run if that one never has more compound statements
open at once than the machine allows, and else ends with the error of too deep nesting. -/
theorem parse_cases (m : Machine) (goal : Goal) (ts : List Token) :
    (deepest goal (.initial 0) ts ≤ nestingLimit m →
      parse m goal ts = run goal none (.initial 0) ts ∧ ¬ (parse m goal ts).IsTooDeep) ∧
    (nestingLimit m < deepest goal (.initial 0) ts → (parse m goal ts).IsTooDeep) := by
  constructor
  · intro h
    have heq : parse m goal ts = run goal none (.initial 0) ts := run_eq_of_deepest_le h
    refine ⟨heq, fun ⟨e, he, hkind⟩ => ?_⟩
    rw [heq] at he
    exact kind_ne_of_run he hkind
  · intro h
    obtain ⟨p, t, he⟩ := run_error_of_lt_deepest (Nat.zero_le (nestingLimit m)) h
    exact ⟨_, he, rfl⟩

/-- On a usual machine there is room for a hundred open statements, and not for four hundred. -/
theorem nestingLimit_of_isUsual {m : Machine} (hm : m.IsUsual) :
    100 ≤ nestingLimit m ∧ nestingLimit m < 400 := by
  have hstack := hm.stack
  have htaken := hm.taken .parsing
  rw [nestingLimit, Machine.calls, callsPerStatement]
  omega

/-- On a usual machine a parse is the unlimited run wherever that one has at most a hundred compound
statements open at once. If it comes to have four hundred open, the parse ends with the error of too
deep nesting, also where the unlimited run would end with another error. Between these numbers the
parse does one or the other. -/
theorem parse_eq_run_or_isTooDeep (m : Machine) (hm : m.IsUsual) (goal : Goal) (ts : List Token) :
    (deepest goal (.initial 0) ts ≤ 100 →
      parse m goal ts = run goal none (.initial 0) ts ∧ ¬ (parse m goal ts).IsTooDeep) ∧
    (400 ≤ deepest goal (.initial 0) ts → (parse m goal ts).IsTooDeep) ∧
    (parse m goal ts = run goal none (.initial 0) ts ∨ (parse m goal ts).IsTooDeep) := by
  obtain ⟨hagree, hdeep⟩ := parse_cases m goal ts
  obtain ⟨hlow, hhigh⟩ := nestingLimit_of_isUsual hm
  refine ⟨fun h => hagree (by omega), fun h => hdeep (by omega), ?_⟩
  rcases Nat.lt_or_ge (nestingLimit m) (deepest goal (.initial 0) ts) with h | h
  · exact .inr (hdeep h)
  · exact .inl (hagree h).1

theorem isUsual_usual : Machine.usual.IsUsual := ⟨rfl, fun _ => show 10 ≤ 700 by decide⟩

/-- A loop in a loop is parsed, although its second closing keyword is missing. -/
theorem parse_eq_run_or_isTooDeep_shallow :
    let ts := ["WHILE", "true", "DO", "WHILE", "random", "DO", "END", "WHILE", "END"]
    deepest .statement (.initial 0) ts = 2 ∧
      parse .usual .statement ts = run .statement none (.initial 0) ts ∧
      (parse .usual .statement ts).error? =
        some (Violation.error (.closer .whileDo) 9 (some Token.endOfInput)) := by
  intro ts
  have hdeepest : deepest .statement (.initial 0) ts = 2 := by decide
  obtain ⟨hagree, -, -⟩ := parse_eq_run_or_isTooDeep .usual isUsual_usual .statement ts
  obtain ⟨heq, -⟩ := hagree (by omega)
  exact ⟨hdeepest, heq, by rw [heq]; rfl⟩

end BlockLang.Parser
