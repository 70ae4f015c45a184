import BlockLang.Proofs.Parser.ViablePrefix

/-! The sentinel. An exhausted stream shows the sentinel, so a sentinel that is missing is treated
as if it were there: no step takes it, and it makes a difference only where a token is taken before
it is looked at. That is the keyword after the `END` of a choice. -/

namespace BlockLang

namespace Parser

open State

variable {goal : Goal} {limit : Option Nat} {σ τ υ : State} {t : Token} {p q r ts : List Token}
  {x : Statement} {o : Outcome} {n : Nat}

/-! ### Rows of tokens -/

theorem State.Shifts.of_append (h : Shifts goal limit σ (p ++ q) υ) :
    ∃ τ, Shifts goal limit σ p τ ∧ Shifts goal limit τ q υ := by
  induction p generalizing σ with
  | nil => exact ⟨σ, .nil, h⟩
  | cons t p ih =>
    cases h with
    | cons hf ht hrest =>
      obtain ⟨τ, hp, hq⟩ := ih hrest
      exact ⟨τ, .cons hf ht hp, hq⟩

/-- A token can be taken in one way only. -/
theorem State.Takes.unique (h : σ.Takes limit t τ) (h' : σ.Takes limit t υ) : τ = υ := by
  have hstep : σ.step .block limit t = .shift τ := h.step
  exact Step.shift.inj (hstep.symm.trans h'.step)

theorem State.Shifts.unique (h : Shifts goal limit σ p τ) (h' : Shifts goal limit σ p υ) :
    τ = υ := by
  induction h with
  | nil =>
    cases h'
    rfl
  | cons _ ht _ ih =>
    cases h' with
    | cons _ ht' hrest =>
      cases ht.unique ht'
      exact ih hrest

/-- The sentinel is never among the tokens that are taken. -/
theorem State.Shifts.endOfInput_notMem (h : Shifts goal limit σ p τ) : Token.endOfInput ∉ p := by
  induction h with
  | nil => exact List.not_mem_nil
  | cons _ ht _ ih =>
    rw [List.mem_cons, not_or]
    exact ⟨ht.ne_endOfInput.symm, ih⟩

theorem endOfInput_notMem_of_derives (h : Derives goal p x) : Token.endOfInput ∉ p :=
  (shifts_of_derives h).endOfInput_notMem

/-! ### Ends of choices -/

/-- A row of tokens ends with an `END` that closes a choice: one more `IF` would complete a
statement, and only choices end with `IF`. -/
def EndsChoice (ts : List Token) : Prop :=
  ∃ q p x, Derives .statement p x ∧ ts ++ ["IF"] = q ++ p

/-- The first tokens of a statement that ends with `IF`. -/
theorem exists_condition_of_choice (h : Derives .statement p x) (hp : p.getLast? = some "IF") :
    ∃ (c : Condition) (w : List Token), p = "IF" :: c.token :: w ++ ["IF"] := by
  cases h with
  | call ht =>
    obtain rfl : _ = "IF" := by simpa using hp
    exact absurd ht (by decide)
  | @ifThen t c p body hc _ =>
    exact ⟨c, "THEN" :: p ++ ["END"], by simp [Condition.token_of_ofToken? hc]⟩
  | @ifElse t c p q thenBody elseBody hc _ _ =>
    exact ⟨c, "THEN" :: p ++ "ELSE" :: q ++ ["END"], by simp [Condition.token_of_ofToken? hc]⟩
  | whileDo _ _ =>
    rw [List.getLast?_append] at hp
    exact absurd (Option.some.inj hp) (by decide)

/-- Only the keyword of a choice is taken as `IF`, at its beginning or after its end. -/
theorem State.Takes.of_if (h : σ.Takes limit "IF" τ) :
    σ.mode = .statement ∧ τ.mode ≠ .statement ∨
      (∃ s start, σ.mode = .closer .ifThen s start) ∧ τ.mode = .statement := by
  generalize ht : "IF" = t at h
  cases h with
  | header hm _ => exact .inl ⟨hm, nofun⟩
  | call _ hid => exact absurd hid (by rw [← ht]; decide)
  | elseBody _ _ => exact absurd ht (by decide)
  | endBlock _ _ => exact absurd ht (by decide)
  | condition _ hc =>
    have hnone : Condition.ofToken? "IF" = none := by decide
    rw [← ht, hnone] at hc
    cases hc
  | @opener k _ _ _ => exact absurd ht (by cases k <;> decide)
  | @closer k s start hm =>
    cases k with
    | ifThen => exact .inr ⟨⟨s, start, hm⟩, rfl⟩
    | whileDo => exact absurd ht (by decide)

/-- No statement begins with a condition. -/
theorem State.not_takes_token (hm : σ.mode = .statement) (c : Condition) :
    ¬ σ.Takes limit c.token τ := by
  have hc : c.token.endsBlock = false ∧ Header.ofToken? c.token = none ∧
      c.token.isIdentifier = false := by
    cases c <;> decide +kernel
  intro h
  have hstep : σ.step .block limit c.token = .shift τ := h.step
  simp [State.step, hm, hc, beginStatement] at hstep

/-- When the tokens that were taken end with the `END` of a choice, its keyword comes next. -/
theorem mode_of_endsChoice (h : Shifts goal none (initial n) ts τ) (he : EndsChoice ts) :
    ∃ s start, τ.mode = .closer .ifThen s start := by
  obtain ⟨q, p, x, hx, hts⟩ := he
  have hlast : p.getLast? = some "IF" := by
    have hne : p ≠ [] := by
      rintro rfl
      cases hx
    rw [← List.getLast?_append_of_ne_nil q hne, ← hts, List.getLast?_concat]
  obtain ⟨c, w, rfl⟩ := exists_condition_of_choice hx hlast
  obtain rfl : ts = q ++ "IF" :: c.token :: w :=
    List.append_cancel_right (hts.trans (List.append_assoc ..).symm)
  obtain ⟨ρ, -, hw⟩ := h.of_append
  have hw' := hw
  cases hw' with
  | cons hf hif hrest =>
    rcases hif.of_if with ⟨hm, -⟩ | ⟨-, hm⟩
    · -- The statement is read from here on, and its last token is taken by the state `τ`.
      have hs : Shifts goal none ρ _ _ := hx.shifts ρ hm hf (by simp) (by simp)
      obtain ⟨τ', hτ', hend⟩ := hs.of_append
      obtain rfl := hτ'.unique hw
      cases hend with
      | cons _ hend hnil =>
        cases hnil
        exact (hend.of_if.resolve_left fun hleft => hleft.2 rfl).1
    · cases hrest with
      | cons _ hc _ => exact absurd hc (not_takes_token hm c)

/-- When the keyword of a choice comes next, the tokens that were taken end with its `END`. -/
theorem endsChoice_of_mode {s : Statement} {start : Nat} (h : Shifts goal none (initial n) ts τ)
    (hm : τ.mode = .closer .ifThen s start) : EndsChoice ts := by
  have hτ := h.isProper (isProper_initial n)
  have htokens : τ.tokens = ts := by simpa using h.tokens (isProper_initial n)
  have hmode := hτ.mode
  rw [hm] at hmode
  refine ⟨Statement.tokensAll τ.outer ++ frameTokens τ.frames, s.tokens, s,
    derives_iff.2 ⟨hmode.1.1, hmode.1.parses.2, rfl⟩, ?_⟩
  rw [← htokens, State.tokens, hm, List.append_assoc]
  exact congrArg _ hmode.2

/-! ### Stops -/

@[simp] theorem front_append_endOfInput (r : List Token) :
    front (r ++ [Token.endOfInput]) = front r := by
  cases r <;> rfl

/-- What is taken before it is looked at is the keyword of a choice. -/
theorem State.mode_of_reject {last : State} {v : Violation}
    (h : σ.step goal limit t = .reject last v) : ∃ s start, σ.mode = .closer .ifThen s start := by
  unfold State.step at h
  split at h
  · split at h
    · unfold endBlock at h
      split at h
      · cases goal <;> cases h
      · split at h <;> cases h
    · unfold beginStatement at h
      split at h <;> split at h <;> cases h
  · split at h <;> cases h
  · split at h <;> cases h
  · next header s start hm =>
    unfold closeStatement at h
    split at h
    · cases h
    · cases header <;> cases h
      exact ⟨s, start, hm⟩

theorem State.step_endOfInput_of_closer {s : Statement} {start : Nat}
    (hm : σ.mode = .closer .ifThen s start) :
    σ.step goal limit Token.endOfInput = .reject (σ.shift σ.mode) (.closer .ifThen) := by
  have hne : Token.endOfInput ≠ Header.ifThen.keyword := by decide
  simp only [State.step, hm, closeStatement, if_neg hne]

/-- A run stops before a sentinel as it stops at the end of the stream, unless the keyword of a
choice is missing there. -/
theorem Stops.append_endOfInput (h : Stops goal limit σ r o) :
    run goal limit σ (r ++ [Token.endOfInput]) =
        { o with rest := o.rest ++ [Token.endOfInput] } ∧
      (o.error? ≠ none → r = [] → ∀ s start, σ.mode ≠ .closer .ifThen s start) ∨
    r = [] ∧ (∃ s start, σ.mode = .closer .ifThen s start) ∧
      o.error? = some (Violation.moreTokens.error σ.position none) ∧
      (run goal limit σ (r ++ [Token.endOfInput])).error? =
        some ((Violation.closer .ifThen).error σ.position (some Token.endOfInput)) := by
  cases h with
  | finished hf =>
    have hstop : Stops goal limit σ (r ++ [Token.endOfInput]) _ := .finished hf
    exact .inl ⟨hstop.run_eq, fun he => absurd rfl he⟩
  | halt hf hs =>
    have hstop : Stops goal limit σ (r ++ [Token.endOfInput]) _ :=
      .halt hf (by rwa [front_append_endOfInput])
    exact .inl ⟨hstop.run_eq, fun he => absurd rfl he⟩
  | @fail _ last v hf hs =>
    have hstop : Stops goal limit σ (r ++ [Token.endOfInput]) _ :=
      .fail hf (by rwa [front_append_endOfInput])
    refine .inl ⟨?_, ?_⟩
    · rw [hstop.run_eq, front_append_endOfInput]
    · rintro - rfl s start hm
      cases (step_endOfInput_of_closer hm).symm.trans hs
  | @reject t rest last v hf hs =>
    have hstop : Stops goal limit σ (t :: (rest ++ [Token.endOfInput])) _ := .reject hf hs
    exact .inl ⟨hstop.run_eq, nofun⟩
  | exhausted hf hh he =>
    cases hs : σ.step goal limit Token.endOfInput with
    | halt last => exact absurd hs (hh last)
    | fail last v => exact absurd hs (he last v)
    | shift next => exact absurd rfl (takes_of_step hs).ne_endOfInput
    | reject last v =>
      obtain ⟨-, rfl⟩ := reject_of_step hs
      have hstop : Stops goal limit σ ([] ++ [Token.endOfInput]) _ := .reject hf hs
      exact .inr ⟨rfl, mode_of_reject hs, rfl, by rw [hstop.run_eq]⟩

/-- A run that ends without error leaves what it has not taken. -/
theorem Stops.rest_eq (h : Stops goal limit σ r o) (he : o.error? = none) : o.rest = r := by
  cases h with
  | finished _ => rfl
  | halt _ _ => rfl
  | fail _ _ => cases he
  | reject _ _ => cases he
  | exhausted _ _ _ => cases he

/-! ### Parsing -/

/-- A missing sentinel is treated as if it were there. With it and without it a parse gives the
same tree and leaves the same tokens before the sentinel, or it fails with the same kind of error
at the same position. It is the same error, unless the tokens run out right after the `END` of a
choice: then a token is missing in one case, and the sentinel stands in place of the keyword in the
other. And the tokens that a parse takes for a tree are never sentinels. -/
theorem run_append_endOfInput (goal : Goal) (ts : List Token) :
    let o := run goal none (initial 0) ts
    let o' := run goal none (initial 0) (ts ++ [Token.endOfInput])
    ((∃ s r, o.Returns goal s r ∧ o'.Returns goal s (r ++ [Token.endOfInput])) ∨
      ∃ (e e' : SyntaxError) (p : Nat), o.result goal = .error e ∧ o'.result goal = .error e' ∧
        e.position = some (p : Int) ∧ e'.position = some (p : Int) ∧ e'.kind = e.kind ∧
        (¬ (p = ts.length ∧ EndsChoice ts) → e' = e) ∧
        (p = ts.length ∧ EndsChoice ts →
          e.text = "Unexpected end of token stream" ∧ e.token = none ∧
          e'.text = "Expected IF" ∧ e'.token = some Token.endOfInput)) ∧
    ∀ s r, o.Returns goal s r → ∃ p, ts = p ++ r ∧ Token.endOfInput ∉ p := by
  intro o o'
  obtain ⟨p, τ, r, hts, hp, hstop⟩ := run_cases goal none (initial 0) ts
  have hrun' : o' = run goal none τ (r ++ [Token.endOfInput]) := by
    simp only [o', hts, List.append_assoc, run_of_shifts hp]
  have hpos : τ.position = p.length := by simpa [initial] using hp.position
  have hall : p.length = ts.length ↔ r = [] := by simp [hts]
  refine ⟨?_, ?_⟩
  · rcases hstop.append_endOfInput with ⟨heq, hmode⟩ | ⟨rfl, ⟨s, start, hm⟩, he, he'⟩
    · rw [← hrun'] at heq
      cases he : o.error? with
      | none =>
        have hresult : o.result goal = .ok (o.last.result goal) := by rw [Outcome.result, he]
        exact .inl ⟨_, _, ⟨hresult, rfl⟩, by rw [heq]; exact ⟨hresult, rfl⟩⟩
      | some e =>
        have hresult : o.result goal = .error e := Outcome.result_eq_error_iff.2 he
        obtain ⟨-, hposition, -⟩ := hstop.error he
        rw [hpos] at hposition
        refine .inr ⟨e, e, p.length, hresult, by rw [heq]; exact hresult, hposition, hposition, rfl,
          fun _ => rfl, ?_⟩
        rintro ⟨hlen, hend⟩
        obtain rfl := hall.1 hlen
        rw [List.append_nil] at hts
        obtain ⟨s, start, hm⟩ := mode_of_endsChoice hp (hts ▸ hend)
        have hne : o.error? ≠ none := by
          rw [he]
          exact Option.some_ne_none e
        exact absurd hm (hmode hne rfl s start)
    · rw [← hrun'] at he'
      rw [List.append_nil] at hts
      have hend : p.length = ts.length ∧ EndsChoice ts :=
        ⟨hall.2 rfl, hts ▸ endsChoice_of_mode hp hm⟩
      exact .inr ⟨_, _, p.length, Outcome.result_eq_error_iff.2 he,
        Outcome.result_eq_error_iff.2 he', by rw [← hpos]; rfl, by rw [← hpos]; rfl, rfl,
        fun hnot => absurd hend hnot, fun _ => ⟨rfl, rfl, rfl, rfl⟩⟩
  · rintro s _ ⟨hok, rfl⟩
    refine ⟨p, ?_, hp.endOfInput_notMem⟩
    have herror : o.error? = none := by
      cases he : o.error? with
      | none => rfl
      | some e => cases hok.symm.trans (Outcome.result_eq_error_iff.2 he)
    rw [hstop.rest_eq herror, hts]

end Parser

end BlockLang
