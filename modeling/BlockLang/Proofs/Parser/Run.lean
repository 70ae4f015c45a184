import BlockLang.Parser

/-! Runs of the parser: the ways to take a token, the states that a row of tokens leads to, and the
ways to stop. A run is a row of taken tokens and a stop. -/

namespace BlockLang

namespace Token

theorem not_endsBlock_of_isIdentifier {t : Token} (h : t.isIdentifier) : t.endsBlock = false := by
  rw [Bool.eq_false_iff]
  intro he
  have hm : t = endOfInput ∨ t = "ELSE" ∨ t = "END" := by simpa [endsBlock, blockEnds] using he
  rcases hm with rfl | rfl | rfl <;> exact absurd h (by decide)

end Token

namespace Parser

namespace Header

theorem ofToken?_eq_some_iff {t : Token} {header : Header} :
    ofToken? t = some header ↔ t = header.keyword := by
  unfold ofToken?
  split
  · next h => subst h; cases header <;> decide
  · split
    · next h => subst h; cases header <;> decide
    · next h h' => cases header <;> simp_all

@[simp] theorem ofToken?_keyword (header : Header) : ofToken? header.keyword = some header :=
  ofToken?_eq_some_iff.2 rfl

theorem ofToken?_of_isIdentifier {t : Token} (h : t.isIdentifier) : ofToken? t = none := by
  rw [Option.eq_none_iff_forall_ne_some]
  intro header he
  rw [ofToken?_eq_some_iff] at he
  subst he
  revert h
  cases header <;> decide +kernel

@[simp] theorem endsBlock_keyword (header : Header) : header.keyword.endsBlock = false := by
  cases header <;> decide

end Header

namespace State

/-- The ways to take a token. -/
inductive Takes (limit : Option Nat) (σ : State) : Token → State → Prop where
  | header {h : Header} : σ.mode = .statement → (∀ n ∈ limit, σ.frames.length < n) →
      Takes limit σ h.keyword (σ.shift (.condition h σ.position))
  | call {t : Token} : σ.mode = .statement → t.isIdentifier →
      Takes limit σ t ((σ.add (.call t)).shift .statement)
  | elseBody {c : Condition} {start : Nat} {done : List Statement} {frames : List Frame} :
      σ.mode = .statement → σ.frames = ⟨.ifBody c, start, done⟩ :: frames →
      Takes limit σ "ELSE"
        ({ σ.record (.block done.length "ELSE") with
            frames := ⟨.elseBody c done, start, []⟩ :: frames }.shift .statement)
  | endBlock {f : Frame} {frames : List Frame} : σ.mode = .statement → σ.frames = f :: frames →
      Takes limit σ "END"
        ({ σ.record (.block f.done.length "END") with frames := frames }.shift
          (.closer f.branch.header (f.branch.close f.done) f.start))
  | condition {t : Token} {h : Header} {c : Condition} {start : Nat} :
      σ.mode = .condition h start → Condition.ofToken? t = some c →
      Takes limit σ t (σ.shift (.opener h c start))
  | opener {h : Header} {c : Condition} {start : Nat} : σ.mode = .opener h c start →
      Takes limit σ h.opener
        ({ σ with frames := ⟨h.branch c, start, []⟩ :: σ.frames }.shift .statement)
  | closer {h : Header} {s : Statement} {start : Nat} : σ.mode = .closer h s start →
      Takes limit σ h.keyword
        (((σ.add s).record (.statement s.kind start σ.position)).shift .statement)

variable {goal : Goal} {limit : Option Nat} {σ τ υ : State} {t : Token}

theorem Takes.step (h : σ.Takes limit t τ) : σ.step goal limit t = .shift τ := by
  cases h with
  | header hm hl =>
    have hn : (limit.any fun n => n ≤ σ.frames.length) = false := by
      cases limit <;> simp_all
    simp [State.step, hm, beginStatement, hn]
  | call hm ht =>
    simp [State.step, hm, beginStatement, Token.not_endsBlock_of_isIdentifier ht,
      Header.ofToken?_of_isIdentifier ht, ht]
  | elseBody hm hf =>
    have he : Token.endsBlock "ELSE" = true := by decide
    simp only [State.step, hm, he, if_true, State.endBlock, hf]
  | endBlock hm hf =>
    have he : Token.endsBlock "END" = true := by decide
    simp only [State.step, hm, he, if_true, State.endBlock, hf]
  | condition hm hc => simp [State.step, hm, hc]
  | opener hm => simp [State.step, hm]
  | closer hm => simp [State.step, hm, closeStatement]

theorem takes_of_step (h : σ.step goal limit t = .shift τ) : σ.Takes limit t τ := by
  unfold State.step at h
  split at h
  · next hm =>
    split at h
    · next he =>
      unfold State.endBlock at h
      split at h
      · cases goal <;> simp at h
      · next f frames hf =>
        obtain ⟨branch, start, done⟩ := f
        split at h
        · next hb =>
          cases h
          obtain rfl : branch = _ := hb
          exact .elseBody hm hf
        · cases h
          exact .endBlock hm hf
        · cases h
    · unfold beginStatement at h
      split at h
      · next header ht =>
        split at h
        · cases h
        · next hn =>
          cases h
          rw [Header.ofToken?_eq_some_iff] at ht
          subst ht
          refine .header hm fun n hl => ?_
          simp_all
      · split at h
        · next ht =>
          cases h
          exact .call hm ht
        · cases h
  · next header start hm =>
    split at h
    · next c hc =>
      cases h
      exact .condition hm hc
    · cases h
  · next header c start hm =>
    split at h
    · next ht =>
      cases h
      subst ht
      exact .opener hm
    · cases h
  · next header s start hm =>
    unfold closeStatement at h
    split at h
    · next ht =>
      cases h
      subst ht
      exact .closer hm
    · cases header <;> cases h

@[simp] theorem add_position (σ : State) (s : Statement) : (σ.add s).position = σ.position := by
  unfold add
  split <;> rfl

theorem Takes.position (h : σ.Takes limit t τ) : τ.position = σ.position + 1 := by
  cases h <;> simp [shift, record]

/-- The sentinel is never taken. -/
theorem Takes.ne_endOfInput (h : σ.Takes limit t τ) : t ≠ Token.endOfInput := by
  cases h with
  | @header k _ _ => cases k <;> decide
  | call _ ht =>
    rintro rfl
    exact absurd ht (by decide)
  | elseBody _ _ => decide
  | endBlock _ _ => decide
  | condition _ hc =>
    rintro rfl
    have hnone : Condition.ofToken? Token.endOfInput = none := by decide
    simp [hnone] at hc
  | @opener k _ _ _ => cases k <;> decide
  | @closer k _ _ _ => cases k <;> decide

/-- Only a block ends before a token that is left in place. -/
theorem halt_of_step (h : σ.step goal limit t = .halt τ) :
    goal = .block ∧ σ.mode = .statement ∧ σ.frames = [] ∧ t.endsBlock ∧
      τ = σ.record (.block σ.outer.length t) := by
  unfold State.step at h
  split at h
  · next hm =>
    split at h
    · next he =>
      unfold endBlock at h
      split at h
      · next hf => cases goal <;> simp_all
      · split at h <;> cases h
    · unfold beginStatement at h
      split at h <;> split at h <;> cases h
  · split at h <;> cases h
  · split at h <;> cases h
  · next header _ _ _ =>
    unfold closeStatement at h
    split at h
    · cases h
    · cases header <;> cases h

theorem step_halt (hm : σ.mode = .statement) (hf : σ.frames = []) (ht : t.endsBlock) :
    σ.step .block limit t = .halt (σ.record (.block σ.outer.length t)) := by
  simp [State.step, hm, ht, endBlock, hf]

/-- A token that is refused where it stands changes nothing but the record. A closing keyword of a
choice is never refused there, and nesting only where it is limited. -/
theorem fail_of_step {last : State} {v : Violation} (h : σ.step goal limit t = .fail last v) :
    (∃ log, last = { σ with log := log }) ∧ v ≠ .closer .ifThen ∧
      (limit = none → v ≠ .shallowerNesting) := by
  unfold State.step at h
  split at h
  · next hm =>
    split at h
    · unfold endBlock at h
      split at h
      · cases goal <;> cases h
        exact ⟨⟨_, rfl⟩, nofun, nofun⟩
      · next f frames hf =>
        split at h <;> cases h
        exact ⟨⟨_, rfl⟩, by cases f.branch <;> nofun, by cases f.branch <;> nofun⟩
    · unfold beginStatement at h
      split at h <;> split at h <;> cases h
      · next hl => exact ⟨⟨_, rfl⟩, nofun, fun hn => by simp [hn] at hl⟩
      · exact ⟨⟨_, rfl⟩, nofun, nofun⟩
  · split at h <;> cases h
    exact ⟨⟨_, rfl⟩, nofun, nofun⟩
  · split at h <;> cases h
    exact ⟨⟨_, rfl⟩, nofun, nofun⟩
  · next header _ _ _ =>
    unfold closeStatement at h
    split at h
    · cases h
    · cases header <;> cases h
      exact ⟨⟨_, rfl⟩, nofun, nofun⟩

/-- Only what stands in place of the closing keyword of a choice is taken before it is refused. -/
theorem reject_of_step {last : State} {v : Violation} (h : σ.step goal limit t = .reject last v) :
    last = σ.shift σ.mode ∧ v = .closer .ifThen := by
  unfold State.step at h
  split at h
  · split at h
    · unfold endBlock at h
      split at h
      · cases goal <;> cases h
      · split at h <;> cases h
    · unfold beginStatement at h
      split at h <;> split at h <;> cases h
  · split at h <;> cases h
  · split at h <;> cases h
  · next header _ _ _ =>
    unfold closeStatement at h
    split at h
    · cases h
    · cases header <;> cases h
      exact ⟨rfl, rfl⟩

/-! ### Rows of taken tokens -/

/-- A state from which a row of tokens, all of them taken, leads to another one. Nothing more is
taken once the goal is reached. -/
inductive Shifts (goal : Goal) (limit : Option Nat) : State → List Token → State → Prop where
  | nil {σ : State} : Shifts goal limit σ [] σ
  | cons {σ τ υ : State} {t : Token} {p : List Token} : σ.finished goal = false →
      σ.Takes limit t τ → Shifts goal limit τ p υ → Shifts goal limit σ (t :: p) υ

variable {p q r : List Token}

theorem Shifts.append (h : Shifts goal limit σ p τ) (h' : Shifts goal limit τ q υ) :
    Shifts goal limit σ (p ++ q) υ := by
  induction h with
  | nil => exact h'
  | cons hf ht _ ih => exact .cons hf ht (ih h')

theorem Shifts.position (h : Shifts goal limit σ p τ) :
    τ.position = σ.position + p.length := by
  induction h with
  | nil => rfl
  | cons _ ht _ ih =>
    rw [ih, ht.position, List.length_cons]
    omega

end State

open State

variable {goal : Goal} {limit : Option Nat} {σ τ : State} {p : List Token}

theorem run_nil (goal : Goal) (limit : Option Nat) (σ : State) : run goal limit σ [] =
    if σ.finished goal then ⟨none, σ, []⟩
    else match σ.step goal limit Token.endOfInput with
      | .halt last => ⟨none, last, []⟩
      | .fail last v => ⟨some (v.error σ.position (some Token.endOfInput)), last, []⟩
      | _ => ⟨some (Violation.moreTokens.error σ.position none), σ, []⟩ := by
  rw [run.eq_def]
  simp only [front, List.headD_nil]
  cases σ.step goal limit Token.endOfInput <;> rfl

theorem run_cons (goal : Goal) (limit : Option Nat) (σ : State) (t : Token) (r : List Token) :
    run goal limit σ (t :: r) =
      if σ.finished goal then ⟨none, σ, t :: r⟩
      else match σ.step goal limit t with
        | .halt last => ⟨none, last, t :: r⟩
        | .fail last v => ⟨some (v.error σ.position (some t)), last, t :: r⟩
        | .shift next => run goal limit next r
        | .reject last v => ⟨some (v.error σ.position (some t)), last, r⟩ := by
  rw [run.eq_def]
  simp only [front, List.headD_cons]
  cases σ.step goal limit t <;> rfl

theorem run_of_shifts (h : Shifts goal limit σ p τ) (r : List Token) :
    run goal limit σ (p ++ r) = run goal limit τ r := by
  induction h with
  | nil => rfl
  | cons hf ht _ ih =>
    rw [List.cons_append, run_cons, hf, ht.step]
    exact ih

/-! ### Stops -/

/-- The ways in which a run stops before the tokens that are left. -/
inductive Stops (goal : Goal) (limit : Option Nat) (σ : State) : List Token → Outcome → Prop where
  | finished {r : List Token} : σ.finished goal = true → Stops goal limit σ r ⟨none, σ, r⟩
  | halt {r : List Token} {last : State} : σ.finished goal = false →
      σ.step goal limit (front r) = .halt last → Stops goal limit σ r ⟨none, last, r⟩
  | fail {r : List Token} {last : State} {v : Violation} : σ.finished goal = false →
      σ.step goal limit (front r) = .fail last v →
      Stops goal limit σ r ⟨some (v.error σ.position (some (front r))), last, r⟩
  | reject {t : Token} {r : List Token} {last : State} {v : Violation} :
      σ.finished goal = false → σ.step goal limit t = .reject last v →
      Stops goal limit σ (t :: r) ⟨some (v.error σ.position (some t)), last, r⟩
  | exhausted : σ.finished goal = false →
      (∀ last, σ.step goal limit Token.endOfInput ≠ .halt last) →
      (∀ last v, σ.step goal limit Token.endOfInput ≠ .fail last v) →
      Stops goal limit σ [] ⟨some (Violation.moreTokens.error σ.position none), σ, []⟩

theorem Stops.run_eq {r : List Token} {o : Outcome} (h : Stops goal limit σ r o) :
    run goal limit σ r = o := by
  cases h with
  | finished hf => cases r <;> simp [run_nil, run_cons, hf]
  | halt hf hs =>
    cases r <;> simp only [front, List.headD_nil, List.headD_cons] at hs <;>
      simp [run_nil, run_cons, hf, hs]
  | fail hf hs =>
    cases r <;> simp only [front, List.headD_nil, List.headD_cons] at hs <;>
      simp [run_nil, run_cons, hf, hs, front]
  | reject hf hs => simp [run_cons, hf, hs]
  | exhausted hf hh he =>
    rw [run_nil, hf]
    cases hs : σ.step goal limit Token.endOfInput with
    | halt last => exact absurd hs (hh last)
    | fail last v => exact absurd hs (he last v)
    | shift next => rfl
    | reject last v => rfl

/-- A state takes the token before it or stops there. -/
theorem takes_or_stops (goal : Goal) (limit : Option Nat) (σ : State) (ts : List Token) :
    (∃ t r τ, ts = t :: r ∧ σ.finished goal = false ∧ σ.Takes limit t τ) ∨
      ∃ o, Stops goal limit σ ts o := by
  cases hf : σ.finished goal with
  | true => exact .inr ⟨_, .finished hf⟩
  | false =>
    cases hs : σ.step goal limit (front ts) with
    | halt last => exact .inr ⟨_, .halt hf hs⟩
    | fail last v => exact .inr ⟨_, .fail hf hs⟩
    | shift next =>
      cases ts with
      | nil => exact .inr ⟨_, .exhausted hf (by simp_all [front]) (by simp_all [front])⟩
      | cons t r => exact .inl ⟨t, r, next, rfl, rfl, takes_of_step hs⟩
    | reject last v =>
      cases ts with
      | nil => exact .inr ⟨_, .exhausted hf (by simp_all [front]) (by simp_all [front])⟩
      | cons t r => exact .inr ⟨_, .reject hf hs⟩

/-- Every run takes some tokens and then stops. -/
theorem run_cases (goal : Goal) (limit : Option Nat) (σ : State) (ts : List Token) :
    ∃ p τ r, ts = p ++ r ∧ Shifts goal limit σ p τ ∧
      Stops goal limit τ r (run goal limit σ ts) := by
  induction ts generalizing σ with
  | nil =>
    rcases takes_or_stops goal limit σ [] with ⟨t, r, τ, h, -, -⟩ | ⟨o, ho⟩
    · cases h
    · exact ⟨[], σ, [], rfl, .nil, ho.run_eq ▸ ho⟩
  | cons t ts ih =>
    rcases takes_or_stops goal limit σ (t :: ts) with ⟨t', r, τ, h, hf, ht⟩ | ⟨o, ho⟩
    · cases h
      obtain ⟨p, υ, r, rfl, hp, hr⟩ := ih τ
      refine ⟨t :: p, υ, r, rfl, .cons hf ht hp, ?_⟩
      rwa [run_cons, hf, ht.step]
    · exact ⟨[], σ, t :: ts, rfl, .nil, ho.run_eq ▸ ho⟩

end Parser

end BlockLang
