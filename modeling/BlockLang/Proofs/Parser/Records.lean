import BlockLang.Proofs.Parser.Sentinel
import BlockLang.Proofs.Parser.Tracking

/-! The debug record of a parse. If the parse succeeds, these are the nodes of the tree except the
calls, from the leaves up: a block with the token after it, any other with the numbers of its first
and last token. If it fails, these are the nodes that are complete at the error. They are found in
each tree that the tokens before the error can be completed to, if that completion ends a block
where the error stands whenever some completion does. -/

namespace BlockLang

open Statement

namespace Construct

/-- What the debug log says of a node in a stream. -/
def record (ts : List Token) (q : Construct) : String :=
  if q.node.kind = .block then
    let next := Parser.front (ts.drop q.stop)
    s!"block of {q.node.children.length} statement(s) ends at {Text.quote next}"
  else s!"parsed {q.node.kind.name} at tokens {q.start}-{q.stop - 1}"

/-- What the debug log says of nodes. It does not mention calls. -/
def records (ts : List Token) (qs : List Construct) : List String :=
  (qs.filter fun q => q.node.kind ≠ .call).map (record ts)

theorem message_event (ts : List Token) (q : Construct) : (q.event ts).message = q.record ts := by
  unfold event record
  split <;> rfl

theorem map_message_events (ts : List Token) (qs : List Construct) :
    (events ts qs).map Parser.Event.message = records ts qs := by
  simp [events, records, message_event]

end Construct

/-- A tree has a block that ends where `n` tokens have been taken. -/
def Statement.HasBlockTo (s : Statement) (n : Nat) : Prop := ∃ q ∈ s.constructs 0, q.IsBlockTo n

namespace Parser

open State

/-- A tree that the first `n` tokens can be completed to. A block of it ends right after them, if
that is so for any such tree. -/
structure IsCompletion (goal : Goal) (ts : List Token) (n : Nat) (s : Statement) : Prop where
  returns : ∃ u, (run goal none (initial 0) (ts.take n ++ u)).Returns goal s []
  ends : ∀ u s', (run goal none (initial 0) (ts.take n ++ u)).Returns goal s' [] →
    s'.HasBlockTo n → s.HasBlockTo n

/-- The node of an outermost block. -/
def Goal.outermost (s : Statement) : Goal → List Construct
  | statement => []
  | block => [⟨0, s⟩]

variable {goal : Goal} {limit : Option Nat} {σ τ υ : State} {t : Token} {p r u ts : List Token}
  {s : Statement} {o : Outcome} {e : SyntaxError} {f : Frame} {frames : List Frame}

/-! ### Complete nodes -/

theorem State.Shifts.of_initial (h : Shifts goal limit (initial 0) p τ) :
    τ.IsAligned ∧ τ.tokens = p ∧ τ.position = p.length := by
  have haligned := h.isAligned (isProper_initial 0) isAligned_initial
  have htokens : τ.tokens = p := by simpa using h.tokens (isProper_initial 0)
  exact ⟨haligned, htokens, htokens ▸ haligned.position⟩

theorem State.Shifts.log_eq (h : Shifts goal limit (initial 0) p τ) (rest : List Token) :
    τ.log = Construct.events (p ++ rest) τ.constructs ∧
      ∀ q ∈ τ.constructs, q.IsComplete (p ++ rest) p.length := by
  obtain ⟨later, hlater, -, hall⟩ := h.constructs (isProper_initial 0) isAligned_initial
  obtain ⟨-, htokens, hposition⟩ := h.of_initial
  obtain rfl : τ.constructs = later := hlater
  rw [htokens, hposition] at hall
  exact hall rest

/-- A block that goes up to the next token is not complete before that token is seen. -/
theorem State.Shifts.not_isBlockTo {q : Construct} (h : Shifts goal limit (initial 0) p τ)
    (hq : q ∈ τ.constructs) : ¬ q.IsBlockTo p.length := by
  rintro ⟨hk, hstop⟩
  have hend := ((h.log_eq ["move"]).2 q hq).2 hk
  rw [hstop, List.drop_left] at hend
  exact absurd hend (by decide)

theorem constructs_of_derives (h : Derives goal p s) :
    s.constructs 0 = ((initial 0).after goal s).constructs ++ goal.outermost s := by
  cases goal with
  | statement =>
    simp [State.constructs, after, addAll, initial, Goal.parts, frameConstructs, Mode.constructs,
      Goal.outermost]
  | block =>
    have hw := h.wellFormed
    have hs := WellFormed.eq_block hw.1 ((goal_eq_block_iff s).1 hw.2)
    rw [hs]
    simp [State.constructs, after, addAll, initial, Goal.parts, frameConstructs, Mode.constructs,
      Goal.outermost]

theorem stop_of_derives (h : Derives goal p s) : (⟨0, s⟩ : Construct).stop = p.length := by
  simp [Construct.stop, h.eq_tokens]

/-! ### Success -/

/-- The record of a parse that succeeds. -/
theorem log_of_returns (h : (run goal none (initial 0) ts).Returns goal s r) :
    (run goal none (initial 0) ts).last.log = Construct.events ts (s.constructs 0) := by
  obtain ⟨p, rfl, hs, hr⟩ := derives_of_returns h
  rw [constructs_of_derives hs, Construct.events_append, ← ((shifts_of_derives hs).log_eq r).1]
  cases goal with
  | statement =>
    rw [run_statement hs (by simp) 0 r]
    simp [Goal.outermost, Construct.events]
  | block =>
    rw [run_block hs (by simp) 0 hr]
    have hk : s.kind = .block := (goal_eq_block_iff s).1 hs.wellFormed.2
    simp [Goal.outermost, Construct.events, Construct.event, hk, stop_of_derives hs, State.record]

/-! ### Failure -/

/-- A token that is refused is recorded as the end of a block if it is one. -/
theorem log_of_fail {last : State} {v : Violation} (hσ : σ.IsAligned)
    (h : σ.step goal limit (front r) = .fail last v) :
    last.log = σ.log ++ Construct.events (σ.tokens ++ r) (σ.ending (front r)) := by
  unfold State.step at h
  split at h
  · next hm =>
    split at h
    · next hend =>
      unfold endBlock at h
      split at h
      · next hf =>
        cases goal <;> cases h
        simp [ending, hm, hf, Construct.events]
      · next f frames hf =>
        rw [ending_of_endsBlock hend hm hf, events_body hσ hm hf]
        split at h <;> cases h
        rfl
    · next hend =>
      rw [ending_of_not_endsBlock hend]
      unfold beginStatement at h
      split at h <;> split at h <;> cases h <;> simp [Construct.events]
  · next hm =>
    split at h <;> cases h
    simp [ending, hm, Construct.events]
  · next hm =>
    split at h <;> cases h
    simp [ending, hm, Construct.events]
  · next header _ _ hm =>
    unfold closeStatement at h
    split at h
    · cases h
    · cases header <;> cases h
      simp [ending, hm, Construct.events]

theorem Stops.log_of_error (hσ : σ.IsAligned) (h : Stops goal limit σ r o)
    (he : o.error? = some e) :
    o.last.log = σ.log ++ Construct.events (σ.tokens ++ r) (σ.ending (front r)) := by
  cases h with
  | finished _ => cases he
  | halt _ _ => cases he
  | fail _ hs => exact log_of_fail hσ hs
  | reject _ hs =>
    obtain ⟨s, start, hm⟩ := mode_of_reject hs
    obtain ⟨rfl, -⟩ := reject_of_step hs
    simp [ending, hm, shift, Construct.events]
  | exhausted _ hhalt hfail =>
    cases hs : σ.step goal limit Token.endOfInput with
    | halt last => exact absurd hs (hhalt last)
    | fail last v => exact absurd hs (hfail last v)
    | shift next => exact absurd rfl (takes_of_step hs).ne_endOfInput
    | reject last v =>
      obtain ⟨s, start, hm⟩ := mode_of_reject hs
      simp [ending, hm, Construct.events]

/-! ### Completions -/

/-- The nodes of a completion: those that were complete before, and others that end later. Which
blocks among these end right there is decided by the first token of the completion. -/
theorem constructs_of_completion (hp : Shifts goal none (initial 0) p σ)
    (h : (run goal none (initial 0) (p ++ u)).Returns goal s []) :
    ∃ later, s.constructs 0 = σ.constructs ++ later ∧ (∀ q ∈ later, q.EndsAfter p.length) ∧
      (u = [] → σ.mode = .statement ∧ σ.frames = [] ∧ (goal = .statement → later = [])) ∧
      ∀ t rest, u = t :: rest →
        later.filter (fun q => q.IsBlockTo p.length) = σ.ending t := by
  obtain ⟨w, hw, hs, -⟩ := derives_of_returns h
  obtain rfl : p ++ u = w := by simpa using hw
  obtain ⟨τ, hτ, hu⟩ := (shifts_of_derives hs).of_append
  obtain rfl := hτ.unique hp
  have hproper := hp.isProper (isProper_initial 0)
  obtain ⟨haligned, -, hposition⟩ := hp.of_initial
  obtain ⟨later, hlater, hafter, -⟩ := hu.constructs hproper haligned
  have hstop := stop_of_derives hs
  rw [hposition] at hafter
  refine ⟨later ++ goal.outermost s, ?_, ?_, ?_, ?_⟩
  · rw [constructs_of_derives hs, hlater, List.append_assoc]
  · rw [List.forall_mem_append]
    refine ⟨hafter, fun q hq => ?_⟩
    cases goal with
    | statement => cases hq
    | block =>
      obtain rfl : q = ⟨0, s⟩ := List.mem_singleton.1 hq
      have hk : s.kind = .block := (goal_eq_block_iff s).1 hs.wellFormed.2
      exact ⟨by rw [hstop]; simp, fun hne => absurd hk hne⟩
  · rintro rfl
    cases hu
    have hnil : later = [] := by simpa using hlater
    exact ⟨rfl, rfl, by rintro rfl; simp [hnil, Goal.outermost]⟩
  · rintro t rest rfl
    have hblocks := hu.filter_isBlockTo hproper haligned hlater
    rw [hposition] at hblocks
    have hnone : (goal.outermost s).filter (fun q => q.IsBlockTo p.length) = [] := by
      cases goal with
      | statement => rfl
      | block => simp [Goal.outermost, Construct.IsBlockTo, hstop]
    rw [List.filter_append, hblocks, hnone, List.append_nil]

/-- An open block can be ended right after the tokens taken so far. -/
theorem exists_hasBlockTo (hp : Shifts goal none (initial 0) p σ) (hf : σ.finished goal = false)
    (hm : σ.mode = .statement) (hfr : σ.frames = f :: frames) :
    ∃ u s, (run goal none (initial 0) (p ++ u)).Returns goal s [] ∧ s.HasBlockTo p.length := by
  have hend : Shifts goal none (initial 0) (p ++ ["END"]) _ :=
    hp.append (.cons hf (.endBlock hm hfr) .nil)
  obtain ⟨last, hlast⟩ := run_completion hend hf
  rw [List.append_assoc] at hlast
  have hreturns : (run goal none (initial 0) _).Returns goal (last.result goal) [] :=
    hlast ▸ Outcome.result_eq_ok
  obtain ⟨later, hs, -, -, hblocks⟩ := constructs_of_completion hp hreturns
  have hending : σ.ending "END" = [f.body] := ending_of_endsBlock (by decide) hm hfr
  have hbody : f.body ∈ later.filter (fun q => q.IsBlockTo p.length) := by
    rw [hblocks _ _ rfl, hending]
    exact List.mem_singleton_self _
  rw [List.mem_filter, decide_eq_true_eq] at hbody
  refine ⟨_, _, hreturns, f.body, ?_, hbody.2⟩
  rw [hs]
  exact List.mem_append_right _ hbody.1

/-- There is a completion that ends a block if any does. -/
theorem exists_isCompletion (hp : Shifts goal none (initial 0) p σ)
    (hf : σ.finished goal = false) (r : List Token) :
    ∃ s, IsCompletion goal (p ++ r) p.length s := by
  by_cases hblock : ∃ u s, (run goal none (initial 0) (p ++ u)).Returns goal s [] ∧
      s.HasBlockTo p.length
  · obtain ⟨u, s, hreturns, hs⟩ := hblock
    exact ⟨s, ⟨u, by rwa [List.take_left]⟩, fun _ _ _ _ => hs⟩
  · obtain ⟨last, hlast⟩ := run_completion hp hf
    refine ⟨last.result goal, ⟨σ.completion goal, ?_⟩, fun u s hreturns hs => ?_⟩
    · rw [List.take_left, hlast]
      exact Outcome.result_eq_ok
    · rw [List.take_left] at hreturns
      exact absurd ⟨u, s, hreturns, hs⟩ hblock

/-- A completion ends the open block at once if it may. -/
theorem IsCompletion.ending_eq {t' : Token} (hs : IsCompletion goal (p ++ r) p.length s)
    (hp : Shifts goal none (initial 0) p σ) (hf : σ.finished goal = false)
    (hreturns : (run goal none (initial 0) (p ++ t :: u)).Returns goal s [])
    (ht' : t'.endsBlock) : σ.ending t = σ.ending t' := by
  by_contra hne
  -- A block that is open can be ended here, so the completion ends one here too.
  have hopen : ∃ f frames, σ.mode = .statement ∧ σ.frames = f :: frames := by
    by_cases h : σ.ending t = []
    · exact exists_frame_of_ending fun h' => hne (h.trans h'.symm)
    · exact exists_frame_of_ending h
  obtain ⟨f, frames, hm, hfr⟩ := hopen
  obtain ⟨u', s', hreturns', hblock⟩ := exists_hasBlockTo hp hf hm hfr
  obtain ⟨q, hq, hto⟩ := hs.ends u' s' (by rwa [List.take_left]) hblock
  obtain ⟨later, hlater, -, -, hcons⟩ := constructs_of_completion hp hreturns
  rw [hlater, List.mem_append] at hq
  have hmem : q ∈ later.filter fun q => q.IsBlockTo p.length :=
    List.mem_filter.2
      ⟨hq.resolve_left fun hq => hp.not_isBlockTo hq hto, decide_eq_true hto⟩
  rw [hcons t u rfl] at hmem
  by_cases ht : t.endsBlock
  · exact hne ((ending_of_endsBlock ht hm hfr).trans (ending_of_endsBlock ht' hm hfr).symm)
  · rw [ending_of_not_endsBlock ht] at hmem
    cases hmem

/-- The nodes of a completion that are complete when the next token is seen. -/
theorem IsCompletion.filter_isComplete (hs : IsCompletion goal (p ++ r) p.length s)
    (hp : Shifts goal none (initial 0) p σ) (hf : σ.finished goal = false)
    (hhalt : ∀ last, σ.step goal none (front r) ≠ .halt last) :
    (s.constructs 0).filter (fun q => q.IsComplete (p ++ r) p.length) =
      σ.constructs ++ σ.ending (front r) := by
  obtain ⟨u, hreturns⟩ := hs.returns
  rw [List.take_left] at hreturns
  obtain ⟨later, hlater, hafter, hnil, hcons⟩ := constructs_of_completion hp hreturns
  have hbefore : σ.constructs.filter (fun q => q.IsComplete (p ++ r) p.length) = σ.constructs :=
    List.filter_eq_self.2 fun q hq => decide_eq_true ((hp.log_eq r).2 q hq)
  have hthere : later.filter (fun q => q.IsComplete (p ++ r) p.length) =
      later.filter fun q => q.IsBlockTo p.length ∧ (front r).endsBlock := by
    refine List.filter_congr fun q hq => ?_
    rw [decide_eq_decide, (hafter q hq).isComplete_iff, List.drop_left]
  rw [hlater, List.filter_append, hbefore, hthere]
  congr 1
  by_cases hend : (front r).endsBlock
  · simp only [hend, and_true]
    cases u with
    | nil =>
      obtain ⟨hm, hfr, hempty⟩ := hnil rfl
      cases goal with
      | statement => simp [hempty rfl, ending, hm, hfr]
      | block => exact absurd (step_halt hm hfr hend) (hhalt _)
    | cons t u =>
      rw [hcons t u rfl]
      exact hs.ending_eq hp hf hreturns hend
  · rw [ending_of_not_endsBlock hend, List.filter_eq_nil_iff]
    simp [hend]

/-- The record of a parse that fails. -/
theorem log_of_error (hp : Shifts goal none (initial 0) p σ) (hstop : Stops goal none σ r o)
    (he : o.error? = some e) (hs : IsCompletion goal (p ++ r) p.length s) :
    o.last.log = Construct.events (p ++ r)
      ((s.constructs 0).filter fun q => q.IsComplete (p ++ r) p.length) := by
  obtain ⟨haligned, htokens, -⟩ := hp.of_initial
  have hhalt : ∀ last, σ.step goal none (front r) ≠ .halt last := by
    intro last hhalt
    have ho : o = ⟨none, last, r⟩ :=
      hstop.run_eq.symm.trans (Stops.halt (hstop.error he).1 hhalt).run_eq
    rw [ho] at he
    cases he
  rw [hs.filter_isComplete hp (hstop.error he).1 hhalt, Construct.events_append,
    ← (hp.log_eq r).1, hstop.log_of_error haligned he, htokens]

theorem IsCompletion.stands {n : Nat} {q : Construct} (hs : IsCompletion goal ts n s)
    (hq : q ∈ s.constructs 0) (hn : n ≤ ts.length) (hle : q.stop ≤ n) : q.Stands ts := by
  obtain ⟨⟨u, hreturns⟩, -⟩ := hs
  obtain ⟨w, hw, hderives, -⟩ := derives_of_returns hreturns
  obtain ⟨hwell, hlies⟩ := hderives.liesIn hq
  refine hlies.stands hwell ?_
  have hlength : (ts.take n).length = n := List.length_take_of_le hn
  rw [List.append_nil] at hw
  rw [← hw, List.take_append_of_le_length (by rwa [hlength])]
  exact (List.take_prefix _ _).trans (List.take_prefix _ _)

/-! ### The record -/

/-- The debug record of a parse is a list of nodes from the leaves up. If the parse succeeds, they
are those of the tree; the tokens where the record says that a node stands are those of the node,
and they alone are parsed as the node. If it fails, they are the nodes that are complete at the
error, of whatever tree the tokens before the error are completed to. -/
theorem log_eq_records (goal : Goal) (ts : List Token) :
    let o := run goal none (initial 0) ts
    (∀ s r, o.Returns goal s r →
      o.last.log.map Event.message = Construct.records ts (s.constructs 0) ∧
        ∀ q ∈ s.constructs 0, q.Stands ts) ∧
    ∀ e, o.result goal = .error e → ∃ n : Nat, e.position = some (n : Int) ∧ n ≤ ts.length ∧
      (∃ s, IsCompletion goal ts n s) ∧
      ∀ s, IsCompletion goal ts n s →
        let done := (s.constructs 0).filter fun q => q.IsComplete ts n
        o.last.log.map Event.message = Construct.records ts done ∧ ∀ q ∈ done, q.Stands ts := by
  intro o
  refine ⟨fun s r hreturns => ⟨?_, fun q hq => ?_⟩, fun e he => ?_⟩
  · rw [log_of_returns hreturns, Construct.map_message_events]
  · obtain ⟨p, hts, hs, -⟩ := derives_of_returns hreturns
    obtain ⟨hw, hlies⟩ := hs.liesIn hq
    rw [hts]
    exact hlies.stands hw ((List.take_prefix _ _).trans (List.prefix_append _ _))
  · rw [Outcome.result_eq_error_iff] at he
    obtain ⟨p, σ, r, rfl, hp, hstop⟩ := run_cases goal none (initial 0) ts
    obtain ⟨hf, hposition, -⟩ := hstop.error he
    have hn : p.length ≤ (p ++ r).length := by simp
    rw [hp.of_initial.2.2] at hposition
    refine ⟨p.length, hposition, hn, exists_isCompletion hp hf r, fun s hs => ⟨?_, fun q hq => ?_⟩⟩
    · rw [log_of_error hp hstop he hs, Construct.map_message_events]
    · rw [List.mem_filter, decide_eq_true_eq] at hq
      exact hs.stands hq.1 hn hq.2.1

/-- The loop is not complete, since its last keyword is wrong, but what is inside it is. -/
example :
    (run .block none (initial 0) ["WHILE", "true", "DO", "IF", "random", "THEN", "ELSE", "END",
      "IF", "END", "IF"]).last.log.map Event.message =
      ["block of 0 statement(s) ends at 'ELSE'", "block of 0 statement(s) ends at 'END'",
        "parsed IF_ELSE at tokens 3-8", "block of 1 statement(s) ends at 'END'"] := by
  decide +kernel

end Parser

end BlockLang
