import BlockLang.Proofs.Parser.Acceptance
import BlockLang.Proofs.Parser.Position

/-! Where a statement is put together. That is when all its blocks are complete, which is before its
closing keywords are read; so the tokens up to there say what the statement is, and the rest of the
run only finds out whether it is closed. -/

namespace BlockLang.Parser

open State Statement

/-- Tokens that lead into a block of a compound statement. -/
inductive Leads : List Token → Branch → Prop where
  | first {h : Header} {t : Token} {c : Condition} : Condition.ofToken? t = some c →
      Leads [h.keyword, t, h.opener] (h.branch c)
  | second {t : Token} {c : Condition} {p : List Token} {xs : List Statement} :
      Condition.ofToken? t = some c → Derives .block p (.block xs) →
      Leads (["IF", t, "THEN"] ++ p ++ ["ELSE"]) (.elseBody c xs)

/-- Tokens after which a statement is put together if `next` comes: a call, or a compound statement
up to the end of its last block. -/
inductive Assembles : List Token → Statement → Token → Prop where
  | call {t next : Token} : t.isIdentifier → Assembles [t] (.call t) next
  | compound {w p : List Token} {b : Branch} {xs : List Statement} {next : Token} : Leads w b →
      Derives .block p (.block xs) → next.endsBlock → b.isLast next →
      Assembles (w ++ p) (b.close xs) next

/-- What closes a statement that has been put together: from a stream to an error, if what closes it
is missing, and to the stream that is left. A call needs nothing. A choice ends with `END` and `IF`;
the `END` of one without a second block is there already. A loop ends with `END` and `WHILE`. -/
inductive Closes : Kind → TokenStream → Option SyntaxError → TokenStream → Prop where
  | call {s : TokenStream} : Closes .call s none s
  | choice {k : Kind} {r : List Token} {n : Nat} : k = .ifThen ∨ k = .ifElse →
      Closes k ⟨"END" :: "IF" :: r, n⟩ none ⟨r, n + 2⟩
  | wrongIf {k : Kind} {t : Token} {r : List Token} {n : Nat} : k = .ifThen ∨ k = .ifElse →
      t ≠ "IF" → Closes k ⟨"END" :: t :: r, n⟩
        (some ((Violation.closer .ifThen).error (n + 1) (some t))) ⟨r, n + 2⟩
  | missingIf {k : Kind} {n : Nat} : k = .ifThen ∨ k = .ifElse →
      Closes k ⟨["END"], n⟩ (some (Violation.moreTokens.error (n + 1) none)) ⟨[], n + 1⟩
  | wrongEndOfElse {s : TokenStream} : s.front ≠ "END" →
      Closes .ifElse s (some (Violation.endOfElse.error s.position (some s.front))) s
  | loop {r : List Token} {n : Nat} :
      Closes .whileDo ⟨"END" :: "WHILE" :: r, n⟩ none ⟨r, n + 2⟩
  | wrongWhile {r : List Token} {n : Nat} : front r ≠ "WHILE" → Closes .whileDo ⟨"END" :: r, n⟩
      (some ((Violation.closer .whileDo).error (n + 1) (some (front r)))) ⟨r, n + 1⟩
  | wrongEndOfLoop {s : TokenStream} : s.front ≠ "END" → Closes .whileDo s
      (some ((Violation.endOfLoop s.front).error s.position (some s.front))) s

variable {σ τ : State} {p q r w ts : List Token} {b : Branch} {x : Statement}
  {xs : List Statement} {n : Nat} {t : Token}

/-- Only the sentinel shows at the front of an exhausted stream. -/
theorem eq_cons_of_front (h : front ts = t) (ht : t ≠ Token.endOfInput) : ∃ r, ts = t :: r := by
  cases ts with
  | nil => exact absurd h.symm ht
  | cons t' r => exact ⟨r, by rw [← h]; rfl⟩

/-! ### Into the last block -/

/-- A state at the end of a block of the outermost statement, which began at `n`. -/
structure State.IsAtEndOf (τ : State) (n : Nat) (b : Branch) (xs : List Statement) : Prop where
  mode : τ.mode = .statement
  outer : τ.outer = []
  frames : τ.frames = [⟨b, n, xs⟩]

/-- Nothing is complete as long as a statement is open. -/
theorem State.IsAtEndOf.finished (h : τ.IsAtEndOf n b xs) : τ.finished .statement = false :=
  (finished_statement τ).2 h.outer

theorem State.IsAtEndOf.append {ys : List Statement} (h : τ.IsAtEndOf n b xs)
    (hp : Derives .block p (.block ys)) :
    ∃ υ, Shifts .statement none τ p υ ∧ υ.IsAtEndOf n b (xs ++ ys) := by
  have hne : τ.frames ≠ [] := by simp [h.frames]
  refine ⟨_, hp.shifts τ h.mode h.finished (by simp) fun _ => .inr hne, rfl, ?_, ?_⟩
  · rw [outer_after _ _ hne, h.outer]
  · simp [after, addAll, h.frames, Goal.parts]

theorem Leads.exists_shifts (h : Leads w b) (n : Nat) :
    ∃ τ, Shifts .statement none (initial n) w τ ∧ τ.IsAtEndOf n b [] := by
  have hfirst : ∀ (header : Header) {t : Token} {c : Condition}, Condition.ofToken? t = some c →
      Shifts .statement none (initial n) [header.keyword, t, header.opener]
        ((initial n).enter (header.branch c)) ∧
      ((initial n).enter (header.branch c)).IsAtEndOf n (header.branch c) [] :=
    fun header _ _ hc => ⟨shifts_enter header rfl rfl (by simp) hc, rfl, rfl, rfl⟩
  cases h with
  | first hc => exact ⟨_, hfirst _ hc⟩
  | @second t c p xs hc hp =>
    obtain ⟨hin, hend⟩ := hfirst .ifThen hc
    obtain ⟨υ, hblock, hυ⟩ := hend.append hp
    refine ⟨υ.turn c n xs [], (hin.append hblock).append ?_, rfl, hυ.outer, rfl⟩
    exact shifts_turn hυ.finished hυ.mode (by rw [hυ.frames]; rfl)

theorem exists_shifts_of_leads (hw : Leads w b) (hp : Derives .block p (.block xs)) (n : Nat) :
    ∃ τ, Shifts .statement none (initial n) (w ++ p) τ ∧ τ.IsAtEndOf n b xs := by
  obtain ⟨τ, hτ, hend⟩ := hw.exists_shifts n
  obtain ⟨υ, hυ, hend'⟩ := hend.append hp
  exact ⟨υ, hτ.append hυ, hend'⟩

/-! ### The place -/

theorem assembled?_eq_some (ho : σ.outer = []) (hx : σ.assembled? t = some x) :
    σ.mode = .statement ∧ ∃ f, σ.frames = [f] ∧ t.endsBlock ∧ f.branch.isLast t ∧
      x = f.branch.close f.done := by
  unfold State.assembled? at hx
  split at hx
  · next ho' _ => cases ho.symm.trans ho'
  · next hm _ hfr =>
    split at hx
    · next hend =>
      rw [Bool.and_eq_true] at hend
      exact ⟨hm, _, hfr, hend.1, hend.2, (Option.some.inj hx).symm⟩
    · cases hx
  · cases hx

theorem State.IsAtEndOf.assembled? (h : τ.IsAtEndOf n b xs) (he : t.endsBlock)
    (hl : b.isLast t) : τ.assembled? t = some (b.close xs) := by
  simp [State.assembled?, h.mode, h.outer, h.frames, he, hl]

/-- When a statement is put together, the next token leads out of it, and no other begins. -/
theorem frames_eq_nil_of_assembled? (ho : σ.outer = []) (hx : σ.assembled? t = some x)
    (ht : σ.Takes none t τ) (h : Shifts .statement none τ p υ) : υ.frames = [] := by
  obtain ⟨hm, f, hfr, he, hl, -⟩ := assembled?_eq_some ho hx
  cases ht with
  | @header k _ _ =>
    rw [Header.endsBlock_keyword] at he
    cases he
  | call _ hid =>
    rw [Token.not_endsBlock_of_isIdentifier hid] at he
    cases he
  | elseBody _ hfr' =>
    cases hfr.symm.trans hfr'
    exact absurd hl (by simp [Branch.isLast])
  | endBlock _ hfr' =>
    cases hfr.symm.trans hfr'
    -- Only the closing keyword can come now, and the statement is complete then.
    cases h with
    | nil => rfl
    | cons _ ht hrest =>
      cases ht with
      | header hm' _ => cases hm'
      | call hm' _ => cases hm'
      | elseBody hm' _ => cases hm'
      | endBlock hm' _ => cases hm'
      | condition hm' _ => cases hm'
      | opener hm' => cases hm'
      | closer _ =>
        cases hrest with
        | nil => rfl
        | cons hf _ _ => simp [State.finished, State.add, State.shift, State.record] at hf
  | condition hm' _ => cases hm.symm.trans hm'
  | opener hm' => cases hm.symm.trans hm'
  | closer hm' => cases hm.symm.trans hm'

theorem assembly?_of_shifts (h : Shifts .statement none σ p τ) (hτ : τ.frames ≠ [])
    (r : List Token) : assembly? σ (p ++ r) = assembly? τ r := by
  induction h with
  | nil => rfl
  | @cons σ υ τ t p hf ht hrest ih =>
    have ho := (finished_statement σ).1 hf
    have hnone : σ.assembled? t = none := by
      rw [Option.eq_none_iff_forall_ne_some]
      exact fun x hx => hτ (frames_eq_nil_of_assembled? ho hx ht hrest)
    rw [List.cons_append, assembly?_cons, hnone, ht.step]
    exact ih hτ

theorem assembly?_of_assembled? (h : σ.assembled? (front r) = some x) :
    assembly? σ r = some (x, σ, r) := by
  rw [assembly?.eq_def, h]

/-- The tokens of a statement lead to the place where it is put together. -/
theorem exists_assembly?_eq (h : Assembles p x (front r)) (n : Nat) :
    ∃ τ, assembly? (initial n) (p ++ r) = some (x, τ, r) ∧ τ.position = n + p.length := by
  generalize hnext : front r = next at h
  cases h with
  | @call t _ hid =>
    subst hnext
    have ht : (initial n).Takes none t _ := .call rfl hid
    refine ⟨((initial n).add (.call t)).shift .statement, ?_, ht.position⟩
    rw [List.singleton_append, assembly?_cons]
    simp only [ht.step]
    exact assembly?_of_assembled? rfl
  | compound hw hp he hl =>
    obtain ⟨τ, hτ, hend⟩ := exists_shifts_of_leads hw hp n
    refine ⟨τ, ?_, hτ.position⟩
    rw [assembly?_of_shifts hτ (by simp [hend.frames])]
    exact assembly?_of_assembled? (hend.assembled? (hnext ▸ he) (hnext ▸ hl))

/-- Every statement is put together before its closing keywords. -/
theorem exists_assembles_of_derives (h : Derives .statement q x) :
    ∃ p w, q = p ++ w ∧ ∀ r, Assembles p x (front (w ++ r)) := by
  cases h with
  | @call t hid => exact ⟨[t], [], rfl, fun _ => .call hid⟩
  | @ifThen t c p body hc hp =>
    have hw : Leads ["IF", t, "THEN"] (.ifBody c) := .first (h := .ifThen) hc
    exact ⟨_, ["END", "IF"], rfl, fun _ => .compound hw hp rfl rfl⟩
  | @ifElse t c p q body body' hc hp hq =>
    exact ⟨_, ["END", "IF"], rfl, fun _ => .compound (.second hc hp) hq rfl rfl⟩
  | @whileDo t c p body hc hp =>
    have hw : Leads ["WHILE", t, "DO"] (.whileBody c) := .first (h := .whileDo) hc
    exact ⟨_, ["END", "WHILE"], rfl, fun _ => .compound hw hp rfl rfl⟩

theorem derives_block_of_isProgram (h : ∀ s ∈ xs, s.IsProgram) :
    Derives .block (tokensAll xs) (.block xs) :=
  derives_iff.2 ⟨(wellFormed_block xs).2 h, rfl, rfl⟩

theorem leads_tokens (hb : b.IsProper) : Leads b.tokens b := by
  cases b with
  | ifBody c => exact .first (h := .ifThen) (Condition.ofToken?_token c)
  | elseBody c xs => exact .second (Condition.ofToken?_token c) (derives_block_of_isProgram hb)
  | whileBody c => exact .first (h := .whileDo) (Condition.ofToken?_token c)

/-- The parser puts a statement together where the tokens before have led to it, and only there. -/
theorem assembles_of_assembly? (h : assembly? (initial n) ts = some (x, τ, r)) :
    ∃ p, ts = p ++ r ∧ Assembles p x (front r) ∧ τ.position = n + p.length := by
  obtain ⟨p, rfl, hp, hx⟩ := shifts_of_assembly? (.inl rfl) h
  have hτ := hp.isProper (isProper_initial n)
  have htokens : τ.tokens = p := by simpa using hp.tokens (isProper_initial n)
  refine ⟨p, rfl, ?_, hp.position⟩
  rcases hp.isSingle (.inl rfl) with ho | ⟨s, ho, hfr, hm⟩
  · obtain ⟨hm, f, hfr, he, hl, rfl⟩ := assembled?_eq_some ho hx
    have hf : f.IsProper := hτ.frames f (by simp [hfr])
    rw [← htokens, State.tokens, ho, hm, hfr]
    simpa [frameTokens, Mode.tokens] using
      Assembles.compound (leads_tokens hf.1) (derives_block_of_isProgram hf.2) he hl
  · -- The statement is closed already. So it was put together before, unless it is a call.
    obtain rfl : s = x := by simpa [State.assembled?, ho, hfr, hm] using hx
    have hs : s.IsProgram := hτ.outer s (by simp [ho])
    have hd : Derives .statement p s := by
      refine derives_iff.2 ⟨hs.1, hs.parses.2, ?_⟩
      simpa [State.tokens, ho, hfr, hm, frameTokens, Mode.tokens] using htokens.symm
    obtain ⟨p, w, rfl, hw⟩ := exists_assembles_of_derives hd
    obtain ⟨τ', hτ', -⟩ := exists_assembly?_eq (hw r) n
    rw [List.append_assoc, hτ'] at h
    have hr : w ++ r = r := congrArg (fun y => y.2.2) (Option.some.inj h)
    obtain rfl := List.append_left_eq_self.1 hr
    simpa using hw r

/-! ### After the place -/

/-- A run closes a statement of some kind, or fails to. -/
def Outcome.Closes (o : Outcome) (k : Kind) (s : TokenStream) : Prop :=
  Parser.Closes k s o.error? o.stream

/-- A state after the `END` of the outermost statement. -/
structure State.IsClosing (σ : State) (h : Header) (x : Statement) : Prop where
  mode : ∃ start, σ.mode = .closer h x start
  outer : σ.outer = []
  frames : σ.frames = []

variable {h : Header} {k : Kind}

/-- The closing keyword completes the statement, and the run ends. -/
theorem State.IsClosing.closes_keyword {s : TokenStream} (hσ : σ.IsClosing h x)
    (hs : Closes k s none ⟨r, σ.position + 1⟩) :
    (run .statement none σ (h.keyword :: r)).Closes k s := by
  obtain ⟨⟨start, hm⟩, ho, hfr⟩ := hσ
  have htakes : σ.Takes none h.keyword _ := .closer hm
  have hfinished : (((σ.add x).record (.statement x.kind start σ.position)).shift
      .statement).finished .statement = true := by
    simp [finished, shift, record, add, hfr]
  rw [run_cons, (finished_statement σ).2 ho, htakes.step]
  simp only [Bool.false_eq_true, if_false, (Stops.finished hfinished).run_eq]
  rwa [Outcome.Closes, Outcome.stream, htakes.position]

/-- What stands in place of the closing keyword of a choice is taken and refused. -/
theorem State.IsClosing.closes_choice (hσ : σ.IsClosing .ifThen x)
    (hk : k = .ifThen ∨ k = .ifElse) (hn : σ.position = n + 1) (r : List Token) :
    (run .statement none σ r).Closes k ⟨"END" :: r, n⟩ := by
  have hf := (finished_statement σ).2 hσ.outer
  obtain ⟨start, hm⟩ := hσ.mode
  have hstep : ∀ t, t ≠ "IF" →
      σ.step .statement none t = .reject (σ.shift σ.mode) (.closer .ifThen) := by
    intro t ht
    have hne : t ≠ Header.ifThen.keyword := ht
    simp only [State.step, hm, closeStatement, if_neg hne]
  cases r with
  | nil =>
    rw [run_nil, hf, hstep Token.endOfInput (by decide)]
    simp only [Bool.false_eq_true, if_false, Outcome.Closes, Outcome.stream, hn]
    exact .missingIf hk
  | cons t r =>
    by_cases ht : t = "IF"
    · subst ht
      exact hσ.closes_keyword (by rw [hn]; exact .choice hk)
    · rw [run_cons, hf, hstep t ht]
      simp only [Bool.false_eq_true, if_false, Outcome.Closes, Outcome.stream, shift, hn]
      exact .wrongIf hk ht

/-- What stands in place of the closing keyword of a loop is refused where it stands. -/
theorem State.IsClosing.closes_loop (hσ : σ.IsClosing .whileDo x) (hn : σ.position = n + 1)
    (r : List Token) : (run .statement none σ r).Closes .whileDo ⟨"END" :: r, n⟩ := by
  have hf := (finished_statement σ).2 hσ.outer
  obtain ⟨start, hm⟩ := hσ.mode
  by_cases hr : front r = "WHILE"
  · obtain ⟨r, rfl⟩ := eq_cons_of_front hr (by decide)
    exact hσ.closes_keyword (by rw [hn]; exact .loop)
  · have hne : front r ≠ Header.whileDo.keyword := hr
    have hstep : σ.step .statement none (front r) = .fail σ (.closer .whileDo) := by
      simp only [State.step, hm, closeStatement, if_neg hne]
    rw [(Stops.fail hf hstep).run_eq]
    simp only [Outcome.Closes, Outcome.stream, hn]
    exact .wrongWhile hr

theorem State.IsAtEndOf.closes (hτ : τ.IsAtEndOf n b xs) (he : (front r).endsBlock)
    (hl : b.isLast (front r)) :
    (run .statement none τ r).Closes (b.close xs).kind ⟨r, τ.position⟩ := by
  by_cases hend : front r = "END"
  · obtain ⟨r, rfl⟩ := eq_cons_of_front hend (by decide)
    have htakes : τ.Takes none "END" (τ.atEnd ⟨b, n, xs⟩ []) := .endBlock hτ.mode hτ.frames
    rw [run_cons, hτ.finished, htakes.step]
    have hclosing : (τ.atEnd ⟨b, n, xs⟩ []).IsClosing b.header (b.close xs) :=
      ⟨⟨n, rfl⟩, hτ.outer, rfl⟩
    cases b with
    | ifBody c => exact hclosing.closes_choice (.inl rfl) htakes.position r
    | elseBody c ys => exact hclosing.closes_choice (.inr rfl) htakes.position r
    | whileBody c => exact hclosing.closes_loop htakes.position r
  · have hstep : τ.step .statement none (front r) =
        .fail (τ.record (.block xs.length (front r))) (b.lacks (front r)) := by
      simp only [State.step, hτ.mode, he, if_true, endBlock, hτ.frames]
      generalize front r = t at hl hend
      split
      · exact absurd hl (by simp [Branch.isLast])
      · exact absurd rfl hend
      · rfl
    rw [(Stops.fail hτ.finished hstep).run_eq]
    cases b with
    | ifBody c => exact absurd (by simpa [Branch.isLast] using hl) hend
    | elseBody c ys => exact .wrongEndOfElse (s := ⟨r, τ.position⟩) hend
    | whileBody c => exact .wrongEndOfLoop (s := ⟨r, τ.position⟩) hend

/-- After the place where a statement is put together the run only closes it. -/
theorem closes_of_assembles (h : Assembles p x (front r)) (n : Nat) :
    (run .statement none (initial n) (p ++ r)).Closes x.kind ⟨r, n + p.length⟩ := by
  generalize hnext : front r = next at h
  cases h with
  | @call t _ hid =>
    rw [run_statement (.call hid) (by simp) n r]
    exact .call
  | compound hw hp he hl =>
    obtain ⟨τ, hτ, hend⟩ := exists_shifts_of_leads hw hp n
    have hposition : τ.position = n + _ := hτ.position
    rw [run_of_shifts hτ, ← hposition]
    exact hend.closes (hnext ▸ he) (hnext ▸ hl)

end BlockLang.Parser
