import BlockLang.Proofs.Descent.Plan
import BlockLang.Proofs.Descent.Steps
import BlockLang.Proofs.Forest.Sprouting
import BlockLang.Proofs.Parser.Position

/-! What every routine keeps in order, however it ends: tokens go from the front of the stream and
are counted, old nodes stay as they are, and a violation stands at the front of what is left or, in
place of a keyword that was taken, right before it. With its error this says where a run of the
parser leaves the stream, so a routine with the same error leaves the same stream. -/

namespace BlockLang

open BlockLang.Parser State

/-- Tokens have gone from the front of a stream. -/
def TokenStream.Passes (s s' : TokenStream) : Prop :=
  ∃ p, s.rest = p ++ s'.rest ∧ s'.position = s.position + p.length

/-- An error stands where a stream is left, or at the token before if that was taken in place of the
closing keyword of a choice. -/
def SyntaxError.LeavesAt (e : SyntaxError) (s : TokenStream) : Prop :=
  ∃ q : Nat, e.position = some (q : Int) ∧
    s.position = if e.text = (Violation.closer .ifThen).text then q + 1 else q

namespace TokenStream

variable {s s' s'' : TokenStream} {e : SyntaxError}

theorem Passes.refl (s : TokenStream) : s.Passes s := ⟨[], rfl, rfl⟩

theorem Passes.trans (h : s.Passes s') (h' : s'.Passes s'') : s.Passes s'' := by
  obtain ⟨p, hp, hn⟩ := h
  obtain ⟨q, hq, hm⟩ := h'
  refine ⟨p ++ q, by rw [hp, hq, List.append_assoc], ?_⟩
  rw [hm, hn, List.length_append, Nat.add_assoc]

theorem passes_cons {t : Token} {r : List Token} (h : s.rest = t :: r) :
    s.Passes ⟨r, s.position + 1⟩ :=
  ⟨[t], h, rfl⟩

/-- An error tells where a stream is left. -/
theorem eq_of_leavesAt (h : s.Passes s') (h' : s.Passes s'') (he : e.LeavesAt s')
    (he' : e.LeavesAt s'') : s' = s'' := by
  obtain ⟨p, hp, hn⟩ := h
  obtain ⟨p', hp', hn'⟩ := h'
  obtain ⟨q, hq, hs⟩ := he
  obtain ⟨q', hq', hs'⟩ := he'
  obtain rfl : q = q' := Int.ofNat.inj (Option.some.inj (hq.symm.trans hq'))
  have hposition : s'.position = s''.position := hs.trans hs'.symm
  have hlen : p.length = p'.length := by omega
  obtain ⟨rest, position⟩ := s'
  obtain ⟨rest', position'⟩ := s''
  obtain rfl : rest = rest' := (List.append_inj (hp.symm.trans hp') hlen).2
  obtain rfl : position = position' := hposition
  rfl

end TokenStream

namespace Parser

theorem Violation.leavesAt (v : Violation) (hv : v ≠ .closer .ifThen) (s : TokenStream)
    (t : Option Token) : (v.error s.position t).LeavesAt s :=
  ⟨s.position, rfl, by rw [text_error, if_neg (mt (text_eq_closer_iff v).1 hv)]⟩

theorem leavesAt_closer (s : TokenStream) (n : Nat) (t : Option Token) (hn : s.position = n + 1) :
    ((Violation.closer .ifThen).error n t).LeavesAt s :=
  ⟨n, rfl, by rw [Violation.text_error, if_pos rfl, hn]⟩

/-- A run takes tokens from the front, and its error stands where the stream is left. -/
theorem passes_run {goal : Goal} {limit : Option Nat} {σ : State} {ts : List Token} {o : Outcome}
    (ho : run goal limit σ ts = o) : TokenStream.Passes ⟨ts, σ.position⟩ o.stream ∧
      ∀ e, o.error? = some e → e.LeavesAt o.stream := by
  obtain ⟨p, τ, r, rfl, hp, hstop⟩ := run_cases goal limit σ ts
  have hpass : TokenStream.Passes ⟨p ++ r, σ.position⟩ ⟨r, τ.position⟩ := ⟨p, rfl, hp.position⟩
  rw [ho] at hstop
  rcases hstop.cases with ⟨hstream, he⟩ | ⟨t, rest, rfl, hstream, he⟩
  · rw [hstream]
    refine ⟨hpass, fun e h => ?_⟩
    obtain ⟨v, t, rfl, hv, -⟩ := he e h
    exact v.leavesAt hv ⟨r, τ.position⟩ t
  · rw [hstream]
    refine ⟨hpass.trans (TokenStream.passes_cons rfl), fun e h => ?_⟩
    obtain rfl := Option.some.inj (he.symm.trans h)
    exact leavesAt_closer _ _ _ rfl

end Parser

/-- All the bodies of a plan are new. -/
def Plan.IsNew (old : Forest) : Plan → Prop
  | .call _ => True
  | .test _ _ bodies => ∀ b ∈ bodies, old.size ≤ b

namespace Descent

variable {α β : Type} {old f g : Forest} {x : Descent α} {next : α → Descent β} {P Q : α → Prop}
  {R : β → Prop} {i : NodeId} {v : Violation}

/-! ### Putting routines together -/

/-- An end of a routine on a stream, in order as far as the nodes of `old` go. -/
def IsTidy (old : Forest) (s : TokenStream) (Q : α → Prop) : EStateM.Result Fault Site α → Prop
  | .ok a s' => s.Passes s'.stream ∧ old.Extends s'.forest ∧ Q a
  | .error e s' => s.Passes s'.stream ∧ old.Extends s'.forest ∧
      ∀ v, e = .parse (.violation v) → v.LeavesAt s'.stream

/-- However a routine ends, the nodes of `old` stay as they are, tokens go from the front of the
stream, and a violation stands where they end. -/
def Tidy (old : Forest) (x : Descent α) (Q : α → Prop) : Prop :=
  ∀ s, old.Extends s.forest → IsTidy old s.stream Q (x s)

theorem Tidy.bind (hx : Tidy old x Q) (hnext : ∀ a, Q a → Tidy old (next a) R) :
    Tidy old (x >>= next) R := by
  intro s hs
  have hxs := hx s hs
  cases hr : x s with
  | error e s' =>
    rw [hr] at hxs
    rw [bind_of_error hr]
    exact hxs
  | ok a s' =>
    rw [hr] at hxs
    obtain ⟨hpass, hold, ha⟩ := hxs
    have hb := hnext a ha s' hold
    rw [bind_of_ok hr]
    cases hr' : next a s' with
    | error e s'' =>
      rw [hr'] at hb
      exact ⟨hpass.trans hb.1, hb.2⟩
    | ok b s'' =>
      rw [hr'] at hb
      exact ⟨hpass.trans hb.1, hb.2⟩

theorem tidy_pure {a : α} (ha : Q a) : Tidy old (pure a) Q :=
  fun _ hs => ⟨.refl _, hs, ha⟩

theorem tidy_stalled : Tidy old (throw .stalled : Descent α) Q := by
  refine fun _ hs => ⟨.refl _, hs, ?_⟩
  rintro v ⟨⟩

theorem tidy_get : Tidy old get fun _ => True :=
  fun _ hs => ⟨.refl _, hs, trivial⟩

/-! ### Single routines -/

theorem tidy_front : Tidy old front fun _ => True :=
  fun _ hs => ⟨.refl _, hs, trivial⟩

theorem tidy_check (holds : Bool) (v : Violation) (hv : v ≠ .closer .ifThen) :
    Tidy old (check holds v) fun _ => True := by
  intro s hs
  cases holds with
  | true => exact ⟨.refl _, hs, trivial⟩
  | false =>
    refine ⟨.refl _, hs, fun e he => ?_⟩
    cases he
    exact v.leavesAt hv s.stream _

theorem tidy_begins (beginning : Beginning) :
    Tidy old (begins beginning) fun _ => True := by
  intro s hs
  by_cases h : beginning.admits s.stream.front
  · rw [begins_of_admits h]
    exact ⟨.refl _, hs, trivial⟩
  · rw [begins_of_not_admits h]
    exact ⟨.refl _, hs, nofun⟩

theorem tidy_dequeue : Tidy old dequeue fun _ => True := by
  rintro ⟨⟨ts, n⟩, f⟩ hs
  cases ts with
  | nil =>
    refine ⟨.refl _, hs, fun e he => ?_⟩
    cases he
    exact Violation.moreTokens.leavesAt nofun ⟨[], n⟩ none
  | cons t r => exact ⟨TokenStream.passes_cons rfl, hs, trivial⟩

theorem tidy_expect (keyword : Token) (v : Violation) (hkind : v.kind = .unexpectedToken)
    (hv : v ≠ .closer .ifThen) : Tidy old (expect keyword v) fun _ => True := by
  intro s hs
  by_cases h : s.stream.front = keyword
  · rw [expect_of_eq h]
    exact tidy_dequeue s hs
  · rw [expect_of_ne h hkind]
    refine ⟨.refl _, hs, fun e he => ?_⟩
    cases he
    exact v.leavesAt hv s.stream _

theorem tidy_close (keyword : Token) :
    Tidy old (close keyword (.closer .ifThen)) fun _ => True := by
  rintro ⟨⟨ts, n⟩, f⟩ hs
  cases ts with
  | nil =>
    refine ⟨.refl _, hs, fun e he => ?_⟩
    cases he
    exact Violation.moreTokens.leavesAt nofun ⟨[], n⟩ none
  | cons t r =>
    by_cases ht : t = keyword
    · subst ht
      rw [close_keyword]
      exact ⟨TokenStream.passes_cons rfl, hs, trivial⟩
    · rw [close_of_ne ht]
      refine ⟨TokenStream.passes_cons rfl, hs, fun e he => ?_⟩
      cases he
      exact leavesAt_closer _ _ _ rfl

theorem tidy_condition (header : Header) : Tidy old (condition header) fun _ => True := by
  intro s hs
  cases hc : Condition.ofToken? s.stream.front with
  | none =>
    rw [condition_of_none hc]
    refine ⟨.refl _, hs, fun e he => ?_⟩
    cases he
    exact (Violation.condition header).leavesAt nofun s.stream _
  | some c =>
    obtain ⟨⟨ts, n⟩, f⟩ := s
    cases ts with
    | nil =>
      have hnone : Condition.ofToken? Token.endOfInput = none := by decide
      cases hnone.symm.trans hc
    | cons t r =>
      have hc : Condition.ofToken? t = some c := hc
      rw [condition_of_some hc]
      exact ⟨TokenStream.passes_cons rfl, hs, trivial⟩

theorem tidy_blockLength (i : NodeId) :
    Tidy old (blockLength i) fun _ => True := by
  intro s hs
  unfold blockLength
  cases s.forest.blockLength i with
  | error e => exact ⟨.refl _, hs, nofun⟩
  | ok k => exact ⟨.refl _, hs, trivial⟩

/-- A building routine is tidy if it changes new nodes only. -/
theorem tidy_build {change : Forest → Except BuildError Forest}
    (h : ∀ f g, old.Extends f → change f = .ok g → old.Extends g) :
    Tidy old (build change) fun _ => True := by
  intro s hs
  unfold build
  cases hg : change s.forest with
  | error e => exact ⟨.refl _, hs, nofun⟩
  | ok g => exact ⟨.refl _, h _ g hs hg, trivial⟩

theorem tidy_addToBlock {child : NodeId} (hi : old.size ≤ i) (hc : old.size ≤ child) (k : Int) :
    Tidy old (build fun f => f.addToBlock i k child) fun _ => True := by
  refine tidy_build fun f g hf hg => ?_
  have hadopts := Forest.adopts_of_addToBlock (hf.alone i hi) hg
  exact hf.of_adopts hadopts hi (by simpa using hc)

theorem tidy_planned {plan : Plan} (hi : old.size ≤ i) (hplan : plan.IsNew old) :
    Tidy old (build fun f => plan.build i f) fun _ => True := by
  refine tidy_build fun f g hf hg => ?_
  cases plan with
  | call name =>
    exact hf.of_adopts (Forest.adopts_of_assembleCall hg) hi (List.forall_mem_nil _)
  | test kind c bodies =>
    exact hf.of_adopts (Forest.adopts_of_assemble hg) hi hplan

theorem tidy_planClose (plan : Plan) : Tidy old plan.close fun _ => True := by
  have hchoice : Tidy old closeChoice fun _ => True :=
    (tidy_expect "END" .endOfElse rfl nofun).bind fun _ _ => tidy_close "IF"
  have hloop : Tidy old closeLoop fun _ => True :=
    tidy_front.bind fun t _ => (tidy_expect "END" (.endOfLoop t) rfl nofun).bind fun _ _ =>
      (tidy_expect "WHILE" (.closer .whileDo) rfl nofun).bind fun _ _ => tidy_pure trivial
  unfold Plan.close
  split
  · exact tidy_pure trivial
  · exact hloop
  · exact hchoice

/-! ### Constructs -/

section Constructs

variable {statement : NodeId → Descent Unit}
  (hstatement : ∀ i, old.size ≤ i → Tidy old (statement i) fun _ => True)

include hstatement

theorem tidy_inFresh : Tidy old (inFresh statement) fun i => old.size ≤ i := by
  have hfresh : Tidy old fresh fun i => old.size ≤ i :=
    fun s hs => ⟨.refl _, hs.trans s.forest.extends_fresh, hs.size_le⟩
  exact hfresh.bind fun i hi => (hstatement i hi).bind fun _ _ => tidy_pure hi

theorem tidy_elements (hi : old.size ≤ i) (left k : Nat) :
    Tidy old (elements statement i left k) fun _ => True := by
  induction left generalizing k with
  | zero =>
    rw [elements]
    refine tidy_front.bind fun t _ => ?_
    split
    · exact tidy_pure trivial
    · exact tidy_stalled
  | succ left ih =>
    rw [elements]
    refine tidy_front.bind fun t _ => ?_
    split
    · exact tidy_pure trivial
    · refine (tidy_inFresh hstatement).bind fun child hc => ?_
      exact (tidy_addToBlock hi hc k).bind fun _ _ => ih (k + 1)

theorem tidy_block (hi : old.size ≤ i) : Tidy old (block statement i) fun _ => True :=
  (tidy_blockLength i).bind fun _ _ => tidy_get.bind fun _ _ =>
    tidy_elements hstatement hi _ _

theorem tidy_opening (beginning : Beginning) (header : Header) :
    Tidy old (opening statement beginning header) fun opened => old.size ≤ opened.2 := by
  refine (tidy_begins beginning).bind fun _ _ => tidy_dequeue.bind fun _ _ => ?_
  refine (tidy_condition header).bind fun c _ => ?_
  refine (tidy_expect header.opener (.opener header) rfl nofun).bind fun _ _ => ?_
  exact (tidy_inFresh fun i hi => tidy_block hstatement hi).bind fun body hb => tidy_pure hb

theorem tidy_planChoice : Tidy old (planChoice statement) (Plan.IsNew old) := by
  refine (tidy_opening hstatement .ifThen .ifThen).bind fun opened hb => ?_
  refine tidy_front.bind fun t _ => (tidy_check _ (.elseOrEnd t) nofun).bind fun _ _ => ?_
  split
  · refine tidy_dequeue.bind fun _ _ => ?_
    refine (tidy_inFresh fun i hi => tidy_block hstatement hi).bind fun body hb' => ?_
    exact tidy_pure (by simpa [Plan.IsNew] using ⟨hb, hb'⟩)
  · exact tidy_pure (by simpa [Plan.IsNew] using hb)

theorem tidy_planLoop : Tidy old (planLoop statement) (Plan.IsNew old) :=
  (tidy_opening hstatement .whileDo .whileDo).bind fun opened hb =>
    tidy_pure (by simpa [Plan.IsNew] using hb)

end Constructs

theorem tidy_planCall : Tidy old planCall (Plan.IsNew old) :=
  (tidy_begins .call).bind fun _ _ => tidy_dequeue.bind fun _ _ => tidy_pure trivial

theorem tidy_planStatement {compound : Header → Descent Plan}
    (h : ∀ header, Tidy old (compound header) (Plan.IsNew old)) :
    Tidy old (planStatement compound) (Plan.IsNew old) := by
  refine tidy_front.bind fun t _ => (tidy_check _ (.statementStart t) nofun).bind fun _ _ => ?_
  split
  · exact h _
  · exact tidy_planCall

theorem tidy_finish {plan : Plan} (hi : old.size ≤ i) (hplan : plan.IsNew old) :
    Tidy old (finish i plan) fun _ => True :=
  (tidy_planned hi hplan).bind fun _ _ => tidy_planClose plan

theorem tidy_planCompound_and_statement (old : Forest) (depth : Nat) :
    (∀ header, Tidy old (planCompound depth header) (Plan.IsNew old)) ∧
      ∀ i, old.size ≤ i → Tidy old (statement depth i) fun _ => True := by
  -- A statement is a plan that is finished, and the plan has statements inside it.
  have hstatement : ∀ depth, (∀ header, Tidy old (planCompound depth header) (Plan.IsNew old)) →
      ∀ i, old.size ≤ i → Tidy old (statement depth i) fun _ => True := by
    intro depth h i hi
    rw [statement_eq_plan]
    exact (tidy_planStatement h).bind fun plan hplan => tidy_finish hi hplan
  induction depth with
  | zero =>
    have hcompound : ∀ header, Tidy old (planCompound 0 header) (Plan.IsNew old) :=
      fun _ => (tidy_check false .shallowerNesting nofun).bind fun _ _ => tidy_stalled
    exact ⟨hcompound, hstatement 0 hcompound⟩
  | succ depth ih =>
    have hcompound : ∀ header, Tidy old (planCompound (depth + 1) header) (Plan.IsNew old)
      | .ifThen => tidy_planChoice ih.2
      | .whileDo => tidy_planLoop ih.2
    exact ⟨hcompound, hstatement (depth + 1) hcompound⟩

/-- A plan is tidy whatever it begins with. -/
theorem tidy_plan (old : Forest) (depth : Nat) (beginning : Beginning) :
    Tidy old (plan depth beginning) (Plan.IsNew old) := by
  have hcompound := (tidy_planCompound_and_statement old (depth + 1)).1
  cases beginning with
  | anyStatement => exact tidy_planStatement hcompound
  | ifThen => exact hcompound .ifThen
  | whileDo => exact hcompound .whileDo
  | call => exact tidy_planCall

/-- So are all the constructs below a fresh node. -/
theorem tidy_inFresh_statement (old : Forest) (depth : Nat) :
    Tidy old (inFresh (statement depth)) fun i => old.size ≤ i :=
  tidy_inFresh (tidy_planCompound_and_statement old depth).2

theorem tidy_inFresh_block (old : Forest) (depth : Nat) :
    Tidy old (inFresh (block (statement depth))) fun i => old.size ≤ i :=
  tidy_inFresh fun _ hi => tidy_block (tidy_planCompound_and_statement old depth).2 hi

end Descent

end BlockLang
