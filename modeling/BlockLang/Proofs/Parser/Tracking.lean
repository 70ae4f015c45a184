import BlockLang.Proofs.Parser.Constructs
import BlockLang.Proofs.Parser.ViablePrefix

/-! What a parser has recognised so far. A state holds complete nodes of the tree to be, in its
statements and in the blocks of the open ones; taking a token completes at most one node more, and
this is what the token adds to the record. -/

namespace BlockLang

open Statement

namespace Construct

/-- What is recorded of a node in a stream. -/
def event (ts : List Token) (q : Construct) : Parser.Event :=
  if q.node.kind = .block then .block q.node.children.length (Parser.front (ts.drop q.stop))
  else .statement q.node.kind q.start (q.stop - 1)

/-- The records of nodes in a stream; there is none of a call. -/
def events (ts : List Token) (qs : List Construct) : List Parser.Event :=
  (qs.filter fun q => q.node.kind ≠ .call).map (event ts)

/-- A node is complete with a token that comes after `n` others: a block is before it, any other
node with it. -/
def EndsWith (q : Construct) (n : Nat) (t : Token) : Prop :=
  if q.node.kind = .block then q.stop = n ∧ t.endsBlock else q.stop = n + 1

/-- A node is complete once `n` tokens have been taken and the next one is seen: it ends there or
before, and if it is a block, a token that ends blocks follows it. -/
def IsComplete (ts : List Token) (n : Nat) (q : Construct) : Prop :=
  q.stop ≤ n ∧ (q.node.kind = .block → (Parser.front (ts.drop q.stop)).endsBlock)

instance (ts : List Token) (n : Nat) (q : Construct) : Decidable (q.IsComplete ts n) :=
  inferInstanceAs (Decidable (_ ∧ _))

/-- A node is not complete with the first `n` tokens alone. -/
def EndsAfter (n : Nat) (q : Construct) : Prop :=
  n ≤ q.stop ∧ (q.node.kind ≠ .block → n < q.stop)

/-- A block ends where `n` tokens have been taken. -/
def IsBlockTo (n : Nat) (q : Construct) : Prop := q.node.kind = .block ∧ q.stop = n

instance (n : Nat) (q : Construct) : Decidable (q.IsBlockTo n) :=
  inferInstanceAs (Decidable (_ ∧ _))

variable {q : Construct} {n m : Nat} {t : Token} {w : List Token}

theorem EndsWith.endsAfter (h : q.EndsWith n t) : q.EndsAfter n := by
  unfold EndsWith at h
  split at h
  · next hk => exact ⟨Nat.le_of_eq h.1.symm, fun hne => absurd hk hne⟩
  · exact ⟨by omega, fun _ => by omega⟩

theorem EndsWith.isComplete (h : q.EndsWith w.length t) (rest : List Token) :
    q.IsComplete (w ++ t :: rest) (w.length + 1) := by
  unfold EndsWith at h
  split at h
  · next hk =>
    refine ⟨by omega, fun _ => ?_⟩
    rw [h.1, List.drop_left]
    exact h.2
  · next hk => exact ⟨Nat.le_of_eq h, fun hb => absurd hb hk⟩

theorem EndsAfter.mono (h : q.EndsAfter n) (hmn : m ≤ n) : q.EndsAfter m :=
  ⟨Nat.le_trans hmn h.1, fun hk => Nat.lt_of_le_of_lt hmn (h.2 hk)⟩

theorem IsComplete.mono {ts : List Token} (h : q.IsComplete ts n) (hnm : n ≤ m) :
    q.IsComplete ts m :=
  ⟨Nat.le_trans h.1 hnm, h.2⟩

/-- Of the nodes that are not complete with `n` tokens alone, the next token completes the blocks
that go up to it, if it ends blocks. -/
theorem EndsAfter.isComplete_iff {ts : List Token} (h : q.EndsAfter n) :
    q.IsComplete ts n ↔ q.IsBlockTo n ∧ (Parser.front (ts.drop n)).endsBlock := by
  constructor
  · rintro ⟨hle, hend⟩
    have hstop : q.stop = n := Nat.le_antisymm hle h.1
    have hk : q.node.kind = .block := by
      by_contra hne
      exact Nat.ne_of_gt (h.2 hne) hstop
    exact ⟨⟨hk, hstop⟩, hstop ▸ hend hk⟩
  · rintro ⟨⟨-, hstop⟩, hend⟩
    exact ⟨Nat.le_of_eq hstop, fun _ => by rwa [hstop]⟩

@[simp] theorem events_append (ts : List Token) (qs rs : List Construct) :
    events ts (qs ++ rs) = events ts qs ++ events ts rs := by
  simp [events]

end Construct

namespace Parser

/-! ### Nodes of states -/

/-- The first block of a choice, if the second one is being read. -/
def Branch.constructs (start : Nat) : Branch → List Construct
  | elseBody _ thenBody => (block thenBody).constructs (start + 3)
  | _ => []

/-- The number of tokens before the block that is being read. -/
def Frame.bodyStart (f : Frame) : Nat := f.start + f.branch.tokens.length

/-- The block that is being read, as far as it goes. -/
def Frame.body (f : Frame) : Construct := ⟨f.bodyStart, block f.done⟩

/-- The complete nodes of the open compound statements. -/
def frameConstructs : List Frame → List Construct
  | [] => []
  | f :: frames =>
    frameConstructs frames ++ f.branch.constructs f.start ++ constructsAll 0 f.bodyStart f.done

/-- The nodes of a statement of which only the last keyword is missing, without itself. -/
def Mode.constructs : Mode → List Construct
  | closer _ s start => (s.constructs start).dropLast
  | _ => []

namespace State

/-- The nodes that are complete in a state. -/
def constructs (σ : State) : List Construct :=
  constructsAll 0 0 σ.outer ++ frameConstructs σ.frames ++ σ.mode.constructs

/-- Each open statement began where the tokens before it end, of which the first are `w`. -/
def framesAligned (w : List Token) : List Frame → Prop
  | [] => True
  | f :: frames => framesAligned w frames ∧ f.start = (w ++ frameTokens frames).length

end State

/-- A statement that has no block yet, or all of them, began after `n` tokens. -/
def Mode.IsAligned (n : Nat) : Mode → Prop
  | statement => True
  | condition _ start => start = n
  | opener _ _ start => start = n
  | closer _ _ start => start = n

/-- What is about to be closed is no call: a call has no keyword for its last token. -/
theorem Mode.kind_ne_call {h : Header} {s : Statement} {start : Nat}
    (hm : (Mode.closer h s start).IsProper) : s.kind ≠ .call := by
  obtain ⟨⟨hw, -⟩, hlast⟩ := hm
  obtain ⟨k, c, name, xs⟩ := s
  rintro (rfl : k = .call)
  obtain ⟨-, -, name, rfl, hid⟩ := hw
  have htokens : (node .call c (some name) xs).tokens = [name] := rfl
  obtain rfl : h.keyword = name := by simpa [htokens] using hlast
  revert hid
  cases h <;> decide

namespace State

/-- The numbers in a state are those of the tokens behind it. -/
structure IsAligned (σ : State) : Prop where
  frames : framesAligned (tokensAll σ.outer) σ.frames
  mode : σ.mode.IsAligned (tokensAll σ.outer ++ frameTokens σ.frames).length
  position : σ.position = σ.tokens.length

variable {goal : Goal} {limit : Option Nat} {σ τ : State} {t : Token} {p ts : List Token}
  {f : Frame} {frames : List Frame}

theorem isAligned_initial : (initial 0).IsAligned := ⟨trivial, trivial, rfl⟩

/-- Where the next statement begins. -/
theorem IsAligned.position_eq (hσ : σ.IsAligned) (hm : σ.mode = .statement) :
    σ.position = (tokensAll σ.outer ++ frameTokens σ.frames).length := by
  rw [hσ.position, State.tokens, hm, Mode.tokens, List.append_nil]

theorem framesAligned_add (s : Statement) (h : framesAligned (tokensAll σ.outer) σ.frames) :
    framesAligned (tokensAll (σ.add s).outer) (σ.add s).frames := by
  unfold add
  split
  · next hf =>
    rw [hf]
    trivial
  · next f frames hf =>
    rw [hf] at h
    exact h

theorem Takes.isAligned (hp : σ.IsProper) (hσ : σ.IsAligned) (h : σ.Takes limit t τ) :
    τ.IsAligned := by
  have hposition : τ.position = τ.tokens.length := by
    rw [h.position, h.tokens hp, hσ.position, List.length_append]
    rfl
  have hframes := hσ.frames
  have hmode := hσ.mode
  cases h with
  | header hm _ => exact ⟨hframes, hσ.position_eq hm, hposition⟩
  | call hm _ => exact ⟨framesAligned_add _ hframes, trivial, hposition⟩
  | elseBody hm hf =>
    rw [hf] at hframes
    exact ⟨hframes, trivial, hposition⟩
  | endBlock hm hf =>
    rw [hf] at hframes
    exact ⟨hframes.1, hframes.2, hposition⟩
  | condition hm _ =>
    rw [hm] at hmode
    exact ⟨hframes, hmode, hposition⟩
  | opener hm =>
    rw [hm] at hmode
    exact ⟨⟨hframes, hmode⟩, trivial, hposition⟩
  | closer hm => exact ⟨framesAligned_add _ hframes, trivial, hposition⟩

theorem Shifts.isAligned (hp : σ.IsProper) (hσ : σ.IsAligned) (h : Shifts goal limit σ p τ) :
    τ.IsAligned := by
  induction h with
  | nil => exact hσ
  | cons _ ht _ ih => exact ih (ht.isProper hp) (ht.isAligned hp hσ)

/-! ### Nodes that a token completes -/

@[simp] theorem log_add (σ : State) (s : Statement) : (σ.add s).log = σ.log := by
  unfold add
  split <;> rfl

/-- The nodes of a statement come after those of the statements before it. -/
theorem constructs_add (hσ : σ.IsAligned) (s : Statement) :
    constructsAll 0 0 (σ.add s).outer ++ frameConstructs (σ.add s).frames =
      constructsAll 0 0 σ.outer ++ frameConstructs σ.frames ++
        s.constructs (tokensAll σ.outer ++ frameTokens σ.frames).length := by
  have hframes := hσ.frames
  unfold add
  split
  · next hf => simp [hf, frameConstructs, frameTokens, constructsAll_append]
  · next f frames hf =>
    rw [hf] at hframes
    have hstart : f.bodyStart + (tokensAll f.done).length =
        (tokensAll σ.outer ++ frameTokens σ.frames).length := by
      rw [hf, Frame.bodyStart, hframes.2]
      simp [frameTokens, Nat.add_assoc]
    rw [← hstart]
    simp [hf, frameConstructs, Frame.bodyStart, constructsAll_append]

theorem constructs_close (b : Branch) (done : List Statement) (n : Nat) :
    ((b.close done).constructs n).dropLast =
      b.constructs n ++ (block done).constructs (n + b.tokens.length) := by
  cases b with
  | ifBody c => rw [Branch.close, constructs_ifThen, List.dropLast_concat]; rfl
  | whileBody c => rw [Branch.close, constructs_whileDo, List.dropLast_concat]; rfl
  | elseBody c thenBody =>
    have hlength : (Branch.elseBody c thenBody).tokens.length =
        3 + (tokensAll thenBody).length + 1 := by
      simp only [Branch.tokens, List.length_append, List.length_cons, List.length_nil]
    rw [Branch.close, constructs_ifElse, List.dropLast_concat, hlength]
    simp only [Branch.constructs, Nat.add_assoc]

/-- The block that is being read goes up to the next token. -/
theorem IsAligned.stop_body (hσ : σ.IsAligned) (hm : σ.mode = .statement)
    (hf : σ.frames = f :: frames) : f.body.stop = σ.position := by
  have hframes := hσ.frames
  rw [hf] at hframes
  rw [hσ.position_eq hm, hf, Construct.stop, Frame.body, Frame.bodyStart, hframes.2]
  simp [frameTokens, Nat.add_assoc]

/-- The last of the nodes of a tree is the tree. -/
theorem constructs_eq (s : Statement) (n : Nat) :
    s.constructs n = (s.constructs n).dropLast ++ [⟨n, s⟩] := by
  obtain ⟨k, c, name, xs⟩ := s
  rw [Statement.constructs, List.dropLast_concat]

theorem IsAligned.endsWith_body (hσ : σ.IsAligned) (hm : σ.mode = .statement)
    (hf : σ.frames = f :: frames) (ht : t.endsBlock) : f.body.EndsWith σ.position t := by
  have hkind : f.body.node.kind = .block := rfl
  rw [Construct.EndsWith, if_pos hkind]
  exact ⟨hσ.stop_body hm hf, ht⟩

theorem events_body (hσ : σ.IsAligned) (hm : σ.mode = .statement) (hf : σ.frames = f :: frames)
    (r : List Token) :
    Construct.events (σ.tokens ++ r) [f.body] = [.block f.done.length (front r)] := by
  have hstop : f.body.stop = σ.tokens.length := (hσ.stop_body hm hf).trans hσ.position
  have hkind : f.body.node.kind = .block := rfl
  have hchildren : f.body.node.children = f.done := rfl
  simp [Construct.events, Construct.event, hkind, hstop, hchildren]

/-- A token that ends a block completes the block that is being read. -/
theorem Takes.constructs_of_endsBlock (h : σ.Takes limit t τ) (ht : t.endsBlock) :
    ∃ f frames, σ.mode = .statement ∧ σ.frames = f :: frames ∧
      τ.constructs = σ.constructs ++ [f.body] ∧ τ.log = σ.log ++ [.block f.done.length t] := by
  cases h with
  | @header k _ _ => exact absurd ht (by cases k <;> decide)
  | call _ hid =>
    rw [Token.not_endsBlock_of_isIdentifier hid] at ht
    cases ht
  | @elseBody c start done frames hm hf =>
    refine ⟨⟨.ifBody c, start, done⟩, frames, hm, hf, ?_, rfl⟩
    simp [State.constructs, shift, record, hm, hf, Mode.constructs, frameConstructs,
      Branch.constructs, Frame.body, Frame.bodyStart, Branch.tokens]
  | @endBlock f frames hm hf =>
    refine ⟨f, frames, hm, hf, ?_, rfl⟩
    have hclose := constructs_close f.branch f.done f.start
    simp [State.constructs, shift, record, hm, hf, Mode.constructs, frameConstructs, hclose,
      Frame.body, Frame.bodyStart]
  | @condition t _ c _ _ hc =>
    obtain rfl := Condition.token_of_ofToken? hc
    exact absurd ht (by cases c <;> decide)
  | @opener k _ _ _ => exact absurd ht (by cases k <;> decide)
  | @closer k _ _ _ => exact absurd ht (by cases k <;> decide)

/-- A token completes some nodes, one at most, and they are what is recorded then. -/
theorem Takes.constructs (hp : σ.IsProper) (hσ : σ.IsAligned) (h : σ.Takes limit t τ) :
    ∃ new : List Construct, τ.constructs = σ.constructs ++ new ∧
      (∀ q ∈ new, q.EndsWith σ.position t) ∧
      ∀ rest, τ.log = σ.log ++ Construct.events (σ.tokens ++ t :: rest) new := by
  by_cases ht : t.endsBlock
  · obtain ⟨f, frames, hm, hf, hconstructs, hlog⟩ := h.constructs_of_endsBlock ht
    refine ⟨[f.body], hconstructs, by simpa using hσ.endsWith_body hm hf ht, fun rest => ?_⟩
    rw [events_body hσ hm hf]
    exact hlog
  cases h with
  | elseBody _ _ => exact absurd (by decide) ht
  | endBlock _ _ => exact absurd (by decide) ht
  | header hm _ =>
    exact ⟨[], by simp [State.constructs, shift, hm, Mode.constructs], by simp,
      by simp [shift, Construct.events]⟩
  | call hm _ =>
    refine ⟨[⟨σ.position, .call t⟩], ?_, ?_, fun rest => ?_⟩
    · have hadd := constructs_add hσ (.call t)
      rw [← hσ.position_eq hm] at hadd
      simpa [State.constructs, shift, hm, Mode.constructs] using hadd
    · simp [Construct.EndsWith, Construct.stop]
    · simp [shift, Construct.events]
  | condition hm hc =>
    exact ⟨[], by simp [State.constructs, shift, hm, Mode.constructs], by simp,
      by simp [shift, Construct.events]⟩
  | @opener k c start hm =>
    refine ⟨[], ?_, by simp, by simp [shift, Construct.events]⟩
    cases k <;> simp [State.constructs, shift, hm, Mode.constructs, frameConstructs, Header.branch,
      Branch.constructs]
  | @closer k s start hm =>
    have hmode := hσ.mode
    have hproper := hp.mode
    rw [hm] at hmode hproper
    have hcall := Mode.kind_ne_call hproper
    obtain ⟨⟨-, hkind⟩, hlast⟩ := hproper
    have hstop : start + s.tokens.length = σ.position + 1 := by
      rw [← hlast, hσ.position, State.tokens, hm, hmode]
      simp [Mode.tokens, Nat.add_assoc]
    refine ⟨[⟨start, s⟩], ?_, ?_, fun rest => ?_⟩
    · have hadd := constructs_add hσ s
      rw [← hmode, constructs_eq s start] at hadd
      simpa [State.constructs, shift, record, hm, Mode.constructs] using hadd
    · simp [Construct.EndsWith, hkind, Construct.stop, hstop]
    · simp [shift, record, Construct.events, Construct.event, hkind, hcall, Construct.stop, hstop]

/-- The block that ends with the next token, if there is one. -/
def ending (σ : State) (t : Token) : List Construct :=
  match σ.mode, σ.frames with
  | .statement, f :: _ => if t.endsBlock then [f.body] else []
  | _, _ => []

theorem ending_of_not_endsBlock (ht : ¬ t.endsBlock) : σ.ending t = [] := by
  unfold ending
  split
  · rw [if_neg ht]
  · rfl

theorem ending_of_endsBlock (ht : t.endsBlock) (hm : σ.mode = .statement)
    (hf : σ.frames = f :: frames) : σ.ending t = [f.body] := by
  simp only [ending, hm, hf, if_pos ht]

/-- A block can end only where one is open. -/
theorem exists_frame_of_ending (h : σ.ending t ≠ []) :
    ∃ f frames, σ.mode = .statement ∧ σ.frames = f :: frames := by
  unfold ending at h
  split at h
  · next f frames hm hf => exact ⟨f, frames, hm, hf⟩
  · exact absurd rfl h

/-- What tokens complete comes after what was complete, and is what is recorded on the way. -/
theorem Shifts.constructs (hp : σ.IsProper) (hσ : σ.IsAligned) (h : Shifts goal limit σ p τ) :
    ∃ later : List Construct, τ.constructs = σ.constructs ++ later ∧
      (∀ q ∈ later, q.EndsAfter σ.position) ∧
      ∀ rest, τ.log = σ.log ++ Construct.events (τ.tokens ++ rest) later ∧
        ∀ q ∈ later, q.IsComplete (τ.tokens ++ rest) τ.position := by
  induction h with
  | nil => exact ⟨[], by simp [Construct.events]⟩
  | @cons σ τ υ t p hf ht hrest ih =>
    have hτ := ht.isProper hp
    obtain ⟨new, hnew, hends, hlog⟩ := ht.constructs hp hσ
    obtain ⟨later, hlater, hafter, hall⟩ := ih hτ (ht.isAligned hp hσ)
    have htokens : υ.tokens = σ.tokens ++ t :: p := by
      rw [hrest.tokens hτ, ht.tokens hp, List.append_assoc]
      rfl
    have hposition : σ.position + 1 ≤ υ.position := by
      rw [hrest.position, ht.position]
      omega
    refine ⟨new ++ later, by rw [hlater, hnew, List.append_assoc], ?_, fun rest => ⟨?_, ?_⟩⟩
    · rw [List.forall_mem_append]
      exact ⟨fun q hq => (hends q hq).endsAfter,
        fun q hq => (hafter q hq).mono (by rw [ht.position]; omega)⟩
    · rw [(hall rest).1, hlog (p ++ rest), htokens, Construct.events_append]
      simp
    · rw [List.forall_mem_append]
      refine ⟨fun q hq => ?_, (hall rest).2⟩
      have hq' := hends q hq
      rw [hσ.position] at hq' hposition
      rw [htokens]
      have hcomplete := (hq'.isComplete (p ++ rest)).mono hposition
      simpa using hcomplete

/-- The blocks that end where a row of tokens begins are those that its first token completes. -/
theorem Shifts.filter_isBlockTo {later : List Construct} (hp : σ.IsProper) (hσ : σ.IsAligned)
    (h : Shifts goal limit σ (t :: p) υ) (hlater : υ.constructs = σ.constructs ++ later) :
    later.filter (fun q => q.IsBlockTo σ.position) = σ.ending t := by
  cases h with
  | @cons _ τ _ _ _ _ ht hrest =>
    obtain ⟨new, hnew, hends, -⟩ := ht.constructs hp hσ
    obtain ⟨rest, hrest', hafter, -⟩ := hrest.constructs (ht.isProper hp) (ht.isAligned hp hσ)
    obtain rfl : later = new ++ rest := by
      rw [hrest', hnew, List.append_assoc] at hlater
      exact (List.append_cancel_left hlater).symm
    have hrest : rest.filter (fun q => q.IsBlockTo σ.position) = [] := by
      rw [List.filter_eq_nil_iff]
      intro q hq
      have hle := (hafter q hq).1
      rw [ht.position] at hle
      rw [decide_eq_true_eq]
      rintro ⟨-, hstop⟩
      omega
    rw [List.filter_append, hrest, List.append_nil]
    by_cases hend : t.endsBlock
    · obtain ⟨f, frames, hm, hf, hbody, -⟩ := ht.constructs_of_endsBlock hend
      obtain rfl : [f.body] = new := List.append_cancel_left (hbody.symm.trans hnew)
      have hto : f.body.IsBlockTo σ.position := ⟨rfl, hσ.stop_body hm hf⟩
      rw [ending_of_endsBlock hend hm hf]
      simp [hto]
    · rw [ending_of_not_endsBlock hend, List.filter_eq_nil_iff]
      intro q hq
      rw [decide_eq_true_eq]
      rintro ⟨hk, -⟩
      have hq' := hends q hq
      rw [Construct.EndsWith, if_pos hk] at hq'
      exact hend hq'.2

end State

end Parser

end BlockLang
