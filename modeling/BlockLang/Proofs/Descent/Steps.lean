import BlockLang.Descent
import BlockLang.Proofs.Parser.Derivation

/-! What the steps of a descent do to a stream, whether they go on or fault, and when a row of them
goes on. -/

namespace BlockLang

open BlockLang.Parser

namespace Condition

/-- Every token that is accepted as a condition is found when it is looked up. -/
theorem ofSpelling_eq_ok {t : Token} {c : Condition} (h : ofToken? t = some c) :
    ofSpelling Token.isCondition t = .ok c := by
  obtain rfl := token_of_ofToken? h
  cases c <;> decide +kernel

end Condition

/-- The fault of a violation of the grammar. -/
def Fault.ofError? (e? : Option SyntaxError) : Option Fault :=
  e?.map fun e => .parse (.violation e)

namespace Descent

/-! ### Ways to parse -/

/-- A parse of a forest, as a routine. -/
def ofParse (parse : Forest → TokenStream → Except ParseError Unit × TokenStream × Forest) :
    Descent Unit := fun s =>
  match parse s.forest s.stream with
  | (.ok (), stream, f) => .ok () ⟨stream, f⟩
  | (.error e, stream, f) => .error (.parse e) ⟨stream, f⟩

/-- The ways to parse statements into a block: by the run of the parser, or by a descent with at
most `depth` compound statements inside one another. -/
inductive IsBlockParse (depth : Nat) : (NodeId → Descent Unit) → Prop where
  | run : IsBlockParse depth fun i => ofParse fun f s => f.parseBlock s i
  | block : IsBlockParse depth (block (statement depth))

/-- The ways to parse a statement into a node: by the run of the parser, or by a descent with at
most `depth` compound statements inside the outermost one. -/
inductive IsParse (depth : Nat) : Beginning → (NodeId → Descent Unit) → Prop where
  | run (beginning : Beginning) :
      IsParse depth beginning fun i => ofParse fun f s => f.parseStatement s beginning i
  | statement : IsParse depth .anyStatement (statement (depth + 1))
  | choice : IsParse depth .ifThen (choice (statement depth))
  | loop : IsParse depth .whileDo (loop (statement depth))
  | call : IsParse depth .call call

variable {α β : Type} {x : Descent α} {next : α → Descent β} {s s' : Site} {f g : Forest} {n : Nat}
  {t keyword : Token} {ts r : List Token} {header : Header} {c : Condition} {v : Violation}
  {b : β} {u : Unit} {i : NodeId}

/-! ### Ends -/

/-- From one site a routine ends at another, with a fault or without. -/
def Ends (x : Descent α) (s : Site) (fault? : Option Fault) (s' : Site) : Prop :=
  match x s with
  | .ok _ s'' => none = fault? ∧ s'' = s'
  | .error e s'' => some e = fault? ∧ s'' = s'

theorem ends_of_ok {a : α} (h : x s = .ok a s') : Ends x s none s' := by
  rw [Ends, h]
  exact ⟨rfl, rfl⟩

theorem ends_of_error {e : Fault} (h : x s = .error e s') : Ends x s (some e) s' := by
  rw [Ends, h]
  exact ⟨rfl, rfl⟩

/-- A parse of a forest ends as it says. -/
theorem ends_ofParse
    {parse : Forest → TokenStream → Except ParseError Unit × TokenStream × Forest}
    {stream stream' : TokenStream} (e? : Option SyntaxError)
    (h : parse f stream = (Forest.verdict e?, stream', g)) :
    Ends (ofParse parse) ⟨stream, f⟩ (Fault.ofError? e?) ⟨stream', g⟩ := by
  cases e? with
  | none => exact ends_of_ok (a := ()) (by simp only [ofParse, h, Forest.verdict])
  | some e => exact ends_of_error (by simp only [ofParse, h, Forest.verdict])

theorem Ends.unique {fault? fault?' : Option Fault} {s'' : Site} (h : Ends x s fault? s')
    (h' : Ends x s fault?' s'') : fault? = fault?' ∧ s' = s'' := by
  unfold Ends at h h'
  split at h
  · next hx =>
    rw [hx] at h'
    exact ⟨h.1.symm.trans h'.1, h.2.symm.trans h'.2⟩
  · next hx =>
    rw [hx] at h'
    exact ⟨h.1.symm.trans h'.1, h.2.symm.trans h'.2⟩

/-! ### One after the other -/

theorem bind_of_ok {a : α} (hx : x s = .ok a s') : (x >>= next) s = next a s' := by
  simp only [bind, EStateM.bind, hx]

theorem bind_of_error {e : Fault} (hx : x s = .error e s') : (x >>= next) s = .error e s' := by
  simp only [bind, EStateM.bind, hx]

theorem bind_eq_ok_iff :
    (x >>= next) s = .ok b s' ↔ ∃ a s'', x s = .ok a s'' ∧ next a s'' = .ok b s' := by
  cases hx : x s with
  | ok a s'' => simp [bind_of_ok hx]
  | error e s'' => simp [bind_of_error hx]

theorem pure_eq_ok_iff {a : α} {a' : α} :
    (pure a : Descent α) s = .ok a' s' ↔ a = a' ∧ s = s' := by
  simp [pure, EStateM.pure]

/-! ### Reading -/

theorem front_eq_ok_iff : front s = .ok t s' ↔ s.stream.front = t ∧ s = s' := by
  simp [front]

theorem check_true (v : Violation) (s : Site) : check true v s = .ok () s := rfl

theorem check_false (v : Violation) (s : Site) : check false v s =
    .error (.parse (.violation (v.error s.stream.position (some s.stream.front)))) s := rfl

theorem check_eq_ok_iff {holds : Bool} : check holds v s = .ok u s' ↔ holds ∧ s = s' := by
  cases holds <;> simp [check_true, check_false]

theorem begins_of_admits {beginning : Beginning} (h : beginning.admits s.stream.front) :
    begins beginning s = .ok () s := by
  simp [begins, h]

theorem begins_of_not_admits {beginning : Beginning} (h : ¬ beginning.admits s.stream.front) :
    begins beginning s = .error (.parse (.wrongBeginning beginning)) s := by
  simp [begins, h]

theorem begins_eq_ok_iff {beginning : Beginning} :
    begins beginning s = .ok u s' ↔ beginning.admits s.stream.front ∧ s = s' := by
  by_cases h : beginning.admits s.stream.front
  · simp [begins_of_admits h, h]
  · simp [begins_of_not_admits h, h]

theorem dequeue_nil (n : Nat) (f : Forest) : dequeue ⟨⟨[], n⟩, f⟩ =
    .error (.parse (.violation (Violation.moreTokens.error n none))) ⟨⟨[], n⟩, f⟩ := rfl

theorem dequeue_cons (t : Token) (r : List Token) (n : Nat) (f : Forest) :
    dequeue ⟨⟨t :: r, n⟩, f⟩ = .ok t ⟨⟨r, n + 1⟩, f⟩ := rfl

theorem dequeue_eq_ok_iff : dequeue s = .ok t s' ↔
    ∃ r, s.stream.rest = t :: r ∧ ⟨⟨r, s.stream.position + 1⟩, s.forest⟩ = s' := by
  obtain ⟨⟨ts, n⟩, f⟩ := s
  cases ts with
  | nil => simp [dequeue_nil]
  | cons t' r => simp [dequeue_cons, and_assoc]

theorem expect_of_eq (h : s.stream.front = keyword) (v : Violation) :
    expect keyword v s = dequeue s := by
  have hread : s.stream.expect keyword v.text = s.stream.dequeue := if_pos h
  simp only [expect, dequeue, read, hread]

theorem expect_cons (keyword : Token) (v : Violation) (r : List Token) (n : Nat) (f : Forest) :
    expect keyword v ⟨⟨keyword :: r, n⟩, f⟩ = .ok keyword ⟨⟨r, n + 1⟩, f⟩ :=
  (expect_of_eq (s := ⟨⟨keyword :: r, n⟩, f⟩) rfl v).trans (dequeue_cons keyword r n f)

theorem expect_of_ne (h : s.stream.front ≠ keyword) (hv : v.kind = .unexpectedToken) :
    expect keyword v s =
      .error (.parse (.violation (v.error s.stream.position (some s.stream.front)))) s := by
  have hread : s.stream.expect keyword v.text =
      (.error (v.error s.stream.position (some s.stream.front)), s.stream) := by
    rw [TokenStream.expect, if_neg h, Violation.error, hv]
  simp only [expect, read, hread]

theorem expect_eq_ok_iff (hk : keyword ≠ Token.endOfInput) (hv : v.kind = .unexpectedToken) :
    expect keyword v s = .ok t s' ↔ t = keyword ∧
      ∃ r, s.stream.rest = keyword :: r ∧ ⟨⟨r, s.stream.position + 1⟩, s.forest⟩ = s' := by
  obtain ⟨⟨ts, n⟩, f⟩ := s
  by_cases h : Parser.front ts = keyword
  · rw [expect_of_eq (s := ⟨⟨ts, n⟩, f⟩) h v]
    cases ts with
    | nil => exact absurd h.symm hk
    | cons t' r =>
      obtain rfl : t' = keyword := h
      simp [dequeue_cons, @eq_comm _ t']
  · rw [expect_of_ne (s := ⟨⟨ts, n⟩, f⟩) h hv]
    refine ⟨nofun, ?_⟩
    rintro ⟨-, r, rfl, -⟩
    exact absurd rfl h

/-- A condition is read whole: if its token is accepted, its spelling is known. -/
theorem condition_of_some (h : Condition.ofToken? t = some c) (header : Header) (r : List Token)
    (n : Nat) (f : Forest) :
    condition header ⟨⟨t :: r, n⟩, f⟩ = .ok c ⟨⟨r, n + 1⟩, f⟩ := by
  have hcheck : check t.isCondition (.condition header) ⟨⟨t :: r, n⟩, f⟩ =
      .ok () ⟨⟨t :: r, n⟩, f⟩ := check_eq_ok_iff.2 ⟨by rw [Token.isCondition, h]; rfl, rfl⟩
  rw [condition, bind_of_ok (front_eq_ok_iff.2 ⟨rfl, rfl⟩)]
  refine (bind_of_ok hcheck).trans ?_
  rw [bind_of_ok (dequeue_cons t r n f), Condition.ofSpelling_eq_ok h]
  rfl

theorem condition_of_none (h : Condition.ofToken? s.stream.front = none) (header : Header) :
    condition header s = .error (.parse (.violation
      ((Violation.condition header).error s.stream.position (some s.stream.front)))) s := by
  have hcheck : s.stream.front.isCondition = false := by
    rw [Token.isCondition, h]
    rfl
  rw [condition, bind_of_ok (front_eq_ok_iff.2 ⟨rfl, rfl⟩), hcheck]
  exact bind_of_error (check_false _ _)

theorem condition_eq_ok_iff : condition header s = .ok c s' ↔ ∃ t r, s.stream.rest = t :: r ∧
    Condition.ofToken? t = some c ∧ ⟨⟨r, s.stream.position + 1⟩, s.forest⟩ = s' := by
  obtain ⟨⟨ts, n⟩, f⟩ := s
  cases hc : Condition.ofToken? (Parser.front ts) with
  | none =>
    rw [condition_of_none (s := ⟨⟨ts, n⟩, f⟩) hc]
    refine ⟨nofun, ?_⟩
    rintro ⟨t, r, rfl, hc', -⟩
    cases hc.symm.trans hc'
  | some c' =>
    cases ts with
    | nil =>
      have hnone : Condition.ofToken? Token.endOfInput = none := by decide
      cases hnone.symm.trans hc
    | cons t r =>
      have hc : Condition.ofToken? t = some c' := hc
      simp [condition_of_some hc, hc]

theorem close_nil (keyword : Token) (v : Violation) (n : Nat) (f : Forest) :
    close keyword v ⟨⟨[], n⟩, f⟩ =
      .error (.parse (.violation (Violation.moreTokens.error n none))) ⟨⟨[], n⟩, f⟩ := rfl

theorem close_keyword (keyword : Token) (v : Violation) (r : List Token) (n : Nat) (f : Forest) :
    close keyword v ⟨⟨keyword :: r, n⟩, f⟩ = .ok () ⟨⟨r, n + 1⟩, f⟩ := by
  rw [close, bind_of_ok (dequeue_cons keyword r n f), if_pos rfl]
  rfl

/-- The token in place of the keyword is taken before it is refused. -/
theorem close_of_ne (h : t ≠ keyword) (v : Violation) (r : List Token) (n : Nat) (f : Forest) :
    close keyword v ⟨⟨t :: r, n⟩, f⟩ =
      .error (.parse (.violation (v.error n (some t)))) ⟨⟨r, n + 1⟩, f⟩ := by
  rw [close, bind_of_ok (dequeue_cons t r n f), if_neg h]
  rfl

/-! ### Building -/

theorem build_of_ok {change : Forest → Except BuildError Forest} (h : change f = .ok g)
    (s : TokenStream) : build change ⟨s, f⟩ = .ok () ⟨s, g⟩ := by
  simp only [build, h]

theorem blockLength_of_ok (h : f.blockLength i = .ok n) (s : TokenStream) :
    blockLength i ⟨s, f⟩ = .ok n ⟨s, f⟩ := by
  simp only [blockLength, h]

/-! ### Rows of steps -/

/-- A compound statement begins with its keyword, a condition, the keyword after that, and a
block. -/
theorem opening_eq_ok_iff {statement : NodeId → Descent Unit} {beginning : Beginning}
    {opened : Condition × NodeId} :
    opening statement beginning header s = .ok opened s' ↔
      beginning.admits s.stream.front ∧ ∃ t₀ t r,
        s.stream.rest = t₀ :: t :: header.opener :: r ∧ Condition.ofToken? t = some opened.1 ∧
        inFresh (block statement) ⟨⟨r, s.stream.position + 3⟩, s.forest⟩ = .ok opened.2 s' := by
  have hopener : header.opener ≠ Token.endOfInput := by cases header <;> decide
  have hkind : (Violation.opener header).kind = .unexpectedToken := rfl
  simp only [opening, bind_eq_ok_iff, begins_eq_ok_iff, dequeue_eq_ok_iff, condition_eq_ok_iff,
    expect_eq_ok_iff hopener hkind, pure_eq_ok_iff]
  constructor
  · rintro ⟨_, _, ⟨hb, rfl⟩, t₀, _, ⟨_, hts, rfl⟩, c, _, ⟨t, _, rfl, hc, rfl⟩, _, _,
      ⟨-, r, rfl, rfl⟩, i, _, hi, rfl, rfl⟩
    exact ⟨hb, t₀, t, r, hts, hc, hi⟩
  · rintro ⟨hb, t₀, t, r, hts, hc, hi⟩
    exact ⟨(), _, ⟨hb, rfl⟩, t₀, _, ⟨_, hts, rfl⟩, _, _, ⟨t, _, rfl, hc, rfl⟩, _, _,
      ⟨rfl, r, rfl, rfl⟩, _, _, hi, rfl, rfl⟩

end Descent

end BlockLang
