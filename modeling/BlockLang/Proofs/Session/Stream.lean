import BlockLang.Proofs.Parser.Position
import BlockLang.Proofs.Session.Building
import BlockLang.Proofs.Session.Frame

/-! The token stream of a session. Whatever steps are taken, and whether they succeed or fail, the
stream is the token list that the session began with, without as many of its first tokens as have
been counted; nothing is taken by looking or in vain, and errors stand where they say. -/

namespace BlockLang

open BlockLang.Parser (Violation)

/-! ### Steps on a stream -/

/-- What reading from a stream of `ts` gives, if it gives an answer or an error of its own: a rest
of `ts` that is no longer, and after an error the same one. -/
structure TokenStream.Reads {α : Type} (ts : List Token) (s : TokenStream)
    (r : Except SyntaxError α × TokenStream) : Prop where
  isRestOf : r.2.IsRestOf ts
  position_le : s.position ≤ r.2.position
  error : ∀ e, r.1 = .error e → r.2 = s ∧ e.StandsAt ts s.position

namespace TokenStream

variable {ts : List Token} {s : TokenStream}

theorem reads_front (hs : s.IsRestOf ts) : Reads ts s (.ok s.front, s) :=
  ⟨hs, Nat.le_refl _, nofun⟩

theorem reads_dequeue (hs : s.IsRestOf ts) : s.Reads ts s.dequeue := by
  unfold dequeue
  split
  · next hr =>
    refine ⟨hs, Nat.le_refl _, fun e he => ⟨rfl, ?_⟩⟩
    obtain rfl := Except.error.inj he
    exact hs.standsAt rfl (.inr ⟨hr, rfl⟩)
  · next t rest hr => exact ⟨hs.cons hr, Nat.le_succ _, nofun⟩

theorem reads_expect (hs : s.IsRestOf ts) (keyword : Token) (text : String) :
    s.Reads ts (s.expect keyword text) := by
  unfold expect
  split
  · exact reads_dequeue hs
  · refine ⟨hs, Nat.le_refl _, fun e he => ⟨rfl, ?_⟩⟩
    obtain rfl := Except.error.inj he
    exact hs.standsAt rfl (.inl rfl)

end TokenStream

/-- What parsing from a stream of `ts` into a node of a forest gives: a rest of `ts` that is no
longer. After an error of syntax it begins where the error stands, or after that token if it was
taken in place of the closing keyword of a choice. -/
structure Forest.Parses (ts : List Token) (s : TokenStream)
    (r : Except ParseError Unit × TokenStream × Forest) : Prop where
  isRestOf : r.2.1.IsRestOf ts
  position_le : s.position ≤ r.2.1.position
  violation : ∀ e, r.1 = .error (.violation e) → ∃ p, e.StandsAt ts p ∧
    r.2.1.rest = ts.drop (if e.text = (Violation.closer .ifThen).text then p + 1 else p)

namespace Forest

variable {ts : List Token} {s : TokenStream}

theorem verdict_eq_violation {error? : Option SyntaxError} {e : SyntaxError}
    (h : verdict error? = .error (.violation e)) : error? = some e := by
  cases error? with
  | none => cases h
  | some e' => cases h; rfl

/-- A parse that has run. -/
theorem parses_run {goal : Parser.Goal} (hs : s.IsRestOf ts) (f : Forest) {o : Parser.Outcome}
    (ho : Parser.run goal none (.initial s.position) s.rest = o) :
    Parses ts s (verdict o.error?, ⟨o.rest, o.last.position⟩, f) := by
  obtain ⟨hrest, hle, he⟩ := Parser.isRestOf_run hs rfl ho
  exact ⟨hrest, hle, fun e h => he e (verdict_eq_violation h)⟩

theorem parses_parseBlock (hs : s.IsRestOf ts) (f : Forest) (i : NodeId) :
    Parses ts s (f.parseBlock s i) := by
  unfold parseBlock
  split
  · exact ⟨hs, Nat.le_refl _, nofun⟩
  · exact parses_run hs _ rfl

theorem parses_parseStatement (hs : s.IsRestOf ts) (f : Forest) (beginning : Beginning)
    (i : NodeId) : Parses ts s (f.parseStatement s beginning i) := by
  unfold parseStatement
  split
  · dsimp only
    split
    · exact parses_run hs f rfl
    · next tree τ rest h =>
      split
      · obtain ⟨p, hp, hshift, -⟩ := Parser.shifts_of_assembly? (.inl rfl) h
        have hpos : τ.position = s.position + p.length := hshift.position
        exact ⟨hpos ▸ hs.append hp, by simp only; omega, nofun⟩
      · exact parses_run hs _ rfl
  · exact ⟨hs, Nat.le_refl _, nofun⟩

end Forest

namespace Session

/-! ### One step of a session -/

/-- A step that parses into a node. -/
def Action.parses : Action → Bool
  | parseStatement .. | parseBlock .. => true
  | _ => false

/-- What a step with the given answer does to a stream of `ts`. -/
structure Advances (ts : List Token) (a : Action) (answer : Except Failure Value)
    (s s' : TokenStream) : Prop where
  isRestOf : s'.IsRestOf ts
  position_le : s.position ≤ s'.position
  front : a = .front → s' = s
  dequeue : a = .dequeue → s.rest = [] → s' = s
  expect : ∀ keyword text, a = .expect keyword text → answer.isOk = false → s' = s
  beginning : ∀ b i, a = .parseStatement b i → b.admits s.front = false →
    answer = .error (.parse (.wrongBeginning b)) ∧ s' = s
  violation : ∀ e, answer = .error (.parse (.violation e)) → ∃ p, e.StandsAt ts p ∧ s'.rest =
    ts.drop (if a.parses ∧ e.text = (Violation.closer .ifThen).text then p + 1 else p)

variable {s : Session} {stream : TokenStream} {ts : List Token} {a : Action}

/-- The answer of a step that reads a token. -/
def answerOfRead (r : Except SyntaxError Token) : Except Failure Value :=
  match r with
  | .ok t => .ok (.text t)
  | .error e => .error (.parse (.violation e))

/-- The answer of a step that parses into a node. -/
def answerOfParse (i : NodeId) (r : Except ParseError Unit) : Except Failure Value :=
  match r with
  | .ok () => .ok (.node i)
  | .error e => .error (.parse e)

theorem read_eq (hs : s.stream = some stream)
    (step : TokenStream → Except SyntaxError Token × TokenStream) :
    s.read step =
      (answerOfRead (step stream).1, { s with stream := some (step stream).2 }) := by
  simp only [read, hs]
  split <;> next h => rw [h]; rfl

theorem parse_eq (hs : s.stream = some stream) (i : NodeId)
    (step : TokenStream → Except ParseError Unit × TokenStream × Forest) :
    s.parse i step = (answerOfParse i (step stream).1,
      { s with stream := some (step stream).2.1, forest := (step stream).2.2 }) := by
  simp only [parse, hs]
  split <;> next h => rw [h]; rfl

theorem answerOfRead_eq_violation {r : Except SyntaxError Token} {e : SyntaxError}
    (h : answerOfRead r = .error (.parse (.violation e))) : r = .error e := by
  cases r with
  | ok t => cases h
  | error e' => cases h; rfl

theorem answerOfParse_eq_violation {i : NodeId} {r : Except ParseError Unit} {e : SyntaxError}
    (h : answerOfParse i r = .error (.parse (.violation e))) : r = .error (.violation e) := by
  cases r with
  | ok u => cases h
  | error e' => cases h; rfl

/-- An error while reading leaves the stream where the error stands. -/
theorem violation_of_reads {r : Except SyntaxError Token × TokenStream} (h : stream.Reads ts r)
    (ha : a.parses = false) {e : SyntaxError}
    (he : answerOfRead r.1 = .error (.parse (.violation e))) : ∃ p, e.StandsAt ts p ∧ r.2.rest =
      ts.drop (if a.parses ∧ e.text = (Violation.closer .ifThen).text then p + 1 else p) := by
  obtain ⟨heq, hstands⟩ := h.error e (answerOfRead_eq_violation he)
  refine ⟨stream.position, hstands, ?_⟩
  rw [if_neg (by simp [ha]), h.isRestOf.rest_eq, heq]

theorem perform_advances (hs : s.stream = some stream) (hr : stream.IsRestOf ts) (a : Action) :
    ∃ stream', (s.perform a).2.stream = some stream' ∧
      Advances ts a (s.perform a).1 stream stream' := by
  cases ha : a.reads with
  | false =>
    have hleft := s.leavesStream_perform ha
    refine ⟨stream, hleft.stream_eq.trans hs, hr, Nat.le_refl _, fun _ => rfl, fun _ _ => rfl,
      fun _ _ _ _ => rfl, ?_, fun e he => absurd he (hleft.answer_ne _)⟩
    rintro b i rfl
    cases ha
  | true =>
    cases a with
    | front =>
      have h := TokenStream.reads_front hr
      have hperform : s.perform .front = s.read fun stream => (.ok stream.front, stream) := rfl
      rw [hperform, read_eq hs]
      exact ⟨_, rfl, h.isRestOf, h.position_le, fun _ => rfl, nofun, nofun, nofun,
        fun e he => violation_of_reads h rfl he⟩
    | dequeue =>
      have h := TokenStream.reads_dequeue hr
      have hperform : s.perform .dequeue = s.read TokenStream.dequeue := rfl
      rw [hperform, read_eq hs]
      refine ⟨_, rfl, h.isRestOf, h.position_le, nofun, fun _ hnil => ?_, nofun, nofun,
        fun e he => violation_of_reads h rfl he⟩
      simp [TokenStream.dequeue, hnil]
    | expect keyword text =>
      have h := TokenStream.reads_expect hr keyword text
      have hperform : s.perform (.expect keyword text) =
        s.read fun stream => stream.expect keyword text := rfl
      rw [hperform, read_eq hs]
      refine ⟨_, rfl, h.isRestOf, h.position_le, nofun, nofun, fun _ _ _ hok => ?_, nofun,
        fun e he => violation_of_reads h rfl he⟩
      cases he : (stream.expect keyword text).1 with
      | ok t => rw [he] at hok; cases hok
      | error e => exact (h.error e he).1
    | parseStatement b i =>
      have h := Forest.parses_parseStatement hr s.forest b i
      have hperform : s.perform (.parseStatement b i) =
        s.parse i fun stream => s.forest.parseStatement stream b i := rfl
      rw [hperform, parse_eq hs]
      refine ⟨_, rfl, h.isRestOf, h.position_le, nofun, nofun, nofun, ?_, fun e he => ?_⟩
      · rintro b' i' ⟨⟩ hb
        simp [Forest.parseStatement, hb, answerOfParse]
      · simpa [Action.parses] using h.violation e (answerOfParse_eq_violation he)
    | parseBlock i =>
      have h := Forest.parses_parseBlock hr s.forest i
      have hperform : s.perform (.parseBlock i) =
        s.parse i fun stream => s.forest.parseBlock stream i := rfl
      rw [hperform, parse_eq hs]
      refine ⟨_, rfl, h.isRestOf, h.position_le, nofun, nofun, nofun, nofun, fun e he => ?_⟩
      simpa [Action.parses] using h.violation e (answerOfParse_eq_violation he)
    | _ => cases ha

/-! ### All steps -/

theorem run_append (s : Session) (as bs : List Action) : run s (as ++ bs) = run (run s as) bs :=
  List.foldl_append

theorem run_isRestOf (hs : s.stream = some stream) (hr : stream.IsRestOf ts) (as : List Action) :
    ∃ stream', (run s as).stream = some stream' ∧ stream'.IsRestOf ts := by
  induction as generalizing s stream with
  | nil => exact ⟨stream, hs, hr⟩
  | cons a as ih =>
    obtain ⟨stream', hs', h⟩ := perform_advances hs hr a
    exact ih hs' h.isRestOf

/-- A session that begins with a token list never loses track of it: after any steps the tokens left
are the list without as many of its first tokens as have been counted, and the next step takes
none back, takes none in vain, and fails with errors that stand where they say. -/
theorem stream_advances (m : Machine) (ts : List Token) (forest : Forest)
    (backend : Option Backend) (as : List Action) (a : Action) :
    ∃ stream stream', (run ⟨m, forest, some (.ofTokens ts), backend⟩ as).stream = some stream ∧
      (run ⟨m, forest, some (.ofTokens ts), backend⟩ (as ++ [a])).stream = some stream' ∧
      stream.IsRestOf ts ∧
      Advances ts a ((run ⟨m, forest, some (.ofTokens ts), backend⟩ as).perform a).1 stream
        stream' := by
  obtain ⟨stream, hs, hr⟩ :=
    run_isRestOf (s := ⟨m, forest, some (.ofTokens ts), backend⟩) rfl
      (TokenStream.isRestOf_ofTokens ts) as
  obtain ⟨stream', hs', h⟩ := perform_advances hs hr a
  exact ⟨stream, stream', hs, by rw [run_append]; exact hs', hr, h⟩

end Session

end BlockLang
