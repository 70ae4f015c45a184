import BlockLang.Proofs.Descent.Steps
import BlockLang.Proofs.Forest.Sprouting

/-! Routines of a descent that follow a run of the parser. Where the routine goes on, the run can
go on from a state of its own with the same tokens left; where the routine stops with a violation,
the run ends with that error. The other faults have no place in this. -/

namespace BlockLang

open BlockLang.Parser State

namespace Descent

variable {α β : Type} {goal : Goal} {limit : Option Nat} {σ τ : State} {ts : List Token}
  {t : Token} {f g : Forest} {v : Violation}

/-- A routine follows the run from `σ` on `ts`: it stops with the error of the run, or it gives what
`post` says, and the run goes on from another state with the tokens that are left. -/
def Follows (goal : Goal) (limit : Option Nat) (x : Descent α) (σ : State) (ts : List Token)
    (f : Forest) (post : α → State → List Token → Forest → Prop) : Prop :=
  (∃ a τ r g, x ⟨⟨ts, σ.position⟩, f⟩ = .ok a ⟨⟨r, τ.position⟩, g⟩ ∧
    run goal limit σ ts = run goal limit τ r ∧
    τ.position + r.length = σ.position + ts.length ∧ post a τ r g) ∨
  ∃ e s, x ⟨⟨ts, σ.position⟩, f⟩ = .error (.parse (.violation e)) s ∧
    (run goal limit σ ts).error? = some e

variable {x : Descent α} {next : α → Descent β} {P : α → State → List Token → Forest → Prop}
  {Q : β → State → List Token → Forest → Prop}

/-! ### Putting routines together -/

theorem Follows.bind (hx : Follows goal limit x σ ts f P)
    (hnext : ∀ a τ r g, P a τ r g → Follows goal limit (next a) τ r g Q) :
    Follows goal limit (x >>= next) σ ts f Q := by
  rcases hx with ⟨a, τ, r, g, hx, hrun, hlen, hP⟩ | ⟨e, s, hx, he⟩
  · rcases hnext a τ r g hP with ⟨b, υ, q, h, hb, hrun', hlen', hQ⟩ | ⟨e, s, hb, he⟩
    · refine .inl ⟨b, υ, q, h, ?_, hrun.trans hrun', hlen'.trans hlen, hQ⟩
      rw [bind_of_ok hx, hb]
    · exact .inr ⟨e, s, by rw [bind_of_ok hx, hb], by rw [hrun, he]⟩
  · exact .inr ⟨e, s, bind_of_error hx, he⟩

theorem Follows.mono {R : α → State → List Token → Forest → Prop}
    (hx : Follows goal limit x σ ts f P) (hPR : ∀ a τ r g, P a τ r g → R a τ r g) :
    Follows goal limit x σ ts f R :=
  hx.imp_left fun ⟨a, τ, r, g, hx, hrun, hlen, hP⟩ =>
    ⟨a, τ, r, g, hx, hrun, hlen, hPR a τ r g hP⟩

/-- The tokens that a routine takes are counted. -/
theorem Follows.counted (hx : Follows goal limit x σ ts f P) :
    Follows goal limit x σ ts f fun a τ r g =>
      τ.position + r.length = σ.position + ts.length ∧ P a τ r g :=
  hx.imp_left fun ⟨a, τ, r, g, hx, hrun, hlen, hP⟩ =>
    ⟨a, τ, r, g, hx, hrun, hlen, hlen, hP⟩

/-- A routine that takes no token stays where the run is. -/
theorem Follows.of_ok {a : α} (hx : x ⟨⟨ts, σ.position⟩, f⟩ = .ok a ⟨⟨ts, σ.position⟩, g⟩)
    (hP : P a σ ts g) : Follows goal limit x σ ts f P :=
  .inl ⟨a, σ, ts, g, hx, rfl, rfl, hP⟩

theorem Follows.after_ok {a : α} (hx : x ⟨⟨ts, σ.position⟩, f⟩ = .ok a ⟨⟨ts, σ.position⟩, g⟩)
    (h : Follows goal limit (next a) σ ts g Q) : Follows goal limit (x >>= next) σ ts f Q := by
  rw [Follows, bind_of_ok hx]
  exact h

/-- What is parsed into a fresh node is parsed into the newest one. -/
theorem follows_inFresh {routine : NodeId → Descent Unit}
    {R : Unit → State → List Token → Forest → Prop}
    (h : Follows goal limit (routine f.size) σ ts f.fresh.2 R) :
    Follows goal limit (inFresh routine) σ ts f fun i τ r g => i = f.size ∧ R () τ r g :=
  .after_ok rfl (h.bind fun _ _ _ _ hR => .of_ok rfl ⟨rfl, hR⟩)

/-! ### Tokens -/

theorem run_error_of_fail {last : State} (hf : σ.finished goal = false)
    (h : σ.step goal limit (Parser.front ts) = .fail last v) :
    (run goal limit σ ts).error? = some (v.error σ.position (some (Parser.front ts))) := by
  rw [(Stops.fail hf h).run_eq]

theorem Follows.after_front {next : Token → Descent β}
    (h : Follows goal limit (next (Parser.front ts)) σ ts f Q) :
    Follows goal limit (front >>= next) σ ts f Q :=
  .after_ok rfl h

/-- A check fails where the run does, or holds. -/
theorem Follows.after_check {b : Bool} {next : Unit → Descent β} (hf : σ.finished goal = false)
    (hfail : b = false → ∃ last, σ.step goal limit (Parser.front ts) = .fail last v)
    (h : b → Follows goal limit (next ()) σ ts f Q) :
    Follows goal limit (check b v >>= next) σ ts f Q := by
  cases b with
  | true => exact .after_ok rfl (h rfl)
  | false =>
    obtain ⟨last, hstep⟩ := hfail rfl
    exact .inr ⟨_, _, rfl, run_error_of_fail hf hstep⟩

/-- A token is taken where the run takes it. -/
theorem follows_dequeue (hf : σ.finished goal = false) (h : σ.Takes limit t τ)
    (ht : Parser.front ts = t) :
    Follows goal limit dequeue σ ts f fun a υ r g => a = t ∧ υ = τ ∧ ts = t :: r ∧ g = f := by
  cases ts with
  | nil => exact absurd ht.symm h.ne_endOfInput
  | cons t' r =>
    obtain rfl : t' = t := ht
    refine .inl ⟨t', τ, r, f, ?_, ?_, ?_, rfl, rfl, rfl, rfl⟩
    · rw [h.position]
      rfl
    · rw [run_cons, hf, h.step]
      rfl
    · rw [h.position, List.length_cons]
      omega

/-- A keyword is expected where the run takes it or fails. -/
theorem follows_expect (hf : σ.finished goal = false) (hv : v.kind = .unexpectedToken)
    (h : σ.Takes limit t τ)
    (hfail : Parser.front ts ≠ t → ∃ last, σ.step goal limit (Parser.front ts) = .fail last v) :
    Follows goal limit (expect t v) σ ts f fun _ υ r g => υ = τ ∧ ts = t :: r ∧ g = f := by
  by_cases ht : Parser.front ts = t
  · rw [Follows, expect_of_eq (s := ⟨⟨ts, σ.position⟩, f⟩) ht]
    exact (follows_dequeue hf h ht).mono fun _ _ _ _ ⟨_, hυ, hr, hg⟩ => ⟨hυ, hr, hg⟩
  · obtain ⟨last, hstep⟩ := hfail ht
    exact .inr ⟨_, _, expect_of_ne (s := ⟨⟨ts, σ.position⟩, f⟩) ht hv,
      run_error_of_fail hf hstep⟩

/-- The token after the end of a choice is taken and then looked at, as in the run. -/
theorem follows_close {s : Statement} {start : Nat} (hf : σ.finished goal = false)
    (hm : σ.mode = .closer .ifThen s start) :
    Follows goal limit (close "IF" (.closer .ifThen)) σ ts f fun _ τ _ g =>
      τ = ((σ.add s).record (.statement s.kind start σ.position)).shift .statement ∧ g = f := by
  have hstep : ∀ t, t ≠ Header.ifThen.keyword →
      σ.step goal limit t = .reject (σ.shift σ.mode) (.closer .ifThen) := by
    intro t ht
    simp only [State.step, hm, closeStatement, if_neg ht]
  cases ts with
  | nil =>
    refine .inr ⟨_, _, close_nil _ _ _ f, ?_⟩
    rw [run_nil, hf, hstep Token.endOfInput (by decide)]
    rfl
  | cons t r =>
    by_cases ht : t = Header.ifThen.keyword
    · subst ht
      have htakes : σ.Takes limit _ _ := .closer hm
      refine .inl ⟨(), _, r, f, ?_, ?_, ?_, rfl, rfl⟩
      · rw [htakes.position]
        exact close_keyword _ _ r _ f
      · rw [run_cons, hf, htakes.step]
        rfl
      · rw [htakes.position, List.length_cons]
        omega
    · refine .inr ⟨_, _, close_of_ne ht _ r _ f, ?_⟩
      rw [run_cons, hf, hstep t ht]
      rfl

/-- A condition is read where the run reads it or fails, and its spelling is known. -/
theorem follows_condition {header : Header} {start : Nat} (hf : σ.finished goal = false)
    (hm : σ.mode = .condition header start) :
    Follows goal limit (condition header) σ ts f fun c τ _ g =>
      τ = σ.shift (.opener header c start) ∧ g = f := by
  refine .after_front (.after_check hf (fun hb => ⟨σ, ?_⟩) fun hb => ?_)
  · have hnone : Condition.ofToken? (Parser.front ts) = none := by
      simpa [Token.isCondition] using hb
    simp only [State.step, hm, hnone]
  · obtain ⟨c, hc⟩ := Option.isSome_iff_exists.1 hb
    refine (follows_dequeue hf (.condition hm hc) rfl).bind ?_
    rintro _ _ r _ ⟨rfl, rfl, -, rfl⟩
    rw [Condition.ofSpelling_eq_ok hc]
    exact .of_ok rfl ⟨rfl, rfl⟩

end Descent

end BlockLang
