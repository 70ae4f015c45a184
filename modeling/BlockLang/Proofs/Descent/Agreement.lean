import BlockLang.Proofs.Descent.Following
import BlockLang.Proofs.Parser.Acceptance

/-! The descent agrees with the parser. From a state where a statement may begin, every routine
follows the run, and where it ends well it has added the tree that the run has read. So no check of
a promise, of a spelling or of a building step ever fails, and every loop comes to its end. -/

namespace BlockLang

open BlockLang.Parser State

namespace Descent

variable {goal : Goal} {limit : Option Nat} {σ τ : State} {ts : List Token} {f g : Forest}
  {statement : NodeId → Descent Unit} {depth : Nat} {c : Condition} {xs : List Statement}

/-- A run has read a statement since the state `σ`, and the forest has sprouted its tree. -/
def ReadsStatement (σ : State) (f : Forest) (τ : State) (g : Forest) : Prop :=
  ∃ s : Statement, s.kind ≠ .block ∧ 0 < s.tokens.length ∧ τ = σ.after .statement s ∧
    f.Sprouts s g

/-- A routine parses statements wherever `depth` compound statements are open: from a state where a
statement may begin, into a node that has just been created. -/
def ParsesStatements (goal : Goal) (limit : Option Nat) (statement : NodeId → Descent Unit)
    (depth : Nat) : Prop :=
  ∀ (σ : State) (ts : List Token) (f : Forest), σ.mode = .statement →
    σ.finished goal = false → σ.frames.length = depth →
    ((Parser.front ts).endsBlock → goal = .statement ∧ σ.frames = []) →
    Follows goal limit (statement f.size) σ ts f.fresh.2 fun _ τ _ g => ReadsStatement σ f τ g

/-! ### Blocks -/

theorem elements_of_endsBlock (he : (Parser.front ts).endsBlock) (i : NodeId) (left k n : Nat) :
    elements statement i left k ⟨⟨ts, n⟩, f⟩ = .ok () ⟨⟨ts, n⟩, f⟩ := by
  have hfront : front ⟨⟨ts, n⟩, f⟩ = .ok (Parser.front ts) ⟨⟨ts, n⟩, f⟩ := rfl
  cases left <;> rw [elements, bind_of_ok hfront, if_pos he] <;> rfl

/-- The loop over the statements of a block ends at a token that ends blocks. Every statement takes
a token, so the tokens left are a bound for the rounds. -/
theorem follows_elements {left : Nat} (hparse : ParsesStatements goal limit statement depth)
    (hm : σ.mode = .statement) (hf : σ.finished goal = false) (hd : σ.frames.length = depth)
    (hfr : goal = .block ∨ σ.frames ≠ []) (hleft : ts.length ≤ left)
    (hg : f.Sprouts (.block xs) g) :
    Follows goal limit (elements statement f.size left xs.length) σ ts g fun _ τ r h =>
      ∃ ys, τ = σ.after .block (.block ys) ∧ (Parser.front r).endsBlock ∧
        f.Sprouts (.block (xs ++ ys)) h := by
  induction left generalizing σ ts g xs with
  | zero =>
    obtain rfl := List.length_eq_zero_iff.1 (Nat.le_zero.1 hleft)
    have he : (Parser.front []).endsBlock := by decide
    refine .of_ok (elements_of_endsBlock he _ _ _ _) ⟨[], (after_nil hm).symm, he, ?_⟩
    rwa [List.append_nil]
  | succ left ih =>
    by_cases he : (Parser.front ts).endsBlock
    · refine .of_ok (elements_of_endsBlock he _ _ _ _) ⟨[], (after_nil hm).symm, he, ?_⟩
      rwa [List.append_nil]
    · rw [elements]
      refine .after_front ?_
      rw [if_neg he]
      refine (follows_inFresh (hparse σ ts g hm hf hd fun h => absurd h he)).counted.bind ?_
      rintro _ _ r h ⟨hcount, rfl, s, hk, hpos, rfl, hs⟩
      obtain ⟨k, hadd, hk⟩ := hg.exists_addToBlock hs hk
      refine .after_ok (build_of_ok hadd _) ?_
      have hr : r.length ≤ left := by
        simp only [after] at hcount
        omega
      have hrest := ih (σ := σ.after .statement s) rfl (finished_after hf hfr)
        ((length_frames_after _ _ _).trans hd) (hfr.imp_right (frames_after_ne_nil _ _)) hr hk
      rw [List.length_append, List.length_singleton] at hrest
      refine hrest.mono ?_
      rintro _ _ q k ⟨ys, rfl, he, hys⟩
      exact ⟨s :: ys, after_cons σ s ys, he, by simpa using hys⟩

/-- A block is parsed into a new node up to a token that ends blocks. -/
theorem follows_block (hparse : ParsesStatements goal limit statement depth)
    (hm : σ.mode = .statement) (hf : σ.finished goal = false) (hd : σ.frames.length = depth)
    (hfr : goal = .block ∨ σ.frames ≠ []) :
    Follows goal limit (inFresh (block statement)) σ ts f fun i τ r g =>
      i = f.size ∧ ∃ xs, τ = σ.after .block (.block xs) ∧ (Parser.front r).endsBlock ∧
        f.Sprouts (.block xs) g := by
  have hg := f.sprouts_fresh
  have hblock : Follows goal limit (block statement f.size) σ ts f.fresh.2 fun _ τ r g =>
      ∃ xs, τ = σ.after .block (.block xs) ∧ (Parser.front r).endsBlock ∧
        f.Sprouts (.block xs) g :=
    .after_ok (blockLength_of_ok hg.blockLength_eq _) <| .after_ok rfl <|
      follows_elements hparse hm hf hd hfr (Nat.le_refl _) hg
  exact follows_inFresh hblock

/-! ### Compound statements -/

/-- The beginning of a compound statement leads into its first block and up to the end of that. -/
theorem follows_opening {header : Header} {beginning : Beginning}
    (hparse : ParsesStatements goal limit statement (σ.frames.length + 1))
    (hm : σ.mode = .statement) (hf : σ.finished goal = false)
    (hl : ∀ n ∈ limit, σ.frames.length < n) (ht : Parser.front ts = header.keyword)
    (hadmits : beginning.admits header.keyword) :
    Follows goal limit (opening statement beginning header) σ ts f fun opened τ r g =>
      opened.2 = f.size ∧ ∃ xs, τ = (σ.enter (header.branch opened.1)).after .block (.block xs) ∧
        (Parser.front r).endsBlock ∧ f.Sprouts (.block xs) g := by
  refine .after_ok (begins_of_admits (s := ⟨⟨ts, σ.position⟩, _⟩) (by rwa [← ht] at hadmits)) ?_
  refine .bind (follows_dequeue hf (.header hm hl) ht) ?_
  rintro _ _ r _ ⟨-, rfl, -, rfl⟩
  refine .bind (follows_condition hf rfl) ?_
  rintro c _ r _ ⟨rfl, rfl⟩
  refine .bind (follows_expect hf rfl (.opener rfl) fun h => ⟨_, if_neg h⟩) ?_
  rintro _ _ r _ ⟨rfl, -, rfl⟩
  refine .bind (follows_block hparse rfl hf rfl (.inr nofun)) ?_
  rintro _ _ r g ⟨rfl, xs, rfl, he, hg⟩
  exact .of_ok rfl ⟨rfl, xs, rfl, he, hg⟩

/-- A token that ends blocks and is not the end of this one is refused where it stands. -/
theorem step_lacks {fr : Frame} {frames : List Frame} {t : Token} (hm : σ.mode = .statement)
    (hfr : σ.frames = fr :: frames) (he : t.endsBlock) (hend : t ≠ "END")
    (helse : t = "ELSE" → ∀ c, fr.branch ≠ .ifBody c) :
    ∃ last, σ.step goal limit t = .fail last (fr.branch.lacks t) := by
  refine ⟨σ.record (.block fr.done.length t), ?_⟩
  simp only [State.step, hm, he, if_true, endBlock, hfr]
  split
  · next hb => exact absurd hb (helse rfl _)
  · exact absurd rfl hend
  · rfl

/-- The last block of a statement that began at `σ` is complete: `fr` holds what is known of the
statement, and its end will close it. -/
structure Completes (σ : State) (fr : Frame) (τ : State) : Prop where
  mode : τ.mode = .statement
  outer : τ.outer = σ.outer
  frames : τ.frames = fr :: σ.frames
  leave : τ.leave fr σ.frames = σ.after .statement (fr.branch.close fr.done)

/-- The `END` of a statement is taken, or what is lacking is reported. -/
theorem Completes.follows_end {fr : Frame} {v : Violation} (hτ : Completes σ fr τ)
    (hf : σ.finished goal = false) (hv : v.kind = .unexpectedToken)
    (hend : Parser.front ts ≠ "END" → (Parser.front ts).endsBlock ∧
      fr.branch.lacks (Parser.front ts) = v ∧ ∀ c, fr.branch ≠ .ifBody c) :
    Follows goal limit (expect "END" v) τ ts f fun _ υ _ g => υ = τ.atEnd fr σ.frames ∧ g = f := by
  have hf' : τ.finished goal = false := by rwa [finished, hτ.outer]
  refine (follows_expect hf' hv (.endBlock hτ.mode hτ.frames) fun hne => ?_).mono ?_
  · obtain ⟨he, rfl, hbranch⟩ := hend hne
    exact step_lacks hτ.mode hτ.frames he hne fun _ => hbranch
  · rintro _ _ _ _ ⟨rfl, -, rfl⟩
    exact ⟨rfl, rfl⟩

theorem completes_enter (σ : State) (h : Header) (c : Condition) (xs : List Statement) :
    Completes σ ⟨h.branch c, σ.position, xs⟩
      ((σ.enter (h.branch c)).after .block (.block xs)) :=
  ⟨rfl, rfl, rfl, leave_after_enter σ h c xs⟩

theorem completes_turn (σ : State) (c : Condition) (xs ys : List Statement) :
    Completes σ ⟨.elseBody c xs, σ.position, ys⟩
      ((((σ.enter (.ifBody c)).after .block (.block xs)).turn c σ.position xs σ.frames).after
        .block (.block ys)) :=
  ⟨rfl, rfl, rfl, leave_after_turn σ c xs ys⟩

/-- After the first block of a choice comes the second one or the end, and the node that was
created for the choice has become it. -/
theorem follows_alternative
    (hparse : ParsesStatements goal limit statement (σ.frames.length + 1))
    (hf : σ.finished goal = false) (he : (Parser.front ts).endsBlock)
    (hg : f.fresh.2.Sprouts (.block xs) g) :
    Follows goal limit (alternative statement f.size c f.fresh.2.size)
      ((σ.enter (.ifBody c)).after .block (.block xs)) ts g fun _ υ r h =>
        ∃ fr, Completes σ fr υ ∧ fr.branch.header = .ifThen ∧
          (Parser.front r ≠ "END" → (Parser.front r).endsBlock ∧
            fr.branch.lacks (Parser.front r) = .endOfElse ∧ ∀ c, fr.branch ≠ .ifBody c) ∧
          f.Sprouts (fr.branch.close fr.done) h := by
  have hdone := completes_enter σ .ifThen c xs
  refine .after_front (.after_check hf (fun hb => ?_) fun hb => ?_)
  · simp only [Bool.or_eq_false_iff, beq_eq_false_iff_ne] at hb
    exact step_lacks hdone.mode hdone.frames he hb.2 fun h => absurd h hb.1
  · split
    · next helse =>
      refine .bind (follows_dequeue hf (.elseBody hdone.mode hdone.frames)
        (eq_of_beq helse)) ?_
      rintro _ _ r _ ⟨-, rfl, -, rfl⟩
      refine .bind (follows_block hparse rfl hf rfl (.inr nofun)) ?_
      rintro _ _ r h ⟨rfl, ys, rfl, he, hh⟩
      obtain ⟨k, hbuild, hk⟩ := hg.exists_assembleIfElse hh c
      exact .of_ok (build_of_ok hbuild _)
        ⟨_, completes_turn σ c xs ys, rfl, fun _ => ⟨he, rfl, nofun⟩, hk⟩
    · next helse =>
      obtain ⟨k, hbuild, hk⟩ := hg.exists_assemble .ifThen c
      refine .of_ok (build_of_ok hbuild _) ⟨_, hdone, rfl, fun hne => absurd ?_ hne, hk⟩
      simpa [helse] using hb

theorem readsStatement_close {b : Branch} (hτ : τ = σ.after .statement (b.close xs))
    (hg : f.Sprouts (b.close xs) g) : ReadsStatement σ f τ g := by
  refine ⟨_, ?_, ?_, hτ, hg⟩ <;> cases b <;> simp [Branch.close]

theorem follows_choice (hparse : ParsesStatements goal limit statement (σ.frames.length + 1))
    (hm : σ.mode = .statement) (hf : σ.finished goal = false)
    (hl : ∀ n ∈ limit, σ.frames.length < n) (ht : Parser.front ts = "IF") :
    Follows goal limit (choice statement f.size) σ ts f.fresh.2 fun _ τ _ g =>
      ReadsStatement σ f τ g := by
  refine .bind (follows_opening hparse hm hf hl ht (by decide)) ?_
  rintro ⟨c, i⟩ _ r g ⟨hi, xs, rfl, he, hg⟩
  obtain rfl : i = f.fresh.2.size := hi
  refine .bind (follows_alternative hparse hf he hg) ?_
  rintro _ τ r h ⟨fr, hτ, hheader, hend, hh⟩
  refine .bind (hτ.follows_end hf rfl hend) ?_
  rintro _ _ r _ ⟨rfl, rfl⟩
  have hclosing : (τ.atEnd fr σ.frames).mode =
      .closer .ifThen (fr.branch.close fr.done) fr.start := by
    rw [← hheader]
    rfl
  have hf' : (τ.atEnd fr σ.frames).finished goal = false := by
    rw [finished] at hf ⊢
    rwa [← hτ.outer] at hf
  refine (follows_close hf' hclosing).mono ?_
  rintro _ _ _ _ ⟨rfl, rfl⟩
  exact readsStatement_close ((close_atEnd _ _ _).trans hτ.leave) hh

theorem follows_loop (hparse : ParsesStatements goal limit statement (σ.frames.length + 1))
    (hm : σ.mode = .statement) (hf : σ.finished goal = false)
    (hl : ∀ n ∈ limit, σ.frames.length < n) (ht : Parser.front ts = "WHILE") :
    Follows goal limit (loop statement f.size) σ ts f.fresh.2 fun _ τ _ g =>
      ReadsStatement σ f τ g := by
  refine .bind (follows_opening hparse hm hf hl ht (by decide)) ?_
  rintro ⟨c, i⟩ _ r g ⟨hi, xs, rfl, he, hg⟩
  obtain rfl : i = f.fresh.2.size := hi
  obtain ⟨h, hbuild, hh⟩ := hg.exists_assemble .whileDo c
  refine .after_ok (build_of_ok hbuild _) (.after_front ?_)
  have hdone := completes_enter σ .whileDo c xs
  refine .bind (hdone.follows_end hf rfl fun _ => ⟨he, rfl, nofun⟩) ?_
  rintro _ _ r _ ⟨rfl, rfl⟩
  refine .bind (follows_expect (t := Header.whileDo.keyword) hf rfl (.closer rfl)
    fun hne => ⟨_, if_neg hne⟩) ?_
  rintro _ _ r _ ⟨rfl, -, rfl⟩
  exact .of_ok rfl (readsStatement_close ((close_atEnd _ _ _).trans hdone.leave) hh)

/-! ### Statements -/

theorem follows_call (hm : σ.mode = .statement) (hf : σ.finished goal = false)
    (ht : (Parser.front ts).isIdentifier) :
    Follows goal limit (call f.size) σ ts f.fresh.2 fun _ τ _ g => ReadsStatement σ f τ g := by
  have hadmits : Beginning.call.admits (Parser.front ts) := ht
  refine .after_ok (begins_of_admits (s := ⟨⟨ts, σ.position⟩, _⟩) hadmits) ?_
  refine .bind (follows_dequeue hf (.call hm ht) rfl) ?_
  rintro _ _ r _ ⟨rfl, rfl, -, rfl⟩
  obtain ⟨g, hbuild, hg⟩ := f.exists_sprouts_call ht
  exact .of_ok (build_of_ok hbuild _)
    ⟨.call (Parser.front _), nofun, Nat.zero_lt_one, add_call σ _, hg⟩

/-- Where no statement begins, the run says so. -/
theorem step_statementStart {t : Token} (hm : σ.mode = .statement)
    (he : t.endsBlock → goal = .statement ∧ σ.frames = []) (hh : Header.ofToken? t = none)
    (ht : t.isIdentifier = false) :
    σ.step goal limit t = .fail σ (.statementStart t) := by
  cases hend : t.endsBlock with
  | true =>
    obtain ⟨rfl, hfr⟩ := he hend
    simp [State.step, hm, hend, endBlock, hfr]
  | false => simp [State.step, hm, hend, beginStatement, hh, ht]

/-- A statement is parsed wherever one that begins with a header is. -/
theorem follows_dispatch {compound : Header → NodeId → Descent Unit} (hm : σ.mode = .statement)
    (hf : σ.finished goal = false)
    (he : (Parser.front ts).endsBlock → goal = .statement ∧ σ.frames = [])
    (hcompound : ∀ header : Header, Parser.front ts = header.keyword →
      Follows goal limit (compound header f.size) σ ts f.fresh.2 fun _ τ _ g =>
        ReadsStatement σ f τ g) :
    Follows goal limit (dispatch compound f.size) σ ts f.fresh.2 fun _ τ _ g =>
      ReadsStatement σ f τ g := by
  refine .after_front ?_
  cases hh : Header.ofToken? (Parser.front ts) with
  | some header =>
    exact .after_check hf nofun fun _ => hcompound header (Header.ofToken?_eq_some_iff.1 hh)
  | none =>
    exact .after_check hf (fun hid => ⟨σ, step_statementStart hm he hh hid⟩)
      fun hid => follows_call hm hf hid

/-- With room for `n` more, a statement is parsed wherever `depth` compound statements are open. -/
theorem parsesStatements_statement (goal : Goal) (n depth : Nat) :
    ParsesStatements goal (some (depth + n)) (Descent.statement n) depth := by
  induction n generalizing depth with
  | zero =>
    intro σ ts f hm hf hd he
    refine follows_dispatch hm hf he fun header hkeyword => ?_
    have hstep : σ.step goal (some depth) header.keyword = .fail σ .shallowerNesting := by
      simp [State.step, hm, beginStatement, hd]
    exact .inr ⟨_, _, rfl, run_error_of_fail hf (by rw [hkeyword]; exact hstep)⟩
  | succ n ih =>
    intro σ ts f hm hf hd he
    subst hd
    have hinner := ih (σ.frames.length + 1)
    rw [Nat.add_right_comm] at hinner
    have hl : ∀ k ∈ some (σ.frames.length + (n + 1)), σ.frames.length < k := by
      simp
    refine follows_dispatch hm hf he fun header hkeyword => ?_
    cases header with
    | ifThen => exact follows_choice hinner hm hf hl hkeyword
    | whileDo => exact follows_loop hinner hm hf hl hkeyword

/-! ### Parsing -/

/-- The descent from a fresh root follows the parser to its end. -/
theorem follows_goal (m : Machine) (goal : Goal) (ts : List Token) (f : Forest) :
    Follows goal (some (nestingLimit m)) (inFresh (Descent.goal m goal)) (initial 0) ts f
      fun i τ r g => i = f.size ∧
        ∃ s, (run goal (some (nestingLimit m)) τ r).Returns goal s r ∧ f.Sprouts s g := by
  have hparse := parsesStatements_statement goal (nestingLimit m) 0
  rw [Nat.zero_add] at hparse
  cases goal with
  | statement =>
    refine (follows_inFresh (hparse _ ts f rfl rfl rfl fun _ => ⟨rfl, rfl⟩)).mono ?_
    rintro _ _ r g ⟨rfl, s, -, -, rfl, hg⟩
    refine ⟨rfl, s, ?_, hg⟩
    rw [(Stops.finished rfl).run_eq]
    exact ⟨rfl, rfl⟩
  | block =>
    refine (follows_block hparse rfl rfl rfl (.inl rfl)).mono ?_
    rintro _ _ r g ⟨rfl, xs, rfl, he, hg⟩
    refine ⟨rfl, _, ?_, hg⟩
    rw [(Stops.halt rfl (step_halt rfl rfl he)).run_eq]
    exact ⟨rfl, rfl⟩

theorem kind_violation (v : Violation) : v.kind ∈ [.unexpectedToken, .invalidCondition,
    .invalidStatementStart, .nestingTooDeep] := by
  cases v <;> simp [Violation.kind]

/-- An error of a run is a violation where it stops. -/
theorem exists_violation_of_stops {o : Outcome} {e : SyntaxError} (h : Stops goal limit σ ts o)
    (he : o.error? = some e) : ∃ v : Violation, ∃ t, e = v.error σ.position t := by
  cases h with
  | finished _ => cases he
  | halt _ _ => cases he
  | fail _ _ => exact ⟨_, _, (Option.some.inj he).symm⟩
  | reject _ _ => exact ⟨_, _, (Option.some.inj he).symm⟩
  | exhausted _ _ _ => exact ⟨_, _, (Option.some.inj he).symm⟩

/-- Every parse ends, with a well-formed tree or with an error of four kinds that has a position.
The descent into a fresh root of any forest ends in the same way: with the tree under its root, or
with that very error. So no check of it ever fails, whether of what a routine was promised, of a
condition that is looked up, or of a building step; and no loop of it goes on in vain. -/
theorem parse_returns_or_violates (m : Machine) (goal : Goal) (ts : List Token) :
    (∃ s r, (Parser.parse m goal ts).Returns goal s r ∧ s.WellFormed ∧ s.goal = goal ∧
      ∀ f, ∃ i n g, Descent.parse m goal ts f = .ok i ⟨⟨r, n⟩, g⟩ ∧ f.node? i = none ∧
        g.statement? i = some s) ∨
    ∃ e, ∃ p : Nat, (Parser.parse m goal ts).error? = some e ∧ e.position = some p ∧
      e.kind ∈ [.unexpectedToken, .invalidCondition, .invalidStatementStart, .nestingTooDeep] ∧
      ∀ f, ∃ s, Descent.parse m goal ts f = .error (.parse (.violation e)) s := by
  cases he : (Parser.parse m goal ts).error? with
  | none =>
    have hreturns : (Parser.parse m goal ts).Returns goal
        ((Parser.parse m goal ts).last.result goal) (Parser.parse m goal ts).rest :=
      ⟨by rw [Outcome.result, he], rfl⟩
    obtain ⟨p, -, hp, -⟩ := derives_of_returns hreturns
    refine .inl ⟨_, _, hreturns, hp.wellFormed.1, hp.wellFormed.2, fun f => ?_⟩
    rcases follows_goal m goal ts f with
      ⟨i, τ, r, g, hx, hrun, -, rfl, s, hs, hg⟩ | ⟨e, _, -, he'⟩
    · rw [← hrun] at hs
      obtain rfl := Except.ok.inj (hreturns.1.symm.trans hs.1)
      obtain rfl := hs.2
      exact ⟨f.size, _, g, hx, Forest.node?_eq_none_iff.2 (Nat.le_refl _), hg.tree.statement?_eq⟩
    · cases he.symm.trans he'
  | some e =>
    obtain ⟨_, τ, _, -, -, hstop⟩ := run_cases goal (some (nestingLimit m)) (initial 0) ts
    obtain ⟨v, t, rfl⟩ := exists_violation_of_stops hstop he
    refine .inr ⟨_, τ.position, rfl, rfl, kind_violation v, fun f => ?_⟩
    rcases follows_goal m goal ts f with
      ⟨_, υ, q, _, -, hrun, -, -, s, hs, -⟩ | ⟨e, site, hx, he'⟩
    · rw [← hrun] at hs
      have hok : (Parser.parse m goal ts).result goal = .ok s := hs.1
      rw [Outcome.result, he] at hok
      cases hok
    · obtain rfl := Option.some.inj (he.symm.trans he')
      exact ⟨site, hx⟩

example : (match Descent.parse .usual .block
      ["WHILE", "random", "DO", "move", "END", "WHILE", "turn"] .empty with
    | .ok i s => s.forest.statement? i
    | .error _ _ => none) = some (.block [.whileDo .random [.call "move"], .call "turn"]) := by
  decide +kernel

end Descent

end BlockLang
