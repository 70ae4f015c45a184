import BlockLang.Proofs.Descent.Inner
import BlockLang.Proofs.Forest.Bearing
import BlockLang.Proofs.Parser.Assembly

/-! How a plan is found. The stream begins with the tokens after which a statement is put together,
and then the plan is to put together that statement; or it does not, and then the run of the parser
fails there, and so does the plan. -/

namespace BlockLang

open BlockLang.Parser State

/-- A plan is to make a node a certain statement, whose bodies have been built. -/
inductive Plan.Fits (f g : Forest) : Plan → Statement → Prop where
  | call {name : String} : Token.isIdentifier name → Fits f g (.call name) (.call name)
  | test {kind : Kind} {c : Condition} {ids : List NodeId} {xs : List Statement} :
      f.NewBodies g ids xs → Fits f g (.test kind c ids) (.node kind (some c) none xs)

namespace Descent

variable {s s' : Site} {f g : Forest} {n depth : Nat} {ts p r w : List Token} {t t₀ : Token}
  {header : Header} {beginning : Beginning} {c : Condition} {b : Branch} {xs : List Statement}
  {x : Statement} {pl : Plan} {opened : Condition × NodeId}

/-! ### The first block -/

theorem opening_of_derives (hb : beginning.admits t₀) (hc : Condition.ofToken? t = some c)
    (hp : Derives .block p (.block xs)) (he : (Parser.front r).endsBlock)
    (hlen : (p ++ r).length ≤ depth) (header : Header) (n : Nat) (f : Forest) :
    ∃ g, opening (statement depth) beginning header
        ⟨⟨t₀ :: t :: header.opener :: (p ++ r), n⟩, f⟩ =
          .ok (c, f.size) ⟨⟨r, n + 3 + p.length⟩, g⟩ ∧ f.Sprouts (.block xs) g := by
  obtain ⟨g, hx, hg⟩ := inFresh_block_of_derives hp he hlen (n + 3) f
  exact ⟨g, opening_eq_ok_iff.2 ⟨hb, t₀, t, _, rfl, hc, hx⟩, hg⟩

theorem derives_of_inFresh_block {i : NodeId} (hlen : ts.length ≤ depth)
    (h : inFresh (block (statement depth)) ⟨⟨ts, n⟩, f⟩ = .ok i s') :
    ∃ p xs r g, ts = p ++ r ∧ Derives .block p (.block xs) ∧ (Parser.front r).endsBlock ∧
      i = f.size ∧ s' = ⟨⟨r, n + p.length⟩, g⟩ ∧ f.Sprouts (.block xs) g := by
  rcases inFresh_block_cases hlen n f with ⟨p, xs, r, g, hts, hp, he, hx, hg⟩ | ⟨e, g, -, hx, -⟩
  · cases hx.symm.trans h
    exact ⟨p, xs, r, g, hts, hp, he, rfl, rfl, hg⟩
  · cases hx.symm.trans h

theorem derives_of_opening (hlen : ts.length ≤ depth)
    (h : opening (statement depth) beginning header ⟨⟨ts, n⟩, f⟩ = .ok opened s') :
    ∃ t₀ t p xs r g, beginning.admits t₀ ∧ ts = t₀ :: t :: header.opener :: (p ++ r) ∧
      Condition.ofToken? t = some opened.1 ∧ Derives .block p (.block xs) ∧
      (Parser.front r).endsBlock ∧ opened.2 = f.size ∧ s' = ⟨⟨r, n + 3 + p.length⟩, g⟩ ∧
      f.Sprouts (.block xs) g := by
  obtain ⟨hb, t₀, t, r₀, hts, hc, hx⟩ := opening_eq_ok_iff.1 h
  obtain rfl : ts = _ := hts
  have hlen' : r₀.length ≤ depth := by
    simp only [List.length_cons] at hlen
    omega
  obtain ⟨p, xs, r, g, rfl, hp, he, hi, rfl, hg⟩ := derives_of_inFresh_block hlen' hx
  exact ⟨t₀, t, p, xs, r, g, hb, rfl, hc, hp, he, hi, rfl, hg⟩

/-! ### Plans that are found -/

/-- A plan has been found at the place where a statement is put together. -/
def Finds (ts : List Token) (n : Nat) (f : Forest) (pl : Plan) (s' : Site) : Prop :=
  ∃ p x r g, ts = p ++ r ∧ Assembles p x (Parser.front r) ∧ s' = ⟨⟨r, n + p.length⟩, g⟩ ∧
    f.Extends g ∧ pl.Fits f g x

/-- The first block of a statement is its last one. -/
theorem finds_first (hc : Condition.ofToken? t = some c) (hp : Derives .block p (.block xs))
    (he : (Parser.front r).endsBlock) (hl : (header.branch c).isLast (Parser.front r))
    (hg : f.Sprouts (.block xs) g) (n : Nat) :
    Finds (header.keyword :: t :: header.opener :: (p ++ r)) n f
      (.test ((header.branch c).close xs).kind c [f.size]) ⟨⟨r, n + 3 + p.length⟩, g⟩ := by
  refine ⟨[header.keyword, t, header.opener] ++ p, (header.branch c).close xs, r, g, rfl,
    .compound (.first hc) hp he hl, ?_, hg.old, ?_⟩
  · simp only [List.length_append, List.length_cons, List.length_nil]
    congr 2
    omega
  · cases header <;> exact .test hg.newBodies

theorem finds_of_planChoice (hlen : ts.length ≤ depth)
    (h : planChoice (statement depth) ⟨⟨ts, n⟩, f⟩ = .ok pl s') : Finds ts n f pl s' := by
  simp only [planChoice, bind_eq_ok_iff, front_eq_ok_iff, check_eq_ok_iff] at h
  obtain ⟨opened, _, hopening, t₁, _, ⟨ht₁, rfl⟩, _, _, ⟨hcheck, rfl⟩, hrest⟩ := h
  obtain ⟨t₀, t, p, xs, r, g, hb, rfl, hc, hp, he, hi, rfl, hg⟩ :=
    derives_of_opening hlen hopening
  obtain rfl : t₀ = "IF" := eq_of_beq hb
  have ht₁ : Parser.front r = t₁ := ht₁
  have hlen' : r.length ≤ depth := by
    simp only [List.length_cons, List.length_append] at hlen
    omega
  split at hrest
  · next helse =>
    obtain rfl : t₁ = "ELSE" := eq_of_beq helse
    simp only [bind_eq_ok_iff, dequeue_eq_ok_iff, pure_eq_ok_iff] at hrest
    obtain ⟨_, _, ⟨r₁, hr, rfl⟩, i', _, hblock, rfl, rfl⟩ := hrest
    obtain rfl : r = _ :: r₁ := hr
    obtain rfl : _ = "ELSE" := ht₁
    rw [List.length_cons] at hlen'
    obtain ⟨q, ys, r, k, rfl, hq, he', rfl, rfl, hk⟩ :=
      derives_of_inFresh_block (Nat.le_of_succ_le hlen') hblock
    refine ⟨["IF", t, "THEN"] ++ p ++ ["ELSE"] ++ q, .ifElse opened.1 xs ys, r, k, by simp; rfl,
      .compound (.second hc hp) hq he' rfl, ?_, hg.old.trans hk.old, ?_⟩
    · simp only [List.length_append, List.length_cons, List.length_nil]
      congr 2
      omega
    · rw [hi]
      exact .test (hg.newBodies_two hk)
  · next helse =>
    have hend : Parser.front r = "END" := by
      rw [ht₁]
      simpa [helse] using hcheck
    have hlast : (Header.ifThen.branch opened.1).isLast (Parser.front r) := by
      rw [hend]
      rfl
    obtain ⟨rfl, rfl⟩ := pure_eq_ok_iff.1 hrest
    rw [hi]
    exact finds_first hc hp he hlast hg n

theorem finds_of_planLoop (hlen : ts.length ≤ depth)
    (h : planLoop (statement depth) ⟨⟨ts, n⟩, f⟩ = .ok pl s') : Finds ts n f pl s' := by
  simp only [planLoop, bind_eq_ok_iff, pure_eq_ok_iff] at h
  obtain ⟨opened, _, hopening, rfl, rfl⟩ := h
  obtain ⟨t₀, t, p, xs, r, g, hb, rfl, hc, hp, he, hi, rfl, hg⟩ :=
    derives_of_opening hlen hopening
  obtain rfl : t₀ = "WHILE" := eq_of_beq hb
  have hlast : (Header.whileDo.branch opened.1).isLast (Parser.front r) := rfl
  rw [hi]
  exact finds_first hc hp he hlast hg n

theorem finds_of_planCall (h : planCall ⟨⟨ts, n⟩, f⟩ = .ok pl s') : Finds ts n f pl s' := by
  simp only [planCall, bind_eq_ok_iff, begins_eq_ok_iff, dequeue_eq_ok_iff, pure_eq_ok_iff] at h
  obtain ⟨_, _, ⟨hid, rfl⟩, t, _, ⟨r, hts, rfl⟩, rfl, rfl⟩ := h
  obtain rfl : ts = t :: r := hts
  exact ⟨[t], .call t, r, f, rfl, .call hid, rfl, .refl f, .call hid⟩

/-! ### Where plans are found -/

theorem exists_planChoice_ok {body : NodeId} {s₁ : Site}
    (hopening : opening (statement depth) .ifThen .ifThen s = .ok (c, body) s₁)
    (hfront : s₁.stream.front = "END") : ∃ pl s', planChoice (statement depth) s = .ok pl s' := by
  refine ⟨.test .ifThen c [body], s₁, ?_⟩
  rw [planChoice, bind_of_ok hopening, bind_of_ok (front_eq_ok_iff.2 ⟨hfront, rfl⟩)]
  rfl

theorem exists_planChoice_ok_two {body body' : NodeId} {s₁ : Site}
    (hopening : opening (statement depth) .ifThen .ifThen s = .ok (c, body) s₁)
    (hrest : s₁.stream.rest = "ELSE" :: r)
    (hblock : inFresh (block (statement depth)) ⟨⟨r, s₁.stream.position + 1⟩, s₁.forest⟩ =
      .ok body' s') : ∃ pl s', planChoice (statement depth) s = .ok pl s' := by
  have hfront : s₁.stream.front = "ELSE" := by
    rw [TokenStream.front, hrest]
    rfl
  refine ⟨.test .ifElse c [body, body'], s', ?_⟩
  rw [planChoice, bind_of_ok hopening, bind_of_ok (front_eq_ok_iff.2 ⟨hfront, rfl⟩)]
  refine (bind_of_ok (check_true _ _)).trans ?_
  rw [if_pos (by decide), bind_of_ok (dequeue_eq_ok_iff.2 ⟨r, hrest, rfl⟩), bind_of_ok hblock]
  rfl

/-- The tokens into the last block of a compound statement, and of that block, make a plan. -/
theorem exists_planCompound_ok (hw : Leads w b) (hp : Derives .block p (.block xs))
    (he : (Parser.front r).endsBlock) (hl : b.isLast (Parser.front r))
    (hlen : (w ++ p ++ r).length ≤ depth) (n : Nat) (f : Forest) :
    ∃ pl s', Parser.front (w ++ p ++ r) = b.header.keyword ∧
      planCompound (depth + 1) b.header ⟨⟨w ++ p ++ r, n⟩, f⟩ = .ok pl s' := by
  cases hw with
  | @first h t c hc =>
    have hlen' : (p ++ r).length ≤ depth := by
      simp only [List.length_append, List.length_cons] at hlen ⊢
      omega
    cases h with
    | ifThen =>
      obtain ⟨g, hopening, -⟩ :=
        opening_of_derives (by decide : Beginning.ifThen.admits "IF") hc hp he hlen' .ifThen n f
      obtain ⟨pl, s', hplan⟩ := exists_planChoice_ok hopening (eq_of_beq hl)
      exact ⟨pl, s', rfl, hplan⟩
    | whileDo =>
      obtain ⟨g, hopening, -⟩ := opening_of_derives
        (by decide : Beginning.whileDo.admits "WHILE") hc hp he hlen' .whileDo n f
      exact ⟨_, _, rfl, bind_of_ok hopening⟩
  | @second t c q ys hc hq =>
    have hsplit : ["IF", t, "THEN"] ++ q ++ ["ELSE"] ++ p ++ r =
        "IF" :: t :: "THEN" :: (q ++ ("ELSE" :: (p ++ r))) := by simp
    rw [hsplit] at hlen ⊢
    simp only [List.length_append, List.length_cons] at hlen
    have hlen' : (q ++ "ELSE" :: (p ++ r)).length ≤ depth := by
      simp only [List.length_append, List.length_cons]
      omega
    have hlen'' : (p ++ r).length ≤ depth := by
      rw [List.length_append]
      omega
    have helse : (Parser.front ("ELSE" :: (p ++ r))).endsBlock := rfl
    obtain ⟨g, hopening, -⟩ := opening_of_derives (by decide : Beginning.ifThen.admits "IF") hc hq
      helse hlen' .ifThen n f
    obtain ⟨k, hblock, -⟩ := inFresh_block_of_derives hp he hlen'' (n + 3 + q.length + 1) g
    obtain ⟨pl, s', hplan⟩ := exists_planChoice_ok_two hopening rfl hblock
    exact ⟨pl, s', rfl, hplan⟩

theorem planStatement_of_header (h : Parser.front ts = header.keyword)
    (planned : Header → Descent Plan) (n : Nat) (f : Forest) :
    planStatement planned ⟨⟨ts, n⟩, f⟩ = planned header ⟨⟨ts, n⟩, f⟩ := by
  have hfront : front ⟨⟨ts, n⟩, f⟩ = .ok header.keyword ⟨⟨ts, n⟩, f⟩ :=
    front_eq_ok_iff.2 ⟨h, rfl⟩
  rw [planStatement, bind_of_ok hfront, Header.ofToken?_keyword]
  rfl

theorem planStatement_of_isIdentifier (h : (Parser.front ts).isIdentifier)
    (planned : Header → Descent Plan) (n : Nat) (f : Forest) :
    planStatement planned ⟨⟨ts, n⟩, f⟩ = planCall ⟨⟨ts, n⟩, f⟩ := by
  have hfront : front ⟨⟨ts, n⟩, f⟩ = .ok (Parser.front ts) ⟨⟨ts, n⟩, f⟩ := rfl
  rw [planStatement, bind_of_ok hfront, h, Header.ofToken?_of_isIdentifier h]
  rfl

theorem planStatement_of_neither (hh : Header.ofToken? (Parser.front ts) = none)
    (hid : (Parser.front ts).isIdentifier = false) (planned : Header → Descent Plan) (n : Nat)
    (f : Forest) : ∃ e, planStatement planned ⟨⟨ts, n⟩, f⟩ = .error e ⟨⟨ts, n⟩, f⟩ := by
  have hfront : front ⟨⟨ts, n⟩, f⟩ = .ok (Parser.front ts) ⟨⟨ts, n⟩, f⟩ := rfl
  rw [planStatement, bind_of_ok hfront, hh, hid]
  exact ⟨_, bind_of_error (check_false _ _)⟩

theorem not_isIdentifier_keyword (header : Header) : header.keyword.isIdentifier = false := by
  cases header <;> decide +kernel

/-- Wherever a statement is put together, a plan is found. -/
theorem exists_plan_ok (h : Assembles p x (Parser.front r))
    (hb : beginning.admits (Parser.front (p ++ r))) (hlen : (p ++ r).length ≤ depth) (n : Nat)
    (f : Forest) : ∃ pl s', plan depth beginning ⟨⟨p ++ r, n⟩, f⟩ = .ok pl s' := by
  generalize hnext : Parser.front r = next at h
  cases h with
  | @call t _ hid =>
    have hcall : planCall ⟨⟨[t] ++ r, n⟩, f⟩ = .ok (.call t) ⟨⟨r, n + 1⟩, f⟩ := by
      have hadmits : Beginning.call.admits t := hid
      rw [planCall, bind_of_ok (begins_of_admits (s := ⟨⟨[t] ++ r, n⟩, f⟩) hadmits)]
      exact bind_of_ok (dequeue_cons t r n f)
    have hne : ∀ header : Header, t ≠ header.keyword := by
      rintro header rfl
      rw [not_isIdentifier_keyword] at hid
      cases hid
    cases beginning with
    | anyStatement =>
      have hfront : (Parser.front ([t] ++ r)).isIdentifier := hid
      exact ⟨_, _, (planStatement_of_isIdentifier hfront _ n f).trans hcall⟩
    | ifThen => exact absurd (eq_of_beq hb) (hne .ifThen)
    | whileDo => exact absurd (eq_of_beq hb) (hne .whileDo)
    | call => exact ⟨_, _, hcall⟩
  | @compound w p b xs _ hw hp he hl =>
    subst hnext
    obtain ⟨pl, s', hfront, hplan⟩ := exists_planCompound_ok hw hp he hl hlen n f
    rw [hfront] at hb
    cases beginning with
    | anyStatement => exact ⟨pl, s', (planStatement_of_header hfront _ n f).trans hplan⟩
    | ifThen =>
      cases hh : b.header with
      | ifThen =>
        rw [hh] at hplan
        exact ⟨pl, s', hplan⟩
      | whileDo => exact absurd (hh ▸ hb) (by decide)
    | whileDo =>
      cases hh : b.header with
      | ifThen => exact absurd (hh ▸ hb) (by decide)
      | whileDo =>
        rw [hh] at hplan
        exact ⟨pl, s', hplan⟩
    | call =>
      have hb : b.header.keyword.isIdentifier := hb
      rw [not_isIdentifier_keyword] at hb
      cases hb

/-! ### Where no plan is found -/

theorem length_frames_initial_lt (n depth : Nat) :
    ∀ k ∈ some (1 + depth), (initial n).frames.length < k := by
  rintro _ ⟨⟩
  exact Nat.lt_add_right depth Nat.one_pos

/-- A plan follows the run as far as it goes. -/
theorem follows_planChoice (ht : Parser.front ts = "IF") (n : Nat) (f : Forest) :
    Follows .statement (some (1 + depth)) (planChoice (statement depth))
      (initial n) ts f fun _ _ _ _ => True := by
  have hinner := parsesStatements_statement .statement depth 1
  have hl := length_frames_initial_lt n depth
  refine .bind (follows_opening hinner rfl rfl hl ht (by decide)) ?_
  rintro ⟨c, i⟩ _ r g ⟨-, xs, rfl, he, -⟩
  have hdone := completes_enter (initial n) .ifThen c xs
  refine .after_front (.after_check rfl (fun hb => ?_) fun _ => ?_)
  · simp only [Bool.or_eq_false_iff, beq_eq_false_iff_ne] at hb
    exact step_lacks hdone.mode hdone.frames he hb.2 fun h => absurd h hb.1
  · split
    · next helse =>
      refine .bind (follows_dequeue rfl (.elseBody hdone.mode hdone.frames)
        (eq_of_beq helse)) ?_
      rintro _ _ r _ ⟨-, rfl, -, rfl⟩
      refine .bind (follows_block hinner rfl rfl rfl (.inr (List.cons_ne_nil _ _))) ?_
      exact fun _ _ _ _ _ => .of_ok rfl trivial
    · exact .of_ok rfl trivial

theorem follows_planLoop (ht : Parser.front ts = "WHILE") (n : Nat) (f : Forest) :
    Follows .statement (some (1 + depth)) (planLoop (statement depth))
      (initial n) ts f fun _ _ _ _ => True := by
  have hinner := parsesStatements_statement .statement depth 1
  have hl := length_frames_initial_lt n depth
  refine .bind (follows_opening hinner rfl rfl hl ht (by decide)) ?_
  exact fun _ _ _ _ _ => .of_ok rfl trivial

theorem follows_planCompound (ht : Parser.front ts = header.keyword) (n : Nat) (f : Forest) :
    Follows .statement (some (1 + depth)) (planCompound (depth + 1) header)
      (initial n) ts f fun _ _ _ _ => True := by
  cases header with
  | ifThen => exact follows_planChoice ht n f
  | whileDo => exact follows_planLoop ht n f

theorem follows_planCall (ht : (Parser.front ts).isIdentifier) (n : Nat) (f : Forest) :
    Follows .statement (some (1 + depth)) planCall
      (initial n) ts f fun _ _ _ _ => True := by
  have hadmits : Beginning.call.admits (Parser.front ts) := ht
  refine .after_ok (begins_of_admits (s := ⟨⟨ts, n⟩, f⟩) hadmits) ?_
  refine .bind (follows_dequeue rfl (.call rfl ht) rfl) ?_
  exact fun _ _ _ _ _ => .of_ok rfl trivial

theorem follows_plan (hb : beginning.admits (Parser.front ts)) (n : Nat) (f : Forest) :
    Follows .statement (some (1 + depth)) (plan depth beginning)
      (initial n) ts f fun _ _ _ _ => True := by
  cases beginning with
  | anyStatement =>
    refine .after_front ?_
    cases hh : Header.ofToken? (Parser.front ts) with
    | some header =>
      refine .after_check rfl (fun hneither => by cases hneither) fun _ => ?_
      exact follows_planCompound (Header.ofToken?_eq_some_iff.1 hh) n f
    | none =>
      refine .after_check rfl (fun hid => ⟨initial n, ?_⟩) fun hid => follows_planCall hid n f
      exact step_statementStart rfl (fun _ => ⟨rfl, rfl⟩) hh hid
  | ifThen => exact follows_planChoice (eq_of_beq hb) n f
  | whileDo => exact follows_planLoop (eq_of_beq hb) n f
  | call => exact follows_planCall hb n f

theorem plan_of_not_admits (hb : ¬ beginning.admits (Parser.front ts)) (depth n : Nat)
    (f : Forest) : plan depth beginning ⟨⟨ts, n⟩, f⟩ =
      .error (.parse (.wrongBeginning beginning)) ⟨⟨ts, n⟩, f⟩ := by
  have herror := begins_of_not_admits (s := ⟨⟨ts, n⟩, f⟩) hb
  cases beginning with
  | anyStatement => exact absurd rfl hb
  | ifThen => exact bind_of_error (bind_of_error herror)
  | whileDo => exact bind_of_error (bind_of_error herror)
  | call => exact bind_of_error herror

theorem finds_of_plan (hlen : ts.length ≤ depth)
    (h : plan depth beginning ⟨⟨ts, n⟩, f⟩ = .ok pl s') : Finds ts n f pl s' := by
  cases beginning with
  | anyStatement =>
    cases hh : Header.ofToken? (Parser.front ts) with
    | some header =>
      rw [plan, planStatement_of_header (Header.ofToken?_eq_some_iff.1 hh)] at h
      cases header with
      | ifThen => exact finds_of_planChoice hlen h
      | whileDo => exact finds_of_planLoop hlen h
    | none =>
      cases hid : (Parser.front ts).isIdentifier with
      | true =>
        rw [plan, planStatement_of_isIdentifier hid] at h
        exact finds_of_planCall h
      | false =>
        obtain ⟨e, herror⟩ := planStatement_of_neither hh hid (planCompound (depth + 1)) n f
        cases herror.symm.trans h
  | ifThen => exact finds_of_planChoice hlen h
  | whileDo => exact finds_of_planLoop hlen h
  | call => exact finds_of_planCall h

/-- No statement is put together on a stream. -/
def NoneAssembles (ts : List Token) : Prop :=
  ∀ p x r, ts = p ++ r → ¬ Assembles p x (Parser.front r)

/-- A stream does not begin as promised; or a plan is found where a statement is put together; or no
statement is, and the plan fails as the run does. -/
theorem plan_cases (hlen : ts.length ≤ depth) (beginning : Beginning) (n : Nat) (f : Forest) :
    (¬ beginning.admits (Parser.front ts) ∧ plan depth beginning ⟨⟨ts, n⟩, f⟩ =
      .error (.parse (.wrongBeginning beginning)) ⟨⟨ts, n⟩, f⟩) ∨
    (beginning.admits (Parser.front ts) ∧ ∃ pl s', plan depth beginning ⟨⟨ts, n⟩, f⟩ = .ok pl s' ∧
      Finds ts n f pl s') ∨
    (beginning.admits (Parser.front ts) ∧ NoneAssembles ts ∧
      FailsAs (run .statement none (initial n) ts) f (plan depth beginning) ⟨⟨ts, n⟩, f⟩) := by
  by_cases hb : beginning.admits (Parser.front ts)
  · refine .inr ?_
    have hcases := ok_or_failsAs (follows_plan hb n f) (tidy_plan f depth beginning)
    rw [run_eq_of_length_le (hlen.trans (Nat.le_add_left _ _))] at hcases
    rcases hcases with ⟨pl, _, _, _, hplan, -⟩ | hfails
    · exact .inl ⟨hb, pl, _, hplan, finds_of_plan hlen hplan⟩
    · refine .inr ⟨hb, ?_, hfails⟩
      rintro p x r rfl h
      obtain ⟨pl, s', hplan⟩ := exists_plan_ok h hb hlen n f
      obtain ⟨e, g, -, herror, -⟩ := hfails
      cases hplan.symm.trans herror
  · exact .inl ⟨hb, plan_of_not_admits hb depth n f⟩

end Descent

end BlockLang
