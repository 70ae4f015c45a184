import BlockLang.Session
import BlockLang.Proofs.Forest.Legal
import BlockLang.Proofs.RoundTrip

/-! Sessions that only build. Their forests are legal until a placeholder that already is a body of
a statement is made into something else, and legal nodes are printed and parsed back. -/

namespace BlockLang

open Forest Token

namespace Session

/-- Performs steps one after another, whether they succeed or fail. -/
def run (s : Session) (as : List Action) : Session := as.foldl (fun s a => (s.perform a).2) s

/-- A step that builds with checks: it adds a placeholder, assembles a statement or extends a
block. -/
def Action.builds : Action → Bool
  | fresh | assembleIf .. | assembleIfElse .. | assembleWhile .. | assembleCall ..
  | addToBlock .. => true
  | _ => false

/-- The placeholder that a step is to make into a statement. -/
def Action.assembled? : Action → Option NodeId
  | assembleIf i _ _ | assembleIfElse i _ _ _ | assembleWhile i _ _ | assembleCall i _ => some i
  | _ => none

/-- A step makes a placeholder that already belongs to a node into a statement. -/
def AssemblesOwned (s : Session) (a : Action) : Prop :=
  (s.perform a).1.isOk ∧ ∃ i ∈ a.assembled?, s.forest.IsOwned i

instance (s : Session) (a : Action) : Decidable (s.AssemblesOwned a) := by
  unfold AssemblesOwned
  infer_instance

variable {s : Session} {a : Action} {as : List Action}

@[simp] theorem run_nil (s : Session) : run s [] = s := rfl

@[simp] theorem run_cons (s : Session) (a : Action) (as : List Action) :
    run s (a :: as) = run (s.perform a).2 as := rfl

/-! ### One step -/

theorem build_cases {r : Except BuildError Forest} {v : Value} {i : Option NodeId}
    (h : ∀ g, r = .ok g → s.forest.Change i g) :
    ((s.build r v).1.isOk = false ∧ (s.build r v).2.forest = s.forest) ∨
    ((s.build r v).1.isOk = true ∧ s.forest.Change i (s.build r v).2.forest) := by
  cases r with
  | error e => exact .inl ⟨rfl, rfl⟩
  | ok g => exact .inr ⟨rfl, h g rfl⟩

/-- A building step either fails and leaves the forest as it is, or changes it. -/
theorem perform_cases (hs : s.forest.Separate) (h : a.builds) :
    ((s.perform a).1.isOk = false ∧ (s.perform a).2.forest = s.forest) ∨
    ((s.perform a).1.isOk = true ∧ s.forest.Change a.assembled? (s.perform a).2.forest) := by
  cases a with
  | fresh => exact .inr ⟨rfl, .fresh⟩
  | assembleIf i c body => exact build_cases fun g => change_of_assemble (.inr ⟨.inl rfl, rfl⟩)
  | assembleIfElse i c thenBody elseBody =>
    exact build_cases fun g => change_of_assemble (.inl ⟨rfl, rfl⟩)
  | assembleWhile i c body => exact build_cases fun g => change_of_assemble (.inr ⟨.inr rfl, rfl⟩)
  | assembleCall i name => exact build_cases fun g => change_of_assembleCall
  | addToBlock i index child => exact build_cases fun g => change_of_addToBlock hs
  | _ => cases h

theorem perform_built (h : a.builds) (hb : s.forest.Built) :
    (s.perform a).2.forest.Built ∧ ((s.perform a).2.forest.BodiesAreBlocks ↔
      s.forest.BodiesAreBlocks ∧ ¬ s.AssemblesOwned a) := by
  rcases perform_cases hb.separate h with ⟨hok, hf⟩ | ⟨hok, hc⟩
  · simp [AssemblesOwned, hok, hf, hb]
  · rw [hb.bodiesAreBlocks_iff hc]
    exact ⟨hb.of_change hc, by simp [AssemblesOwned, hok]⟩

/-! ### All steps -/

/-- What holds of each step and the steps before it holds of the first one, and of each other one
with the first one before it. -/
theorem forall_getElem_cons_iff {α : Type} {p : List α → α → Prop} {a : α} {as : List α} :
    (∀ k (hk : k < (a :: as).length), p ((a :: as).take k) (a :: as)[k]) ↔
      p [] a ∧ ∀ k (hk : k < as.length), p (a :: as.take k) as[k] := by
  refine ⟨fun h => ⟨h 0 (Nat.succ_pos _), fun k hk => h (k + 1) (Nat.succ_lt_succ hk)⟩, ?_⟩
  rintro ⟨h0, h⟩ (_ | k) hk
  · exact h0
  · exact h k (Nat.lt_of_succ_lt_succ hk)

theorem run_built (h : ∀ a ∈ as, a.builds) (hb : s.forest.Built) :
    (run s as).forest.Built ∧ ((run s as).forest.BodiesAreBlocks ↔ s.forest.BodiesAreBlocks ∧
      ∀ k (hk : k < as.length), ¬ (run s (as.take k)).AssemblesOwned as[k]) := by
  induction as generalizing s with
  | nil => simp [hb]
  | cons a as ih =>
    obtain ⟨ha, has⟩ := List.forall_mem_cons.1 h
    obtain ⟨hb', hstep⟩ := s.perform_built ha hb
    obtain ⟨hrun, hiff⟩ := ih has hb'
    refine ⟨hrun, hiff.trans ?_⟩
    rw [hstep, and_assoc, forall_getElem_cons_iff (p := fun as a => ¬ (run s as).AssemblesOwned a)]
    rfl

/-- A session that only builds ends with a legal forest if and only if none of its steps makes a
placeholder that already belongs to a node into a statement. In a legal forest every node is the
root of a well-formed tree, which is printed and parsed back. -/
theorem legal_run_iff (m : Machine) (stream : Option TokenStream) (backend : Option Backend)
    (as : List Action) (h : ∀ a ∈ as, a.builds) :
    ((run ⟨m, .empty, stream, backend⟩ as).forest.Legal ↔ ∀ k (hk : k < as.length),
      ¬ (run ⟨m, .empty, stream, backend⟩ (as.take k)).AssemblesOwned as[k]) ∧
    ((run ⟨m, .empty, stream, backend⟩ as).forest.Legal →
      ∀ i < (run ⟨m, .empty, stream, backend⟩ as).forest.size,
        ∃ t, (run ⟨m, .empty, stream, backend⟩ as).forest.statement? i = some t ∧ t.WellFormed ∧
          (t.depth ≤ Parser.nestingLimit m →
            ((∃ text, render m "bl" (some t) = .ok text) ↔ t.Fits m) ∧
            ∀ text, render m "bl" (some t) = .ok text →
              (Parser.parse m t.goal (streamOf text)).Returns t.goal t [endOfInput])) := by
  obtain ⟨hb, hiff⟩ := run_built (s := ⟨m, .empty, stream, backend⟩) h built_empty
  refine ⟨?_, fun hl i hi => ?_⟩
  · rw [hb.legal_iff, hiff]
    exact and_iff_right (built_empty.legal_iff.1 legal_empty)
  · obtain ⟨t, ht, hw⟩ := hb.exists_wellFormed hl hi
    exact ⟨t, ht, hw, render_and_parse hw⟩

/-- Elements may still be added to a block after it has become a body. -/
theorem legal_run_add_to_body :
    (run ⟨.usual, .empty, none, none⟩ [.fresh, .fresh, .assembleIf 1 .always 0, .fresh,
      .assembleCall 2 "move", .addToBlock 0 0 2]).forest.Legal ∧
    ∃ text, render .usual "bl" (some (.ifThen .always [.call "move"])) = .ok text ∧
      (Parser.parse .usual .statement (streamOf text)).Returns .statement
        (.ifThen .always [.call "move"]) [endOfInput] := by
  obtain ⟨hlegal, htrees⟩ := legal_run_iff .usual none none [.fresh, .fresh,
    .assembleIf 1 .always 0, .fresh, .assembleCall 2 "move", .addToBlock 0 0 2] (by decide)
  have hl := hlegal.2 (by decide +kernel)
  obtain ⟨t, ht, -, htext⟩ := htrees hl 1 (by decide +kernel)
  obtain rfl : t = .ifThen .always [.call "move"] := Option.some.inj (ht.symm.trans rfl)
  obtain ⟨hfits, hparse⟩ := htext (by decide)
  obtain ⟨text, hrender⟩ := hfits.2 (by decide)
  exact ⟨hl, text, hrender, hparse text hrender⟩

/-- The body of a test can be made into a call, and is no block then. -/
theorem not_legal_of_body_call :
    (∀ a ∈ [Action.fresh, .fresh, .assembleIf 1 .always 0, .assembleCall 0 "move"], a.builds) ∧
    ¬ (run ⟨.usual, .empty, none, none⟩ [.fresh, .fresh, .assembleIf 1 .always 0,
      .assembleCall 0 "move"]).forest.Legal := by
  refine ⟨by decide, fun h => ?_⟩
  obtain ⟨-, b, hb, hk⟩ := h 1 ⟨.ifThen, some .always, none, [0], false⟩ rfl
  obtain rfl : b = 0 := by simpa using hb.symm
  exact absurd hk (by decide +kernel)

end Session

end BlockLang
