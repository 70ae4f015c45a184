import BlockLang.Proofs.Parser.Sentinel
import BlockLang.Proofs.Tool.Reformat

/-! What is left of a program. A parse takes the tokens of its tree from the front of the program,
and the sentinel stays where it is; so a program is left in part if and only if the grammar does not
derive all of it. That is when the tool warns, with the number of tokens left and the first of
them. -/

namespace BlockLang

open Token

/-! ### Tokens left -/

namespace Parser

variable {goal : Goal} {limit : Option Nat} {source : String} {tree : Statement}
  {rest left : List Token}

/-- A parse of a program leaves the tokens after those of its tree, and the sentinel. -/
theorem exists_left_of_returns
    (h : (run goal limit (.initial 0) (streamOf source)).Returns goal tree rest) :
    ∃ left, ofSource source = tree.tokens ++ left ∧ rest = left ++ [endOfInput] ∧
      Derives goal tree.tokens tree ∧ goal.MayLeave rest := by
  obtain ⟨p, hstream, hderives, hmay⟩ := derives_of_returns h
  obtain rfl := hderives.eq_tokens
  have hsplit : ofSource source ++ [endOfInput] = tree.tokens ++ rest := hstream
  rcases List.eq_nil_or_concat rest with rfl | ⟨left, last, rfl⟩
  · have hmem : endOfInput ∈ tree.tokens := by
      rw [List.append_nil] at hsplit
      rw [← hsplit]
      exact List.mem_append_right _ (List.mem_singleton_self _)
    exact absurd hmem (endOfInput_notMem_of_derives hderives)
  · rw [List.concat_eq_append, ← List.append_assoc] at hsplit
    obtain ⟨hsource, hlast⟩ := List.append_inj' hsplit rfl
    obtain rfl : endOfInput = last := (List.cons.inj hlast).1
    rw [List.concat_eq_append] at hmay ⊢
    exact ⟨left, hsource, rfl, hderives, hmay⟩

/-- The grammar derives a whole program if and only if a parse leaves nothing of it. -/
theorem exists_derives_iff_left_eq_nil (hsource : ofSource source = tree.tokens ++ left)
    (hderives : Derives goal tree.tokens tree) (hmay : goal.MayLeave (left ++ [endOfInput])) :
    (∃ s, Derives goal (ofSource source) s) ↔ left = [] := by
  constructor
  · rintro ⟨s, hs⟩
    have hsplit : tree.tokens ++ (left ++ [endOfInput]) = ofSource source ++ [endOfInput] := by
      rw [hsource, List.append_assoc]
    obtain ⟨htokens, -, -⟩ := eq_of_derives hderives hmay hs goal.mayLeave_endOfInput hsplit
    rw [← htokens] at hsource
    exact List.self_eq_append_right.1 hsource
  · rintro rfl
    rw [hsource, List.append_nil]
    exact ⟨tree, hderives⟩

/-- A block leaves nothing of a program unless a keyword comes that ends blocks. -/
theorem eq_end_or_eq_else_of_mayLeave {first : Token} (hmem : first ∈ ofSource source)
    (h : Goal.block.MayLeave (first :: rest)) : first = "END" ∨ first = "ELSE" := by
  rcases h with h | ⟨t, _, ⟨⟩, hend | helse | rfl⟩
  · cases h
  · exact .inl hend
  · exact .inr helse
  · exact absurd hmem (endOfInput_notMem_ofSource source)

end Parser

/-! ### Warnings -/

namespace Tool

variable {m : Machine} {r : Request} {d : Directory} {source : String} {tree : Statement}
  {left : List Token}
  {log : List Record}

/-- The warnings among log records. -/
def warnings (log : List Record) : List Record := log.filter (·.level == .warning)

/-- The warning that `count` tokens are left, of which `first` is the first. -/
def leftOverWarning (count : Nat) (first : Token) : Record :=
  ⟨.warning, .tool, s!"{count} token(s) left unparsed, starting at {Text.quote first}"⟩

theorem leftOver_nil : leftOver [endOfInput] = [] := by
  simp [leftOver]

theorem leftOver_cons {first : Token} (h : endOfInput ∉ first :: left) :
    leftOver (first :: left ++ [endOfInput]) = [leftOverWarning (left.length + 1) first] := by
  have hkept : (first :: left).filter (· != endOfInput) = first :: left := by
    apply List.filter_eq_self.2
    intro t ht
    rw [bne_iff_ne]
    rintro rfl
    exact h ht
  have hfilter : (first :: left ++ [endOfInput]).filter (· != endOfInput) = first :: left := by
    rw [List.filter_append, hkept]
    simp
  rw [leftOver, hfilter]
  rfl

theorem warnings_append (log log' : List Record) :
    warnings (log ++ log') = warnings log ++ warnings log' :=
  List.filter_append _ _

theorem warnings_leftOver (rest : List Token) : warnings (leftOver rest) = leftOver rest := by
  unfold leftOver
  split <;> rfl

theorem warnings_deliver (r : Request) (tree : Statement) (text : String) (log : List Record)
    (d : Directory) : warnings (deliver r tree text log d).log = warnings log := by
  unfold deliver
  split
  · split
    · exact (warnings_append _ _).trans (List.append_nil _)
    · rfl
  · exact (warnings_append _ _).trans (List.append_nil _)

theorem warnings_parserRecords (events : List Parser.Event) :
    warnings (events.map parserRecord) = [] := by
  apply List.filter_eq_nil_iff.2
  intro x hx
  obtain ⟨e, -, rfl⟩ := List.mem_map.1 hx
  exact Bool.false_ne_true

/-- The only warning of a run that parses is the one about what is left, whether the tree can be
rendered and delivered or not. -/
theorem warnings_process
    (h : (Parser.parse m r.goal (streamOf source)).result r.goal = .ok tree) (d : Directory) :
    warnings (process m r source d).log =
      leftOver (Parser.parse m r.goal (streamOf source)).rest := by
  have hlog : ∀ (events : List Parser.Event) (rest : List Token),
      warnings (⟨.info, .tool, "*** Parsing input ***"⟩ :: events.map parserRecord ++
        leftOver rest) = leftOver rest := by
    intro events rest
    rw [List.cons_append]
    show warnings (events.map parserRecord ++ leftOver rest) = leftOver rest
    rw [warnings_append, warnings_parserRecords, warnings_leftOver, List.nil_append]
  simp only [process, h]
  split
  · apply hlog
  · rw [warnings_deliver]
    apply hlog

/-- The tool warns if and only if part of the program was ignored. If a program text is parsed, then
there is a warning in the log just when the grammar does not derive all the tokens of the text; and
it tells how many tokens come after those of the tree, and the first of these, which is `END` or
`ELSE` after a block. -/
theorem run_warns_iff_not_derives (m : Machine) (hsource : programText r d = .ok source)
    (hparse : (Parser.parse m r.goal (streamOf source)).result r.goal = .ok tree) :
    Derives r.goal tree.tokens tree ∧
    (warnings (run m r d).log ≠ [] ↔ ¬ ∃ s, Derives r.goal (ofSource source) s) ∧
    (warnings (run m r d).log ≠ [] → ∃ first left,
      ofSource source = tree.tokens ++ first :: left ∧
      warnings (run m r d).log =
        [leftOverWarning ((ofSource source).length - tree.tokens.length) first] ∧
      (r.goal = .block → first = "END" ∨ first = "ELSE")) := by
  have hreturns : (Parser.run r.goal (some (Parser.nestingLimit m)) (.initial 0)
      (streamOf source)).Returns r.goal tree _ := ⟨hparse, rfl⟩
  obtain ⟨left, htokens, hrest, hderives, hmay⟩ := Parser.exists_left_of_returns hreturns
  have hwarnings : warnings (run m r d).log = leftOver (left ++ [endOfInput]) := by
    rw [run, hsource, ← hrest]
    exact warnings_process hparse d
  rw [hrest] at hmay
  rw [hwarnings, Parser.exists_derives_iff_left_eq_nil htokens hderives hmay]
  refine ⟨hderives, ?_⟩
  cases left with
  | nil =>
    rw [List.nil_append, leftOver_nil]
    exact ⟨by simp, fun h => absurd rfl h⟩
  | cons first left =>
    have hmem : ∀ t ∈ first :: left, t ∈ ofSource source := by
      intro t ht
      rw [htokens]
      exact List.mem_append_right _ ht
    have hlength : (ofSource source).length - tree.tokens.length = left.length + 1 := by
      rw [htokens, List.length_append, List.length_cons]
      omega
    rw [leftOver_cons fun h => endOfInput_notMem_ofSource source (hmem _ h), hlength]
    refine ⟨by simp, fun _ => ⟨first, left, htokens, rfl, fun hgoal => ?_⟩⟩
    rw [hgoal] at hmay
    exact Parser.eq_end_or_eq_else_of_mayLeave (hmem _ (List.mem_cons_self ..)) hmay

/-- An `ELSE` ends the outermost block; and the warning comes also if there is nothing to render the
tree in. -/
theorem run_warns_iff_not_derives_else :
    let source := "move IF true THEN END IF # on\nELSE turn"
    let r : Request := ⟨source, true, .block, none, none⟩
    let tree : Statement := .block [.call "move", .ifThen .always []]
    programText r .empty = .ok source ∧
      (Parser.parse .usual .block (streamOf source)).result .block = .ok tree ∧
      (¬ ∃ s, Derives .block (ofSource source) s) ∧
      warnings (run .usual r .empty).log =
        [⟨.warning, .tool, "2 token(s) left unparsed, starting at 'ELSE'"⟩] := by
  intro source r tree
  have hsource : programText r .empty = .ok source := rfl
  have htokens : ofSource source = ["move", "IF", "true", "THEN", "END", "IF", "ELSE", "turn"] := by
    decide +kernel
  have hparse : (Parser.parse .usual .block (streamOf source)).result .block = .ok tree := by
    rw [streamOf, htokens]
    rfl
  obtain ⟨-, hiff, hwarning⟩ := run_warns_iff_not_derives .usual hsource hparse
  have hwarns : warnings (run .usual r .empty).log ≠ [] := by decide +kernel
  obtain ⟨first, left, hsplit, hwarnings, -⟩ := hwarning hwarns
  refine ⟨hsource, hparse, hiff.1 hwarns, ?_⟩
  rw [htokens] at hsplit hwarnings
  have hsplit' : tree.tokens ++ ["ELSE", "turn"] = tree.tokens ++ first :: left := hsplit
  have hleft := List.append_cancel_left hsplit'
  obtain ⟨rfl, -⟩ := List.cons.inj hleft
  rw [hwarnings]
  decide +kernel

end Tool

end BlockLang
