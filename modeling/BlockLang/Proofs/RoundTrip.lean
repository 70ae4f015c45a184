import BlockLang.Render
import BlockLang.Proofs.Parser.Acceptance
import BlockLang.Proofs.Printer.Emission
import BlockLang.Proofs.Token.Spelling

/-! Printing and parsing: the tokens of a printed program are the tokens of its derivation, so the
parser gives the printed tree back and leaves the tokens of the text after it. The printer takes
more calls for a program than the parser does, so some programs can be parsed but not printed. -/

namespace BlockLang

open Statement Token Printer

variable {m : Machine} {g : Parser.Goal} {p : List Token} {s : Statement}

/-! ### Tokens of printed lines -/

/-- A text whose tokens are the given ones, whatever follows. -/
def Token.Lexes (cs : List Char) (ts : List Token) : Prop :=
  ∀ rest : List Char, lexemes (cs ++ rest) = ts.map String.toList ++ lexemes rest

theorem Token.Lexes.append {cs ds : List Char} {ts us : List Token} (h : Lexes cs ts)
    (h' : Lexes ds us) : Lexes (cs ++ ds) (ts ++ us) := by
  intro rest
  rw [List.append_assoc, h, h', List.map_append, List.append_assoc]

/-- The characters of a line, with the line feed at its end. -/
def Printer.Line.chars (l : Line) : List Char := l.string.toList ++ ['\n']

theorem lexes_line {level : Int} {text : String} {ts : List Token} (h : Spells text.toList ts) :
    Lexes (Line.chars ⟨level, text⟩) ts := by
  intro rest
  have hn : ∀ c ∈ ('\n' :: rest).head?, ¬ isWordChar c := by simp; decide
  rw [Line.chars, Line.string, String.toList_append, String.toList_ofList, List.append_assoc,
    List.append_assoc, lexemes_spaces, List.singleton_append, h _ hn, lexemes_blank (by decide)]

theorem spells_two {t u : Token} (ht : t.IsWord) (hu : u.IsWord) :
    Spells (t.toList ++ ' ' :: u.toList) [t, u] :=
  (spells_word ht).append (spells_word hu) (by decide)

theorem spells_three {t u v : Token} (ht : t.IsWord) (hu : u.IsWord) (hv : v.IsWord) :
    Spells (t.toList ++ ' ' :: (u.toList ++ ' ' :: v.toList)) [t, u, v] :=
  (spells_word ht).append (spells_two hu hv) (by decide)

theorem spells_if (c : Condition) :
    Spells (s!"IF {c.token} THEN").toList ["IF", c.token, "THEN"] := by
  have h := spells_three (t := "IF") (v := "THEN") (by decide) (isWord_condition c) (by decide)
  simpa [toString] using h

theorem spells_while (c : Condition) :
    Spells (s!"WHILE {c.token} DO").toList ["WHILE", c.token, "DO"] := by
  have h := spells_three (t := "WHILE") (v := "DO") (by decide) (isWord_condition c) (by decide)
  simpa [toString] using h

theorem spells_endIf : Spells "END IF".toList ["END", "IF"] :=
  spells_two (t := "END") (u := "IF") (by decide) (by decide)

theorem spells_endWhile : Spells "END WHILE".toList ["END", "WHILE"] :=
  spells_two (t := "END") (u := "WHILE") (by decide) (by decide)

theorem lexes_nil : Lexes [] [] := fun _ => rfl

/-- The tokens of a layout are the tokens of the derivation, at every level. -/
theorem lexes_layout (h : Derives g p s) (level : Int) :
    Lexes ((s.layout level).flatMap Line.chars) p := by
  induction h generalizing level with
  | call ht =>
    rw [layout_call, List.flatMap_singleton]
    exact lexes_line (spells_word (isWord_of_isIdentifier ht))
  | ifThen hc _ ih =>
    obtain rfl := Condition.token_of_ofToken? hc
    simp only [layout_ifThen, List.flatMap_append, List.flatMap_singleton]
    exact ((lexes_line (spells_if _)).append (ih _)).append (lexes_line spells_endIf)
  | ifElse hc _ _ ih ih' =>
    obtain rfl := Condition.token_of_ofToken? hc
    have helse : Spells "ELSE".toList ["ELSE"] := spells_word (by decide)
    simp only [layout_ifElse, List.flatMap_append, List.flatMap_singleton]
    exact ((((lexes_line (spells_if _)).append (ih _)).append (lexes_line helse)).append
      (ih' _)).append (lexes_line spells_endIf)
  | whileDo hc _ ih =>
    obtain rfl := Condition.token_of_ofToken? hc
    simp only [layout_whileDo, List.flatMap_append, List.flatMap_singleton]
    exact ((lexes_line (spells_while _)).append (ih _)).append (lexes_line spells_endWhile)
  | empty =>
    rw [layout_block_nil, List.flatMap_nil]
    exact lexes_nil
  | cons _ _ ih ih' =>
    rw [layout_block_cons, List.flatMap_append]
    exact (ih level).append (ih' level)

/-! ### Printed programs -/

/-- The text that a program is printed as. -/
def Statement.text (s : Statement) : String :=
  String.join ((s.layout 0).map fun l => l.string ++ "\n")

theorem toList_text (s : Statement) : s.text.toList = (s.layout 0).flatMap Line.chars := by
  simp only [text, String.toList_join, List.flatMap_map, String.toList_append]
  rfl

/-- There is room on a machine for printing a tree: for its calls, and for the spaces before its
lines. -/
def Statement.Fits (m : Machine) (s : Statement) : Prop :=
  s.printingCalls ≤ m.calls .printing ∧ ∀ l ∈ s.layout 0, l.IsPrintable m

instance (m : Machine) (s : Statement) : Decidable (s.Fits m) := by
  unfold Statement.Fits
  infer_instance

theorem render_program (m : Machine) (s : Statement) :
    render m "bl" (some s) = Target.program.render m s := rfl

/-- A program is printed as its text, if there is room for it, and is not printed otherwise. -/
theorem render_eq_ok_iff (h : Derives g p s) (t : String) :
    render m "bl" (some s) = .ok t ↔ s.Fits m ∧ t = s.text := by
  have hprint : s.Fits m → (atLevel 0).run (emit m s (m.calls .printing)) =
      (.ok (), ⟨(s.layout 0).map Line.string, 0⟩) := fun hs => prints_emit h 0 hs.1 hs.2 []
  have hneeds := needs_emit (m := m) h 0 (m.calls .printing) []
  have htext : (⟨(s.layout 0).map Line.string, 0⟩ : Printer).output = s.text := by
    simp [text, output, Function.comp_def]
  rw [render_program, Target.render]
  constructor
  · intro hok
    have hs : s.Fits m := by
      refine hneeds ?_
      generalize hr : run ⟨[], 0⟩ (emit m s (m.calls .printing)) = r
      rw [atLevel, hr] at hok
      obtain ⟨e | _, q⟩ := r
      · cases hok
      · rfl
    rw [hprint hs] at hok
    exact ⟨hs, (Except.ok.inj hok).symm.trans htext⟩
  · rintro ⟨hs, rfl⟩
    rw [hprint hs, ← htext]

theorem render_eq (h : Derives g p s) (hs : s.Fits m) : render m "bl" (some s) = .ok s.text :=
  (render_eq_ok_iff h _).2 ⟨hs, rfl⟩

/-- A program is too deep to be printed if its calls do not fit, though its lines do. -/
theorem render_eq_tooDeep (h : Derives g p s) (hc : m.calls .printing < s.printingCalls)
    (hl : ∀ l ∈ s.layout 0, l.IsPrintable m) :
    render m "bl" (some s) = .error (.print .tooDeep) := by
  have hstop := stops_emit h hc hl []
  rw [render_program, Target.render, atLevel]
  generalize run ⟨[], 0⟩ (emit m s (m.calls .printing)) = r at hstop
  obtain ⟨e | _, q⟩ := r <;> cases hstop
  rfl

/-- The tokens of a printed program with a text after it. -/
theorem streamOf_append (h : Derives g p s) (tail : String) :
    streamOf (s.text ++ tail) = p ++ streamOf tail := by
  have hl := lexes_layout h 0 tail.toList
  simp [streamOf, ofSource, String.toList_append, toList_text, hl]

/-- The text of a program is parsed to it, if what follows can end it. -/
theorem returns_text (h : Derives g p s) (hd : s.depth ≤ Parser.nestingLimit m) {tail : String}
    (ht : g.MayLeave (streamOf tail)) :
    (Parser.parse m g (streamOf (s.text ++ tail))).Returns g s (streamOf tail) := by
  rw [streamOf_append h]
  exact Parser.returns_of_derives h (by simpa using hd) 0 ht

/-- The text of a program alone is parsed to it. -/
theorem returns_text_alone (h : Derives g p s) (hd : s.depth ≤ Parser.nestingLimit m) :
    (Parser.parse m g (streamOf s.text)).Returns g s [endOfInput] := by
  have hend : streamOf "" = [endOfInput] := by decide +kernel
  have hleave : g.MayLeave (streamOf "") := by
    cases g with
    | statement => trivial
    | block => exact (Parser.Goal.mayLeave_block_iff _).2 (by rw [hend]; decide)
  have hr := returns_text h hd hleave
  rwa [String.append_empty, hend] at hr

/-- A well-formed tree is printed if and only if there is room for it, and its text alone is parsed
to the same tree. -/
theorem render_and_parse (hs : s.WellFormed) (hd : s.depth ≤ Parser.nestingLimit m) :
    ((∃ text, render m "bl" (some s) = .ok text) ↔ s.Fits m) ∧
    ∀ text, render m "bl" (some s) = .ok text →
      (Parser.parse m s.goal (streamOf text)).Returns s.goal s [endOfInput] := by
  have h : Derives s.goal s.tokens s := derives_iff.2 ⟨hs, rfl, rfl⟩
  simp only [render_eq_ok_iff h]
  refine ⟨⟨fun ⟨_, hs, _⟩ => hs, fun hs => ⟨s.text, hs, rfl⟩⟩, ?_⟩
  rintro _ ⟨-, rfl⟩
  exact returns_text_alone h hd

/-- A well-formed tree is printed if and only if there is room for it. Parsing its text, with any
other text after it, gives the tree back and leaves the tokens of the other text. A block needs a
token there that ends blocks. -/
theorem parse_render (m : Machine) (s : Statement) (hs : s.WellFormed)
    (hd : s.depth ≤ Parser.nestingLimit m) (tail : String) :
    ((∃ text, render m "bl" (some s) = .ok text) ↔ s.Fits m) ∧
    ∀ text, render m "bl" (some s) = .ok text →
      (s.kind ≠ .block → (Parser.parse m .statement (streamOf (text ++ tail))).Returns .statement s
        (streamOf tail)) ∧
      (s.kind = .block →
        (∃ t ∈ (streamOf tail).head?, t = "END" ∨ t = "ELSE" ∨ t = endOfInput) →
        (Parser.parse m .block (streamOf (text ++ tail))).Returns .block s (streamOf tail)) := by
  have h : Derives s.goal s.tokens s := derives_iff.2 ⟨hs, rfl, rfl⟩
  refine ⟨(render_and_parse hs hd).1, fun text htext => ?_⟩
  obtain ⟨-, rfl⟩ := (render_eq_ok_iff h text).1 htext
  constructor
  · intro hk
    rw [(goal_eq_statement_iff s).2 hk] at h
    exact returns_text h hd trivial
  · rintro hk ⟨t, ht, hend⟩
    rw [(goal_eq_block_iff s).2 hk] at h
    obtain ⟨rest, hrest⟩ := List.head?_eq_some_iff.1 ht
    exact returns_text h hd (.inr ⟨t, rest, hrest, hend⟩)

/-- An empty `ELSE` is kept, and names that differ from reserved words in case only are names. -/
theorem parse_render_empty_else :
    (∃ text, render .usual "bl" (some (.ifElse .random [.call "Random", .call "else"] [])) =
        .ok text ∧
      (Parser.parse .usual .statement (streamOf (text ++ "END IF"))).Returns .statement
        (.ifElse .random [.call "Random", .call "else"] []) (streamOf "END IF")) ∧
    ∃ text, render .usual "bl" (some (.block [.ifElse .random [] [], .call "turn"])) = .ok text ∧
      (Parser.parse .usual .block (streamOf (text ++ "ELSE x"))).Returns .block
        (.block [.ifElse .random [] [], .call "turn"]) (streamOf "ELSE x") := by
  constructor
  · obtain ⟨hfits, hparse⟩ :=
      parse_render .usual (.ifElse .random [.call "Random", .call "else"] [])
        (by simp [ifElse, block, call, WellFormed, AllWellFormed, kind]; decide) (by decide)
        "END IF"
    obtain ⟨text, htext⟩ := hfits.2 (by decide)
    exact ⟨text, htext, (hparse text htext).1 (by decide)⟩
  · obtain ⟨hfits, hparse⟩ :=
      parse_render .usual (.block [.ifElse .random [] [], .call "turn"])
        (by simp [ifElse, block, call, WellFormed, AllWellFormed, kind]; decide) (by decide)
        "ELSE x"
    obtain ⟨text, htext⟩ := hfits.2 (by decide)
    have hfirst : (streamOf "ELSE x").head? = some "ELSE" := by decide +kernel
    exact ⟨text, htext, (hparse text htext).2 rfl ⟨_, hfirst, by decide⟩⟩

/-! ### Programs that are parsed but not printed -/

/-- A call in loops inside one another. -/
def Statement.nested : Nat → Statement
  | 0 => .call "move"
  | n + 1 => .whileDo .always [nested n]

/-- The source of such a program, on one line. -/
def nestedSource : Nat → String
  | 0 => "move"
  | n + 1 => "WHILE true DO " ++ nestedSource n ++ " END WHILE"

theorem derives_nested (n : Nat) : Derives .statement (nested n).tokens (nested n) := by
  induction n with
  | zero => exact .call (by decide)
  | succ n ih =>
    have hbody : Derives .block ((nested n).tokens ++ []) (.block [nested n]) := .cons ih .empty
    exact .whileDo (Condition.ofToken?_token .always) hbody

theorem depth_nested (n : Nat) : (nested n).depth = n := by
  induction n with
  | zero => rfl
  | succ n ih => simp [nested, ih]

theorem spells_nested (n : Nat) : Spells (nestedSource n).toList (nested n).tokens := by
  induction n with
  | zero => exact spells_word (t := "move") (by decide)
  | succ n ih =>
    have hopen := spells_three (t := "WHILE") (u := "true") (v := "DO") (by decide) (by decide)
      (by decide)
    have hall := (hopen.append ih (c := ' ') (by decide)).append spells_endWhile (c := ' ')
      (by decide)
    simpa [nestedSource, nested, Condition.token] using hall

theorem streamOf_nestedSource (n : Nat) :
    streamOf (nestedSource n) = (nested n).tokens ++ [endOfInput] := by
  have hs := spells_nested n [] (by simp)
  rw [List.append_nil] at hs
  have hnil : lexemes [] = [] := by decide +kernel
  rw [hnil, List.append_nil] at hs
  simp [streamOf, ofSource, hs]

/-- On a usual machine two hundred loops inside one another are too deep to be printed. -/
theorem render_nested {n : Nat} (h : 200 ≤ n) (h' : n ≤ 330) :
    render .usual "bl" (some (nested n)) = .error (.print .tooDeep) := by
  have hn := derives_nested n
  have hcalls := (printingCalls_of_derives hn).1
  have husual : Machine.usual.calls .printing = 990 := rfl
  rw [depth_nested] at hcalls
  refine render_eq_tooDeep hn (by omega) fun l hl => ?_
  have hlevel := level_of_mem_layout hn hl
  have hroom : Machine.usual.characters = 0x100000000 := rfl
  rw [depth_nested] at hlevel
  rw [isPrintable_iff, hroom]
  omega

theorem nestingLimit_usual : Parser.nestingLimit .usual = 330 := rfl

theorem parse_nestedSource {n : Nat} (h : n ≤ 330) :
    (Parser.parse .usual .statement (streamOf (nestedSource n))).Returns .statement (nested n)
      [endOfInput] := by
  rw [streamOf_nestedSource]
  refine Parser.returns_of_derives (derives_nested n) ?_ 0 trivial
  rintro _ ⟨⟩
  rwa [depth_nested]

/-- A well-formed tree that the parser is not too shallow for need not be printed. -/
theorem not_render_of_nested :
    (nested 250).WellFormed ∧ (nested 250).kind ≠ .block ∧
      (nested 250).depth ≤ Parser.nestingLimit .usual ∧
      (Parser.parse .usual .statement (streamOf (nestedSource 250))).Returns .statement
        (nested 250) [endOfInput] ∧
      render .usual "bl" (some (nested 250)) = .error (.print .tooDeep) := by
  have h := derives_nested 250
  refine ⟨h.wellFormed.1, (goal_eq_statement_iff _).1 h.wellFormed.2, ?_,
    parse_nestedSource (by decide), render_nested (by decide) (by decide)⟩
  rw [depth_nested, nestingLimit_usual]
  decide

end BlockLang
