import BlockLang.Proofs.Directory.Writing
import BlockLang.Proofs.Parser.Depth
import BlockLang.Proofs.Parser.Position
import BlockLang.Proofs.Printer.Characters
import BlockLang.Proofs.Tool.Source

/-! The tool as a formatter. A printed program has the tokens that were parsed, all of them and in
their order, so the tool can be run again on what it put out, and puts out the same. -/

namespace BlockLang

open Text Token

/-! ### Parsed tokens -/

namespace Parser

variable {goal : Goal} {limit : Option Nat} {ts : List Token} {s : Statement}

/-- The tokens that a parse has taken derive its tree. -/
theorem derives_take (h : (run goal limit (.initial 0) ts).result goal = .ok s) :
    Derives goal (ts.take (run goal limit (.initial 0) ts).last.position) s := by
  obtain ⟨p, hp, hd, -⟩ := derives_of_returns ⟨h, rfl⟩
  have hstream : (run goal limit (.initial 0) ts).stream.IsRestOf ts :=
    (isRestOf_run (TokenStream.isRestOf_ofTokens ts) rfl rfl).1
  have hrest : (run goal limit (.initial 0) ts).rest =
      ts.drop (run goal limit (.initial 0) ts).last.position := hstream.rest_eq
  rw [hrest] at hp
  rwa [List.append_cancel_right ((List.take_append_drop _ ts).trans hp)]

theorem Goal.mayLeave_endOfInput (goal : Goal) : goal.MayLeave [endOfInput] := by
  cases goal with
  | statement => trivial
  | block => exact (mayLeave_block_iff _).2 (by decide)

end Parser

/-! ### Printed programs -/

variable {goal : Parser.Goal} {p : List Token} {tree : Statement} {source : String}

theorem streamOf_text (h : Derives goal p tree) : streamOf tree.text = p ++ [endOfInput] := by
  have hend : streamOf "" = [endOfInput] := by decide +kernel
  have ht := streamOf_append h ""
  rwa [String.append_empty, hend] at ht

theorem streamOf_printedText (h : Derives goal p tree) :
    streamOf (Tool.printedText tree.text) = p ++ [endOfInput] := by
  unfold Tool.printedText
  split
  · exact streamOf_text h
  · have hend : streamOf "\n" = [endOfInput] := by decide +kernel
    rw [streamOf_append h, hend]

theorem commentsUnbroken_of_notMem {cs : List Char} (h : '#' ∉ cs) : CommentsUnbroken cs := by
  rintro before comment rfl
  simp at h

theorem hash_notMem_text (h : Derives goal p tree) : '#' ∉ tree.text.toList := by
  intro hx
  exact absurd (mem_text h '#' hx) (by decide)

theorem commentsUnbroken_text (h : Derives goal p tree) :
    CommentsUnbroken tree.text.toList :=
  commentsUnbroken_of_notMem (hash_notMem_text h)

theorem commentsUnbroken_printedText (h : Derives goal p tree) :
    CommentsUnbroken (Tool.printedText tree.text).toList := by
  unfold Tool.printedText
  split
  · exact commentsUnbroken_text h
  · refine commentsUnbroken_of_notMem ?_
    rw [String.toList_append, List.mem_append, not_or]
    exact ⟨hash_notMem_text h, by decide⟩

namespace Tool

variable {m : Machine} {r : Request} {d : Directory} {text : String}

/-! ### Output -/

/-- The file that a request is to write, unless the tree is to be printed. -/
def Request.file? (r : Request) : Option String := r.out.filter (· != "")

/-- A request leads to an output: the text is printed, or the file holds it. -/
def Request.PutsOut (r : Request) (report : Report) (text : String) : Prop :=
  match r.file? with
  | none => report.printed = text
  | some path => report.directory.read path = .ok (Utf8.encode text.toList)

/-- The file of a request, if it has one, can be written. -/
def Request.CanDeliver (r : Request) (d : Directory) : Prop := ∀ path ∈ r.file?, d.Writable path

/-- What becomes of a rendered text in the output: printed, it ends with a line feed. -/
def Request.output (r : Request) (text : String) : String :=
  if r.file?.isSome then text else printedText text

/-- Both the text and the output are programs with the tokens that were parsed. -/
theorem exists_reads_tokens {r' : Request} (h : Derives goal p tree)
    (hreads : r'.Reads d tree.text ∨ r'.Reads d (r.output tree.text)) :
    ∃ again, r'.Reads d again ∧ CommentsUnbroken again.toList ∧
      streamOf again = p ++ [endOfInput] := by
  rcases hreads with hreads | hreads
  · exact ⟨_, hreads, commentsUnbroken_text h, streamOf_text h⟩
  · unfold Request.output at hreads
    split at hreads
    · exact ⟨_, hreads, commentsUnbroken_text h, streamOf_text h⟩
    · exact ⟨_, hreads, commentsUnbroken_printedText h, streamOf_printedText h⟩

theorem deliver_of_canDeliver (hd : r.CanDeliver d) (tree : Statement) (text : String)
    (log : List Record) :
    (deliver r tree text log d).result = .ok tree ∧
      r.PutsOut (deliver r tree text log d) (r.output text) ∧
      r.CanDeliver (deliver r tree text log d).directory ∧
      ∀ x ∈ (deliver r tree text log d).log, x ∈ log ∨ x.level = .info := by
  have hlog : ∀ y : Record, y.level = .info → ∀ x ∈ log ++ [y], x ∈ log ∨ x.level = .info := by
    intro y hy x hx
    rw [List.mem_append, List.mem_singleton] at hx
    exact hx.imp_right fun h => by rw [h, hy]
  unfold Request.CanDeliver Request.PutsOut Request.output deliver Request.file? at *
  cases hf : r.out.filter (· != "") with
  | none => exact ⟨rfl, rfl, by simp, hlog _ rfl⟩
  | some path =>
    obtain ⟨d', hw⟩ := (hd path hf).exists_write (Utf8.encode text.toList)
    simp only [hw]
    refine ⟨trivial, Directory.read_of_write hw, ?_, hlog _ rfl⟩
    rintro _ ⟨⟩
    exact Directory.writable_of_write hw

/-! ### Runs -/

/-- A program text that is parsed is delivered in the format that is asked for, with a warning about
what is left. -/
theorem process_eq_deliver {rest : List Token}
    (h : (Parser.parse m r.goal (streamOf source)).Returns r.goal tree rest)
    (ht : r.target = some "bl") (htext : render m "bl" (some tree) = .ok text) (d : Directory) :
    ∃ log, (∀ x ∈ log, x ∈ leftOver rest ∨ x.level ≠ .warning) ∧
      process m r source d = deliver r tree text log d := by
  obtain ⟨hok, rfl⟩ := h
  let outcome := Parser.parse m r.goal (streamOf source)
  refine ⟨⟨.info, .tool, "*** Parsing input ***"⟩ :: outcome.last.log.map parserRecord ++
    leftOver outcome.rest, ?_, ?_⟩
  · intro x hx
    rw [List.cons_append, List.mem_cons, List.mem_append, List.mem_map] at hx
    rcases hx with rfl | ⟨e, -, rfl⟩ | hx
    · exact .inr nofun
    · exact .inr nofun
    · exact .inl hx
  · simp only [process, hok, rendered, ht, htext]
    rfl

/-- A program text that is parsed is put out in the format that is asked for, and can be put out
again. If nothing but the sentinel is left of its tokens, there is no warning. -/
theorem process_of_returns {rest : List Token}
    (h : (Parser.parse m r.goal (streamOf source)).Returns r.goal tree rest)
    (ht : r.target = some "bl") (htext : render m "bl" (some tree) = .ok text)
    (hd : r.CanDeliver d) :
    (process m r source d).result = .ok tree ∧ r.PutsOut (process m r source d) (r.output text) ∧
      r.CanDeliver (process m r source d).directory ∧
      (rest = [endOfInput] → ∀ x ∈ (process m r source d).log, x.level ≠ .warning) := by
  obtain ⟨log, hlog, hprocess⟩ := process_eq_deliver h ht htext d
  obtain ⟨hok, hout, hagain, hrecords⟩ := deliver_of_canDeliver hd tree text log
  rw [hprocess]
  refine ⟨hok, hout, hagain, ?_⟩
  rintro rfl x hx
  rcases hrecords x hx with hx | hx
  · exact (hlog x hx).resolve_left (by simp [leftOver])
  · rw [hx]
    nofun

/-- A parsed program that is not rendered is not put out. -/
theorem run_of_not_rendered {e : RenderError} (hsource : programText r d = .ok source)
    (hparse : (Parser.parse m r.goal (streamOf source)).result r.goal = .ok tree)
    (hr : rendered m r.target tree = .error e) :
    ∃ log, run m r d = ⟨.error (.render e), "", log, d⟩ := by
  rw [run, hsource]
  simp only [process, hparse, hr]
  exact ⟨_, rfl⟩

/-! ### Formatting -/

/-- The tool as a formatter. A parsed program can be printed if and only if there is room for it.
What the tool then makes of it has the tokens that were parsed, and no others; and a run of it on
what it made gives the same tree and the same output, without a warning. -/
theorem run_keeps_tokens_and_output (m : Machine) (goal : Parser.Goal) (source : String)
    (tree : Statement) (h : (Parser.parse m goal (streamOf source)).result goal = .ok tree) :
    ((∃ text, render m "bl" (some tree) = .ok text) ↔ tree.Fits m) ∧
    ∀ text, render m "bl" (some tree) = .ok text →
      streamOf text =
        (streamOf source).take (Parser.parse m goal (streamOf source)).last.position ++
          [endOfInput] ∧
      ∀ r d, r.goal = goal → r.target = some "bl" → programText r d = .ok source →
        r.CanDeliver d →
        (run m r d).result = .ok tree ∧ r.PutsOut (run m r d) (r.output text) ∧
          r.CanDeliver (run m r d).directory ∧
          ∀ r' d', r'.goal = goal → r'.target = some "bl" →
            r'.file?.isSome = r.file?.isSome → r'.CanDeliver d' →
            (r'.Reads d' text ∨ r'.Reads d' (r.output text)) →
            (run m r' d').result = .ok tree ∧ r'.PutsOut (run m r' d') (r.output text) ∧
              ∀ x ∈ (run m r' d').log, x.level ≠ .warning := by
  have hdepth : tree.depth ≤ Parser.nestingLimit m := Parser.depth_le_of_returns ⟨h, rfl⟩
  have hp := Parser.derives_take h
  simp only [render_eq_ok_iff hp]
  refine ⟨⟨fun ⟨_, hs, _⟩ => hs, fun hs => ⟨tree.text, hs, rfl⟩⟩, ?_⟩
  rintro _ ⟨hfits, rfl⟩
  have htext := render_eq hp hfits
  refine ⟨streamOf_text hp, ?_⟩
  rintro r d rfl ht hsource hd
  have hrun : run m r d = process m r source d := by rw [run, hsource]
  obtain ⟨hok, hout, hagain, -⟩ := process_of_returns ⟨h, rfl⟩ ht htext hd
  rw [hrun]
  refine ⟨hok, hout, hagain, ?_⟩
  intro r' d' hg ht' hfile hd' hreads
  have hsame : r'.output tree.text = r.output tree.text := by
    rw [Request.output, Request.output, hfile]
  obtain ⟨again, hreads, hc, hs⟩ := exists_reads_tokens hp hreads
  have hparse : (Parser.parse m r'.goal (streamOf again)).Returns r'.goal tree [endOfInput] := by
    rw [hg, hs]
    exact Parser.returns_of_derives hp (by simpa using hdepth) 0 r.goal.mayLeave_endOfInput
  obtain ⟨hok', hout', -, hlog⟩ := process_of_returns hparse ht' htext hd'
  rw [hsame] at hout'
  rw [run_of_reads hreads hc]
  exact ⟨hok', hout', hlog rfl⟩

/-- Comments, layout and what is left after the statement go, and an empty `ELSE` stays; and a file
that was written can be formatted in place. -/
theorem run_keeps_tokens_and_output_returns :
    let source := "IF true THEN # why\r\n move ELSE END IF IF turn"
    let tree : Statement := .ifElse .always [.call "move"] []
    let r : Request := ⟨source, true, .statement, some "bl", some "o.bl"⟩
    let r' : Request := ⟨"o.bl", false, .statement, some "bl", some "o.bl"⟩
    (Parser.parse .usual .statement (streamOf source)).result .statement = .ok tree ∧
      r.CanDeliver .empty ∧
      ∃ text, streamOf text = ["IF", "true", "THEN", "move", "ELSE", "END", "IF", endOfInput] ∧
        (run .usual r .empty).directory.read "o.bl" = .ok (Utf8.encode text.toList) ∧
        (run .usual r' (run .usual r .empty).directory).directory.read "o.bl" =
          .ok (Utf8.encode text.toList) ∧
        ∀ x ∈ (run .usual r' (run .usual r .empty).directory).log, x.level ≠ .warning := by
  intro source tree r r'
  have htokens : streamOf source = ["IF", "true", "THEN", "move", "ELSE", "END", "IF", "IF",
      "turn", endOfInput] := by decide +kernel
  have hparse :
      (Parser.parse .usual .statement (streamOf source)).result .statement = .ok tree := by
    rw [htokens]
    rfl
  have hd : r.CanDeliver .empty := by
    rintro _ ⟨⟩
    exact ⟨["o.bl"], by decide, by decide⟩
  obtain ⟨hfits, hall⟩ := run_keeps_tokens_and_output .usual .statement source tree hparse
  obtain ⟨text, htext⟩ := hfits.2 (by decide)
  obtain ⟨hs, hrun⟩ := hall text htext
  obtain ⟨-, hout, hagain, hrun'⟩ := hrun r .empty rfl rfl rfl hd
  obtain ⟨-, hout', hlog⟩ := hrun' r' _ rfl rfl rfl hagain (.inl ⟨by decide, hout⟩)
  refine ⟨hparse, hd, text, ?_, hout, hout', hlog⟩
  rw [hs, htokens]
  rfl

/-- Loops that can be parsed inside one another need not have an output. -/
theorem not_puts_out_nested :
    let source := nestedSource 250
    let r : Request := ⟨source, true, .statement, some "bl", none⟩
    programText r .empty = .ok source ∧ r.CanDeliver .empty ∧
      (Parser.parse .usual .statement (streamOf source)).Returns .statement (.nested 250)
        [endOfInput] ∧
      (∀ text, render .usual "bl" (some (.nested 250)) ≠ .ok text) ∧
      ∃ log, run .usual r .empty = ⟨.error (.render (.print .tooDeep)), "", log, .empty⟩ := by
  intro source r
  have hparse : (Parser.parse .usual r.goal (streamOf source)).Returns r.goal (.nested 250)
      [endOfInput] := parse_nestedSource (by decide)
  have hrender : render .usual "bl" (some (.nested 250)) = .error (.print .tooDeep) :=
    render_nested (by decide) (by decide)
  refine ⟨rfl, nofun, hparse, fun text h => ?_, run_of_not_rendered rfl hparse.1 hrender⟩
  cases hrender.symm.trans h

end Tool

end BlockLang
