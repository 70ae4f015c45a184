import BlockLang.Proofs.Text.Utf8
import BlockLang.Proofs.Token.LineEnds
import BlockLang.Tool

/-! Programs from files. What the tool does is decided by the tokens of the program text, and a file
that holds the bytes of a text has its tokens, unless a carriage return breaks a comment; so the
tool does the same with a program file as with its text. -/

namespace BlockLang.Tool

open Text Token

variable {m : Machine} {r r' : Request} {d : Directory} {source text text' : String}

/-- Only the tokens of a program text matter. -/
theorem process_congr (hg : r.goal = r'.goal) (ht : r.target = r'.target) (ho : r.out = r'.out)
    (hs : streamOf text = streamOf text') (d : Directory) :
    process m r text d = process m r' text' d := by
  obtain ⟨_, _, goal, target, out⟩ := r
  obtain ⟨_, _, goal', target', out'⟩ := r'
  obtain rfl : goal = goal' := hg
  obtain rfl : target = target' := ht
  obtain rfl : out = out' := ho
  simp only [process, hs, deliver]

/-- A request has a text for its program: the text itself, or a program file that holds its
bytes. -/
def Request.Reads (r : Request) (d : Directory) (source : String) : Prop :=
  if r.literal then r.source = source
  else isProgramFile r.source ∧ d.read r.source = .ok (Utf8.encode source.toList)

theorem readProgram_eq {path : String} (hp : isProgramFile path)
    (hd : d.read path = .ok (Utf8.encode source.toList)) :
    readProgram d path = .ok (String.ofList (unifyNewlines source.toList)) := by
  simp [readProgram, hp, hd, Utf8.decode_encode]

theorem run_of_reads (h : r.Reads d source) (hc : CommentsUnbroken source.toList) :
    run m r d = process m r source d := by
  unfold Request.Reads at h
  split at h
  · next hl => simp only [run, programText, hl, if_true, h]
  · next hl =>
    rw [run, programText, if_neg hl, readProgram_eq h.1 h.2]
    exact process_congr rfl rfl rfl (streamOf_unifyNewlines hc) d

/-- The tool does the same with a program file that holds the bytes of a text as with the text,
provided that no carriage return breaks a comment of it. -/
theorem run_file_eq_run_literal (m : Machine) (source : String)
    (hc : CommentsUnbroken source.toList) (path : String) (d : Directory) (hp : isProgramFile path)
    (hd : d.read path = .ok (Utf8.encode source.toList)) (goal : Parser.Goal)
    (target out : Option String) :
    run m ⟨path, false, goal, target, out⟩ d = run m ⟨source, true, goal, target, out⟩ d := by
  have hfile : Request.Reads ⟨path, false, goal, target, out⟩ d source := ⟨hp, hd⟩
  have hliteral : Request.Reads ⟨source, true, goal, target, out⟩ d source := rfl
  rw [run_of_reads hfile hc, run_of_reads hliteral hc]
  exact process_congr rfl rfl rfl rfl d

/-- Carriage returns may end lines, also after comments if line feeds follow; and the file itself
may be written over. -/
theorem run_file_eq_run_literal_returns :
    let source := "IF random\r# é\r\nTHEN\rmove END IF turn"
    let d : Directory := ⟨[(["p.bl"], .file (Utf8.encode source.toList))]⟩
    CommentsUnbroken source.toList ∧ d.read "p.bl" = .ok (Utf8.encode source.toList) ∧
    run .usual ⟨"p.bl", false, .statement, some "json", some "p.bl"⟩ d =
      run .usual ⟨source, true, .statement, some "json", some "p.bl"⟩ d := by
  intro source d
  have hc : CommentsUnbroken source.toList := by decide +kernel
  have hd : d.read "p.bl" = .ok (Utf8.encode source.toList) := by decide +kernel
  exact ⟨hc, hd, run_file_eq_run_literal .usual source hc "p.bl" d (by decide) hd .statement
    (some "json") (some "p.bl")⟩

end BlockLang.Tool
