import BlockLang.Proofs.Json.Faithful
import BlockLang.Proofs.Tool.Reformat

/-! The ways in which a run of the tool ends, and what each leaves behind. A run that fails has
printed nothing and changed no file. A run that does not fail puts out a text of ASCII characters:
it prints the text, or changes nothing but the file that then holds it. -/

namespace BlockLang

open Text Token

/-! ### Rendered texts -/

/-- There is room on a machine for rendering a tree in a format. -/
def Target.Fits (m : Machine) : Target → Statement → Prop
  | program, s => s.Fits m
  | json, s => s.toJson.Fits m jsonIndent

/-- The text of a program in a format. -/
def Target.text : Target → Statement → String
  | program, s => s.text
  | json, s => s.toJson.text jsonIndent

variable {m : Machine} {goal : Parser.Goal} {p : List Token} {tree : Statement} {text : String}

theorem toNat_lt_of_isWordChar {c : Char} (h : isWordChar c) : c.toNat < 0x80 := by
  rw [isWordChar_iff] at h
  omega

theorem isAscii_programText (h : Derives goal p tree) : IsAscii tree.text.toList := by
  intro c hc
  rcases mem_text h c hc with hword | rfl | rfl
  · exact toNat_lt_of_isWordChar hword
  · decide
  · decide

/-- In every format a parsed program is rendered as its text, if there is room for it, and is not
rendered otherwise. -/
theorem Target.render_eq_ok_iff {target : Target} (h : Derives goal p tree) :
    target.render m tree = .ok text ↔ target.Fits m tree ∧ text = target.text tree := by
  cases target with
  | program => exact BlockLang.render_eq_ok_iff h text
  | json =>
    have hdata : tree.data m = (PrintError.requireDepth m tree.toJson >>= fun _ =>
        .ok tree.toJson) := rfl
    rw [Target.Fits, Target.text, ← Json.encode_eq_ok_iff, Target.render, hdata]
    cases hdepth : PrintError.requireDepth m tree.toJson with
    | ok _ =>
      show (tree.toJson.encode m jsonIndent).mapError RenderError.print = .ok text ↔ _
      cases tree.toJson.encode m jsonIndent <;> simp [Except.mapError]
    | error e =>
      refine iff_of_false (fun herror => by cases herror) fun hok => ?_
      have hfits := ((Json.encode_eq_ok_iff _ _).1 hok).1
      rw [PrintError.requireDepth_eq_ok_iff.2 hfits.depth] at hdepth
      cases hdepth

/-- If a format is at hand, what fails is the printing. -/
theorem Target.exists_print_of_error {target : Target} {e : RenderError}
    (h : target.render m tree = .error e) : ∃ cause, e = .print cause := by
  cases target with
  | program =>
    rw [render] at h
    split at h
    · cases h
    · exact ⟨_, (Except.error.inj h).symm⟩
  | json =>
    rw [render] at h
    generalize (tree.data m).bind (Json.encode m jsonIndent) = r at h
    cases r with
    | ok _ => cases h
    | error cause => exact ⟨cause, (Except.error.inj h).symm⟩

/-- In every format the text of a program is ASCII. -/
theorem Target.isAscii_text (target : Target) (h : Derives goal p tree) :
    IsAscii (target.text tree).toList := by
  cases target with
  | program => exact isAscii_programText h
  | json => exact Json.isAscii_text jsonIndent tree.toJson

namespace Tool

variable {r : Request} {d d' : Directory} {source path : String} {log : List Record}

theorem rendered_eq_ok_iff {target : Option String} : rendered m target tree = .ok text ↔
    ∃ name format, target = some name ∧ Target.ofName name = .ok format ∧
      format.render m tree = .ok text := by
  cases target with
  | none => exact ⟨nofun, nofun⟩
  | some name =>
    cases hformat : Target.ofName name with
    | error e =>
      have herror : rendered m (some name) tree = .error e := by
        rw [rendered, render, hformat]
        rfl
      simp [herror, hformat]
    | ok format =>
      have hok : rendered m (some name) tree = format.render m tree := by
        rw [rendered, render, hformat]
        rfl
      simp [hok, hformat]

/-! ### Ends of runs -/

/-- A request has a program text, and the parse of its tokens has a result. -/
def Request.Parses (r : Request) (m : Machine) (d : Directory)
    (result : Except SyntaxError Statement) : Prop :=
  ∃ source, programText r d = .ok source ∧
    (Parser.parse m r.goal (streamOf source)).result r.goal = result

theorem Request.Parses.unique {result result' : Except SyntaxError Statement}
    (h : r.Parses m d result) (h' : r.Parses m d result') : result = result' := by
  obtain ⟨source, hsource, rfl⟩ := h
  obtain ⟨source', hsource', rfl⟩ := h'
  obtain rfl := Except.ok.inj (hsource.symm.trans hsource')
  rfl

/-- The ways in which a run ends. -/
inductive Ends (m : Machine) (r : Request) (d : Directory) : Report → Prop where
  | unread {e : Failure} : programText r d = .error e → Ends m r d ⟨.error e, "", [], d⟩
  | violation {e : SyntaxError} {log : List Record} : r.Parses m d (.error e) →
      Ends m r d ⟨.error (.violation e), "", log, d⟩
  | unrendered {tree : Statement} {e : RenderError} {log : List Record} : r.Parses m d (.ok tree) →
      rendered m r.target tree = .error e → Ends m r d ⟨.error (.render e), "", log, d⟩
  | printed {tree : Statement} {text : String} {log : List Record} : r.Parses m d (.ok tree) →
      rendered m r.target tree = .ok text → r.file? = none →
      Ends m r d ⟨.ok tree, printedText text, log, d⟩
  | unwritten {tree : Statement} {text path : String} {e : FileError} {log : List Record} :
      r.Parses m d (.ok tree) → rendered m r.target tree = .ok text → r.file? = some path →
      d.write path (Utf8.encode text.toList) = .error e →
      Ends m r d ⟨.error (.file e), "", log, d⟩
  | written {tree : Statement} {text path : String} {d' : Directory} {log : List Record} :
      r.Parses m d (.ok tree) → rendered m r.target tree = .ok text → r.file? = some path →
      d.write path (Utf8.encode text.toList) = .ok d' → Ends m r d ⟨.ok tree, "", log, d'⟩

theorem ends_deliver (h : r.Parses m d (.ok tree)) (hr : rendered m r.target tree = .ok text) :
    Ends m r d (deliver r tree text log d) := by
  unfold deliver
  split
  · next path hpath =>
    split
    · next d' hwrite => exact .written h hr hpath hwrite
    · next e hwrite => exact .unwritten h hr hpath hwrite
  · next hnone => exact .printed h hr hnone

theorem ends_process (h : programText r d = .ok source) : Ends m r d (process m r source d) := by
  unfold process
  dsimp only
  split
  · next e hresult => exact .violation ⟨source, h, hresult⟩
  · next tree hresult =>
    split
    · next e hr => exact .unrendered ⟨source, h, hresult⟩ hr
    · next text hr => exact ends_deliver ⟨source, h, hresult⟩ hr

theorem ends_run (m : Machine) (r : Request) (d : Directory) : Ends m r d (run m r d) := by
  unfold run
  split
  · next e h => exact .unread h
  · next source h => exact ends_process h

/-! ### What is left behind -/

/-- A parsed tree is derived by the grammar. -/
theorem Request.Parses.derives (h : r.Parses m d (.ok tree)) : ∃ p, Derives r.goal p tree := by
  obtain ⟨source, -, hresult⟩ := h
  exact ⟨_, Parser.derives_take hresult⟩

theorem Request.Parses.isAscii (h : r.Parses m d (.ok tree))
    (hr : rendered m r.target tree = .ok text) : IsAscii text.toList := by
  obtain ⟨p, hp⟩ := h.derives
  obtain ⟨name, format, -, -, hformat⟩ := rendered_eq_ok_iff.1 hr
  obtain ⟨-, rfl⟩ := (Target.render_eq_ok_iff hp).1 hformat
  exact format.isAscii_text hp

/-- What a run is to leave behind: nothing if it failed, and else the text of the tree, printed or
in the file and nowhere else. -/
def Report.IsTidy (report : Report) (m : Machine) (r : Request) (d : Directory) : Prop :=
  match report.result with
  | .error _ => report.printed = "" ∧ report.directory = d
  | .ok tree => ∃ text, rendered m r.target tree = .ok text ∧ IsAscii text.toList ∧
      match r.file? with
      | none => report.printed = printedText text ∧ report.directory = d
      | some path => report.printed = "" ∧
          report.directory.read path = .ok (Utf8.encode text.toList) ∧
          d.ChangesOnly report.directory path

theorem Ends.isTidy {report : Report} (h : Ends m r d report) : report.IsTidy m r d := by
  cases h with
  | unread _ => exact ⟨rfl, rfl⟩
  | violation _ => exact ⟨rfl, rfl⟩
  | unrendered _ _ => exact ⟨rfl, rfl⟩
  | unwritten _ _ _ _ => exact ⟨rfl, rfl⟩
  | printed hparse hr hfile =>
    refine ⟨_, hr, hparse.isAscii hr, ?_⟩
    rw [hfile]
    exact ⟨rfl, rfl⟩
  | written hparse hr hfile hwrite =>
    refine ⟨_, hr, hparse.isAscii hr, ?_⟩
    rw [hfile]
    exact ⟨rfl, Directory.read_of_write hwrite, Directory.changesOnly_of_write hwrite⟩

end Tool

end BlockLang
