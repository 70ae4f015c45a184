import BlockLang.CommandLine
import BlockLang.Proofs.Tool.Output

/-! The exit status of the command line. Each way in which a run ends has its status, and all that
fails leaves the directory as it was. -/

namespace BlockLang

open Text Token

/-! ### Failures -/

namespace Tool

variable {m : Machine} {r : Request} {d : Directory} {e : Failure}

/-- There is no program text to be had: the file is no program file, or it cannot be read or
decoded. -/
def Request.IsUnreadable (r : Request) (d : Directory) : Prop :=
  r.literal = false ∧ (isProgramFile r.source = false ∨ (∃ e, d.read r.source = .error e) ∨
    ∃ bytes e, d.read r.source = .ok bytes ∧ Utf8.decode bytes = .error e)

/-- A program is parsed, but there is no room for rendering its tree. -/
def Request.IsUnrenderable (r : Request) (m : Machine) (d : Directory) : Prop :=
  ∃ tree, r.Parses m d (.ok tree) ∧
    ∃ name format, r.target = some name ∧ Target.ofName name = .ok format ∧ ¬ format.Fits m tree

/-- A program is parsed and rendered, but there is no way to write the file. -/
def Request.IsUnwritable (r : Request) (m : Machine) (d : Directory) : Prop :=
  (∃ tree text, r.Parses m d (.ok tree) ∧ rendered m r.target tree = .ok text) ∧
    ∃ path ∈ r.file?, ¬ d.Writable path

theorem Request.IsUnreadable.exists_error (h : r.IsUnreadable d) :
    ∃ e, programText r d = .error e := by
  obtain ⟨hliteral, hcause⟩ := h
  rw [programText, hliteral, if_neg (by decide), readProgram]
  split
  · exact ⟨_, rfl⟩
  · next hname =>
    rcases hcause with hname' | ⟨e, hread⟩ | ⟨bytes, e, hread, hdecode⟩
    · simp [hname'] at hname
    · simp [hread]
    · simp [hread, hdecode]

/-- Without a program text, the file is at fault. -/
theorem isUnreadable_of_error (h : programText r d = .error e) : r.IsUnreadable d ∧
    (e = .notProgramFile ∨ (∃ cause, e = .file cause) ∨ ∃ cause, e = .decode cause) := by
  unfold programText at h
  split at h
  · cases h
  · next hliteral =>
    rw [Bool.not_eq_true] at hliteral
    unfold readProgram at h
    split at h
    · next hname =>
      cases h
      exact ⟨⟨hliteral, .inl (by simpa using hname)⟩, .inl rfl⟩
    · split at h
      · next hread =>
        cases h
        exact ⟨⟨hliteral, .inr (.inl ⟨_, hread⟩)⟩, .inr (.inl ⟨_, rfl⟩)⟩
      · next hread =>
        split at h
        · next hdecode =>
          cases h
          exact ⟨⟨hliteral, .inr (.inr ⟨_, _, hread, hdecode⟩)⟩, .inr (.inr ⟨_, rfl⟩)⟩
        · cases h

theorem Request.IsUnreadable.not_parses (h : r.IsUnreadable d)
    {result : Except SyntaxError Statement} : ¬ r.Parses m d result := by
  rintro ⟨source, hsource, -⟩
  obtain ⟨e, herror⟩ := h.exists_error
  cases hsource.symm.trans herror

theorem Request.IsUnrenderable.rendered_ne_ok (h : r.IsUnrenderable m d) {tree : Statement}
    {text : String} (hparse : r.Parses m d (.ok tree)) :
    rendered m r.target tree ≠ .ok text := by
  obtain ⟨tree, hparse', name, format, htarget, hformat, hfits⟩ := h
  obtain ⟨⟩ := hparse.unique hparse'
  obtain ⟨p, hp⟩ := hparse.derives
  intro hr
  obtain ⟨name', format', htarget', hformat', hrender⟩ := rendered_eq_ok_iff.1 hr
  obtain rfl := Option.some.inj (htarget.symm.trans htarget')
  obtain rfl := Except.ok.inj (hformat.symm.trans hformat')
  exact hfits ((Target.render_eq_ok_iff hp).1 hrender).1

end Tool

namespace CommandLine

open Tool (ends_run)

variable {m : Machine} {r : Tool.Request} {d : Directory}

/-! ### The status of a run -/

/-- A request has one of the formats that can be chosen. -/
def HasTarget (r : Tool.Request) : Prop := ∃ name ∈ targets, r.target = some name

/-- Where a format can be chosen, only the lack of room keeps a parsed tree from being rendered. -/
theorem HasTarget.isUnrenderable (h : HasTarget r) {tree : Statement} {e : RenderError}
    (hparse : r.Parses m d (.ok tree)) (hr : Tool.rendered m r.target tree = .error e) :
    r.IsUnrenderable m d ∧ ∃ cause, e = .print cause := by
  have hformats : ∀ name ∈ targets, ∃ format, Target.ofName name = .ok format := by
    simp only [targets, List.forall_mem_cons]
    exact ⟨⟨.program, rfl⟩, ⟨.json, rfl⟩, List.forall_mem_nil _⟩
  obtain ⟨name, hname, htarget⟩ := h
  obtain ⟨format, hformat⟩ := hformats name hname
  obtain ⟨p, hp⟩ := hparse.derives
  have hrender : format.render m tree = .error e := by
    rw [htarget, Tool.rendered, render, hformat] at hr
    exact hr
  refine ⟨⟨tree, hparse, name, format, htarget, hformat, fun hfits => ?_⟩,
    Target.exists_print_of_error hrender⟩
  cases hrender.symm.trans ((Target.render_eq_ok_iff hp).2 ⟨hfits, rfl⟩)

theorem status_of_unread {e : Tool.Failure} (h : Tool.programText r d = .error e) :
    status (.error e) = 2 ∧ brokenOffBy (.error e) = none := by
  rcases (Tool.isUnreadable_of_error h).2 with rfl | ⟨_, rfl⟩ | ⟨_, rfl⟩
  · exact ⟨rfl, rfl⟩
  · exact ⟨rfl, rfl⟩
  · exact ⟨rfl, rfl⟩

theorem status_eq_one_iff (ht : HasTarget r) (m : Machine) (d : Directory) :
    status (Tool.run m r d).result = 1 ↔
      (∃ e, r.Parses m d (.error e)) ∨ r.IsUnrenderable m d := by
  have hends := ends_run m r d
  generalize Tool.run m r d = report at hends
  constructor
  · intro h
    cases hends with
    | unread hread =>
      rw [(status_of_unread hread).1] at h
      cases h
    | violation hparse => exact .inl ⟨_, hparse⟩
    | unrendered hparse hr => exact .inr (ht.isUnrenderable hparse hr).1
    | unwritten _ _ _ _ | printed _ _ _ | written _ _ _ _ => cases h
  · intro h
    have hparses : ∃ result, r.Parses m d result := by
      rcases h with ⟨e, hparse⟩ | ⟨tree, hparse, -⟩
      · exact ⟨_, hparse⟩
      · exact ⟨_, hparse⟩
    obtain ⟨result, hresult⟩ := hparses
    have hnot : ∀ {tree text}, r.Parses m d (.ok tree) →
        Tool.rendered m r.target tree ≠ .ok text := by
      intro tree text hparse hr
      rcases h with ⟨e, hparse'⟩ | h
      · cases hparse.unique hparse'
      · exact h.rendered_ne_ok hparse hr
    cases hends with
    | unread hread => exact absurd hresult (Tool.isUnreadable_of_error hread).1.not_parses
    | violation _ => rfl
    | unrendered hparse hr =>
      obtain ⟨-, cause, rfl⟩ := ht.isUnrenderable hparse hr
      rfl
    | unwritten hparse hr _ _ | printed hparse hr _ | written hparse hr _ _ =>
      exact absurd hr (hnot hparse)

theorem status_eq_two_iff (ht : HasTarget r) (m : Machine) (d : Directory) :
    status (Tool.run m r d).result = 2 ↔ r.IsUnreadable d ∨ r.IsUnwritable m d := by
  have hends := ends_run m r d
  generalize Tool.run m r d = report at hends
  constructor
  · intro h
    cases hends with
    | unread hread => exact .inl (Tool.isUnreadable_of_error hread).1
    | unrendered hparse hr =>
      obtain ⟨-, cause, rfl⟩ := ht.isUnrenderable hparse hr
      cases h
    | unwritten hparse hr hfile hwrite =>
      refine .inr ⟨⟨_, _, hparse, hr⟩, _, hfile, fun hwritable => ?_⟩
      obtain ⟨d', hd'⟩ := hwritable.exists_write _
      cases hwrite.symm.trans hd'
    | violation _ | printed _ _ _ | written _ _ _ _ => cases h
  · intro h
    cases hends with
    | unread hread => exact (status_of_unread hread).1
    | violation hparse =>
      rcases h with h | ⟨⟨tree, _, hparse', -⟩, -⟩
      · exact absurd hparse h.not_parses
      · cases hparse.unique hparse'
    | unrendered hparse hr =>
      rcases h with h | ⟨⟨tree, text, hparse', hr'⟩, -⟩
      · exact absurd hparse h.not_parses
      · obtain ⟨⟩ := hparse.unique hparse'
        cases hr.symm.trans hr'
    | unwritten _ _ _ _ => rfl
    | printed hparse _ hfile =>
      rcases h with h | ⟨-, path, hpath, -⟩
      · exact absurd hparse h.not_parses
      · cases hfile.symm.trans hpath
    | written hparse _ hfile hwrite =>
      rcases h with h | ⟨-, path, hpath, hwritable⟩
      · exact absurd hparse h.not_parses
      · obtain rfl := Option.some.inj (hfile.symm.trans hpath)
        obtain ⟨way, hr, hway, -⟩ := Directory.write_eq_ok_iff.1 hwrite
        exact absurd ⟨way, hr, hway⟩ hwritable

theorem status_le_two (result : Except Tool.Failure Statement) : status result ≤ 2 := by
  unfold status
  split
  · decide
  · decide
  · split <;> decide

theorem brokenOffBy_eq_none_iff (ht : HasTarget r) (m : Machine) (d : Directory) :
    brokenOffBy (Tool.run m r d).result = none ↔ ¬ r.IsUnrenderable m d := by
  have hends := ends_run m r d
  generalize Tool.run m r d = report at hends
  cases hends with
  | unread hread =>
    refine iff_of_true (status_of_unread hread).2 fun ⟨tree, hparse, _⟩ => ?_
    exact (Tool.isUnreadable_of_error hread).1.not_parses hparse
  | violation hparse =>
    refine iff_of_true rfl fun ⟨tree, hparse', _⟩ => ?_
    cases hparse.unique hparse'
  | unrendered hparse hr =>
    obtain ⟨hunrenderable, cause, rfl⟩ := ht.isUnrenderable hparse hr
    exact iff_of_false nofun (not_not_intro hunrenderable)
  | unwritten hparse hr _ _ | printed hparse hr _ | written hparse hr _ _ =>
    exact iff_of_true rfl fun h => h.rendered_ne_ok hparse hr

theorem clean_of_status_ne_zero (h : status (Tool.run m r d).result ≠ 0) :
    (Tool.run m r d).printed = "" ∧ (Tool.run m r d).directory = d := by
  have htidy := (ends_run m r d).isTidy
  generalize Tool.run m r d = report at h htidy
  unfold Tool.Report.IsTidy at htidy
  split at htidy
  · exact htidy
  · next hok => exact absurd (congrArg status hok) h

/-! ### Calls -/

/-- A run of the tool that fails has printed nothing and changed no file, and one that does not has
put out the text of the tree and nothing else. The status of a call tells whether the input or the
program was at fault or there was no room for rendering the tree, or else the source or the file to
write, or nothing. A call is broken off where the input fails, and where there is no room. -/
theorem run_isTidy_and_status (m : Machine) :
    (∀ (r : Tool.Request) (d : Directory), (Tool.run m r d).IsTidy m r d) ∧
    ∀ (settings : Settings) (input : Input) (d : Directory),
      (∃ name ∈ targets, settings.target = some name) →
      let outcome := runWith m settings input d
      (outcome.status = 1 ↔ (∃ e, source settings input = .error e) ∨
        ∃ name, source settings input = .ok (some name) ∧
          ((∃ e, (request settings name).Parses m d (.error e)) ∨
            (request settings name).IsUnrenderable m d)) ∧
      (outcome.status = 2 ↔ source settings input = .ok none ∨
        ∃ name, source settings input = .ok (some name) ∧
          ((request settings name).IsUnreadable d ∨ (request settings name).IsUnwritable m d)) ∧
      (outcome.status = 0 ∨ outcome.status = 1 ∨ outcome.status = 2) ∧
      (outcome.status ≠ 0 →
        outcome.output = prompted settings input ∧ outcome.directory = d) ∧
      (outcome.brokenOffBy = none ↔ ∃ name?, source settings input = .ok name? ∧
        ∀ name ∈ name?, ¬ (request settings name).IsUnrenderable m d) := by
  refine ⟨fun r d => (ends_run m r d).isTidy, ?_⟩
  intro settings input d ht
  cases hsource : source settings input with
  | error e => simp [runWith, hsource]
  | ok name? =>
    cases name? with
    | none => simp [runWith, hsource]
    | some name =>
      have hrequest : HasTarget (request settings name) := ht
      have hle := status_le_two (Tool.run m (request settings name) d).result
      simp only [runWith, hsource, Except.ok.injEq, Option.some.injEq, exists_eq_left',
        reduceCtorEq, false_or, exists_false, Option.mem_def, forall_eq']
      refine ⟨status_eq_one_iff hrequest m d, status_eq_two_iff hrequest m d, by omega, ?_,
        brokenOffBy_eq_none_iff hrequest m d⟩
      intro hstatus
      obtain ⟨hprinted, hdirectory⟩ := clean_of_status_ne_zero hstatus
      rw [hprinted]
      exact ⟨String.append_empty, hdirectory⟩

/-- A program file with a syntax error that is to be written over stays as it is. -/
theorem run_isTidy_and_status_violation :
    let text := "IF true THEN move"
    let settings : Settings := ⟨none, false, false, some "json", some "p.bl", true⟩
    let d : Directory := ⟨[(["p.bl"], .file (Utf8.encode text.toList))]⟩
    let outcome := runWith .usual settings (.ok " p.bl\n") d
    (∃ name ∈ targets, settings.target = some name) ∧
      outcome.status = 1 ∧ outcome.output = prompt ∧ outcome.directory = d := by
  intro text settings d outcome
  have htarget : ∃ name ∈ targets, settings.target = some name := ⟨"json", by decide, rfl⟩
  have hsource : source settings (.ok " p.bl\n") = .ok (some "p.bl") :=
    congrArg Except.ok (by decide +kernel)
  have hread : d.read "p.bl" = .ok (Utf8.encode text.toList) := by decide +kernel
  have htokens : streamOf (String.ofList (unifyNewlines text.toList)) =
      ["IF", "true", "THEN", "move", endOfInput] := by decide +kernel
  have hparse : (request settings "p.bl").Parses .usual d
      (.error ((Parser.Violation.elseOrEnd endOfInput).error 4 (some endOfInput))) := by
    refine ⟨_, Tool.readProgram_eq (by decide) hread, ?_⟩
    rw [htokens]
    rfl
  obtain ⟨hone, -, -, hclean, -⟩ :=
    (run_isTidy_and_status .usual).2 settings (.ok " p.bl\n") d htarget
  have hstatus : outcome.status = 1 := hone.2 (.inr ⟨"p.bl", hsource, .inl ⟨_, hparse⟩⟩)
  have hzero : outcome.status ≠ 0 := by
    rw [hstatus]
    decide
  exact ⟨htarget, hstatus, hclean hzero⟩

/-- Status 1 need not mean a syntax error: a program that is parsed may be too deep to be printed,
and there may be no program, since the input cannot be read. -/
theorem status_one_without_violation :
    let settings : Settings :=
      ⟨some (nestedSource 250), true, false, some "bl", none, false⟩
    let outcome := runWith .usual settings (.ok "") .empty
    let outcome' := runWith .usual { settings with source := none } (.error .closed) .empty
    (request settings (nestedSource 250)).Parses .usual .empty (.ok (.nested 250)) ∧
      outcome.status = 1 ∧ outcome.brokenOffBy = some (.tool (.render (.print .tooDeep))) ∧
      outcome'.status = 1 ∧ outcome'.brokenOffBy = some (.input .closed) := by
  intro settings outcome outcome'
  let r := request settings (nestedSource 250)
  have hparse : (Parser.parse .usual r.goal (streamOf (nestedSource 250))).Returns r.goal
      (.nested 250) [endOfInput] := parse_nestedSource (by decide)
  have hrender : Tool.rendered .usual r.target (.nested 250) = .error (.print .tooDeep) :=
    render_nested (by decide) (by decide)
  obtain ⟨log, hrun⟩ := Tool.run_of_not_rendered (r := r) (d := .empty) rfl hparse.1 hrender
  have houtcome : outcome = ⟨status (Tool.run .usual r .empty).result,
      "" ++ (Tool.run .usual r .empty).printed,
      shown false (Tool.run .usual r .empty).log ++
        complaint (Tool.run .usual r .empty).result,
      (Tool.run .usual r .empty).directory, brokenOffBy (Tool.run .usual r .empty).result⟩ := rfl
  rw [houtcome, hrun]
  exact ⟨⟨_, rfl, hparse.1⟩, rfl, rfl, rfl, rfl⟩

end CommandLine

end BlockLang
