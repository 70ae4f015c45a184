import BlockLang.Proofs.Descent.Planning
import BlockLang.Proofs.Parser.Elements

/-! How a parse into a node ends. Before the statement is put together the parse does not touch the
node, and fails as it would for any other. At that place the node must still be a placeholder; then
it becomes the statement, and afterwards the parse only looks for what closes it. -/

namespace BlockLang

open BlockLang.Parser State

/-- A stream begins as promised, and up to another one its tokens put together a statement. -/
def TokenStream.Reaches (s : TokenStream) (beginning : Beginning) (x : Statement)
    (s' : TokenStream) : Prop :=
  beginning.admits s.front ∧ ∃ p, s.rest = p ++ s'.rest ∧ Assembles p x s'.front ∧
    s'.position = s.position + p.length

variable {s s' s'' : TokenStream} {f g k : Forest} {i : NodeId} {n : Node} {depth m : Nat}
  {beginning : Beginning} {x y : Statement} {ts p r : List Token} {pl : Plan} {kind : Kind}
  {parse : NodeId → Descent Unit} {site : Site}

/-- Only one statement is put together on a stream, and only once. -/
theorem TokenStream.Reaches.unique (h : s.Reaches beginning x s')
    (h' : s.Reaches beginning y s'') : x = y ∧ s' = s'' := by
  obtain ⟨ts, n⟩ := s
  obtain ⟨r, m⟩ := s'
  obtain ⟨r', m'⟩ := s''
  obtain ⟨-, p, hp, hx, hm⟩ := h
  obtain ⟨-, p', hp', hy, hm'⟩ := h'
  obtain ⟨τ, hτ, hposition⟩ := exists_assembly?_eq hx n
  obtain ⟨τ', hτ', hposition'⟩ := exists_assembly?_eq hy n
  obtain rfl : ts = _ := hp
  rw [show p ++ r = p' ++ r' from hp', hτ'] at hτ
  cases hτ
  exact ⟨rfl, congrArg _ (hm.trans (hposition.symm.trans (hposition'.trans hm'.symm)))⟩

namespace Descent

/-- How a parse into a node of a forest ends: with what fault and where. -/
inductive Ending (s : TokenStream) (beginning : Beginning) (f : Forest) (i : NodeId) (n : Node) :
    Option Fault → Site → Prop where
  /-- The stream does not begin as promised. -/
  | refused : ¬ beginning.admits s.front →
      Ending s beginning f i n (some (.parse (.wrongBeginning beginning))) ⟨s, f⟩
  /-- The stream violates the grammar before a statement is put together. -/
  | early {e : SyntaxError} {g : Forest} : beginning.admits s.front →
      (∀ x s', ¬ s.Reaches beginning x s') →
      (run .statement none (initial s.position) s.rest).error? = some e → f.Extends g →
      Ending s beginning f i n (some (.parse (.violation e)))
        ⟨(run .statement none (initial s.position) s.rest).stream, g⟩
  /-- A statement is put together, and the node is no placeholder. -/
  | blocked {x : Statement} {s' : TokenStream} {g : Forest} : s.Reaches beginning x s' →
      n.isEmpty = false → f.Extends g →
      Ending s beginning f i n (some (.parse (.build (.assembled n.kind)))) ⟨s', g⟩
  /-- The node becomes the statement that is put together, which is closed after that or not. -/
  | late {x : Statement} {s₁ s' : TokenStream} {e? : Option SyntaxError} {g : Forest}
      {ids : List NodeId} : s.Reaches beginning x s₁ → n.isEmpty → Closes x.kind s₁ e? s' →
      f.Bears g i (n.become ids x) ids x.children →
      Ending s beginning f i n (Fault.ofError? e?) ⟨s', g⟩

/-! ### Closing keywords -/

/-- A routine that closes a statement, or fails to, and leaves the forest as it is. -/
def ClosesAs (close : Descent Unit) (kind : Kind) (s : TokenStream) (f : Forest) : Prop :=
  ∃ e? s', Closes kind s e? s' ∧ Ends close ⟨s, f⟩ (Fault.ofError? e?) ⟨s', f⟩

theorem closesAs_if (hk : kind = .ifThen ∨ kind = .ifElse) (r : List Token) (m : Nat)
    (f : Forest) : ClosesAs closeChoice kind ⟨"END" :: r, m⟩ f := by
  have hclose : closeChoice ⟨⟨"END" :: r, m⟩, f⟩ =
      close "IF" (.closer .ifThen) ⟨⟨r, m + 1⟩, f⟩ := bind_of_ok (expect_cons _ _ _ _ _)
  cases r with
  | nil => exact ⟨_, _, .missingIf hk, ends_of_error (hclose.trans (close_nil _ _ _ f))⟩
  | cons t r =>
    by_cases ht : t = "IF"
    · subst ht
      exact ⟨_, _, .choice hk, ends_of_ok (hclose.trans (close_keyword _ _ r _ f))⟩
    · exact ⟨_, _, .wrongIf hk ht, ends_of_error (hclose.trans (close_of_ne ht _ r _ f))⟩

theorem closesAs_choice (h : kind = .ifElse ∨ kind = .ifThen ∧ s.front = "END") (f : Forest) :
    ClosesAs closeChoice kind s f := by
  obtain ⟨ts, m⟩ := s
  by_cases hend : Parser.front ts = "END"
  · obtain ⟨r, rfl⟩ := eq_cons_of_front hend (by decide)
    exact closesAs_if (h.symm.imp_left And.left) r m f
  · obtain rfl : kind = .ifElse := h.resolve_right fun h => hend h.2
    refine ⟨_, _, .wrongEndOfElse hend, ends_of_error (bind_of_error ?_)⟩
    exact expect_of_ne (s := ⟨⟨ts, m⟩, f⟩) hend rfl

theorem closesAs_loop (s : TokenStream) (f : Forest) : ClosesAs closeLoop .whileDo s f := by
  obtain ⟨ts, m⟩ := s
  have hfront : closeLoop ⟨⟨ts, m⟩, f⟩ =
      (expect "END" (.endOfLoop (Parser.front ts)) >>= fun _ =>
        expect "WHILE" (.closer .whileDo) >>= fun _ => pure ()) ⟨⟨ts, m⟩, f⟩ := rfl
  by_cases hend : Parser.front ts = "END"
  · obtain ⟨r, rfl⟩ := eq_cons_of_front hend (by decide)
    have hclose := hfront.trans (bind_of_ok (expect_cons "END" _ r m f))
    by_cases hr : Parser.front r = "WHILE"
    · obtain ⟨r, rfl⟩ := eq_cons_of_front hr (by decide)
      have hwhile := hclose.trans (bind_of_ok (expect_cons "WHILE" _ r (m + 1) f))
      exact ⟨_, _, .loop, ends_of_ok hwhile⟩
    · refine ⟨_, _, .wrongWhile hr, ends_of_error (hclose.trans (bind_of_error ?_))⟩
      exact expect_of_ne (s := ⟨⟨r, m + 1⟩, f⟩) hr rfl
  · refine ⟨_, _, .wrongEndOfLoop hend, ends_of_error (hfront.trans (bind_of_error ?_))⟩
    exact expect_of_ne (s := ⟨⟨ts, m⟩, f⟩) hend rfl

/-- A plan that is found closes the statement that it has put together. -/
theorem closesAs_of_fits (hx : Assembles p x s.front) (hpl : pl.Fits f g x) (k : Forest) :
    ClosesAs pl.close x.kind s k := by
  cases hpl with
  | call hname => exact ⟨_, _, .call, ends_of_ok rfl⟩
  | @test kind c ids xs hids =>
    generalize hnode : Statement.node kind (some c) none xs = y at hx
    generalize hnext : s.front = next at hx
    cases hx with
    | call _ => cases hnode
    | @compound w q b ys _ hw hq he hl =>
      cases b with
      | ifBody c' =>
        cases hnode
        exact closesAs_choice (.inr ⟨rfl, hnext.trans (eq_of_beq hl)⟩) k
      | elseBody c' ys =>
        cases hnode
        exact closesAs_choice (.inl rfl) k
      | whileBody c' =>
        cases hnode
        exact closesAs_loop s k

/-! ### The place where a statement is put together -/

theorem build_of_not_isEmpty (hpl : pl.Fits f g x) (hn : g.node? i = some n)
    (he : n.isEmpty = false) : pl.build i g = .error (.assembled n.kind) := by
  cases hpl with
  | call hname => exact Forest.assembleCall_of_not_isEmpty hn he _
  | test hids => exact Forest.assemble_of_not_isEmpty hn he _ _ _

theorem exists_build (hpl : pl.Fits f g x) (hfg : f.Extends g) (hn : f.node? i = some n)
    (he : n.isEmpty) :
    ∃ k ids, pl.build i g = .ok k ∧ f.Bears k i (n.become ids x) ids x.children := by
  cases hpl with
  | call hname =>
    obtain ⟨k, hk, hbears⟩ := hfg.exists_assembleCall hn he hname
    exact ⟨k, _, hk, hbears⟩
  | test hids =>
    obtain ⟨k, hk, hbears⟩ := hids.exists_assemble hfg hn he _ _
    exact ⟨k, _, hk, hbears⟩

/-- What follows a plan touches the node if it is a placeholder, and stops if it is none. -/
theorem exists_ending_of_finds (hb : beginning.admits (Parser.front ts))
    (hplan : plan depth beginning ⟨⟨ts, m⟩, f⟩ = .ok pl site) (h : Finds ts m f pl site)
    (hn : f.node? i = some n) : ∃ fault? s', Ending ⟨ts, m⟩ beginning f i n fault? s' ∧
      Ends (plan depth beginning >>= finish i) ⟨⟨ts, m⟩, f⟩ fault? s' := by
  obtain ⟨p, x, r, g, rfl, hx, rfl, hfg, hpl⟩ := h
  have hreaches : TokenStream.Reaches ⟨p ++ r, m⟩ beginning x ⟨r, m + p.length⟩ :=
    ⟨hb, p, rfl, hx, rfl⟩
  -- The plan has not looked at the node; only now does it matter what the node is.
  have hn' := hfg.node?_of hn
  cases he : n.isEmpty with
  | false =>
    have hbuild : (build fun f => pl.build i f) ⟨⟨r, m + p.length⟩, g⟩ =
        .error (.parse (.build (.assembled n.kind))) ⟨⟨r, m + p.length⟩, g⟩ := by
      simp only [build, build_of_not_isEmpty hpl hn' he]
    exact ⟨_, _, .blocked hreaches he hfg,
      ends_of_error ((bind_of_ok hplan).trans (bind_of_error hbuild))⟩
  | true =>
    obtain ⟨k, ids, hk, hbears⟩ := exists_build hpl hfg hn he
    obtain ⟨e?, s', hcloses, hends⟩ := closesAs_of_fits (s := ⟨r, m + p.length⟩) hx hpl k
    have hbuild : (build fun f => pl.build i f) ⟨⟨r, m + p.length⟩, g⟩ =
        .ok () ⟨⟨r, m + p.length⟩, k⟩ := build_of_ok hk _
    have hall : (plan depth beginning >>= finish i) ⟨⟨p ++ r, m⟩, f⟩ =
        pl.close ⟨⟨r, m + p.length⟩, k⟩ := (bind_of_ok hplan).trans (bind_of_ok hbuild)
    refine ⟨_, _, .late hreaches he hcloses hbears, ?_⟩
    rwa [Ends, hall]

/-- A routine ends as the grammar says. -/
theorem exists_ending_of_plan (hlen : s.rest.length ≤ depth) (beginning : Beginning)
    (hn : f.node? i = some n) : ∃ fault? s', Ending s beginning f i n fault? s' ∧
      Ends (plan depth beginning >>= finish i) ⟨s, f⟩ fault? s' := by
  obtain ⟨ts, m⟩ := s
  rcases plan_cases hlen beginning m f with ⟨hb, hplan⟩ | ⟨hb, pl, site, hplan, hfinds⟩ |
    ⟨hb, hnone, e, g, he, hplan, hfg⟩
  · exact ⟨_, _, .refused hb, ends_of_error (bind_of_error hplan)⟩
  · exact exists_ending_of_finds hb hplan hfinds hn
  · refine ⟨_, _, .early hb ?_ he hfg, ends_of_error (bind_of_error hplan)⟩
    rintro x s' ⟨-, p, hp, hx, -⟩
    exact hnone p x s'.rest hp hx

/-! ### The run -/

theorem exists_error_of_assembly?_eq_none {ts : List Token}
    (h : assembly? (initial m) ts = none) :
    ∃ e, (run .statement none (initial m) ts).error? = some e := by
  rcases returns_or_fails m ts with ⟨p, x, r, rfl, hp⟩ | hfails
  · obtain ⟨q, w, rfl, hx⟩ := exists_assembles_of_derives hp
    obtain ⟨τ, hτ, -⟩ := exists_assembly?_eq (hx r) m
    rw [← List.append_assoc, h] at hτ
    cases hτ
  · exact hfails

/-- The run of the parser ends as the grammar says. -/
theorem exists_ending_of_run (s : TokenStream) (beginning : Beginning) (hn : f.node? i = some n) :
    ∃ fault? s', Ending s beginning f i n fault? s' ∧
      Ends (ofParse fun f s => f.parseStatement s beginning i) ⟨s, f⟩ fault? s' := by
  by_cases hb : beginning.admits s.front
  · cases hassembly : assembly? (initial s.position) s.rest with
    | none =>
      obtain ⟨e, he⟩ := exists_error_of_assembly?_eq_none hassembly
      have hnone : ∀ x s', ¬ s.Reaches beginning x s' := by
        rintro x s' ⟨-, p, hp, hx, -⟩
        obtain ⟨τ, hτ, -⟩ := exists_assembly?_eq hx s.position
        rw [hp, hτ] at hassembly
        cases hassembly
      have hrun : f.parseStatement s beginning i = (Forest.verdict (some e),
          (run .statement none (initial s.position) s.rest).stream, f) := by
        simp only [Forest.parseStatement, if_pos hb, hassembly, he]
        rfl
      exact ⟨_, _, .early hb hnone he (.refl f), ends_ofParse (some e) hrun⟩
    | some place =>
      obtain ⟨x, τ, r⟩ := place
      obtain ⟨p, hp, hx, hτ⟩ := assembles_of_assembly? hassembly
      have hreaches : s.Reaches beginning x ⟨r, τ.position⟩ := ⟨hb, p, hp, hx, hτ⟩
      cases he : n.isEmpty with
      | false =>
        have hgraft := Forest.graft_of_not_isEmpty hn he x
        refine ⟨_, _, .blocked hreaches he (.refl f), ends_of_error ?_⟩
        simp only [ofParse, Forest.parseStatement, if_pos hb, hassembly, hgraft]
      | true =>
        obtain ⟨g, ids, hgraft, hbears⟩ := Forest.bears_graft hn he x
        have hcloses : (run .statement none (initial s.position) s.rest).Closes x.kind
            ⟨r, τ.position⟩ := by
          rw [hp, hτ]
          exact closes_of_assembles hx s.position
        refine ⟨_, _, .late hreaches he hcloses hbears, ends_ofParse _ ?_⟩
        simp only [Forest.parseStatement, if_pos hb, hassembly, hgraft]
        rfl
  · refine ⟨_, _, .refused hb, ends_of_error ?_⟩
    simp only [ofParse, Forest.parseStatement, if_neg hb]

/-- Every way to parse ends as the grammar says. -/
theorem IsParse.exists_ending (hparse : IsParse depth beginning parse)
    (hlen : s.rest.length ≤ depth) (hn : f.node? i = some n) :
    ∃ fault? s', Ending s beginning f i n fault? s' ∧ Ends (parse i) ⟨s, f⟩ fault? s' := by
  cases hparse with
  | run beginning => exact exists_ending_of_run s beginning hn
  | statement =>
    rw [statement_eq_plan]
    exact exists_ending_of_plan hlen .anyStatement hn
  | choice =>
    rw [choice_eq_plan]
    exact exists_ending_of_plan hlen .ifThen hn
  | loop =>
    rw [loop_eq_plan]
    exact exists_ending_of_plan hlen .whileDo hn
  | call =>
    rw [call_eq_plan]
    exact exists_ending_of_plan hlen .call hn

end Descent

end BlockLang
