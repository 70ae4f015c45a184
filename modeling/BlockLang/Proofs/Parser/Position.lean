import BlockLang.TokenStream
import BlockLang.Proofs.Parser.Reading

/-! Positions. Wherever a run on the rest of a token list ends, the tokens left are the list without
as many of its tokens as have been counted; and an error stands at the token that it names. -/

namespace BlockLang

open BlockLang.Parser State

/-- A stream is what is left of a token list: the list without its first tokens, as many as the
stream has counted, which are no more than there are. -/
structure TokenStream.IsRestOf (s : TokenStream) (ts : List Token) : Prop where
  position_le : s.position ≤ ts.length
  rest_eq : s.rest = ts.drop s.position

/-- An error stands at a place of a token list: it names the token there or, after the last one, the
sentinel or nothing. -/
structure SyntaxError.StandsAt (e : SyntaxError) (ts : List Token) (p : Nat) : Prop where
  position_eq : e.position = some (p : Int)
  position_le : p ≤ ts.length
  token_eq : ∀ h : p < ts.length, e.token = some ts[p]
  token_at_end : p = ts.length → e.token = some Token.endOfInput ∨ e.token = none

namespace TokenStream

variable {s : TokenStream} {ts p r : List Token} {t : Token}

theorem isRestOf_ofTokens (ts : List Token) : (ofTokens ts).IsRestOf ts := ⟨Nat.zero_le _, rfl⟩

/-- Taking tokens from the front keeps a stream the rest of its list. -/
theorem IsRestOf.append (h : s.IsRestOf ts) (hp : s.rest = p ++ r) :
    IsRestOf ⟨r, s.position + p.length⟩ ts := by
  have hlen := congrArg List.length (h.rest_eq.symm.trans hp)
  rw [List.length_drop, List.length_append] at hlen
  have hle := h.position_le
  refine ⟨by simp only; omega, ?_⟩
  rw [← List.drop_drop, ← h.rest_eq, hp, List.drop_left]

theorem IsRestOf.cons (h : s.IsRestOf ts) (hp : s.rest = t :: r) :
    IsRestOf ⟨r, s.position + 1⟩ ts :=
  h.append (p := [t]) hp

/-- An error at the front of a stream names the token there, or nothing if there is none. -/
theorem IsRestOf.standsAt (h : s.IsRestOf ts) {e : SyntaxError}
    (hp : e.position = some (s.position : Int))
    (ht : e.token = some s.front ∨ s.rest = [] ∧ e.token = none) : e.StandsAt ts s.position := by
  refine ⟨hp, h.position_le, fun hlt => ?_, fun heq => ?_⟩
  · have hrest := h.rest_eq.trans (List.drop_eq_getElem_cons hlt)
    rw [front, hrest] at ht
    exact ht.resolve_right fun hnil => List.cons_ne_nil _ _ hnil.1
  · have hrest := h.rest_eq.trans (List.drop_of_length_le (Nat.le_of_eq heq.symm))
    rw [front, hrest] at ht
    exact ht.imp_right And.right

end TokenStream

namespace Parser

variable {goal : Goal} {limit : Option Nat} {σ τ : State} {s : TokenStream} {ts r : List Token}
  {o : Outcome}

/-! ### Wordings -/

theorem append_ne {a b : String} (c : String) (hl : b.toList.length ≤ a.toList.length)
    (hne : a.toList.take b.toList.length ≠ b.toList) : a ++ c ≠ b := by
  rintro rfl
  rw [String.toList_append, List.length_append] at hl hne
  have hc : c.toList.length = 0 := by omega
  rw [List.length_eq_zero_iff.1 hc] at hne
  simp at hne

@[simp] theorem Violation.text_error (v : Violation) (p : Nat) (t : Option Token) :
    (v.error p t).text = v.text := rfl

/-- A missing closing keyword of a choice can be told from its wording. -/
theorem Violation.text_eq_closer_iff (v : Violation) :
    v.text = (closer .ifThen).text ↔ v = .closer .ifThen := by
  refine ⟨fun h => ?_, fun h => h ▸ rfl⟩
  cases v with
  | statementStart found => exact absurd h (append_ne _ (by decide) (by decide))
  | condition k => cases k <;> exact absurd h (by decide)
  | opener k => cases k <;> exact absurd h (by decide)
  | elseOrEnd found => exact absurd h (append_ne _ (by decide) (by decide))
  | endOfElse => exact absurd h (by decide)
  | endOfLoop found =>
    have htext : (endOfLoop found).text = "Expected END, found: \"" ++ (found ++ "\"") :=
      String.append_assoc ..
    rw [htext] at h
    exact absurd h (append_ne _ (by decide) (by decide))
  | closer k => cases k <;> first | rfl | exact absurd h (by decide)
  | moreTokens => exact absurd h (by decide)
  | shallowerNesting => exact absurd h (by decide)

/-! ### Runs -/

/-- The stream after a parse. -/
def Outcome.stream (o : Outcome) : TokenStream := ⟨o.rest, o.last.position⟩

/-- A run stops without taking a token, and with an error, if any, at the token before it; except
that what stands in place of the closing keyword of a choice is taken and then refused. -/
theorem Stops.cases (h : Stops goal limit σ r o) :
    (o.stream = ⟨r, σ.position⟩ ∧ ∀ e, o.error? = some e → ∃ v : Violation, ∃ t,
      e = v.error σ.position t ∧ v ≠ .closer .ifThen ∧ (t = some (front r) ∨ r = [] ∧ t = none)) ∨
    ∃ t rest, r = t :: rest ∧ o.stream = ⟨rest, σ.position + 1⟩ ∧
      o.error? = some ((Violation.closer .ifThen).error σ.position (some t)) := by
  cases h with
  | finished _ => exact .inl ⟨rfl, nofun⟩
  | halt _ hs =>
    obtain ⟨-, -, -, -, rfl⟩ := halt_of_step hs
    exact .inl ⟨rfl, nofun⟩
  | fail _ hs =>
    obtain ⟨⟨log, rfl⟩, hv, -⟩ := fail_of_step hs
    exact .inl ⟨rfl, fun e he => ⟨_, _, (Option.some.inj he).symm, hv, .inl rfl⟩⟩
  | reject _ hs =>
    obtain ⟨rfl, rfl⟩ := reject_of_step hs
    exact .inr ⟨_, _, rfl, rfl, rfl⟩
  | exhausted _ _ _ =>
    exact .inl ⟨rfl, fun e he => ⟨_, _, (Option.some.inj he).symm, nofun, .inr ⟨rfl, rfl⟩⟩⟩

/-- A run on the rest of a token list leaves a rest of it that is no longer; and an error stands at
the first token left, or at the one before that if it is the one in place of a closing keyword. -/
theorem isRestOf_run (hs : s.IsRestOf ts) (hσ : σ.position = s.position)
    (ho : run goal limit σ s.rest = o) :
    o.stream.IsRestOf ts ∧ s.position ≤ o.stream.position ∧
      ∀ e, o.error? = some e → ∃ p, e.StandsAt ts p ∧ o.rest =
        ts.drop (if e.text = (Violation.closer .ifThen).text then p + 1 else p) := by
  obtain ⟨p, τ, r, hp, hshift, hstop⟩ := run_cases goal limit σ s.rest
  have hpos := hshift.position
  have hrest := hs.append hp
  rw [← hσ, ← hpos] at hrest
  rw [ho] at hstop
  rcases hstop.cases with ⟨hstream, he⟩ | ⟨t, rest, rfl, hstream, he⟩
  · have hleft : o.stream.IsRestOf ts := hstream ▸ hrest
    refine ⟨hleft, by rw [hstream, hpos, hσ]; exact Nat.le_add_right _ _, fun e h => ?_⟩
    obtain ⟨v, t, rfl, hv, ht⟩ := he e h
    refine ⟨τ.position, hrest.standsAt rfl ht, ?_⟩
    rw [Violation.text_error, if_neg (mt (Violation.text_eq_closer_iff v).1 hv)]
    exact (congrArg TokenStream.rest hstream).trans hrest.rest_eq
  · have hleft : o.stream.IsRestOf ts := hstream ▸ hrest.cons rfl
    refine ⟨hleft, by rw [hstream, hpos, hσ]; simp only; omega, fun e h => ?_⟩
    obtain rfl := Option.some.inj (he.symm.trans h)
    refine ⟨τ.position, hrest.standsAt rfl (.inl rfl), ?_⟩
    rw [Violation.text_error, if_pos rfl]
    exact (congrArg TokenStream.rest hstream).trans (hrest.cons rfl).rest_eq

/-! ### Putting together -/

/-- A complete statement outside every open one is put together already. -/
theorem State.IsSingle.outer_eq_nil (hσ : σ.IsSingle) {t : Token} (h : σ.assembled? t = none) :
    σ.outer = [] := by
  rcases hσ with ho | ⟨x, ho, hfr, hm⟩
  · exact ho
  · simp [assembled?, ho, hfr, hm] at h

theorem assembly?_nil (σ : State) :
    assembly? σ [] = (σ.assembled? Token.endOfInput).map fun x => (x, σ, []) := by
  rw [assembly?.eq_def]
  simp only [front, List.headD_nil]
  cases σ.assembled? Token.endOfInput with
  | some x => rfl
  | none => cases σ.step .statement none Token.endOfInput <;> rfl

theorem assembly?_cons (σ : State) (t : Token) (ts : List Token) :
    assembly? σ (t :: ts) =
      match σ.assembled? t with
      | some x => some (x, σ, t :: ts)
      | none =>
        match σ.step .statement none t with
        | .shift next => assembly? next ts
        | _ => none := by
  rw [assembly?.eq_def]
  simp only [front, List.headD_cons]
  cases σ.assembled? t with
  | some x => rfl
  | none => cases σ.step .statement none t <;> rfl

/-- The place where a statement is put together is reached by taking the tokens before it. -/
theorem shifts_of_assembly? {x : Statement} (hσ : σ.IsSingle)
    (h : assembly? σ ts = some (x, τ, r)) :
    ∃ p, ts = p ++ r ∧ Shifts .statement none σ p τ ∧ τ.assembled? (front r) = some x := by
  induction ts generalizing σ with
  | nil =>
    rw [assembly?_nil, Option.map_eq_some_iff] at h
    obtain ⟨_, hx, ⟨⟩⟩ := h
    exact ⟨[], rfl, .nil, hx⟩
  | cons t ts ih =>
    rw [assembly?_cons] at h
    split at h
    · next hx =>
      cases h
      exact ⟨[], rfl, .nil, hx⟩
    · next hx =>
      have ho := hσ.outer_eq_nil hx
      split at h
      · next hs =>
        have ht := takes_of_step hs
        obtain ⟨p, rfl, hp, hx⟩ := ih (ht.isSingle ho) h
        exact ⟨t :: p, rfl, .cons ((finished_statement σ).2 ho) ht hp, hx⟩
      · cases h

end Parser

end BlockLang
