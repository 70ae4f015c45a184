import BlockLang.Proofs.Grammar
import BlockLang.Proofs.Parser.Run

/-! What the parser has read. A state keeps, in pieces, the one token list that leads to it, and
all the pieces are programs; conversely a derivation leads from a state to the state with its tree
added. Both together say that the parser accepts the grammar. -/

namespace BlockLang

open Statement

/-! ### The tokens behind a state -/

namespace Parser

/-- The tokens of a compound statement up to the block that is being read. -/
def Branch.tokens : Branch → List Token
  | ifBody c => ["IF", c.token, "THEN"]
  | elseBody c thenBody => ["IF", c.token, "THEN"] ++ tokensAll thenBody ++ ["ELSE"]
  | whileBody c => ["WHILE", c.token, "DO"]

/-- The tokens of the open compound statements. -/
def frameTokens : List Frame → List Token
  | [] => []
  | f :: frames => frameTokens frames ++ f.branch.tokens ++ tokensAll f.done

/-- The tokens of a statement of which no block has been begun or every block has been read. -/
def Mode.tokens : Mode → List Token
  | statement => []
  | condition h _ => [h.keyword]
  | opener h c _ => [h.keyword, c.token]
  | closer _ s _ => s.tokens.dropLast

/-- The tokens that lead to a state. -/
def State.tokens (σ : State) : List Token :=
  tokensAll σ.outer ++ frameTokens σ.frames ++ σ.mode.tokens

def Branch.IsProper : Branch → Prop
  | elseBody _ thenBody => ∀ s ∈ thenBody, s.IsProgram
  | _ => True

def Frame.IsProper (f : Frame) : Prop := f.branch.IsProper ∧ ∀ s ∈ f.done, s.IsProgram

def Mode.IsProper : Mode → Prop
  | closer h s _ => s.IsProgram ∧ s.tokens.dropLast ++ [h.keyword] = s.tokens
  | _ => True

/-- All statements that a state holds are programs, and one that is about to be closed ends with
the keyword that closes it. -/
structure State.IsProper (σ : State) : Prop where
  outer : ∀ s ∈ σ.outer, s.IsProgram
  frames : ∀ f ∈ σ.frames, f.IsProper
  mode : σ.mode.IsProper

theorem Branch.tokens_close (b : Branch) (done : List Statement) :
    (b.close done).tokens = b.tokens ++ tokensAll done ++ ["END", b.header.keyword] := by
  cases b <;> simp [close, tokens, header, Header.keyword]

theorem Branch.isProgram_close {b : Branch} {done : List Statement} (hb : b.IsProper)
    (hd : ∀ s ∈ done, s.IsProgram) : (b.close done).IsProgram := by
  cases b <;> simp_all [close, IsProper]

@[simp] theorem Header.tokens_branch (h : Header) (c : Condition) :
    (h.branch c).tokens = [h.keyword, c.token, h.opener] := by
  cases h <;> rfl

theorem Header.isProper_branch (h : Header) (c : Condition) : (h.branch c).IsProper := by
  cases h <;> trivial

namespace State

variable {goal : Goal} {limit : Option Nat} {σ τ : State} {t : Token} {p : List Token}

@[simp] theorem tokens_initial (n : Nat) : (initial n).tokens = [] := rfl

theorem isProper_initial (n : Nat) : (initial n).IsProper :=
  ⟨by simp [initial], by simp [initial], trivial⟩

theorem tokens_add (σ : State) (s : Statement) :
    tokensAll (σ.add s).outer ++ frameTokens (σ.add s).frames =
      tokensAll σ.outer ++ frameTokens σ.frames ++ s.tokens := by
  unfold add
  split
  · next hf => simp [hf, frameTokens]
  · next hf => simp [hf, frameTokens]

theorem isProper_add {s : Statement} (hσ : σ.IsProper) (hs : s.IsProgram) : (σ.add s).IsProper := by
  obtain ⟨ho, hfr, hm⟩ := hσ
  unfold add
  split
  · exact ⟨by simp_all [or_imp], by simp_all, hm⟩
  · next hf =>
    rw [hf, List.forall_mem_cons] at hfr
    refine ⟨ho, List.forall_mem_cons.2 ⟨⟨hfr.1.1, ?_⟩, hfr.2⟩, hm⟩
    have := hfr.1.2
    simp_all [or_imp]

/-- Taking a token appends it to the tokens behind the state. -/
theorem Takes.tokens (hσ : σ.IsProper) (h : σ.Takes limit t τ) : τ.tokens = σ.tokens ++ [t] := by
  cases h with
  | header hm _ => simp [State.tokens, hm, shift, Mode.tokens]
  | call hm _ =>
    have ha := tokens_add σ (.call t)
    simp [State.tokens, hm, shift, Mode.tokens, ha]
  | elseBody hm hf =>
    simp [State.tokens, hm, hf, shift, record, Mode.tokens, frameTokens, Branch.tokens]
  | endBlock hm hf =>
    simp [State.tokens, hm, hf, shift, record, Mode.tokens, frameTokens, Branch.tokens_close]
  | condition hm hc =>
    simp [State.tokens, hm, shift, Mode.tokens, Condition.token_of_ofToken? hc]
  | opener hm => simp [State.tokens, hm, shift, Mode.tokens, frameTokens]
  | @closer k s _ hm =>
    have hs := hσ.mode
    rw [hm] at hs
    have ha := tokens_add σ s
    rw [← hs.2] at ha
    simpa [State.tokens, hm, shift, record, Mode.tokens] using ha

theorem Takes.isProper (hσ : σ.IsProper) (h : σ.Takes limit t τ) : τ.IsProper := by
  cases h with
  | header hm _ => exact ⟨hσ.outer, hσ.frames, trivial⟩
  | call hm ht =>
    have ha := isProper_add hσ ((isProgram_call t).2 ht)
    exact ⟨ha.outer, ha.frames, trivial⟩
  | elseBody hm hf =>
    have hfr := hσ.frames
    rw [hf, List.forall_mem_cons] at hfr
    exact ⟨hσ.outer, List.forall_mem_cons.2 ⟨⟨hfr.1.2, by simp⟩, hfr.2⟩, trivial⟩
  | endBlock hm hf =>
    have hfr := hσ.frames
    rw [hf, List.forall_mem_cons] at hfr
    refine ⟨hσ.outer, hfr.2, Branch.isProgram_close hfr.1.1 hfr.1.2, ?_⟩
    rw [Branch.tokens_close]
    simp
  | condition hm hc => exact ⟨hσ.outer, hσ.frames, trivial⟩
  | @opener k c _ hm =>
    exact ⟨hσ.outer, List.forall_mem_cons.2 ⟨⟨k.isProper_branch c, by simp⟩, hσ.frames⟩, trivial⟩
  | closer hm =>
    have hs := hσ.mode
    rw [hm] at hs
    have ha := isProper_add hσ hs.1
    exact ⟨ha.outer, ha.frames, trivial⟩

theorem Shifts.isProper (hσ : σ.IsProper) (h : Shifts goal limit σ p τ) : τ.IsProper := by
  induction h with
  | nil => exact hσ
  | cons _ ht _ ih => exact ih (ht.isProper hσ)

theorem Shifts.tokens (hσ : σ.IsProper) (h : Shifts goal limit σ p τ) :
    τ.tokens = σ.tokens ++ p := by
  induction h with
  | nil => simp
  | cons _ ht _ ih =>
    rw [ih (ht.isProper hσ), ht.tokens hσ, List.append_assoc, List.singleton_append]

/-- A parser that is to read one statement holds none outside the open ones, or just the one that
it was to read. -/
def IsSingle (σ : State) : Prop :=
  σ.outer = [] ∨ ∃ s, σ.outer = [s] ∧ σ.frames = [] ∧ σ.mode = .statement

theorem isSingle_add {s : Statement} (σ : State) (ho : σ.outer = []) :
    (σ.add s).outer = [] ∨ (σ.add s).outer = [s] ∧ (σ.add s).frames = [] := by
  unfold add
  split
  · next hf => simp [ho, hf]
  · exact .inl ho

theorem Takes.isSingle (ho : σ.outer = []) (h : σ.Takes limit t τ) : τ.IsSingle := by
  cases h with
  | header _ _ => exact .inl ho
  | call _ _ =>
    rcases isSingle_add (s := .call t) σ ho with ha | ⟨ha, hf⟩
    · exact .inl ha
    · exact .inr ⟨_, ha, hf, rfl⟩
  | elseBody _ _ => exact .inl ho
  | endBlock _ _ => exact .inl ho
  | condition _ _ => exact .inl ho
  | opener _ => exact .inl ho
  | @closer _ s _ _ =>
    rcases isSingle_add (s := s) σ ho with ha | ⟨ha, hf⟩
    · exact .inl ha
    · exact .inr ⟨_, ha, hf, rfl⟩

theorem finished_statement (σ : State) : σ.finished .statement = false ↔ σ.outer = [] := by
  simp [finished]

theorem Shifts.isSingle (hσ : σ.IsSingle) (h : Shifts .statement limit σ p τ) : τ.IsSingle := by
  induction h with
  | nil => exact hσ
  | cons hf ht _ ih => exact ih (ht.isSingle ((finished_statement _).1 hf))

end State

end Parser

end BlockLang
