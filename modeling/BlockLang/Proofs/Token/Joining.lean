import BlockLang.Proofs.Token.Decomposition

/-! Tokens written out. The tokens of texts are the words and the single characters that stand for
themselves; such tokens in a row, with blanks between them, are the tokens of the text so made. -/

namespace BlockLang

namespace Token

open Text

/-- A token that a text can have: a word, or a single character that neither is of words nor begins
a gap. -/
def IsSpelled (t : Token) : Prop :=
  t.IsWord ∨ ∃ c, t.toList = [c] ∧ ¬ isWordChar c ∧ ¬ isBlank c ∧ c ≠ '#'

/-- A text of blanks. -/
def AllBlank (s : String) : Prop := ∀ c ∈ s.toList, isBlank c

instance : DecidablePred AllBlank := fun s => List.decidableBAll (fun c => isBlank c) s.toList

/-- Tokens in a row, with the first of the texts `between` after the first token, and so on. -/
def joined (between : Nat → String) : List Token → String
  | [] => ""
  | [t] => t
  | t :: ts => t ++ between 0 ++ joined (fun i => between (i + 1)) ts

/-- Blanks to write around tokens; none of those between two tokens are empty. -/
structure Spacing where
  before : String
  between : Nat → String
  after : String
  before_blank : AllBlank before
  between_blank : ∀ i, AllBlank (between i)
  between_ne_empty : ∀ i, between i ≠ ""
  after_blank : AllBlank after

/-- The text of tokens with blanks around them. -/
def Spacing.join (b : Spacing) (ts : List Token) : String :=
  b.before ++ joined b.between ts ++ b.after

/-- Single spaces between the tokens. -/
def Spacing.single : Spacing :=
  ⟨"", fun _ => " ", "", by decide, fun _ => by decide, fun _ => by decide, by decide⟩

variable {cs gap after : List Char} {t : Token} {ts : List Token} {between : Nat → String}

/-! ### Tokens of texts -/

theorem IsLexeme.isSpelled (h : IsLexeme after t.toList) : t.IsSpelled := by
  generalize ht : t.toList = w at h
  cases h with
  | word hne hw _ =>
    subst ht
    exact .inl ⟨hne, hw⟩
  | symbol hw hb hc => exact .inr ⟨_, ht, hw, hb, hc⟩

theorem Splits.isSpelled (h : Splits cs ts) : ∀ t ∈ ts, t.IsSpelled := by
  induction h with
  | gap _ => simp
  | token _ ht _ ih => exact List.forall_mem_cons.2 ⟨ht.isSpelled, ih⟩

/-! ### Texts of tokens -/

theorem isGap_of_allBlank (h : ∀ c ∈ gap, isBlank c) : IsGap after gap := by
  induction gap with
  | nil => exact .nil
  | cons c gap ih =>
    rw [List.forall_mem_cons] at h
    exact .blank h.1 (ih h.2)

/-- A token ends where a blank comes after it. -/
theorem IsSpelled.isLexeme (h : t.IsSpelled) (ha : ∀ c ∈ after.head?, isBlank c) :
    IsLexeme after t.toList := by
  rcases h with ⟨hne, hw⟩ | ⟨c, ht, hw, hb, hc⟩
  · refine .word hne hw fun c hc hcw => ?_
    have hblank := ha c hc
    simp [not_isBlank_of_isWordChar hcw] at hblank
  · rw [ht]
    exact .symbol hw hb hc

/-- Tokens with blanks before, between and after them are the tokens of the text. -/
theorem splits_joined (ht : ∀ t ∈ ts, t.IsSpelled) (hgap : ∀ c ∈ gap, isBlank c)
    (hblank : ∀ i, AllBlank (between i)) (hne : ∀ i, between i ≠ "")
    (hafter : ∀ c ∈ after, isBlank c) :
    Splits (gap ++ (joined between ts).toList ++ after) ts := by
  induction ts generalizing gap between with
  | nil =>
    refine .gap (isGap_of_allBlank ?_)
    simpa [joined, or_imp, forall_and] using ⟨hgap, hafter⟩
  | cons t ts ih =>
    rw [List.forall_mem_cons] at ht
    cases ts with
    | nil =>
      have hhead : ∀ c ∈ after.head?, isBlank c := fun c hc => hafter c (List.mem_of_mem_head? hc)
      exact .token (isGap_of_allBlank hgap) (ht.1.isLexeme hhead) (.gap (isGap_of_allBlank hafter))
    | cons u us =>
      have hrest := ih ht.2 (hblank 0) (fun i => hblank (i + 1)) fun i => hne (i + 1)
      have hhead : ∀ c ∈ ((between 0).toList ++ (joined (fun i => between (i + 1)) (u :: us)).toList
          ++ after).head?, isBlank c := by
        obtain ⟨c, cs, hcs⟩ := List.exists_cons_of_ne_nil (mt String.toList_eq_nil_iff.1 (hne 0))
        have hc := hblank 0 c (by simp [hcs])
        simp [hcs, hc]
      have hsplits := Splits.token (isGap_of_allBlank hgap) (ht.1.isLexeme hhead) hrest
      simpa [joined, String.toList_append, List.append_assoc] using hsplits

theorem streamOf_join (b : Spacing) (ht : ∀ t ∈ ts, t.IsSpelled) :
    streamOf (b.join ts) = ts ++ [endOfInput] := by
  have hsplits := splits_joined ht b.before_blank b.between_blank b.between_ne_empty b.after_blank
  have hlex : lexemes (b.join ts).toList = ts.map String.toList := by
    rw [Spacing.join, String.toList_append, String.toList_append]
    exact hsplits.lexemes_eq
  rw [streamOf, ofSource, hlex, List.map_map]
  simp

theorem isSpelled_of_streamOf {source : String} (h : streamOf source = ts ++ [endOfInput]) :
    ∀ t ∈ ts, t.IsSpelled := by
  obtain rfl : ofSource source = ts := List.append_cancel_right h
  exact (splits_lexemes source.toList).isSpelled

/-- The token lists of texts are those whose tokens are words or stand for themselves; and just
these are the tokens of the text in which they are written with any blanks between them, before and
after. So the tokens of a text, written out like this, are its tokens again. -/
theorem streamOf_image (ts : List Token) :
    ((∃ source, streamOf source = ts ++ [endOfInput]) ↔ ∀ t ∈ ts, t.IsSpelled) ∧
      ∀ b : Spacing, (streamOf (b.join ts) = ts ++ [endOfInput] ↔ ∀ t ∈ ts, t.IsSpelled) ∧
        ∀ source, streamOf (b.join (streamOf source).dropLast) = streamOf source := by
  have himage : ∀ source, streamOf source = ts ++ [endOfInput] → ∀ t ∈ ts, t.IsSpelled :=
    fun _ => isSpelled_of_streamOf
  refine ⟨⟨fun ⟨source, h⟩ => himage source h, fun h => ⟨_, streamOf_join .single h⟩⟩, fun b => ?_⟩
  refine ⟨⟨himage _, streamOf_join b⟩, fun source => ?_⟩
  have hlast : (streamOf source).dropLast = ofSource source := List.dropLast_concat
  rw [hlast]
  exact streamOf_join b (isSpelled_of_streamOf rfl)

end Token

end BlockLang
