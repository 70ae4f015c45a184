import BlockLang.Proofs.Token.Decomposition

/-! Texts one after the other, with a line feed between them. The line feed ends what the first
text leaves open, be it a word or a comment, so their tokens come one after the other too. -/

namespace BlockLang

namespace Token

open Text

variable {cs ds gap gap' after more w : List Char} {ts us : List Token}

/-! ### Gaps and lexemes with more text after them -/

/-- Only the first character after a gap matters. -/
theorem IsGap.mono (h : IsGap after gap) (ha : after ≠ []) (more : List Char) :
    IsGap (after ++ more) gap := by
  induction h with
  | nil => exact .nil
  | blank hc _ ih => exact .blank hc ih
  | @comment body gap hb hnl _ ih =>
    refine .comment hb ?_ ih
    obtain ⟨c, rest, hc⟩ := List.exists_cons_of_ne_nil (List.append_ne_nil_of_right_ne_nil gap ha)
    rw [hc] at hnl
    rwa [← List.append_assoc, hc]

/-- At the end of a text a gap goes on behind a line feed. -/
theorem IsGap.append (h : IsGap [] gap) (h' : IsGap after gap') :
    IsGap after (gap ++ '\n' :: gap') := by
  induction h with
  | nil => exact .blank (by decide) h'
  | blank hc _ ih => exact .blank hc ih
  | @comment body gap hb hnl _ ih =>
    rw [List.append_assoc]
    refine .comment hb ?_ ih
    cases gap with
    | nil => simp
    | cons c gap => simpa using hnl

theorem IsLexeme.append_newline (h : IsLexeme after w) (more : List Char) :
    IsLexeme (after ++ '\n' :: more) w := by
  cases h with
  | word hne hw ha =>
    refine .word hne hw ?_
    cases after with
    | nil => simp; decide
    | cons c after => simpa using ha
  | symbol hw hb hc => exact .symbol hw hb hc

theorem IsLexeme.ne_nil (h : IsLexeme after w) : w ≠ [] := by
  cases h with
  | word hne _ _ => exact hne
  | symbol _ _ _ => exact List.cons_ne_nil _ _

/-! ### Texts -/

/-- A gap before a text belongs to the gap that the text begins with. -/
theorem Splits.newline (h : IsGap [] gap) (hds : Splits ds us) : Splits (gap ++ '\n' :: ds) us := by
  cases hds with
  | gap h' => exact .gap (h.append h')
  | @token gap' rest t ts h' ht hrest =>
    have hsplits := Splits.token (h.append h') ht hrest
    simpa [List.append_assoc] using hsplits

theorem Splits.append_newline (h : Splits cs ts) (hds : Splits ds us) :
    Splits (cs ++ '\n' :: ds) (ts ++ us) := by
  induction h with
  | gap h => exact .newline h hds
  | @token gap rest t ts h ht _ ih =>
    have hgap := h.mono (by simp [ht.ne_nil]) ('\n' :: ds)
    rw [List.append_assoc] at hgap
    rw [List.append_assoc]
    exact .token hgap (ht.append_newline ds) ih

/-- The tokens of two texts with a line feed between them are those of the first and then those of
the second. -/
theorem streamOf_append_newline (a b : String) :
    streamOf (a ++ "\n" ++ b) = ofSource a ++ streamOf b := by
  have ha : Splits a.toList (ofSource a) := splits_lexemes a.toList
  have hb : Splits b.toList (ofSource b) := splits_lexemes b.toList
  have hchars : (a ++ "\n" ++ b).toList = a.toList ++ '\n' :: b.toList := by
    simp [String.toList_append]
  have hab : lexemes (a ++ "\n" ++ b).toList = (ofSource a ++ ofSource b).map String.toList := by
    rw [hchars]
    exact (ha.append_newline hb).lexemes_eq
  have hof : ofSource (a ++ "\n" ++ b) = ofSource a ++ ofSource b := by
    rw [ofSource, hab, List.map_map]
    simp
  rw [streamOf, hof, List.append_assoc]
  rfl

end Token

end BlockLang
