import BlockLang.Proofs.Token.Spelling
import Mathlib.Data.List.TakeWhile

/-! Texts taken apart. A text is a row of tokens with gaps before, between and after them, where
words are as long as they can be and comments run to the end of their line; and there is only one
row of tokens for it, which is the one that splitting gives. -/

namespace BlockLang

namespace Token

open Text

/-- A gap is made of blanks and comments. A comment goes up to the next line feed, in the gap or
`after` it, or to the end of the text. -/
inductive IsGap (after : List Char) : List Char → Prop where
  | nil : IsGap after []
  | blank {c : Char} {gap : List Char} : isBlank c → IsGap after gap → IsGap after (c :: gap)
  | comment {body gap : List Char} : (∀ c ∈ body, c ≠ '\n') →
      (∀ c ∈ (gap ++ after).head?, c = '\n') → IsGap after gap → IsGap after ('#' :: body ++ gap)

/-- A lexeme is a word that ends before a character of no word or at the end of the text, or a
single character that neither is of words nor begins a gap. -/
inductive IsLexeme (after : List Char) : List Char → Prop where
  | word {w : List Char} : w ≠ [] → (∀ c ∈ w, isWordChar c) →
      (∀ c ∈ after.head?, ¬ isWordChar c) → IsLexeme after w
  | symbol {c : Char} : ¬ isWordChar c → ¬ isBlank c → c ≠ '#' → IsLexeme after [c]

/-- A text is a row of tokens, with gaps before, between and after them. -/
inductive Splits : List Char → List Token → Prop where
  | gap {gap : List Char} : IsGap [] gap → Splits gap []
  | token {gap rest : List Char} {t : Token} {ts : List Token} : IsGap (t.toList ++ rest) gap →
      IsLexeme rest t.toList → Splits rest ts → Splits (gap ++ t.toList ++ rest) (t :: ts)

variable {cs gap after w : List Char} {t : Token} {ts : List Token}

/-! ### Gaps -/

/-- Inside a comment nothing counts before the next line feed. -/
theorem splitGap_comment {body : List Char} (hb : ∀ c ∈ body, c ≠ '\n')
    (ha : ∀ c ∈ after.head?, c = '\n') :
    (splitGap true (body ++ after)).2 = afterGap after := by
  induction body with
  | nil =>
    cases after with
    | nil => rfl
    | cons c after =>
      obtain rfl : c = '\n' := ha c rfl
      rw [afterGap_blank (by decide)]
      rfl
  | cons c body ih =>
    rw [List.forall_mem_cons] at hb
    have hc : (c != '\n') = true := by simpa using hb.1
    rw [← ih hb.2, List.cons_append, splitGap, if_pos rfl, hc]

theorem afterGap_append (h : IsGap after gap) : afterGap (gap ++ after) = afterGap after := by
  induction h with
  | nil => rfl
  | blank hc _ ih => rw [List.cons_append, afterGap_blank hc, ih]
  | comment hb hnl _ ih =>
    rw [← ih, List.append_assoc, List.cons_append]
    exact splitGap_comment hb hnl

/-- What splitting takes for a gap is one. If the text starts inside a comment, the rest of that
comes first. -/
theorem isGap_splitGap (cs : List Char) :
    IsGap (afterGap cs) (splitGap false cs).1 ∧
      ∃ body gap, (splitGap true cs).1 = body ++ gap ∧ (∀ c ∈ body, c ≠ '\n') ∧
        (∀ c ∈ (gap ++ (splitGap true cs).2).head?, c = '\n') ∧
        IsGap (splitGap true cs).2 gap := by
  -- Both parts at once: a number sign leads from a gap into a comment, a line feed back.
  induction cs with
  | nil => exact ⟨.nil, [], [], rfl, by simp, by simp [splitGap], .nil⟩
  | cons c cs ih =>
    obtain ⟨hgap, body, gap, hsplit, hbody, hnl, hrest⟩ := ih
    constructor
    · by_cases hb : isBlank c
      · have hc : (c == '#') = false := by simpa using ne_hash_of_isBlank hb
        have heq : (splitGap false (c :: cs)).1 = c :: (splitGap false cs).1 := by
          simp [splitGap, hb, hc]
        rw [afterGap_blank hb, heq]
        exact .blank hb hgap
      · by_cases hc : c = '#'
        · subst hc
          have heq : (splitGap false ('#' :: cs)).1 = '#' :: body ++ gap := by
            simp [splitGap, hsplit]
          rw [heq]
          exact .comment hbody hnl hrest
        · simp [afterGap, splitGap, hb, hc, IsGap.nil]
    · by_cases hc : c = '\n'
      · subst hc
        exact ⟨[], '\n' :: (splitGap false cs).1, rfl, by simp, by simp, .blank (by decide) hgap⟩
      · have hne : (c != '\n') = true := by simpa using hc
        have heq : splitGap true (c :: cs) = (c :: (splitGap true cs).1, (splitGap true cs).2) := by
          rw [splitGap, if_pos rfl, hne]
        rw [heq]
        exact ⟨c :: body, gap, by simp [hsplit], List.forall_mem_cons.2 ⟨hc, hbody⟩, hnl, hrest⟩

/-- No gap begins after a gap. -/
theorem head_splitGap (comment : Bool) (cs : List Char) :
    ∀ c ∈ (splitGap comment cs).2.head?, ¬ isBlank c ∧ c ≠ '#' := by
  induction cs generalizing comment with
  | nil => simp [splitGap]
  | cons c cs ih =>
    simp only [splitGap]
    split
    · exact ih _
    · split
      · exact ih _
      · next h => simpa using h

/-! ### Lexemes -/

theorem lexemes_symbol {c : Char} (hw : ¬ isWordChar c) (hb : ¬ isBlank c) (hc : c ≠ '#')
    (cs : List Char) : lexemes (c :: cs) = [c] :: lexemes cs := by
  apply lexemes_of_splitToken
  simp [afterGap, splitGap, splitToken, hw, hb, hc]

theorem lexemes_append (h : IsLexeme after w) : lexemes (w ++ after) = w :: lexemes after := by
  cases h with
  | word hne hw ha => exact lexemes_word hne hw ha
  | symbol hw hb hc => exact lexemes_symbol hw hb hc after

theorem eq_nil_of_splitToken (h : splitToken cs = none) : cs = [] := by
  cases cs with
  | nil => rfl
  | cons c cs =>
    rw [splitToken] at h
    split at h <;> cases h

/-- What splitting takes for a token is a lexeme, where no gap begins. -/
theorem isLexeme_of_splitToken (hcs : ∀ c ∈ cs.head?, ¬ isBlank c ∧ c ≠ '#')
    (h : splitToken cs = some (w, after)) : IsLexeme after w := by
  cases cs with
  | nil => cases h
  | cons c cs =>
    obtain ⟨hb, hc⟩ := hcs c rfl
    simp only [splitToken] at h
    split at h
    · next hw =>
      cases h
      refine .word (List.cons_ne_nil _ _) (List.forall_mem_cons.2 ⟨hw, ?_⟩) ?_
      · exact fun _ => List.mem_takeWhile_imp
      · intro x hx hxw
        have hstop := List.head?_dropWhile_not isWordChar cs
        rw [Option.mem_def.1 hx] at hstop
        simp [hxw] at hstop
    · next hw =>
      cases h
      exact .symbol hw hb hc

/-! ### Texts -/

/-- Any way to take a text apart gives the tokens that splitting gives. -/
theorem Splits.lexemes_eq (h : Splits cs ts) : lexemes cs = ts.map String.toList := by
  induction h with
  | @gap gap hg =>
    have hend := afterGap_append hg
    rw [List.append_nil] at hend
    rw [lexemes_congr hend, lexemes]
    rfl
  | token hg ht _ ih =>
    rw [List.append_assoc, lexemes_congr (afterGap_append hg), lexemes_append ht, ih,
      List.map_cons]

/-- Splitting takes a text apart. -/
theorem splits_lexemes (cs : List Char) : Splits cs ((lexemes cs).map String.ofList) := by
  fun_induction lexemes cs with
  | case1 cs h =>
    have hgap := (isGap_splitGap cs).1
    have hcs := splitGap_append false cs
    have hend : (splitGap false cs).2 = [] := eq_nil_of_splitToken h
    rw [afterGap, hend] at hgap
    rw [hend, List.append_nil] at hcs
    rw [hcs] at hgap
    exact .gap hgap
  | case2 cs w rest h ih =>
    have hword := splitToken_append h
    have hcs : (splitGap false cs).1 ++ w ++ rest = cs := by
      rw [List.append_assoc, hword]
      exact splitGap_append false cs
    have hgap := (isGap_splitGap cs).1
    have hlex := isLexeme_of_splitToken (head_splitGap false cs) h
    rw [← hword] at hgap
    rw [← String.toList_ofList (l := w)] at hgap hlex
    have hsplits := Splits.token hgap hlex ih
    rw [String.toList_ofList, hcs] at hsplits
    exact hsplits

/-- The sentinel is no lexeme: no token of a text is taken for its end. -/
theorem endOfInput_notMem (h : Splits cs ts) : endOfInput ∉ ts := by
  have hlexeme : ∀ after, ¬ IsLexeme after endOfInput.toList := by
    rintro after (⟨-, hw, -⟩ | _)
    exact absurd (hw '#' (by decide)) (by decide)
  induction h with
  | gap _ => exact List.not_mem_nil
  | token _ ht _ ih =>
    rw [List.mem_cons, not_or]
    refine ⟨?_, ih⟩
    rintro rfl
    exact hlexeme _ ht

theorem endOfInput_notMem_ofSource (source : String) : endOfInput ∉ ofSource source :=
  endOfInput_notMem (splits_lexemes source.toList)

/-- The tokens of a text are those that it is a row of, with gaps before, between and after them,
and there is no other row for it. Then comes the sentinel, which stands nowhere else, even if its
text does. -/
theorem streamOf_splits (source : String) :
    ∃ ts : List Token, streamOf source = ts ++ [endOfInput] ∧ endOfInput ∉ ts ∧
      ∀ us, Splits source.toList us ↔ us = ts := by
  have hsplits : Splits source.toList (ofSource source) := splits_lexemes source.toList
  refine ⟨ofSource source, rfl, endOfInput_notMem hsplits, fun us => ⟨fun h => ?_, ?_⟩⟩
  · have hmap := h.lexemes_eq
    rw [hsplits.lexemes_eq] at hmap
    exact ((List.map_inj_right fun _ _ => String.toList_injective).1 hmap).symm
  · rintro rfl
    exact hsplits

example : streamOf "END### END OF INPUT ###" = ["END", endOfInput] := by decide +kernel

end Token

end BlockLang
