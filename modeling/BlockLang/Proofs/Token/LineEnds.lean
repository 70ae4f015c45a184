import BlockLang.Proofs.Token.Decomposition
import BlockLang.Text.Newline

/-! Line ends do not matter to tokens, since they are blanks, except in comments: there a carriage
return that no line feed follows would end the comment if it ended the line. A text without such
carriage returns keeps its tokens when all its line ends are written as line feeds. -/

namespace BlockLang

namespace Text

variable {c : Char} {cs : List Char}

/-! ### Carriage returns in comments -/

/-- No carriage return breaks the first line: one that stands there is followed by a line feed. -/
def FirstLineUnbroken (cs : List Char) : Prop :=
  ∀ line after, cs = line ++ '\r' :: after → '\n' ∉ line → after.head? = some '\n'

/-- No carriage return breaks a comment, which goes from a number sign to the end of its line. -/
def CommentsUnbroken (cs : List Char) : Prop :=
  ∀ before comment, cs = before ++ '#' :: comment → FirstLineUnbroken comment

theorem firstLineUnbroken_nil : FirstLineUnbroken [] := by
  intro line after h
  simp at h

theorem firstLineUnbroken_cons_iff (c : Char) (cs : List Char) : FirstLineUnbroken (c :: cs) ↔
    (c = '\r' → cs.head? = some '\n') ∧ (c ≠ '\n' → FirstLineUnbroken cs) := by
  constructor
  · refine fun h => ⟨?_, fun hc line after heq hline => ?_⟩
    · rintro rfl
      exact h [] cs rfl List.not_mem_nil
    · exact h (c :: line) after (by rw [heq, List.cons_append]) (by simp [hc.symm, hline])
  · rintro ⟨hhead, hrest⟩ line after heq hline
    cases line with
    | nil =>
      obtain ⟨rfl, rfl⟩ := List.cons.inj heq
      exact hhead rfl
    | cons d line =>
      obtain ⟨rfl, rfl⟩ := List.cons.inj heq
      rw [List.mem_cons, not_or] at hline
      exact hrest (Ne.symm hline.1) line after rfl hline.2

theorem commentsUnbroken_nil : CommentsUnbroken [] := by
  intro before comment h
  simp at h

theorem commentsUnbroken_cons_iff (c : Char) (cs : List Char) : CommentsUnbroken (c :: cs) ↔
    (c = '#' → FirstLineUnbroken cs) ∧ CommentsUnbroken cs := by
  constructor
  · refine fun h => ⟨?_, fun before comment heq => ?_⟩
    · rintro rfl
      exact h [] cs rfl
    · exact h (c :: before) comment (by rw [heq, List.cons_append])
  · rintro ⟨hhead, hrest⟩ before comment heq
    cases before with
    | nil =>
      obtain ⟨rfl, rfl⟩ := List.cons.inj heq
      exact hhead rfl
    | cons d before =>
      obtain ⟨rfl, rfl⟩ := List.cons.inj heq
      exact hrest before comment rfl

instance decidableFirstLineUnbroken : DecidablePred FirstLineUnbroken
  | [] => isTrue firstLineUnbroken_nil
  | c :: cs =>
    have := decidableFirstLineUnbroken cs
    decidable_of_iff _ (firstLineUnbroken_cons_iff c cs).symm

instance decidableCommentsUnbroken : DecidablePred CommentsUnbroken
  | [] => isTrue commentsUnbroken_nil
  | c :: cs =>
    have := decidableCommentsUnbroken cs
    decidable_of_iff _ (commentsUnbroken_cons_iff c cs).symm

/-! ### Unified line ends -/

theorem head?_unifyNewlines (cs : List Char) :
    (unifyNewlines cs).head? = cs.head?.map fun c => if c = '\r' then '\n' else c := by
  fun_cases unifyNewlines cs with
  | case4 c cs _ hc => simp [show c ≠ '\r' from hc]
  | _ => rfl

end Text

namespace Token

open Text

variable {c : Char} {cs ds : List Char}

/-! ### Lexemes character by character -/

theorem lexemes_comment_cons (hc : c ≠ '\n') (cs : List Char) :
    lexemes ('#' :: c :: cs) = lexemes ('#' :: cs) := by
  apply lexemes_congr
  have hc' : (c != '\n') = true := by simpa using hc
  simp [afterGap, splitGap, hc']

theorem lexemes_comment_newline (cs : List Char) : lexemes ('#' :: '\n' :: cs) = lexemes cs := by
  apply lexemes_congr
  simp [afterGap, splitGap]

theorem lexemes_cons_word (hc : isWordChar c) (cs : List Char) :
    lexemes (c :: cs) = (c :: cs.takeWhile isWordChar) :: lexemes (cs.dropWhile isWordChar) := by
  apply lexemes_of_splitToken
  simp [afterGap, splitGap, splitToken, hc, not_isBlank_of_isWordChar hc, ne_hash_of_isWordChar hc]

/-- What stands before two texts that have the same tokens, and both or neither of which goes on
with its first word, makes no difference. -/
theorem lexemes_cons_congr (hc : isWordChar c) (h : lexemes cs = lexemes ds)
    (hh : cs.head?.any isWordChar = ds.head?.any isWordChar) :
    lexemes (c :: cs) = lexemes (c :: ds) := by
  have hstop : ∀ {es : List Char}, es.head?.any isWordChar = false →
      lexemes (c :: es) = [c] :: lexemes es := by
    intro es hes
    rw [lexemes_cons_word hc]
    cases es with
    | nil => rfl
    | cons d es =>
      have hd : ¬ isWordChar d := by simpa using hes
      rw [List.takeWhile_cons_of_neg hd, List.dropWhile_cons_of_neg hd]
  have hgo : ∀ {es : List Char}, es.head?.any isWordChar = true →
      ∃ w rest, lexemes es = w :: rest ∧ lexemes (c :: es) = (c :: w) :: rest := by
    intro es hes
    cases es with
    | nil => simp at hes
    | cons d es =>
      have hd : isWordChar d := by simpa using hes
      refine ⟨_, _, lexemes_cons_word hd es, ?_⟩
      rw [lexemes_cons_word hc, List.takeWhile_cons_of_pos hd, List.dropWhile_cons_of_pos hd]
  cases hw : cs.head?.any isWordChar with
  | false => rw [hstop hw, hstop (hh ▸ hw), h]
  | true =>
    obtain ⟨w, rest, hcs, hccs⟩ := hgo hw
    obtain ⟨w', rest', hds, hcds⟩ := hgo (hh ▸ hw)
    obtain ⟨rfl, rfl⟩ := List.cons.inj (hcs.symm.trans (h.trans hds))
    rw [hccs, hcds]

theorem any_head?_unifyNewlines (cs : List Char) :
    (unifyNewlines cs).head?.any isWordChar = cs.head?.any isWordChar := by
  rw [head?_unifyNewlines]
  cases cs with
  | nil => rfl
  | cons c cs =>
    by_cases hc : c = '\r'
    · subst hc
      rfl
    · simp [hc]

/-! ### Texts with unified line ends -/

/-- Line ends may be unified in a text without broken comments, and in one that starts in a comment
if that is not broken either. -/
theorem lexemes_unifyNewlines_and_comment (cs : List Char) (h : CommentsUnbroken cs) :
    lexemes (unifyNewlines cs) = lexemes cs ∧
      (FirstLineUnbroken cs → lexemes ('#' :: unifyNewlines cs) = lexemes ('#' :: cs)) := by
  fun_induction unifyNewlines cs with
  | case1 => simp
  | case2 cs ih =>
    have hcs := ((commentsUnbroken_cons_iff _ _).1 ((commentsUnbroken_cons_iff _ _).1 h).2).2
    have hlex := (ih hcs).1
    constructor
    · rw [lexemes_blank (by decide), lexemes_blank (by decide), lexemes_blank (by decide), hlex]
    · intro _
      rw [lexemes_comment_newline, lexemes_comment_cons (by decide), lexemes_comment_newline, hlex]
  | case3 cs hne ih =>
    have hlex := (ih ((commentsUnbroken_cons_iff _ _).1 h).2).1
    constructor
    · rw [lexemes_blank (by decide), lexemes_blank (by decide), hlex]
    · intro hline
      have hhead := ((firstLineUnbroken_cons_iff _ _).1 hline).1 rfl
      obtain ⟨rest, rfl⟩ := List.head?_eq_some_iff.1 hhead
      exact absurd rfl (hne rest)
  | case4 c cs _ hne ih =>
    obtain ⟨hcomment, hcs⟩ := (commentsUnbroken_cons_iff c cs).1 h
    obtain ⟨hlex, hline⟩ := ih hcs
    constructor
    · by_cases hw : isWordChar c
      · exact lexemes_cons_congr hw hlex (any_head?_unifyNewlines cs)
      · by_cases hb : isBlank c
        · rw [lexemes_blank hb, lexemes_blank hb, hlex]
        · by_cases hc : c = '#'
          · subst hc
            exact hline (hcomment rfl)
          · rw [lexemes_symbol hw hb hc, lexemes_symbol hw hb hc, hlex]
    · intro hfirst
      by_cases hc : c = '\n'
      · subst hc
        rw [lexemes_comment_newline, lexemes_comment_newline, hlex]
      · rw [lexemes_comment_cons hc, lexemes_comment_cons hc]
        exact hline (((firstLineUnbroken_cons_iff c cs).1 hfirst).2 hc)

/-- Unifying the line ends of a text without broken comments leaves its tokens as they are. -/
theorem streamOf_unifyNewlines {source : String} (h : CommentsUnbroken source.toList) :
    streamOf (String.ofList (unifyNewlines source.toList)) = streamOf source := by
  rw [streamOf, streamOf, ofSource, ofSource, String.toList_ofList,
    (lexemes_unifyNewlines_and_comment _ h).1]

end Token

end BlockLang
