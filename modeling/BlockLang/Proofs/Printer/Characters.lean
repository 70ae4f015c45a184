import BlockLang.Proofs.RoundTrip

/-! The characters of printed programs: those of words, the space and the line feed. -/

namespace BlockLang

open Token Printer Statement

variable {g : Parser.Goal} {p : List Token} {s : Statement} {level : Int} {l : Line}
  {t u v : Token} {cs ds : List Char}

/-! ### Lines -/

/-- A text of words with spaces between them, as far as its characters tell. -/
def IsWording (cs : List Char) : Prop := ∀ x ∈ cs, isWordChar x ∨ x = ' '

theorem isWording_word (h : t.IsWord) : IsWording t.toList := fun x hx => .inl (h.2 x hx)

theorem IsWording.append (h : IsWording cs) (h' : IsWording ds) : IsWording (cs ++ ' ' :: ds) := by
  intro x hx
  rw [List.mem_append, List.mem_cons] at hx
  rcases hx with hx | rfl | hx
  · exact h x hx
  · exact .inr rfl
  · exact h' x hx

theorem isWording_two (ht : t.IsWord) (hu : u.IsWord) : IsWording (t.toList ++ ' ' :: u.toList) :=
  (isWording_word ht).append (isWording_word hu)

theorem isWording_three (ht : t.IsWord) (hu : u.IsWord) (hv : v.IsWord) :
    IsWording (t.toList ++ ' ' :: (u.toList ++ ' ' :: v.toList)) :=
  (isWording_word ht).append (isWording_two hu hv)

theorem isWording_if (c : Condition) : IsWording (s!"IF {c.token} THEN").toList := by
  have h := isWording_three (t := "IF") (v := "THEN") (by decide) (isWord_condition c) (by decide)
  simpa [toString] using h

theorem isWording_while (c : Condition) : IsWording (s!"WHILE {c.token} DO").toList := by
  have h := isWording_three (t := "WHILE") (v := "DO") (by decide) (isWord_condition c) (by decide)
  simpa [toString] using h

theorem isWording_else : IsWording "ELSE".toList := isWording_word (t := "ELSE") (by decide)

theorem isWording_endIf : IsWording "END IF".toList :=
  isWording_two (t := "END") (u := "IF") (by decide) (by decide)

theorem isWording_endWhile : IsWording "END WHILE".toList :=
  isWording_two (t := "END") (u := "WHILE") (by decide) (by decide)

theorem isWording_line (h : Derives g p s) (hl : l ∈ s.layout level) :
    IsWording l.text.toList := by
  induction h generalizing level with
  | call ht =>
    rw [layout_call, List.mem_singleton] at hl
    subst hl
    exact isWording_word (isWord_of_isIdentifier ht)
  | ifThen _ _ ih =>
    simp only [layout_ifThen, List.mem_append, List.mem_singleton] at hl
    rcases hl with (rfl | hl) | rfl
    · exact isWording_if _
    · exact ih hl
    · exact isWording_endIf
  | ifElse _ _ _ ih ih' =>
    simp only [layout_ifElse, List.mem_append, List.mem_singleton] at hl
    rcases hl with (((rfl | hl) | rfl) | hl) | rfl
    · exact isWording_if _
    · exact ih hl
    · exact isWording_else
    · exact ih' hl
    · exact isWording_endIf
  | whileDo _ _ ih =>
    simp only [layout_whileDo, List.mem_append, List.mem_singleton] at hl
    rcases hl with (rfl | hl) | rfl
    · exact isWording_while _
    · exact ih hl
    · exact isWording_endWhile
  | empty => simp at hl
  | cons _ _ ih ih' =>
    rw [layout_block_cons, List.mem_append] at hl
    exact hl.elim ih ih'

/-! ### Programs -/

theorem mem_text (h : Derives g p s) :
    ∀ x ∈ s.text.toList, isWordChar x ∨ x = ' ' ∨ x = '\n' := by
  intro x hx
  rw [toList_text] at hx
  obtain ⟨l, hl, hx⟩ := List.mem_flatMap.1 hx
  simp only [Line.chars, Line.string, String.toList_append, String.toList_ofList,
    List.mem_append, List.mem_replicate, List.mem_singleton] at hx
  rcases hx with (⟨-, hx⟩ | hx) | hx
  · exact .inr (.inl hx)
  · exact (isWording_line h hl x hx).imp_right .inl
  · exact .inr (.inr hx)

end BlockLang
