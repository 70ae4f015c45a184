import BlockLang.Text.Quoted
import BlockLang.Proofs.Text.Spelling

/-! Quoted texts can be read back. A character stands for itself, unless a backslash announces a
letter that stands for it or a numeral whose width a letter tells. The mark at the end is the one at
the beginning, and between the two it has a backslash before it. -/

namespace BlockLang.Text

variable {mark c d : Char} {cs ds r s : List Char}

/-! ### Characters -/

/-- The characters that can stand around a text. -/
def IsMark (c : Char) : Prop := c = apostrophe ∨ c = doubleQuote

/-- The letters after a backslash, each with the character that it stands for. -/
def letters (mark : Char) : List (Char × Char) :=
  [(mark, mark), ('\\', '\\'), ('n', '\n'), ('r', '\r'), ('t', '\t')]

/-- The letters that announce a numeral, each with the number of its digits. -/
def numeralWidths : List (Char × Nat) := [('x', 2), ('u', 4), ('U', 8)]

/-- The ways to spell a character between marks. -/
inductive Spells (mark c : Char) : List Char → Prop where
  | plain : c ≠ mark → c ≠ '\\' → Spells mark c [c]
  | letter {k : Char} : (k, c) ∈ letters mark → Spells mark c ['\\', k]
  | numeral {k : Char} {width : Nat} : (k, width) ∈ numeralWidths → c.toNat < 16 ^ width →
      Spells mark c ('\\' :: k :: hex width c.toNat)

theorem spells_escape (mark c : Char) : Spells mark c (escape mark c) := by
  unfold escape
  split
  · next h =>
    rw [Bool.or_eq_true, decide_eq_true_iff, decide_eq_true_iff] at h
    rcases h with rfl | rfl <;> exact .letter (by simp [letters])
  · next hmark =>
    simp only [Bool.or_eq_true, decide_eq_true_iff, not_or] at hmark
    split
    · next h => exact .letter (by simp [letters, h])
    split
    · next h => exact .letter (by simp [letters, h])
    split
    · next h => exact .letter (by simp [letters, h])
    split
    · exact .plain hmark.1 hmark.2
    split
    · next h => exact .numeral (by decide) h
    split
    · next h => exact .numeral (by decide) h
    · have hvalid : c.toNat < 0xd800 ∨ 0xdfff < c.toNat ∧ c.toNat < 0x110000 := c.valid
      exact .numeral (by decide) (by omega)

/-- A spelling tells where it ends and what it spells. -/
theorem Spells.append_inj (hmark : IsMark mark) (hc : Spells mark c cs) (hd : Spells mark d ds)
    (h : cs ++ r = ds ++ s) : c = d ∧ r = s := by
  have hletters : ∀ l ∈ letters mark, (∀ w ∈ numeralWidths, l.1 ≠ w.1) ∧
      ∀ l' ∈ letters mark, l.1 = l'.1 → l.2 = l'.2 := by
    rcases hmark with rfl | rfl <;> decide
  have hwidths : ∀ w ∈ numeralWidths, ∀ w' ∈ numeralWidths, w.1 = w'.1 → w.2 = w'.2 := by decide
  cases hc with
  | plain _ hback =>
    cases hd with
    | plain _ _ => exact List.cons.inj h
    | letter _ | numeral _ _ => exact absurd (List.cons.inj h).1 hback
  | letter hk =>
    cases hd with
    | plain _ hback => exact absurd (List.cons.inj h).1.symm hback
    | letter hk' =>
      obtain ⟨hkk, hrest⟩ := List.cons.inj (List.cons.inj h).2
      exact ⟨(hletters _ hk).2 _ hk' hkk, hrest⟩
    | numeral hw _ => exact absurd (List.cons.inj (List.cons.inj h).2).1 ((hletters _ hk).1 _ hw)
  | numeral hw hn =>
    cases hd with
    | plain _ hback => exact absurd (List.cons.inj h).1.symm hback
    | letter hk =>
      exact absurd (List.cons.inj (List.cons.inj h).2).1.symm ((hletters _ hk).1 _ hw)
    | numeral hw' hn' =>
      obtain ⟨hkk, hhex⟩ := List.cons.inj (List.cons.inj h).2
      obtain rfl := hwidths _ hw _ hw' hkk
      obtain ⟨hcode, hrest⟩ := hex_append_inj hn hn' hhex
      exact ⟨Char.toNat_inj.1 hcode, hrest⟩

/-- No spelling begins with the mark. -/
theorem Spells.ne_mark (hmark : IsMark mark) (h : Spells mark c cs) : cs ++ r ≠ mark :: s := by
  have hback : '\\' ≠ mark := by rcases hmark with rfl | rfl <;> decide
  cases h with
  | plain hc _ => exact fun h => hc (List.cons.inj h).1
  | letter _ | numeral _ _ => exact fun h => hback (List.cons.inj h).1

/-! ### Texts -/

theorem isMark_quoteMark (cs : List Char) : IsMark (quoteMark cs) := by
  unfold quoteMark
  split
  · exact .inr rfl
  · exact .inl rfl

theorem toList_quote (a : String) : (quote a).toList =
    quoteMark a.toList :: a.toList.flatMap (escape (quoteMark a.toList)) ++
      [quoteMark a.toList] :=
  String.toList_ofList

/-- A quoted text can be read off the front of any text. -/
theorem quote_append_inj {a b : String} (h : (quote a).toList ++ r = (quote b).toList ++ s) :
    a = b ∧ r = s := by
  rw [toList_quote, toList_quote] at h
  have hmark : quoteMark a.toList = quoteMark b.toList := (List.cons.inj h).1
  have hflat : a.toList.flatMap (escape (quoteMark b.toList)) ++ quoteMark b.toList :: r =
      b.toList.flatMap (escape (quoteMark b.toList)) ++ quoteMark b.toList :: s := by
    simpa [hmark] using h
  have hb := isMark_quoteMark b.toList
  obtain ⟨hab, hrest⟩ := flatMap_append_mark_inj
    (fun c _ d _ _ _ => (spells_escape _ c).append_inj hb (spells_escape _ d))
    (fun c _ _ => (spells_escape _ c).ne_mark hb) hflat
  exact ⟨String.toList_inj.1 hab, hrest⟩

/-- A quoted text does not begin as the word for an absent one does. -/
theorem quote_append_ne (a : String) : (quote a).toList ++ r ≠ (quoteOption none).toList ++ s := by
  have hN : quoteMark a.toList ≠ 'N' := by
    rcases isMark_quoteMark a.toList with h | h <;> rw [h] <;> decide
  rw [toList_quote]
  exact fun h => hN (List.cons.inj h).1

theorem quoteOption_append_inj {a b : Option String}
    (h : (quoteOption a).toList ++ r = (quoteOption b).toList ++ s) : a = b ∧ r = s := by
  cases a with
  | none =>
    cases b with
    | none => exact ⟨rfl, List.append_cancel_left h⟩
    | some b => exact absurd h.symm (quote_append_ne b)
  | some a =>
    cases b with
    | none => exact absurd h (quote_append_ne a)
    | some b =>
      obtain ⟨rfl, hrest⟩ := quote_append_inj h
      exact ⟨rfl, hrest⟩

end BlockLang.Text
