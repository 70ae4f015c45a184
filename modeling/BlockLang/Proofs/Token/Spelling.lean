import BlockLang.Condition
import BlockLang.Token.Split

/-! Texts that spell tokens: the words of a text with a blank after each are its tokens. -/

namespace BlockLang

namespace Token

open Text

/-! ### Characters -/

theorem isWordChar_iff (c : Char) : isWordChar c ↔
    c.toNat = 0x2d ∨ 0x30 ≤ c.toNat ∧ c.toNat ≤ 0x39 ∨ 0x41 ≤ c.toNat ∧ c.toNat ≤ 0x5a ∨
      0x61 ≤ c.toNat ∧ c.toNat ≤ 0x7a := by
  have hword : isWordChar c = (decide (c.val ≥ 'A'.val ∧ c.val ≤ 'Z'.val) ||
      (decide (c.val ≥ 'a'.val) && decide (c.val ≤ 'z'.val)) ||
      (decide (c.val ≥ '0'.val) && decide (c.val ≤ '9'.val)) || c == '-') := rfl
  have hc : c = '-' ↔ c.toNat = 0x2d := by
    rw [← Char.toNat_inj]
    rfl
  have hbounds : 'A'.val.toNat = 0x41 ∧ 'Z'.val.toNat = 0x5a ∧ 'a'.val.toNat = 0x61 ∧
      'z'.val.toNat = 0x7a ∧ '0'.val.toNat = 0x30 ∧ '9'.val.toNat = 0x39 := by decide
  rw [hword]
  simp only [Bool.or_eq_true, Bool.and_eq_true, decide_eq_true_eq, beq_iff_eq, hc, ge_iff_le,
    UInt32.le_iff_toNat_le, Char.toNat]
  omega

theorem not_isBlank_of_isWordChar {c : Char} (h : isWordChar c) : isBlank c = false := by
  rw [isWordChar_iff] at h
  simp only [isBlank, blanks, Table.contains, List.any_cons, List.any_nil, Bool.or_false,
    Bool.or_eq_false_iff, Bool.and_eq_false_iff, decide_eq_false_iff_not]
  omega

theorem ne_hash_of_isWordChar {c : Char} (h : isWordChar c) : c ≠ '#' := by
  rintro rfl
  revert h
  decide

theorem ne_hash_of_isBlank {c : Char} (h : isBlank c) : c ≠ '#' := by
  rintro rfl
  revert h
  decide

/-! ### Lexemes -/

theorem lexemes_of_splitToken {cs token rest : List Char}
    (h : splitToken (afterGap cs) = some (token, rest)) : lexemes cs = token :: lexemes rest := by
  rw [lexemes]
  split <;> simp_all

theorem lexemes_congr {cs ds : List Char} (h : afterGap cs = afterGap ds) :
    lexemes cs = lexemes ds := by
  rw [lexemes, lexemes, h]

theorem afterGap_blank {c : Char} (h : isBlank c) (cs : List Char) :
    afterGap (c :: cs) = afterGap cs := by
  have hc : (c == '#') = false := by simpa using ne_hash_of_isBlank h
  simp [afterGap, splitGap, h, hc]

theorem lexemes_blank {c : Char} (h : isBlank c) (cs : List Char) :
    lexemes (c :: cs) = lexemes cs :=
  lexemes_congr (afterGap_blank h cs)

theorem lexemes_spaces (n : Nat) (cs : List Char) :
    lexemes (List.replicate n ' ' ++ cs) = lexemes cs := by
  induction n with
  | zero => rfl
  | succ n ih => rw [List.replicate_succ, List.cons_append, lexemes_blank (by decide), ih]

theorem lexemes_word {w rest : List Char} (hne : w ≠ []) (hw : ∀ c ∈ w, isWordChar c)
    (hr : ∀ c ∈ rest.head?, ¬ isWordChar c) : lexemes (w ++ rest) = w :: lexemes rest := by
  obtain ⟨c, w, rfl⟩ := List.exists_cons_of_ne_nil hne
  rw [List.forall_mem_cons] at hw
  apply lexemes_of_splitToken
  have hgap : afterGap (c :: w ++ rest) = c :: w ++ rest := by
    simp [afterGap, splitGap, not_isBlank_of_isWordChar hw.1, ne_hash_of_isWordChar hw.1]
  rw [hgap]
  have htake : rest.takeWhile isWordChar = [] ∧ rest.dropWhile isWordChar = rest := by
    cases rest <;> simp_all
  simp [splitToken, hw.1, List.takeWhile_append_of_pos hw.2, List.dropWhile_append_of_pos hw.2,
    htake]

/-! ### Words -/

/-- A token that is a word. -/
def IsWord (t : Token) : Prop := t.toList ≠ [] ∧ ∀ c ∈ t.toList, isWordChar c

instance : DecidablePred IsWord := fun t =>
  decidable_of_iff (t.toList.isEmpty = false ∧ t.toList.all isWordChar) (by simp [IsWord])

theorem isWord_of_isIdentifier {t : Token} (h : t.isIdentifier) : t.IsWord := by
  simp only [isIdentifier, Bool.and_eq_true] at h
  obtain ⟨⟨ht, -⟩, -⟩ := h
  cases hcs : t.toList with
  | nil => simp [hcs] at ht
  | cons c rest =>
    simp only [hcs, Bool.and_eq_true, List.all_eq_true] at ht
    have hc : isWordChar c := by simp [isWordChar, Char.isAlphanum, ht.1]
    simpa [IsWord, hcs, hc] using ht.2

theorem isWord_condition (c : Condition) : c.token.IsWord := by
  cases c <;> decide

/-- A text whose tokens are the given ones, whatever follows that does not extend its last word. -/
def Spells (cs : List Char) (ts : List Token) : Prop :=
  ∀ rest : List Char, (∀ c ∈ rest.head?, ¬ isWordChar c) →
    lexemes (cs ++ rest) = ts.map String.toList ++ lexemes rest

theorem spells_word {t : Token} (h : t.IsWord) : Spells t.toList [t] :=
  fun _ hr => lexemes_word h.1 h.2 hr

theorem Spells.append {cs ds : List Char} {ts us : List Token} {c : Char} (h : Spells cs ts)
    (h' : Spells ds us) (hc : isBlank c) : Spells (cs ++ c :: ds) (ts ++ us) := by
  intro rest hr
  have hc' : ∀ x ∈ (c :: (ds ++ rest)).head?, ¬ isWordChar x := by
    intro x hx hw
    obtain rfl : c = x := by simpa using hx
    simp [not_isBlank_of_isWordChar hw] at hc
  rw [List.append_assoc, List.cons_append, h _ hc', lexemes_blank hc, h' rest hr]
  simp

end Token

end BlockLang
