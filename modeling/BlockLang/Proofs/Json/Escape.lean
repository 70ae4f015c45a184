import BlockLang.Json
import BlockLang.Proofs.Text.Spelling

/-! Strings in JSON texts. The spelling of a character tells where it ends and which character it
is, so a quoted string can be read off the front of any text. All characters used are ASCII. -/

namespace BlockLang

namespace Text

/-- A text of ASCII characters. -/
def IsAscii (cs : List Char) : Prop := ∀ c ∈ cs, c.toNat < 0x80

instance : DecidablePred IsAscii := List.decidableBAll fun c : Char => c.toNat < 0x80

theorem isAscii_nil : IsAscii [] := List.forall_mem_nil _

theorem isAscii_cons {c : Char} {cs : List Char} :
    IsAscii (c :: cs) ↔ c.toNat < 0x80 ∧ IsAscii cs :=
  List.forall_mem_cons

theorem isAscii_append {cs ds : List Char} : IsAscii (cs ++ ds) ↔ IsAscii cs ∧ IsAscii ds :=
  List.forall_mem_append

theorem isAscii_hex (width n : Nat) : IsAscii (hex width n) := by
  induction width generalizing n with
  | zero => exact isAscii_nil
  | succ width ih =>
    have hdigit : ∀ k < 16, (hexDigit k).toNat < 0x80 := by decide
    rw [hex, isAscii_append]
    exact ⟨ih _, isAscii_cons.2 ⟨hdigit _ (Nat.mod_lt n (by decide)), isAscii_nil⟩⟩

end Text

namespace Json

open Text

/-! ### Characters -/

/-- The letters after a backslash, each with the character that it stands for. -/
def letters : List (Char × Char) :=
  [('\x22', '\x22'), ('\\', '\\'), ('n', '\n'), ('r', '\r'), ('t', '\t'), ('b', '\x08'),
    ('f', '\x0c')]

/-- The ways to spell a character between quotes. -/
inductive Spells (c : Char) : List Char → Prop where
  | plain : c ≠ '\x22' → c ≠ '\\' → c.toNat < 0x80 → Spells c [c]
  | letter {k : Char} : (k, c) ∈ letters → Spells c ['\\', k]
  | unit : c.toNat < 0x10000 → Spells c (unit c.toNat)
  | pair {high low : Nat} : high < 0x400 → low < 0x400 →
      c.toNat = 0x10000 + (0x400 * high + low) →
      Spells c (Json.unit (0xd800 + high) ++ Json.unit (0xdc00 + low))

variable {c d : Char} {cs ds r s : List Char}

theorem spells_escape (c : Char) : Spells c (escape c) := by
  unfold escape
  split
  · next h =>
    rw [Bool.or_eq_true, decide_eq_true_iff, decide_eq_true_iff] at h
    rcases h with rfl | rfl <;> exact .letter (by decide)
  · next hquote =>
    simp only [Bool.or_eq_true, decide_eq_true_iff, not_or] at hquote
    split
    · next h => exact .letter (by rw [h]; decide)
    split
    · next h => exact .letter (by rw [h]; decide)
    split
    · next h => exact .letter (by rw [h]; decide)
    split
    · next h => exact .letter (by rw [h]; decide)
    split
    · next h => exact .letter (by rw [h]; decide)
    split
    · next h =>
      simp only [Bool.and_eq_true, decide_eq_true_iff] at h
      exact .plain hquote.1 hquote.2 (by omega)
    split
    · next h => exact .unit h
    · next h =>
      have hvalid : c.toNat < 0xd800 ∨ 0xdfff < c.toNat ∧ c.toNat < 0x110000 := c.valid
      exact .pair (by omega) (by omega) (by omega)

theorem Spells.isAscii (h : Spells c cs) : IsAscii cs := by
  have hunit : ∀ n, IsAscii (Json.unit n) := fun n =>
    isAscii_cons.2 ⟨by decide, isAscii_cons.2 ⟨by decide, isAscii_hex 4 n⟩⟩
  cases h with
  | plain _ _ hc => exact isAscii_cons.2 ⟨hc, isAscii_nil⟩
  | @letter k hk =>
    have hletters : ∀ l ∈ letters, l.1.toNat < 0x80 := by decide
    exact isAscii_cons.2 ⟨by decide, isAscii_cons.2 ⟨hletters _ hk, isAscii_nil⟩⟩
  | unit _ => exact hunit _
  | pair _ _ _ => exact isAscii_append.2 ⟨hunit _, hunit _⟩

theorem unit_append_inj {m n : Nat} (hm : m < 0x10000) (hn : n < 0x10000)
    (h : unit m ++ r = unit n ++ s) : m = n ∧ r = s := by
  have hhex : hex 4 m ++ r = hex 4 n ++ s := by simpa [unit] using h
  exact hex_append_inj hm hn hhex

/-- No character is spelled by a code unit of a pair. -/
theorem toNat_ne_high (c : Char) {high : Nat} (h : high < 0x400) : c.toNat ≠ 0xd800 + high := by
  have hvalid : c.toNat < 0xd800 ∨ 0xdfff < c.toNat ∧ c.toNat < 0x110000 := c.valid
  omega

/-- A spelling tells where it ends and what it spells. -/
theorem Spells.append_inj (hc : Spells c cs) (hd : Spells d ds) (h : cs ++ r = ds ++ s) :
    c = d ∧ r = s := by
  have hletters : ∀ l ∈ letters, l.1 ≠ 'u' ∧ ∀ l' ∈ letters, l.1 = l'.1 → l.2 = l'.2 := by decide
  cases hc with
  | plain _ hback _ =>
    cases hd with
    | plain _ _ _ => simpa using h
    | letter _ | unit _ | pair _ _ _ => exact absurd (List.cons.inj h).1 hback
  | @letter k hk =>
    cases hd with
    | plain _ hback _ => exact absurd (List.cons.inj h).1.symm hback
    | @letter k' hk' =>
      obtain ⟨hkk, hrest⟩ : k = k' ∧ r = s := by simpa using h
      exact ⟨(hletters _ hk).2 _ hk' hkk, hrest⟩
    | unit _ | pair _ _ _ => exact absurd (List.cons.inj (List.cons.inj h).2).1 (hletters _ hk).1
  | unit hn =>
    cases hd with
    | plain _ hback _ => exact absurd (List.cons.inj h).1.symm hback
    | letter hk =>
      exact absurd (List.cons.inj (List.cons.inj h).2).1.symm (hletters _ hk).1
    | unit hn' =>
      obtain ⟨heq, hrest⟩ := unit_append_inj hn hn' h
      exact ⟨Char.toNat_inj.1 heq, hrest⟩
    | pair hhigh hlow _ =>
      rw [List.append_assoc] at h
      exact absurd (unit_append_inj hn (by omega) h).1 (toNat_ne_high c hhigh)
  | pair hhigh hlow hc =>
    cases hd with
    | plain _ hback _ => exact absurd (List.cons.inj h).1.symm hback
    | letter hk =>
      exact absurd (List.cons.inj (List.cons.inj h).2).1.symm (hletters _ hk).1
    | unit hn =>
      rw [List.append_assoc] at h
      exact absurd (unit_append_inj (by omega) hn h).1.symm (toNat_ne_high d hhigh)
    | pair hhigh' hlow' hd =>
      rw [List.append_assoc, List.append_assoc] at h
      obtain ⟨heq, h⟩ := unit_append_inj (by omega) (by omega) h
      obtain ⟨heq', hrest⟩ := unit_append_inj (by omega) (by omega) h
      exact ⟨Char.toNat_inj.1 (by omega), hrest⟩

/-- No spelling begins with a quote. -/
theorem Spells.ne_quote (h : Spells c cs) : cs ++ r ≠ '\x22' :: s := by
  cases h with
  | plain hquote _ _ => exact fun h => hquote (List.cons.inj h).1
  | letter _ | unit _ | pair _ _ _ => exact fun h => absurd (List.cons.inj h).1 (by decide)

/-! ### Strings -/

/-- A quoted string can be read off the front of any text. -/
theorem quote_append_inj {a b : String} (h : quote a ++ r = quote b ++ s) : a = b ∧ r = s := by
  have hflat : a.toList.flatMap escape ++ '\x22' :: r = b.toList.flatMap escape ++ '\x22' :: s := by
    simpa [quote] using h
  obtain ⟨hab, hrest⟩ := flatMap_append_mark_inj
    (fun c _ d _ _ _ => (spells_escape c).append_inj (spells_escape d))
    (fun c _ _ => (spells_escape c).ne_quote) hflat
  exact ⟨String.toList_inj.1 hab, hrest⟩

theorem isAscii_quote (a : String) : IsAscii (quote a) := by
  refine isAscii_append.2 ⟨isAscii_cons.2 ⟨by decide, fun x hx => ?_⟩, by decide⟩
  obtain ⟨c, -, hx⟩ := List.mem_flatMap.1 hx
  exact (spells_escape c).isAscii x hx

end Json

end BlockLang
