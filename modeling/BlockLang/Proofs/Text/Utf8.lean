import BlockLang.Text.Utf8
import Mathlib.Algebra.Group.Nat.Defs
import Mathlib.Tactic.SplitIfs

/-! Decoding undoes encoding. Each byte of an encoded character is within the bounds that the bytes
before it set, and the last one completes the bits of the character. -/

namespace BlockLang.Text.Utf8

variable {position v k : Nat} {p : Pending}

/-! ### Bytes after the first -/

/-- The last `k` bytes of a character with code point `v`, six bits each. -/
def tail (v : Nat) : Nat → List UInt8
  | 0 => []
  | k + 1 => .ofNat (v / 64 ^ k % 64 + 128) :: tail v k

/-- What is read of a character before its last `k + 1` bytes: the bits above those that they carry,
and bounds that admit the next byte. -/
structure Pending.Awaits (p : Pending) (v k : Nat) : Prop where
  owed : p.owed = k + 1
  bits : p.bits = v / 64 ^ (k + 1)
  least : p.least ≤ v / 64 ^ k % 64 + 128
  greatest : v / 64 ^ k % 64 + 128 ≤ p.greatest

/-- The next byte adds its bits to those that are read. -/
theorem take_of_awaits (h : p.Awaits v k) :
    p.take (.ofNat (v / 64 ^ k % 64 + 128)) =
      some ⟨p.bytes ++ [.ofNat (v / 64 ^ k % 64 + 128)], k, 0x80, 0xbf, v / 64 ^ k⟩ := by
  have hbyte : (UInt8.ofNat (v / 64 ^ k % 64 + 128)).toNat = v / 64 ^ k % 64 + 128 := by
    rw [UInt8.toNat_ofNat']
    omega
  have hbits : v / 64 ^ (k + 1) * 64 + v / 64 ^ k % 64 = v / 64 ^ k := by
    rw [Nat.pow_succ, ← Nat.div_div_eq_div_mul]
    exact Nat.div_add_mod' _ 64
  rw [Pending.take, hbyte, if_pos ⟨h.least, h.greatest⟩, h.owed, h.bits, Nat.add_sub_cancel,
    Nat.add_sub_cancel, hbits]

theorem decodeFrom_tail (h : p.Awaits v k) (rest : List UInt8) :
    decodeFrom position (some p) (tail v (k + 1) ++ rest) =
      (Char.ofNat v :: ·) <$> decodeFrom (position + (p.bytes.length + (k + 1))) none rest := by
  induction k generalizing p with
  | zero =>
    rw [tail, List.cons_append, decodeFrom, take_of_awaits h]
    simp [tail]
  | succ k ih =>
    rw [tail, List.cons_append, decodeFrom, take_of_awaits h]
    simp only [Nat.succ_ne_zero, if_false]
    rw [ih ⟨rfl, rfl, by simp only; omega, by simp only; omega⟩, List.length_append,
      List.length_singleton, Nat.add_assoc, Nat.add_comm 1]

/-! ### First bytes -/

theorem start_one (h : v < 0x80) :
    start (.ofNat v) = some ⟨[.ofNat v], 0, 0x80, 0xbf, v⟩ := by
  have hbyte : (UInt8.ofNat v).toNat = v := by
    rw [UInt8.toNat_ofNat']
    omega
  rw [start, hbyte, if_pos h]

theorem start_two (h : 0x80 ≤ v) (h' : v < 0x800) :
    start (.ofNat (v / 64 % 32 + 192)) =
      some ⟨[.ofNat (v / 64 % 32 + 192)], 1, 0x80, 0xbf, v / 64⟩ := by
  have hbyte : (UInt8.ofNat (v / 64 % 32 + 192)).toNat = v / 64 + 192 := by
    rw [UInt8.toNat_ofNat']
    omega
  rw [start, hbyte, if_neg (by omega), if_neg (by omega), if_pos (by omega), Nat.add_sub_cancel]

/-- The second byte of three is bounded against overlong forms and surrogates. -/
theorem start_three (h : 0x800 ≤ v) (h' : v < 0x10000) :
    start (.ofNat (v / 4096 % 16 + 224)) = some ⟨[.ofNat (v / 4096 % 16 + 224)], 2,
      if v / 4096 = 0 then 0xa0 else 0x80, if v / 4096 = 13 then 0x9f else 0xbf, v / 4096⟩ := by
  have hbyte : (UInt8.ofNat (v / 4096 % 16 + 224)).toNat = v / 4096 + 224 := by
    rw [UInt8.toNat_ofNat']
    omega
  rw [start, hbyte]
  split_ifs <;> first
    | omega
    | simp only [Option.some.injEq, Pending.mk.injEq, true_and]
      omega

/-- The second byte of four is bounded against overlong forms and numbers above all characters. -/
theorem start_four (h : 0x10000 ≤ v) (h' : v < 0x110000) :
    start (.ofNat (v / 262144 % 8 + 240)) = some ⟨[.ofNat (v / 262144 % 8 + 240)], 3,
      if v / 262144 = 0 then 0x90 else 0x80, if v / 262144 = 4 then 0x8f else 0xbf,
      v / 262144⟩ := by
  have hbyte : (UInt8.ofNat (v / 262144 % 8 + 240)).toNat = v / 262144 + 240 := by
    rw [UInt8.toNat_ofNat']
    omega
  rw [start, hbyte]
  split_ifs <;> first
    | omega
    | simp only [Option.some.injEq, Pending.mk.injEq, true_and]
      omega

/-- A first byte that begins a character of several bytes is followed by the others. -/
theorem decodeFrom_start {b : UInt8} (hs : start b = some p) (h : p.Awaits v k)
    (hb : p.bytes = [b]) (rest : List UInt8) :
    decodeFrom position none (b :: tail v (k + 1) ++ rest) =
      (Char.ofNat v :: ·) <$> decodeFrom (position + (k + 2)) none rest := by
  rw [List.cons_append, decodeFrom, hs]
  simp only [h.owed, Nat.succ_ne_zero, if_false]
  rw [decodeFrom_tail h, hb, List.length_singleton, Nat.add_comm 1]

/-! ### Texts -/

/-- The bytes of a character are read as this character, whatever follows. -/
theorem decodeFrom_encodeChar (c : Char) (position : Nat) (rest : List UInt8) :
    decodeFrom position none (String.utf8EncodeChar c ++ rest) =
      (c :: ·) <$> decodeFrom (position + (String.utf8EncodeChar c).length) none rest := by
  have hvalid : c.toNat < 0xd800 ∨ 0xdfff < c.toNat ∧ c.toNat < 0x110000 := c.valid
  have hchar : Char.ofNat c.toNat = c := Char.ofNat_toNat c
  have hbytes : String.utf8EncodeChar c = _ := String.utf8EncodeChar.eq_1 c
  have hval : c.val.toNat = c.toNat := rfl
  generalize c.toNat = v at hvalid hchar hval
  simp only [hval] at hbytes
  rw [hbytes, ← hchar]
  split_ifs with h1 h2 h3
  · rw [List.singleton_append, decodeFrom, start_one (by omega)]
    rfl
  · have htail : tail v 1 = [.ofNat (v % 64 + 128)] := by simp [tail]
    have hp : Pending.Awaits ⟨[.ofNat (v / 64 % 32 + 192)], 1, 0x80, 0xbf, v / 64⟩ v 0 :=
      ⟨rfl, rfl, by simp only; omega, by simp only; omega⟩
    rw [← htail]
    exact decodeFrom_start (start_two (by omega) (by omega)) hp rfl rest
  · have htail : tail v 2 = [.ofNat (v / 64 % 64 + 128), .ofNat (v % 64 + 128)] := by simp [tail]
    have hp : Pending.Awaits ⟨[.ofNat (v / 4096 % 16 + 224)], 2,
        if v / 4096 = 0 then 0xa0 else 0x80, if v / 4096 = 13 then 0x9f else 0xbf, v / 4096⟩ v 1 :=
      ⟨rfl, rfl, by simp only; split_ifs <;> omega, by simp only; split_ifs <;> omega⟩
    rw [← htail]
    exact decodeFrom_start (start_three (by omega) (by omega)) hp rfl rest
  · have htail : tail v 3 = [.ofNat (v / 4096 % 64 + 128), .ofNat (v / 64 % 64 + 128),
        .ofNat (v % 64 + 128)] := by simp [tail]
    have hp : Pending.Awaits ⟨[.ofNat (v / 262144 % 8 + 240)], 3,
        if v / 262144 = 0 then 0x90 else 0x80, if v / 262144 = 4 then 0x8f else 0xbf,
        v / 262144⟩ v 2 :=
      ⟨rfl, rfl, by simp only; split_ifs <;> omega, by simp only; split_ifs <;> omega⟩
    rw [← htail]
    exact decodeFrom_start (start_four (by omega) (by omega)) hp rfl rest

theorem decodeFrom_encode (cs : List Char) (position : Nat) :
    decodeFrom position none (encode cs) = .ok cs := by
  induction cs generalizing position with
  | nil => rfl
  | cons c cs ih =>
    rw [encode, List.flatMap_cons, decodeFrom_encodeChar, ← encode, ih]
    rfl

/-- The bytes of a text are read as this text. -/
theorem decode_encode (cs : List Char) : decode (encode cs) = .ok cs := decodeFrom_encode cs 0

end BlockLang.Text.Utf8
