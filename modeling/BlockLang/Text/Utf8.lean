import BlockLang.Text.Hex

/-! UTF-8: the bytes of a text, and the text of a byte sequence, read one byte at a time and
refused at the first byte that rules the sequence out. -/

namespace BlockLang.Text.Utf8

/-- Why a byte sequence is not UTF-8. -/
inductive Reason where
  | invalidStart
  | invalidContinuation
  | unexpectedEnd
  deriving DecidableEq, Repr

def Reason.text : Reason → String
  | .invalidStart => "invalid start byte"
  | .invalidContinuation => "invalid continuation byte"
  | .unexpectedEnd => "unexpected end of data"

/-- The bytes that form no character, and where the first of them stands. -/
structure DecodeError where
  position : Nat
  bytes : List UInt8
  reason : Reason
  deriving DecidableEq, Repr

def DecodeError.message (e : DecodeError) : String :=
  let place := match e.bytes with
    | [b] => s!"byte 0x{String.ofList (hex 2 b.toNat)} in position {e.position}"
    | bytes => s!"bytes in position {e.position}-{e.position + bytes.length - 1}"
  s!"'utf-8' codec can't decode {place}: {e.reason.text}"

/-- A character that has begun: its bytes so far, how many more it needs, the bounds of the next
one, and the bits read. -/
structure Pending where
  bytes : List UInt8
  owed : Nat
  least : Nat
  greatest : Nat
  bits : Nat

/-- The character that a byte begins, if it can begin one. The bounds of the second byte exclude
overlong forms, surrogates and numbers above the last code point. -/
def start (b : UInt8) : Option Pending :=
  let n := b.toNat
  if n < 0x80 then some ⟨[b], 0, 0x80, 0xbf, n⟩
  else if n < 0xc2 then none
  else if n < 0xe0 then some ⟨[b], 1, 0x80, 0xbf, n - 0xc0⟩
  else if n = 0xe0 then some ⟨[b], 2, 0xa0, 0xbf, 0⟩
  else if n = 0xed then some ⟨[b], 2, 0x80, 0x9f, 0xd⟩
  else if n < 0xf0 then some ⟨[b], 2, 0x80, 0xbf, n - 0xe0⟩
  else if n = 0xf0 then some ⟨[b], 3, 0x90, 0xbf, 0⟩
  else if n < 0xf4 then some ⟨[b], 3, 0x80, 0xbf, n - 0xf0⟩
  else if n = 0xf4 then some ⟨[b], 3, 0x80, 0x8f, 4⟩
  else none

/-- Takes the next byte of a character, if it is within bounds. -/
def Pending.take (p : Pending) (b : UInt8) : Option Pending :=
  if p.least ≤ b.toNat ∧ b.toNat ≤ p.greatest then
    some ⟨p.bytes ++ [b], p.owed - 1, 0x80, 0xbf, p.bits * 64 + (b.toNat - 0x80)⟩
  else none

/-- Decodes bytes when `position` of them belong to characters already read. -/
def decodeFrom (position : Nat) : Option Pending → List UInt8 → Except DecodeError (List Char)
  | none, [] => .ok []
  | some p, [] => .error ⟨position, p.bytes, .unexpectedEnd⟩
  | none, b :: rest =>
    match start b with
    | none => .error ⟨position, [b], .invalidStart⟩
    | some p =>
      if p.owed = 0 then (Char.ofNat p.bits :: ·) <$> decodeFrom (position + 1) none rest
      else decodeFrom position (some p) rest
  | some p, b :: rest =>
    match p.take b with
    | none => .error ⟨position, p.bytes, .invalidContinuation⟩
    | some q =>
      if q.owed = 0 then
        (Char.ofNat q.bits :: ·) <$> decodeFrom (position + q.bytes.length) none rest
      else decodeFrom position (some q) rest

/-- The text of a byte sequence. -/
def decode (bytes : List UInt8) : Except DecodeError (List Char) := decodeFrom 0 none bytes

/-- The bytes of a text. -/
def encode (cs : List Char) : List UInt8 := cs.flatMap String.utf8EncodeChar

end BlockLang.Text.Utf8
