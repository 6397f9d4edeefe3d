import Reckon.Text.Basic

/-!
# UTF-8

Files hold bytes, and text files are read strictly: the first byte sequence that
is not well formed is a fault. `decode` walks the bytes once. Between two code
points it waits for a lead byte; inside one it carries what is known so far and
the range the next byte has to lie in. Narrowing that range after the lead bytes
E0, ED, F0 and F4 is what rules out overlong forms, surrogates and values above
U+10FFFF.
-/

namespace Reckon

/-- The content of a file. -/
abbrev Bytes := List UInt8

namespace Utf8

/-- Why a byte sequence is not well formed. -/
inductive Reason where
  | invalidStart
  | invalidContinuation
  | truncated
deriving DecidableEq, Repr

/-- The first fault in a sequence of bytes: where it begins, and the bytes from
there that belong to it. -/
structure Fault where
  position : Nat
  bytes : Bytes
  reason : Reason
deriving DecidableEq, Repr

/-- A code point of which some bytes are still missing. `low` and `high` bound
the next byte. -/
structure Partial where
  start : Nat
  seen : Bytes
  value : Nat
  missing : Nat
  low : Nat
  high : Nat
deriving DecidableEq, Repr

/-- What a byte says at the beginning of a code point. -/
inductive Lead where
  | whole (value : Nat)
  | opens (value missing low high : Nat)
  | invalid
deriving DecidableEq, Repr

def lead (b : UInt8) : Lead :=
  let n := b.toNat
  if n < 0x80 then .whole n
  else if n < 0xC2 then .invalid
  else if n < 0xE0 then .opens (n - 0xC0) 1 0x80 0xBF
  else if n = 0xE0 then .opens 0 2 0xA0 0xBF
  else if n = 0xED then .opens 0xD 2 0x80 0x9F
  else if n < 0xF0 then .opens (n - 0xE0) 2 0x80 0xBF
  else if n = 0xF0 then .opens 0 3 0x90 0xBF
  else if n < 0xF4 then .opens (n - 0xF0) 3 0x80 0xBF
  else if n = 0xF4 then .opens 4 3 0x80 0x8F
  else .invalid

/-- The state after one more continuation byte. -/
def Partial.extend (p : Partial) (b : UInt8) : Partial :=
  { start := p.start
    seen := p.seen ++ [b]
    value := p.value * 64 + (b.toNat - 0x80)
    missing := p.missing - 1
    low := 0x80
    high := 0xBF }

/-- Decode the bytes from a position on, with the code point that is under way. -/
def decodeFrom : Option Partial → (position : Nat) → Bytes → Except Fault Text
  | none, _, [] => .ok []
  | some p, _, [] => .error ⟨p.start, p.seen, .truncated⟩
  | none, position, b :: rest =>
    match lead b with
    | .whole value => (decodeFrom none (position + 1) rest).map (Char.ofNat value :: ·)
    | .opens value missing low high =>
      decodeFrom (some ⟨position, [b], value, missing, low, high⟩) (position + 1) rest
    | .invalid => .error ⟨position, [b], .invalidStart⟩
  | some p, position, b :: rest =>
    if p.low ≤ b.toNat ∧ b.toNat ≤ p.high then
      if p.missing = 1 then
        (decodeFrom none (position + 1) rest).map (Char.ofNat (p.extend b).value :: ·)
      else
        decodeFrom (some (p.extend b)) (position + 1) rest
    else .error ⟨p.start, p.seen, .invalidContinuation⟩

/-- The text the bytes stand for, or the first fault. -/
def decode (bytes : Bytes) : Except Fault Text :=
  decodeFrom none 0 bytes

def encode (t : Text) : Bytes :=
  t.flatMap String.utf8EncodeChar

end Utf8

end Reckon
