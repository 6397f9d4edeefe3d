import Mathlib.Tactic.Ring
import Reckon.Text.Utf8

/-!
# What is encoded is decoded

`Utf8.encode` writes a code point as one byte, or as a lead byte with up to three
continuation bytes of six bits each. The decoder collects such bytes one at a time,
so the induction is on the number of continuation bytes that are missing: each takes
the next six bits, and the last completes the code point
(`decodeFrom_continuation`). Only the first continuation byte is held to a narrower
range. That a code point is no surrogate, not above U+10FFFF, and written with as few
bytes as possible is what brings it into that range.
-/

namespace Reckon.Utf8

/-! ## Continuation bytes -/

/-- The last `m` continuation bytes of a code point, six bits each. -/
def continuation : (m : Nat) → (v : Nat) → Bytes
  | 0, _ => []
  | m + 1, v => UInt8.ofNat (v / 64 ^ m % 64 + 128) :: continuation m v

theorem toNat_ofNat {n : Nat} (h : n < 256) : (UInt8.ofNat n).toNat = n :=
  UInt8.toNat_ofNat_of_lt' h

theorem toNat_continuation (n : Nat) : (UInt8.ofNat (n % 64 + 128)).toNat = n % 64 + 128 := by
  have hn : n % 64 < 64 := Nat.mod_lt n (by decide)
  exact toNat_ofNat (by omega)

theorem decodeFrom_continuation (v : Nat) (rest : Bytes) :
    ∀ (m : Nat) (p : Partial) (position : Nat), p.missing = m + 1 →
      p.low ≤ v / 64 ^ m % 64 + 128 → v / 64 ^ m % 64 + 128 ≤ p.high →
      decodeFrom (some p) position (continuation (m + 1) v ++ rest)
        = (decodeFrom none (position + (m + 1)) rest).map
            (Char.ofNat (p.value * 64 ^ (m + 1) + v % 64 ^ (m + 1)) :: ·)
  | 0, p, position, hmissing, hlow, hhigh => by
      rw [continuation, continuation, List.cons_append, List.nil_append, decodeFrom,
        toNat_continuation, if_pos ⟨hlow, hhigh⟩, if_pos hmissing, Partial.extend,
        toNat_continuation]
      simp
  | m + 1, p, position, hmissing, hlow, hhigh => by
      have hmore : p.missing ≠ 1 := by omega
      have hbits : v / 64 ^ m % 64 < 64 := Nat.mod_lt _ (by decide)
      rw [continuation, List.cons_append, decodeFrom, toNat_continuation, if_pos ⟨hlow, hhigh⟩,
        if_neg hmore, decodeFrom_continuation v rest m]
      · have hvalue : (p.value * 64 + v / 64 ^ (m + 1) % 64) * 64 ^ (m + 1) + v % 64 ^ (m + 1)
            = p.value * 64 ^ (m + 1 + 1) + v % 64 ^ (m + 1 + 1) := by
          rw [Nat.mod_pow_succ (k := m + 1)]
          ring
        have hposition : position + 1 + (m + 1) = position + (m + 1 + 1) := by omega
        simp only [Partial.extend, toNat_continuation, Nat.add_sub_cancel, hvalue, hposition]
      · simp only [Partial.extend, hmissing]
        omega
      · simp only [Partial.extend]
        omega
      · simp only [Partial.extend]
        omega

/-! ## Lead bytes -/

theorem lead_two : ∀ k < 32, 2 ≤ k → lead (UInt8.ofNat (k + 192)) = .opens k 1 0x80 0xBF := by
  decide

/-- After E0 the next byte rules out overlong forms, after ED surrogates. -/
theorem lead_three : ∀ k < 16, lead (UInt8.ofNat (k + 224))
    = .opens k 2 (if k = 0 then 0xA0 else 0x80) (if k = 13 then 0x9F else 0xBF) := by
  decide

/-- After F0 the next byte rules out overlong forms, after F4 values above U+10FFFF. -/
theorem lead_four : ∀ k < 5, lead (UInt8.ofNat (k + 240))
    = .opens k 3 (if k = 0 then 0x90 else 0x80) (if k = 4 then 0x8F else 0xBF) := by
  decide

/-- A lead byte with its continuation bytes. -/
theorem decodeFrom_lead {b : UInt8} {u m low high : Nat} (v : Nat) (rest : Bytes) (position : Nat)
    (hlead : lead b = .opens u (m + 1) low high) (hlow : low ≤ v / 64 ^ m % 64 + 128)
    (hhigh : v / 64 ^ m % 64 + 128 ≤ high) :
    decodeFrom none position (b :: continuation (m + 1) v ++ rest)
      = (decodeFrom none (position + (m + 2)) rest).map
          (Char.ofNat (u * 64 ^ (m + 1) + v % 64 ^ (m + 1)) :: ·) := by
  rw [List.cons_append, decodeFrom]
  simp only [hlead]
  rw [decodeFrom_continuation v rest m _ _ rfl hlow hhigh]
  congr 2
  omega

/-! ## Code points -/

theorem utf8EncodeChar_eq (c : Char) : String.utf8EncodeChar c =
    if c.toNat ≤ 0x7F then [UInt8.ofNat c.toNat]
    else if c.toNat ≤ 0x7FF then UInt8.ofNat (c.toNat / 64 % 32 + 192) :: continuation 1 c.toNat
    else if c.toNat ≤ 0xFFFF then
      UInt8.ofNat (c.toNat / 4096 % 16 + 224) :: continuation 2 c.toNat
    else UInt8.ofNat (c.toNat / 262144 % 8 + 240) :: continuation 3 c.toNat := by
  unfold String.utf8EncodeChar
  simp [continuation]

theorem decodeFrom_encodeChar (c : Char) (position : Nat) (rest : Bytes) :
    decodeFrom none position (String.utf8EncodeChar c ++ rest)
      = (decodeFrom none (position + (String.utf8EncodeChar c).length) rest).map (c :: ·) := by
  have hvalid : c.toNat < 0xD800 ∨ 0xDFFF < c.toNat ∧ c.toNat < 0x110000 := c.valid
  have hself : Char.ofNat c.toNat = c := Char.ofNat_toNat c
  rw [utf8EncodeChar_eq]
  generalize c.toNat = v at hvalid hself ⊢
  split
  · have hwhole : lead (UInt8.ofNat v) = .whole v := by
      rw [lead, toNat_ofNat (by omega)]
      exact if_pos (by omega)
    rw [List.cons_append, decodeFrom]
    simp only [hwhole, hself]
    rfl
  split
  · rw [decodeFrom_lead v rest position (lead_two (v / 64 % 32) (by omega) (by omega)) (by omega)
      (by omega)]
    have hjoin : v / 64 % 32 * 64 ^ (0 + 1) + v % 64 ^ (0 + 1) = v := by omega
    rw [hjoin, hself]
    rfl
  split
  · rw [decodeFrom_lead v rest position (lead_three (v / 4096 % 16) (by omega))
      (by split <;> omega) (by split <;> omega)]
    have hjoin : v / 4096 % 16 * 64 ^ (1 + 1) + v % 64 ^ (1 + 1) = v := by omega
    rw [hjoin, hself]
    rfl
  · rw [decodeFrom_lead v rest position (lead_four (v / 262144 % 8) (by omega))
      (by split <;> omega) (by split <;> omega)]
    have hjoin : v / 262144 % 8 * 64 ^ (2 + 1) + v % 64 ^ (2 + 1) = v := by omega
    rw [hjoin, hself]
    rfl

theorem decodeFrom_encode : ∀ (t : Text) (position : Nat),
    decodeFrom none position (encode t) = .ok t
  | [], _ => rfl
  | c :: t, position => by
      rw [encode, List.flatMap_cons, decodeFrom_encodeChar]
      have ih := decodeFrom_encode t (position + (String.utf8EncodeChar c).length)
      rw [encode] at ih
      rw [ih]
      rfl

theorem decode_encode (t : Text) : decode (encode t) = .ok t :=
  decodeFrom_encode t 0

end Reckon.Utf8
