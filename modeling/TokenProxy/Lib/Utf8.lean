import Mathlib.Data.List.Basic

/-!
# Decoding UTF-8 as it arrives

A decoder that reads one byte after another and keeps what it has of a character that is not
complete. A text that was encoded is read back, however its bytes are cut into chunks
(`decode_encode`, `decode_append`).
-/

namespace TokenProxy.Lib

/-- What a decoder keeps of a character: the bits so far, how many bytes are missing, and
the bounds of the next one. -/
structure Utf8Decoder where
  codePoint : Nat := 0
  missing : Nat := 0
  lower : Nat := 0x80
  upper : Nat := 0xBF
  deriving DecidableEq

namespace Utf8Decoder

def replacement : Char := '\uFFFD'

def lead (b : Nat) : Utf8Decoder × List Char :=
  if b ≤ 0x7F then ({}, [Char.ofNat b])
  else if 0xC2 ≤ b ∧ b ≤ 0xDF then ({ codePoint := b % 32, missing := 1 }, [])
  else if 0xE0 ≤ b ∧ b ≤ 0xEF then
    ({ codePoint := b % 16, missing := 2
       lower := if b = 0xE0 then 0xA0 else 0x80, upper := if b = 0xED then 0x9F else 0xBF }, [])
  else if 0xF0 ≤ b ∧ b ≤ 0xF4 then
    ({ codePoint := b % 8, missing := 3
       lower := if b = 0xF0 then 0x90 else 0x80, upper := if b = 0xF4 then 0x8F else 0xBF }, [])
  else ({}, [replacement])

/-- One byte: a byte that does not continue the character ends it, and is read again. -/
def step (s : Utf8Decoder) (b : UInt8) : Utf8Decoder × List Char :=
  if s.missing = 0 then lead b.toNat
  else if b.toNat < s.lower ∨ s.upper < b.toNat then
    let (next, out) := lead b.toNat
    (next, replacement :: out)
  else
    let codePoint := s.codePoint * 64 + b.toNat % 64
    if s.missing = 1 then ({}, [Char.ofNat codePoint]) else ({ codePoint, missing := s.missing - 1 }, [])

def decode (s : Utf8Decoder) : List UInt8 → Utf8Decoder × List Char
  | [] => (s, [])
  | b :: bs =>
    let (next, out) := s.step b
    let (last, rest) := next.decode bs
    (last, out ++ rest)

def finish (s : Utf8Decoder) : List Char := if s.missing = 0 then [] else [replacement]

theorem step_lead (b : UInt8) : ({} : Utf8Decoder).step b = lead b.toNat := if_pos rfl

theorem decode_cons {s next : Utf8Decoder} {b : UInt8} {out : List Char}
    (h : s.step b = (next, out)) (bs : List UInt8) :
    s.decode (b :: bs) = ((next.decode bs).1, out ++ (next.decode bs).2) := by
  rw [decode.eq_def]
  simp only [h]

/-- **Chunks do not matter.** -/
theorem decode_append (s : Utf8Decoder) (xs ys : List UInt8) :
    s.decode (xs ++ ys) = ((((s.decode xs).1).decode ys).1, (s.decode xs).2 ++ (((s.decode xs).1).decode ys).2) := by
  induction xs generalizing s with
  | nil => simp [decode]
  | cons b xs ih => simp [decode, ih]

/-! ### What was encoded is read back -/

theorem toNat_tail (n : Nat) : (UInt8.ofNat (n % 64 + 0x80)).toNat = n % 64 + 0x80 := by
  rw [UInt8.toNat_ofNat']
  omega

theorem step_last {codePoint lower upper n : Nat} (hlower : lower ≤ n % 64 + 0x80)
    (hupper : n % 64 + 0x80 ≤ upper) :
    (⟨codePoint, 1, lower, upper⟩ : Utf8Decoder).step (UInt8.ofNat (n % 64 + 0x80)) =
      ({}, [Char.ofNat (codePoint * 64 + n % 64)]) := by
  have hrange : ¬ (n % 64 + 0x80 < lower ∨ upper < n % 64 + 0x80) := by omega
  have hbits : (n % 64 + 0x80) % 64 = n % 64 := by omega
  unfold step
  rw [if_neg (by simp), toNat_tail, if_neg hrange, hbits]
  simp

theorem step_tail {codePoint missing lower upper n : Nat} (hlower : lower ≤ n % 64 + 0x80)
    (hupper : n % 64 + 0x80 ≤ upper) :
    (⟨codePoint, missing + 2, lower, upper⟩ : Utf8Decoder).step (UInt8.ofNat (n % 64 + 0x80)) =
      ({ codePoint := codePoint * 64 + n % 64, missing := missing + 1 }, []) := by
  have hrange : ¬ (n % 64 + 0x80 < lower ∨ upper < n % 64 + 0x80) := by omega
  have hbits : (n % 64 + 0x80) % 64 = n % 64 := by omega
  unfold step
  rw [if_neg (by simp), toNat_tail, if_neg hrange, hbits]
  simp

theorem decode_encodeChar (c : Char) :
    ({} : Utf8Decoder).decode (String.utf8EncodeChar c) = ({}, [c]) := by
  have hvalid : c.val.toNat < 0xD800 ∨ (0xDFFF < c.val.toNat ∧ c.val.toNat < 0x110000) := c.valid
  have hback : Char.ofNat c.val.toNat = c := Char.ofNat_toNat c
  unfold String.utf8EncodeChar
  simp only
  generalize c.val.toNat = v at hvalid hback
  split
  · have hb : (UInt8.ofNat v).toNat = v := by
      rw [UInt8.toNat_ofNat']
      omega
    have hlead : ({} : Utf8Decoder).step (UInt8.ofNat v) = ({}, [c]) := by
      unfold step lead
      rw [if_pos rfl, hb, if_pos (by assumption), hback]
    rw [decode_cons hlead]
    rfl
  split
  · have hb : (UInt8.ofNat (v / 64 % 0x20 + 0xc0)).toNat = v / 64 % 32 + 192 := by
      rw [UInt8.toNat_ofNat']
      omega
    have hlead : ({} : Utf8Decoder).step (UInt8.ofNat (v / 64 % 0x20 + 0xc0)) =
        ({ codePoint := v / 64, missing := 1 }, []) := by
      rw [step_lead, hb]
      unfold lead
      rw [if_neg (by omega), if_pos (by omega), show (v / 64 % 32 + 192) % 32 = v / 64 by omega]
    have hcode : v / 64 * 64 + v % 64 = v := by omega
    rw [decode_cons hlead, decode_cons (step_last (by omega) (by omega)), hcode, hback]
    rfl
  split
  · have hb : (UInt8.ofNat (v / 4096 % 0x10 + 0xe0)).toNat = v / 4096 % 16 + 224 := by
      rw [UInt8.toNat_ofNat']
      omega
    have hlead : ({} : Utf8Decoder).step (UInt8.ofNat (v / 4096 % 0x10 + 0xe0)) =
        ({ codePoint := v / 4096, missing := 2
           lower := if v / 4096 = 0 then 0xA0 else 0x80, upper := if v / 4096 = 13 then 0x9F else 0xBF }, []) := by
      rw [step_lead, hb]
      unfold lead
      have hlower : v / 4096 % 16 + 224 = 0xE0 ↔ v / 4096 = 0 := by omega
      have hupper : v / 4096 % 16 + 224 = 0xED ↔ v / 4096 = 13 := by omega
      rw [if_neg (by omega), if_neg (by omega), if_pos (by omega), show (v / 4096 % 16 + 224) % 16 = v / 4096 by omega]
      simp only [hlower, hupper]
    have hcode : (v / 4096 * 64 + v / 64 % 64) * 64 + v % 64 = v := by omega
    rw [decode_cons hlead, decode_cons (step_tail (by split <;> omega) (by split <;> omega)),
      decode_cons (step_last (by omega) (by omega)),
      hcode, hback]
    rfl
  · have hb : (UInt8.ofNat (v / 262144 % 0x08 + 0xf0)).toNat = v / 262144 % 8 + 240 := by
      rw [UInt8.toNat_ofNat']
      omega
    have hlead : ({} : Utf8Decoder).step (UInt8.ofNat (v / 262144 % 0x08 + 0xf0)) =
        ({ codePoint := v / 262144, missing := 3
           lower := if v / 262144 = 0 then 0x90 else 0x80, upper := if v / 262144 = 4 then 0x8F else 0xBF }, []) := by
      rw [step_lead, hb]
      unfold lead
      have hlower : v / 262144 % 8 + 240 = 0xF0 ↔ v / 262144 = 0 := by omega
      have hupper : v / 262144 % 8 + 240 = 0xF4 ↔ v / 262144 = 4 := by omega
      rw [if_neg (by omega), if_neg (by omega), if_neg (by omega), if_pos (by omega),
        show (v / 262144 % 8 + 240) % 8 = v / 262144 by omega]
      simp only [hlower, hupper]
    have hcode : ((v / 262144 * 64 + v / 4096 % 64) * 64 + v / 64 % 64) * 64 + v % 64 = v := by omega
    rw [decode_cons hlead, decode_cons (step_tail (by split <;> omega) (by split <;> omega)),
      decode_cons (step_tail (by omega) (by omega)), decode_cons (step_last (by omega) (by omega)),
      hcode, hback]
    rfl

def encode (cs : List Char) : List UInt8 := cs.flatMap String.utf8EncodeChar

/-- **A text is read back.** -/
theorem decode_encode (cs : List Char) : ({} : Utf8Decoder).decode (encode cs) = ({}, cs) := by
  induction cs with
  | nil => rfl
  | cons c cs ih =>
    show ({} : Utf8Decoder).decode (String.utf8EncodeChar c ++ encode cs) = _
    rw [decode_append, decode_encodeChar, ih]
    rfl

end Utf8Decoder

end TokenProxy.Lib
