set_option autoImplicit false

namespace VaultMarket

abbrev Bytes := List UInt8

namespace Bytes

def ofString (s : String) : Bytes := s.toByteArray.data.toList

/-- The text whose UTF-8 bytes these are, if they are UTF-8 (shortest forms only, no surrogates). -/
def toString? (bs : Bytes) : Option String := String.fromUTF8? ⟨⟨bs⟩⟩

def zeros (n : Nat) : Bytes := List.replicate n 0

def littleEndian : Nat → Nat → Bytes
  | 0, _ => []
  | width + 1, n => UInt8.ofNat n :: littleEndian width (n / 256)

def capacity : Nat → Nat
  | 0 => 1
  | width + 1 => 256 * capacity width

def toNat : Bytes → Nat
  | [] => 0
  | b :: bs => b.toNat + 256 * toNat bs

@[simp] theorem length_littleEndian (width n : Nat) : (littleEndian width n).length = width := by
  induction width generalizing n with
  | zero => rfl
  | succ width ih => simp [littleEndian, ih]

theorem toNat_littleEndian (width n : Nat) (h : n < capacity width) :
    toNat (littleEndian width n) = n := by
  induction width generalizing n with
  | zero => simp only [capacity] at h; simp only [littleEndian, toNat]; omega
  | succ width ih =>
    have bound : n / 256 < capacity width := Nat.div_lt_of_lt_mul h
    simp only [littleEndian, toNat, ih _ bound, UInt8.toNat_ofNat']
    omega

theorem toNat_lt (bs : Bytes) : toNat bs < capacity bs.length := by
  induction bs with
  | nil => simp [toNat, capacity]
  | cons b bs ih =>
    have := b.toNat_lt
    simp only [toNat, List.length_cons, capacity]
    omega

theorem littleEndian_toNat (bs : Bytes) : littleEndian bs.length (toNat bs) = bs := by
  induction bs with
  | nil => rfl
  | cons b bs ih =>
    have hb := b.toNat_lt
    have low : (b.toNat + 256 * toNat bs) / 256 = toNat bs := by omega
    have head : UInt8.ofNat (b.toNat + 256 * toNat bs) = b := by
      apply UInt8.toNat_inj.mp
      simp only [UInt8.toNat_ofNat']
      omega
    simp only [List.length_cons, littleEndian, toNat, low, head, ih]

/-- Puts `new` into `data` from position `start` on; the bytes around it stay. -/
def overwrite (data : Bytes) (start : Nat) (new : Bytes) : Bytes :=
  data.take start ++ new ++ data.drop (start + new.length)

private def hexDigit (n : Nat) : Char :=
  if n < 10 then Char.ofNat (48 + n) else Char.ofNat (87 + n)

private def hexValue? (c : Char) : Option Nat :=
  if '0' ≤ c ∧ c ≤ '9' then some (c.toNat - 48)
  else if 'a' ≤ c ∧ c ≤ 'f' then some (c.toNat - 87)
  else none

private def hexChars : Bytes → List Char
  | [] => []
  | b :: bs => hexDigit (b.toNat / 16) :: hexDigit (b.toNat % 16) :: hexChars bs

private def ofHexChars? : List Char → Option Bytes
  | [] => some []
  | [_] => none
  | high :: low :: rest => do
    let h ← hexValue? high
    let l ← hexValue? low
    return UInt8.ofNat (16 * h + l) :: (← ofHexChars? rest)

def toHex (bs : Bytes) : String := String.ofList (hexChars bs)

def ofHex? (s : String) : Option Bytes := ofHexChars? s.toList

end Bytes

end VaultMarket
