import VaultMarket.Bytes
set_option autoImplicit false

/-!
# Points of the twisted Edwards curve

The curve is −x² + y² = 1 + d·x²·y² over the integers modulo 2²⁵⁵ − 19. Thirty-two bytes name a
point by its y, whose top bit is the sign of x; they are a point exactly when some x solves the
equation for that y. A derived address must not be a point, so that no secret key belongs to it.
-/

namespace VaultMarket.Curve

def signWeight : Nat :=
  57896044618658097711785492504343953926634992332820282019728792003956564819968

def prime : Nat := signWeight - 19

/-- The coefficient d = −121665/121666. -/
def coefficient : Nat :=
  37095705934669439343138083508754565189542113879843219016388785533085940283555

def powMod (m : Nat) : Nat → Nat → Nat → Nat
  | 0, _, _ => 1 % m
  | bits + 1, base, exponent =>
    let rest := powMod m bits (base * base % m) (exponent / 2)
    if exponent % 2 = 1 then base * rest % m else rest

/-- Euler's criterion, with zero counted as a square. -/
def isSquare (n : Nat) : Bool :=
  n % prime == 0 || powMod prime 255 (n % prime) ((prime - 1) / 2) == 1

def yCoordinate (bs : Bytes) : Nat := bs.toNat % signWeight % prime

/-- Whether x² = (y² − 1)/(d·y² + 1) has a solution. The denominator is never zero, since −1/d is
not a square, so the quotient is a square exactly when the product is. The sign of x does not
matter, also when x is zero. -/
def isPoint (bs : Bytes) : Bool :=
  let y := yCoordinate bs
  isSquare ((y * y + (prime - 1)) * (coefficient * (y * y) + 1))

end VaultMarket.Curve
