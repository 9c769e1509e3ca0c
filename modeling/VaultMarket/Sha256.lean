import VaultMarket.Bytes
set_option autoImplicit false

/-!
# SHA-256

The hash function behind derived addresses and type tags. Words are natural numbers below 2³², so
that the hash of a closed message can also be evaluated inside a proof. The message schedule is
never stored whole: each round takes the first of sixteen words and appends the word that is due
sixteen rounds later.
-/

namespace VaultMarket.Sha256

def modulus : Nat := 4294967296

/-- The word twice over: a shift of it by less than 32 has the rotated word as its low half. -/
def doubled (x : Nat) : Nat := x * 4294967297

def choose (x y z : Nat) : Nat := (x &&& y) ^^^ ((x ^^^ 0xffffffff) &&& z)
def majority (x y z : Nat) : Nat := (x &&& y) ^^^ (x &&& z) ^^^ (y &&& z)

def rotations (i j k x : Nat) : Nat :=
  ((doubled x >>> i) ^^^ (doubled x >>> j) ^^^ (doubled x >>> k)) % modulus

def rotationsAndShift (i j k x : Nat) : Nat :=
  ((doubled x >>> i) ^^^ (doubled x >>> j) ^^^ (x >>> k)) % modulus

def bigSigma0 : Nat → Nat := rotations 2 13 22
def bigSigma1 : Nat → Nat := rotations 6 11 25
def smallSigma0 : Nat → Nat := rotationsAndShift 7 18 3
def smallSigma1 : Nat → Nat := rotationsAndShift 17 19 10

structure State where
  a : Nat
  b : Nat
  c : Nat
  d : Nat
  e : Nat
  f : Nat
  g : Nat
  h : Nat

/-- The fractional parts of the square roots of the first eight primes. -/
def initial : State :=
  ⟨0x6a09e667, 0xbb67ae85, 0x3c6ef372, 0xa54ff53a, 0x510e527f, 0x9b05688c, 0x1f83d9ab, 0x5be0cd19⟩

/-- The fractional parts of the cube roots of the first sixty-four primes, one for each round. -/
def roundConstants : List Nat :=
  [0x428a2f98, 0x71374491, 0xb5c0fbcf, 0xe9b5dba5, 0x3956c25b, 0x59f111f1, 0x923f82a4, 0xab1c5ed5,
   0xd807aa98, 0x12835b01, 0x243185be, 0x550c7dc3, 0x72be5d74, 0x80deb1fe, 0x9bdc06a7, 0xc19bf174,
   0xe49b69c1, 0xefbe4786, 0x0fc19dc6, 0x240ca1cc, 0x2de92c6f, 0x4a7484aa, 0x5cb0a9dc, 0x76f988da,
   0x983e5152, 0xa831c66d, 0xb00327c8, 0xbf597fc7, 0xc6e00bf3, 0xd5a79147, 0x06ca6351, 0x14292967,
   0x27b70a85, 0x2e1b2138, 0x4d2c6dfc, 0x53380d13, 0x650a7354, 0x766a0abb, 0x81c2c92e, 0x92722c85,
   0xa2bfe8a1, 0xa81a664b, 0xc24b8b70, 0xc76c51a3, 0xd192e819, 0xd6990624, 0xf40e3585, 0x106aa070,
   0x19a4c116, 0x1e376c08, 0x2748774c, 0x34b0bcb5, 0x391c0cb3, 0x4ed8aa4a, 0x5b9cca4f, 0x682e6ff3,
   0x748f82ee, 0x78a5636f, 0x84c87814, 0x8cc70208, 0x90befffa, 0xa4506ceb, 0xbef9a3f7, 0xc67178f2]

def State.round (s : State) (k w : Nat) : State :=
  let t₁ := s.h + bigSigma1 s.e + choose s.e s.f s.g + k + w
  let t₂ := bigSigma0 s.a + majority s.a s.b s.c
  ⟨(t₁ + t₂) % modulus, s.a, s.b, s.c, (s.d + t₁) % modulus, s.e, s.f, s.g⟩

structure Window where
  w₀ : Nat
  w₁ : Nat
  w₂ : Nat
  w₃ : Nat
  w₄ : Nat
  w₅ : Nat
  w₆ : Nat
  w₇ : Nat
  w₈ : Nat
  w₉ : Nat
  w₁₀ : Nat
  w₁₁ : Nat
  w₁₂ : Nat
  w₁₃ : Nat
  w₁₄ : Nat
  w₁₅ : Nat

def Window.ofWords (words : List Nat) : Window :=
  let w (i : Nat) := words.getD i 0
  ⟨w 0, w 1, w 2, w 3, w 4, w 5, w 6, w 7, w 8, w 9, w 10, w 11, w 12, w 13, w 14, w 15⟩

def Window.next : Window → Window
  | ⟨w₀, w₁, w₂, w₃, w₄, w₅, w₆, w₇, w₈, w₉, w₁₀, w₁₁, w₁₂, w₁₃, w₁₄, w₁₅⟩ =>
    ⟨w₁, w₂, w₃, w₄, w₅, w₆, w₇, w₈, w₉, w₁₀, w₁₁, w₁₂, w₁₃, w₁₄, w₁₅,
      (smallSigma1 w₁₄ + w₉ + smallSigma0 w₁ + w₀) % modulus⟩

def rounds : List Nat → Window → State → State
  | [], _, s => s
  | k :: ks, window, s => rounds ks window.next (s.round k window.w₀)

def State.add (s t : State) : State :=
  ⟨(s.a + t.a) % modulus, (s.b + t.b) % modulus, (s.c + t.c) % modulus, (s.d + t.d) % modulus,
    (s.e + t.e) % modulus, (s.f + t.f) % modulus, (s.g + t.g) % modulus, (s.h + t.h) % modulus⟩

def State.absorb (s : State) : Nat → List Nat → State
  | 0, _ => s
  | n + 1, words =>
    (s.add (rounds roundConstants (Window.ofWords words) s)).absorb n (words.drop 16)

def wordsOfBytes : Bytes → List Nat
  | b₀ :: b₁ :: b₂ :: b₃ :: rest =>
    (((b₀.toNat * 256 + b₁.toNat) * 256 + b₂.toNat) * 256 + b₃.toNat) :: wordsOfBytes rest
  | _ => []

def bytesOfWord (w : Nat) : Bytes := (Bytes.littleEndian 4 w).reverse

def pad (message : Bytes) : Bytes :=
  message ++ [0x80] ++ Bytes.zeros ((119 - message.length % 64) % 64) ++
    (Bytes.littleEndian 8 (8 * message.length)).reverse

def State.toBytes (s : State) : Bytes :=
  [s.a, s.b, s.c, s.d, s.e, s.f, s.g, s.h].flatMap bytesOfWord

def hash (message : Bytes) : Bytes :=
  let words := wordsOfBytes (pad message)
  (initial.absorb (words.length / 16) words).toBytes

@[simp] theorem length_hash (message : Bytes) : (hash message).length = 32 := by
  simp [hash, State.toBytes, bytesOfWord]

end VaultMarket.Sha256
