import VaultMarket.Bytes
set_option autoImplicit false

namespace VaultMarket

structure Key where
  bytes : Bytes
  length_eq : bytes.length = 32
deriving DecidableEq

namespace Key

def zero : Key := ⟨Bytes.zeros 32, rfl⟩

instance : Inhabited Key := ⟨zero⟩

def ofBytes? (bs : Bytes) : Option Key :=
  if h : bs.length = 32 then some ⟨bs, h⟩ else none

@[ext] theorem ext {k l : Key} (h : k.bytes = l.bytes) : k = l := by
  cases k; cases l; cases h; rfl

@[simp] theorem ofBytes?_bytes (k : Key) : ofBytes? k.bytes = some k := dif_pos k.length_eq

/-- The fifty-eight digits: no zero, no capital O, no capital I, no small l. -/
def alphabet : List Char :=
  "123456789ABCDEFGHJKLMNPQRSTUVWXYZabcdefghijkmnopqrstuvwxyz".toList

/-- The digits of `n`, in front of `tail`; `fuel` is at least the number of digits. -/
def base58Digits : Nat → Nat → List Char → List Char
  | 0, _, tail => tail
  | fuel + 1, n, tail =>
    if n = 0 then tail
    else base58Digits fuel (n / 58) (alphabet.getD (n % 58) '1' :: tail)

def base58Value? : List Char → Nat → Option Nat
  | [], n => some n
  | c :: cs, n => (alphabet.idxOf? c).bind fun digit => base58Value? cs (58 * n + digit)

def toNat (k : Key) : Nat := Bytes.toNat k.bytes.reverse

def toBase58 (k : Key) : String :=
  String.ofList ((k.bytes.takeWhile (· == 0)).map (fun _ => '1') ++ base58Digits 44 k.toNat [])

def ofBase58? (s : String) : Option Key := do
  let n ← base58Value? s.toList 0
  let k ← ofBytes? (Bytes.littleEndian 32 n).reverse
  if k.toBase58 = s then some k else none

instance : ToString Key := ⟨toBase58⟩

end Key

end VaultMarket
