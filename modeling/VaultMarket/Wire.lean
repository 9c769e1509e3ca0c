import VaultMarket.Key
set_option autoImplicit false

/-!
# The binary format

Numbers are little-endian, a text or list starts with its length in four bytes, an optional value
starts with a byte 0 or 1, and the fields of a structure follow one another. A structure gets its
format from the tuple of its fields, so a field order is written down once.
-/

namespace VaultMarket

/-- A format: `decode` takes a value off the front of the bytes and leaves the rest. -/
class Wire (α : Type) where
  encode : α → Bytes
  decode : Bytes → Option (α × Bytes)

namespace Wire

variable {α β : Type}

def takeBytes (n : Nat) (bs : Bytes) : Option (Bytes × Bytes) :=
  if n ≤ bs.length then some (bs.take n, bs.drop n) else none

/-- A format through another type: `unview?` refuses what no value of `α` is written as. -/
@[reducible] def narrow [Wire β] (view : α → β) (unview? : β → Option α) : Wire α where
  encode a := encode (view a)
  decode bs := (decode bs).bind fun (b, rest) => (unview? b).map (·, rest)

/-- A format through a type with the same values. -/
@[reducible] def via [Wire β] (view : α → β) (unview : β → α) : Wire α :=
  narrow view (some ∘ unview)

instance : Wire Unit where
  encode _ := []
  decode bs := some ((), bs)

instance : Wire UInt8 where
  encode b := [b]
  decode
    | [] => none
    | b :: rest => some (b, rest)

@[reducible] def unsigned (width : Nat) (toNat : α → Nat) (ofNat : Nat → α) : Wire α where
  encode a := Bytes.littleEndian width (toNat a)
  decode bs := (takeBytes width bs).map fun (b, rest) => (ofNat b.toNat, rest)

instance : Wire UInt16 := unsigned 2 UInt16.toNat UInt16.ofNat
instance : Wire UInt32 := unsigned 4 UInt32.toNat UInt32.ofNat
instance : Wire UInt64 := unsigned 8 UInt64.toNat UInt64.ofNat
instance : Wire Int64 := via Int64.toUInt64 UInt64.toInt64

instance : Wire Key where
  encode k := k.bytes
  decode bs := (takeBytes 32 bs).bind fun (b, rest) => (Key.ofBytes? b).map (·, rest)

instance : Wire String where
  encode s := encode (UInt32.ofNat (Bytes.ofString s).length) ++ Bytes.ofString s
  decode bs := do
    let (n, bs) ← decode (α := UInt32) bs
    let (b, rest) ← takeBytes n.toNat bs
    let s ← b.toString?
    return (s, rest)

instance [Wire α] : Wire (Option α) where
  encode
    | none => [0]
    | some a => 1 :: encode a
  decode
    | 0 :: rest => some (none, rest)
    | 1 :: rest => (decode rest).map fun (a, rest) => (some a, rest)
    | _ => none

instance [Wire α] [Wire β] : Wire (α × β) where
  encode p := encode p.1 ++ encode p.2
  decode bs := do
    let (a, bs) ← decode bs
    let (b, rest) ← decode bs
    return ((a, b), rest)

def decodeMany [Wire α] : Nat → Bytes → Option (List α × Bytes)
  | 0, bs => some ([], bs)
  | n + 1, bs => do
    let (a, bs) ← decode bs
    let (as, rest) ← decodeMany n bs
    return (a :: as, rest)

instance [Wire α] : Wire (List α) where
  encode as := encode (UInt32.ofNat as.length) ++ as.flatMap encode
  decode bs := do
    let (n, bs) ← decode (α := UInt32) bs
    decodeMany n.toNat bs

end Wire

end VaultMarket
