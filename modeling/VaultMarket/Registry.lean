import VaultMarket.Fault
import VaultMarket.Limits
import VaultMarket.Wire
set_option autoImplicit false

namespace VaultMarket

/-- The slots for service signers; a free slot holds the zero key. -/
structure SignerSlots where
  keys : List Key
  length_eq : keys.length = Limits.serviceSigners
deriving DecidableEq

namespace SignerSlots

def free : SignerSlots := ⟨List.replicate Limits.serviceSigners Key.zero, rfl⟩

instance : Inhabited SignerSlots := ⟨free⟩

def ofKeys? (keys : List Key) : Option SignerSlots :=
  if h : keys.length = Limits.serviceSigners then some ⟨keys, h⟩ else none

def set (s : SignerSlots) (i : Nat) (key : Key) : SignerSlots :=
  ⟨s.keys.set i key, by rw [List.length_set, s.length_eq]⟩

def front (s : SignerSlots) (n : Nat) : List Key := s.keys.take n

/-- Takes the first occurrence of `key` out of the first `n` slots; the keys behind it move up, the
last of the `n` slots becomes free, and the slots after them stay. -/
def erase (s : SignerSlots) (n : Nat) (key : Key) (used : n ≤ Limits.serviceSigners)
    (known : key ∈ s.front n) : SignerSlots :=
  ⟨(s.front n).erase key ++ Key.zero :: s.keys.drop n, by
    have filled := List.length_pos_of_mem known
    have width : (s.front n).length = n := by
      rw [front, List.length_take, s.length_eq]; omega
    rw [List.length_append, List.length_erase_of_mem known, List.length_cons, List.length_drop,
      s.length_eq, width]
    omega⟩

instance : Wire SignerSlots where
  encode s := s.keys.flatMap Wire.encode
  decode bs := do
    let (keys, rest) ← Wire.decodeMany Limits.serviceSigners bs
    let s ← ofKeys? keys
    return (s, rest)

end SignerSlots

inductive SignerChange where
  | add
  | remove
deriving DecidableEq

namespace SignerChange

def name : SignerChange → String
  | add => "Add"
  | remove => "Remove"

def index : SignerChange → UInt8
  | add => 0
  | remove => 1

def ofIndex? : UInt8 → Option SignerChange
  | 0 => some add
  | 1 => some remove
  | _ => none

def all : List SignerChange := [add, remove]

instance : Wire SignerChange := Wire.narrow index ofIndex?

end SignerChange

/-- The registry. `count` says how many slots are in use; a stored registry may claim more than
there are. -/
structure Registry where
  slots : SignerSlots
  count : UInt8
  createdAt : Int64
  createdBy : Key
  modifiedAt : Int64
  modifiedBy : Key
  updateAuthority : Key
  bump : UInt8
deriving DecidableEq, Inhabited

namespace Registry

instance : Wire Registry :=
  Wire.via
    (fun r => (r.slots, r.count, r.createdAt, r.createdBy, r.modifiedAt, r.modifiedBy,
      r.updateAuthority, r.bump))
    (fun (slots, count, createdAt, createdBy, modifiedAt, modifiedBy, updateAuthority, bump) =>
      ⟨slots, count, createdAt, createdBy, modifiedAt, modifiedBy, updateAuthority, bump⟩)

def active (r : Registry) : List Key := r.slots.front r.count.toNat

def isSigner (r : Registry) (key : Key) : Bool := key ∈ r.active

def add (r : Registry) (key : Key) : Except Failure Registry := do
  require (r.count.toNat < Limits.serviceSigners) (.raised .tooManyServiceSigners)
  require (key ∉ r.active) (.raised .duplicateServiceSigner)
  return { r with slots := r.slots.set r.count.toNat key, count := r.count + 1 }

/-- Strikes `key` off. A count beyond the slots leaves nothing to move up, so the step aborts. -/
def remove (r : Registry) (key : Key) : Except Failure Registry :=
  if known : key ∈ r.active then
    if used : r.count.toNat ≤ Limits.serviceSigners then
      .ok { r with slots := r.slots.erase r.count.toNat key used known, count := r.count - 1 }
    else .error .aborted
  else .error (.unattributed .unknownServiceSigner)

def change (r : Registry) : SignerChange → Key → Except Failure Registry
  | .add, key => r.add key
  | .remove, key => r.remove key

def touch (r : Registry) (now : Int64) (who : Key) : Registry :=
  { r with modifiedAt := now, modifiedBy := who }

def fresh (payer authority : Key) (now : Int64) (bump : UInt8) : Registry where
  slots := .free
  count := 0
  createdAt := now
  createdBy := payer
  modifiedAt := now
  modifiedBy := payer
  updateAuthority := authority
  bump := bump

def handOver (r : Registry) (previous next : Key) (now : Int64) : Registry :=
  { r with updateAuthority := next }.touch now previous

inductive Action where
  | add (key : Key)
  | remove (key : Key)
  | change (what : SignerChange) (key : Key)
  | touch (now : Int64) (who : Key)
deriving DecidableEq

def act (r : Registry) : Action → Except Failure Registry
  | .add key => r.add key
  | .remove key => r.remove key
  | .change what key => r.change what key
  | .touch now who => .ok (r.touch now who)

end Registry

end VaultMarket
