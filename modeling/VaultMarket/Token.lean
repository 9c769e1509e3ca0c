import VaultMarket.Fault
import VaultMarket.Ledger
import VaultMarket.Wire
set_option autoImplicit false

namespace VaultMarket

/-- An optional field of fixed width. The value of an absent field has no meaning but is kept. -/
structure Padded (α : Type) where
  present : Bool
  value : α
deriving DecidableEq

namespace Padded

variable {α : Type}

def encodePresence (present : Bool) : Bytes := [if present then 1 else 0, 0, 0, 0]

def decodePresence : Bytes → Option (Bool × Bytes)
  | 0 :: 0 :: 0 :: 0 :: rest => some (false, rest)
  | 1 :: 0 :: 0 :: 0 :: rest => some (true, rest)
  | _ => none

instance [Wire α] : Wire (Padded α) where
  encode s := encodePresence s.present ++ Wire.encode s.value
  decode bs := do
    let (present, bs) ← decodePresence bs
    let (value, rest) ← Wire.decode bs
    return (⟨present, value⟩, rest)

end Padded

def flagIndex : Bool → UInt8
  | false => 0
  | true => 1

def flagOfIndex? : UInt8 → Option Bool
  | 0 => some false
  | 1 => some true
  | _ => none

instance : Wire Bool := Wire.narrow flagIndex flagOfIndex?

structure Mint where
  authority : Padded Key
  supply : UInt64
  decimals : UInt8
  initialized : Bool
  freezeAuthority : Padded Key
deriving DecidableEq

inductive HoldingState where
  | uninitialized
  | initialized
  | frozen
deriving DecidableEq

namespace HoldingState

def index : HoldingState → UInt8
  | uninitialized => 0
  | initialized => 1
  | frozen => 2

def ofIndex? : UInt8 → Option HoldingState
  | 0 => some uninitialized
  | 1 => some initialized
  | 2 => some frozen
  | _ => none

instance : Wire HoldingState := Wire.narrow index ofIndex?

end HoldingState

/-- An amount of a token. `reserve` is present in holdings of native lamports. -/
structure Holding where
  mint : Key
  owner : Key
  amount : UInt64
  delegate : Padded Key
  state : HoldingState
  reserve : Padded UInt64
  delegated : UInt64
  closeAuthority : Padded Key
deriving DecidableEq

instance : Wire Mint :=
  Wire.via (fun m => (m.authority, m.supply, m.decimals, m.initialized, m.freezeAuthority))
    (fun (authority, supply, decimals, initialized, freezeAuthority) =>
      ⟨authority, supply, decimals, initialized, freezeAuthority⟩)

instance : Wire Holding :=
  Wire.via
    (fun h => (h.mint, h.owner, h.amount, h.delegate, h.state, h.reserve, h.delegated,
      h.closeAuthority))
    (fun (mint, owner, amount, delegate, state, reserve, delegated, closeAuthority) =>
      ⟨mint, owner, amount, delegate, state, reserve, delegated, closeAuthority⟩)

namespace Mint

def width : Nat := 82

def unpack (data : Bytes) : Except HostFault Mint := do
  if data.length ≠ width then throw .invalidAccountData
  match Wire.decode data with
  | none => throw .invalidAccountData
  | some ((m : Mint), _) => if m.initialized then return m else throw .uninitializedAccount

def fresh (authority : Key) (decimals : UInt8) : Mint where
  authority := ⟨true, authority⟩
  supply := 0
  decimals := decimals
  initialized := true
  freezeAuthority := ⟨false, Key.zero⟩

end Mint

namespace Holding

def width : Nat := 165

def unpack (data : Bytes) : Except HostFault Holding := do
  if data.length ≠ width then throw .invalidAccountData
  match Wire.decode data with
  | none => throw .invalidAccountData
  | some ((h : Holding), _) =>
    if h.state = .uninitialized then throw .uninitializedAccount else return h

end Holding

namespace Multisig

def width : Nat := 355

/-- How many keys have to sign for the account. -/
def unpack (data : Bytes) : Except HostFault UInt8 := do
  if data.length ≠ width then throw .invalidAccountData
  match data with
  | required :: _ :: initialized :: _ =>
    match flagOfIndex? initialized with
    | none => throw .invalidAccountData
    | some false => throw .uninitializedAccount
    | some true => return required
  | _ => throw .invalidAccountData

end Multisig

namespace Token

def failed (code : Nat) : Failure := .host (.custom code) .unattributed

def unpackFailed (fault : HostFault) : Failure := .host fault .unattributed

def openMint (key authority : Key) (decimals : UInt8) (l : Ledger) : Ledger :=
  l.setData key (Wire.encode (Mint.fresh authority decimals))

/-- Nobody signs for an authority that is a multisignature account, so it must not ask for keys. -/
def requireSole (authority : Account) : Except Failure Unit :=
  if authority.owner = Identity.tokenProgram ∧ authority.data.length = Multisig.width then do
    let required ← (Multisig.unpack authority.data).mapError unpackFailed
    require (required = 0) (.host .missingRequiredSignature .unattributed)
  else .ok ()

def issue (mintKey target authority : Key) (amount : UInt64) (l : Ledger) :
    Except Failure Ledger := do
  let holding ← (Holding.unpack (l.get target).data).mapError unpackFailed
  require (holding.state ≠ .frozen) (failed 17)
  require (holding.reserve.present = false) (failed 10)
  require (holding.mint = mintKey) (failed 3)
  let mint ← (Mint.unpack (l.get mintKey).data).mapError unpackFailed
  require (mint.authority.present = true → mint.authority.value = authority) (failed 4)
  require (mint.authority.present = true) (failed 5)
  requireSole (l.get authority)
  require (holding.amount.toNat + amount.toNat < UInt64.size) (failed 14)
  require (mint.supply.toNat + amount.toNat < UInt64.size) (failed 14)
  let l := l.setData target (Wire.encode { holding with amount := holding.amount + amount })
  return l.setData mintKey (Wire.encode { mint with supply := mint.supply + amount })

end Token

end VaultMarket
