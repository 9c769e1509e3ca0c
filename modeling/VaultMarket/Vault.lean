import VaultMarket.Fault
import VaultMarket.Limits
import VaultMarket.Wire
set_option autoImplicit false

namespace VaultMarket

inductive VaultKind where
  | user
  | server
  | escrow
  | airdrop
deriving DecidableEq, Inhabited

namespace VaultKind

def all : List VaultKind := [user, server, escrow, airdrop]

def name : VaultKind → String
  | user => "User"
  | server => "Server"
  | escrow => "Escrow"
  | airdrop => "Airdrop"

def word : VaultKind → String
  | user => "user"
  | server => "server"
  | escrow => "escrow"
  | airdrop => "airdrop"

def index : VaultKind → UInt8
  | user => 0
  | server => 1
  | escrow => 2
  | airdrop => 3

def ofIndex? : UInt8 → Option VaultKind
  | 0 => some user
  | 1 => some server
  | 2 => some escrow
  | 3 => some airdrop
  | _ => none

instance : Wire VaultKind := Wire.narrow index ofIndex?

end VaultKind

structure VaultTerms where
  serverId : String
  serverName : String
deriving DecidableEq, Inhabited

namespace VaultTerms

instance : Wire VaultTerms :=
  Wire.via (fun t => (t.serverId, t.serverName)) (fun (id, name) => ⟨id, name⟩)

def validate (t : VaultTerms) : Except Failure Unit := do
  require (t.serverId ≠ "") (.raised .invalidServerId)
  require (t.serverName ≠ "") (.raised .invalidServerName)
  require (t.serverId.utf8ByteSize ≤ Limits.serverId) (.raised .nameTooLong)
  require (t.serverName.utf8ByteSize ≤ Limits.serverName) (.raised .nameTooLong)

end VaultTerms

structure Vault where
  kind : VaultKind
  creator : Key
  authority : Key
  serverId : String
  serverName : String
  createdAt : Int64
  modifiedAt : Int64
  bump : UInt8
deriving DecidableEq, Inhabited

namespace Vault

instance : Wire Vault :=
  Wire.via
    (fun v => (v.kind, v.creator, v.authority, v.serverId, v.serverName, v.createdAt,
      v.modifiedAt, v.bump))
    (fun (kind, creator, authority, serverId, serverName, createdAt, modifiedAt, bump) =>
      ⟨kind, creator, authority, serverId, serverName, createdAt, modifiedAt, bump⟩)

/-- The terms that a vault of this kind is opened under: a user vault has none, whatever was
offered, and every other kind needs valid ones. -/
def settledTerms : VaultKind → Option VaultTerms → Except Failure VaultTerms
  | .user, _ => .ok default
  | _, some terms => do
    terms.validate
    return terms
  | _, none => .error (.raised .invalidParameter)

def fresh (kind : VaultKind) (creator : Key) (terms : Option VaultTerms) (now : Int64)
    (bump : UInt8) : Except Failure Vault := do
  let terms ← settledTerms kind terms
  return {
    kind, creator, bump
    authority := creator
    serverId := terms.serverId
    serverName := terms.serverName
    createdAt := now
    modifiedAt := now }

def handOver (v : Vault) (signer next : Key) (now : Int64) : Except Failure Vault := do
  require (signer = v.authority)
    (.refused .invalidAuthority .raised (some (signer, v.authority)))
  return { v with authority := next, modifiedAt := now }

inductive Action where
  | fresh (kind : VaultKind) (creator : Key) (terms : Option VaultTerms) (now : Int64)
      (bump : UInt8)
  | handOver (signer next : Key) (now : Int64)
deriving DecidableEq

def act (v : Vault) : Action → Except Failure Vault
  | .fresh kind creator terms now bump => fresh kind creator terms now bump
  | .handOver signer next now => v.handOver signer next now

end Vault

end VaultMarket
