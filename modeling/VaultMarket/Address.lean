import VaultMarket.Curve
import VaultMarket.Limits
import VaultMarket.Sha256
import VaultMarket.Vault
set_option autoImplicit false

namespace VaultMarket

inductive Derivation where
  | registry (authority : Key)
  | vault (kind : VaultKind) (creator : Key)
  | mintAuthority
  | tokenMint (payer : Key) (nonce : UInt16)
  | mintRecord (mint : Key)
  | user (username : String)
  | handle (text : String)
  | server (name ticker : String)
deriving DecidableEq

def VaultKind.seed : VaultKind → String
  | .user => "user-vault"
  | .server => "server-vault"
  | .escrow => "escrow-vault"
  | .airdrop => "airdrop-vault"

structure DerivedAddress where
  address : Key
  bump : UInt8
deriving DecidableEq

namespace Derivation

def label : Derivation → String
  | registry _ => "vault-config"
  | vault kind _ => kind.seed
  | mintAuthority => "mint-authority"
  | tokenMint _ _ => "token-mint"
  | mintRecord _ => "mint-record"
  | user _ => "user"
  | handle _ => "handle"
  | server _ _ => "server"

def arguments : Derivation → List Bytes
  | registry authority => [authority.bytes]
  | vault _ creator => [creator.bytes]
  | mintAuthority => []
  | tokenMint payer nonce => [payer.bytes, (Bytes.littleEndian 2 nonce.toNat).reverse]
  | mintRecord mint => [mint.bytes]
  | user username => [Bytes.ofString username]
  | handle text => [Bytes.ofString text]
  | server name ticker => [Bytes.ofString name, Bytes.ofString ticker]

def seeds (d : Derivation) : List Bytes := Bytes.ofString d.label :: d.arguments

def Fits (d : Derivation) : Prop := ∀ s ∈ d.seeds, s.length ≤ Limits.seed

instance (d : Derivation) : Decidable d.Fits := by unfold Fits; infer_instance

def marker : Bytes := Bytes.ofString "ProgramDerivedAddress"

def preimage (d : Derivation) (program : Key) (bump : UInt8) : Bytes :=
  d.seeds.flatten ++ [bump] ++ program.bytes ++ marker

def candidate (d : Derivation) (program : Key) (bump : UInt8) : Key :=
  ⟨Sha256.hash (d.preimage program bump), Sha256.length_hash _⟩

/-- The address for exactly this bump. -/
def derive? (d : Derivation) (program : Key) (bump : UInt8) : Option Key :=
  if d.Fits then
    let key := d.candidate program bump
    if Curve.isPoint key.bytes then none else some key
  else none

/-- The first bump from `n` down to 1 that gives an address. -/
def search (d : Derivation) (program : Key) : Nat → Option DerivedAddress
  | 0 => none
  | n + 1 =>
    match d.derive? program (UInt8.ofNat (n + 1)) with
    | some address => some ⟨address, UInt8.ofNat (n + 1)⟩
    | none => search d program n

/-- The address with the largest bump. A bump of 0 is never tried. -/
def find? (d : Derivation) (program : Key) : Option DerivedAddress := d.search program 255

/-- The same for callers that count on an address: where there is none, the step aborts. -/
def find (d : Derivation) (program : Key) : Except Failure DerivedAddress :=
  match d.find? program with
  | some found => .ok found
  | none => .error .aborted

end Derivation

end VaultMarket
