import VaultMarket.MintRecord
import VaultMarket.Registry
import VaultMarket.Tag
import VaultMarket.Vault
set_option autoImplicit false

namespace VaultMarket

inductive Operation where
  | createRegistry
  | handOverRegistry
  | changeServiceSigner
  | openVault (kind : VaultKind)
  | handOverVault (kind : VaultKind)
  | createUser
  | updateProfile
  | createHandle
  | moveHandle
  | createServer
  | handOverServer
  | createMint
  | mintTokens
deriving DecidableEq

/-- A vault to be opened: every kind but the user vault states its terms. -/
inductive VaultOpening where
  | user
  | server (terms : VaultTerms)
  | escrow (terms : VaultTerms)
  | airdrop (terms : VaultTerms)
deriving DecidableEq

namespace VaultOpening

def kind : VaultOpening → VaultKind
  | user => .user
  | server _ => .server
  | escrow _ => .escrow
  | airdrop _ => .airdrop

def terms? : VaultOpening → Option VaultTerms
  | user => none
  | server terms | escrow terms | airdrop terms => some terms

end VaultOpening

inductive Instruction where
  | createRegistry
  | handOverRegistry
  | changeServiceSigner (what : SignerChange)
  | openVault (opening : VaultOpening)
  | handOverVault (kind : VaultKind)
  | createUser (username : String)
  | updateProfile (profileEffect theme : Option Key)
  | createHandle (text : String)
  | moveHandle
  | createServer (name ticker : String)
  | handOverServer (next : Key)
  | createMint (terms : MintTerms)
  | mintTokens (recipients : List Key) (amounts : List UInt64)
deriving DecidableEq

structure AccountField where
  name : String
  signer : Bool
  writable : Bool
deriving DecidableEq

namespace Operation

def all : List Operation :=
  [createRegistry, handOverRegistry, changeServiceSigner] ++
    VaultKind.all.flatMap (fun kind => [openVault kind, handOverVault kind]) ++
    [createUser, updateProfile, createHandle, moveHandle, createServer, handOverServer,
     createMint, mintTokens]

def name : Operation → String
  | createRegistry => "initialize_vault_config"
  | handOverRegistry => "update_vault_authority"
  | changeServiceSigner => "manage_service_signer"
  | openVault kind => "initialize_" ++ kind.word ++ "_vault"
  | handOverVault kind => "update_" ++ kind.word ++ "_vault_authority"
  | createUser => "create_user"
  | updateProfile => "update_user_profile"
  | createHandle => "create_user_handle"
  | moveHandle => "transfer_user_handle"
  | createServer => "create_server"
  | handOverServer => "transfer_server_ownership"
  | createMint => "create_token_mint"
  | mintTokens => "mint_tokens"

/-- Drops each underscore and writes the letter after it, or at the start, as a capital. -/
def titleChars : Bool → List Char → List Char
  | _, [] => []
  | start, c :: cs =>
    if c = '_' then titleChars true cs
    else (if start then c.toUpper else c) :: titleChars false cs

def title (o : Operation) : String := String.ofList (titleChars true o.name.toList)

def tag (o : Operation) : Bytes := VaultMarket.tag "global" o.name

def byTag : List (Bytes × Operation) := all.map fun o => (o.tag, o)

def ofTag? (bs : Bytes) : Option Operation := byTag.lookup bs

def vaultField (kind : VaultKind) : String := kind.word ++ "_vault"

def accountFields : Operation → List AccountField
  | createRegistry =>
    [⟨"payer", true, true⟩, ⟨"authority", true, false⟩, ⟨"config", false, true⟩,
     ⟨"system_program", false, false⟩]
  | handOverRegistry =>
    [⟨"config", false, true⟩, ⟨"current_authority", true, false⟩, ⟨"new_authority", true, false⟩]
  | changeServiceSigner =>
    [⟨"config", false, true⟩, ⟨"authority", true, false⟩, ⟨"service_signer", true, false⟩]
  | openVault kind =>
    [⟨"payer", true, true⟩, ⟨"service_signer", true, false⟩, ⟨"current_authority", true, false⟩,
     ⟨"config", false, false⟩, ⟨vaultField kind, false, true⟩, ⟨"system_program", false, false⟩]
  | handOverVault kind =>
    [⟨"service_signer", true, false⟩, ⟨"current_authority", true, false⟩,
     ⟨"new_authority", true, false⟩, ⟨"config", false, false⟩, ⟨vaultField kind, false, true⟩]
  | createUser =>
    [⟨"signer", true, true⟩, ⟨"user_account", false, true⟩, ⟨"system_program", false, false⟩]
  | updateProfile => [⟨"signer", true, false⟩, ⟨"user_account", false, true⟩]
  | createHandle =>
    [⟨"signer", true, true⟩, ⟨"user_account", false, true⟩, ⟨"handle_asset", false, true⟩,
     ⟨"system_program", false, false⟩]
  | moveHandle =>
    [⟨"signer", true, false⟩, ⟨"from_user_account", false, true⟩,
     ⟨"to_user_account", false, true⟩, ⟨"handle_asset", false, true⟩]
  | createServer =>
    [⟨"signer", true, true⟩, ⟨"server_account", false, true⟩, ⟨"system_program", false, false⟩]
  | handOverServer => [⟨"signer", true, false⟩, ⟨"server_account", false, true⟩]
  | createMint =>
    [⟨"payer", true, true⟩, ⟨"service_signer", true, false⟩, ⟨"config", false, false⟩,
     ⟨"mint_authority", false, false⟩, ⟨"mint", false, true⟩, ⟨"mint_record", false, true⟩,
     ⟨"token_program", false, false⟩, ⟨"system_program", false, false⟩]
  | mintTokens =>
    [⟨"service_signer", true, false⟩, ⟨"config", false, false⟩, ⟨"mint_authority", false, false⟩,
     ⟨"mint", false, true⟩, ⟨"mint_record", false, false⟩, ⟨"token_program", false, false⟩]

/-- Reads the arguments of the operation; bytes after them are left over. -/
def decodeArguments : Operation → Bytes → Option (Instruction × Bytes)
  | createRegistry, bs => some (.createRegistry, bs)
  | handOverRegistry, bs => some (.handOverRegistry, bs)
  | changeServiceSigner, bs =>
    (Wire.decode bs).map fun (what, rest) => (.changeServiceSigner what, rest)
  | openVault .user, bs => some (.openVault .user, bs)
  | openVault .server, bs =>
    (Wire.decode bs).map fun (terms, rest) => (.openVault (.server terms), rest)
  | openVault .escrow, bs =>
    (Wire.decode bs).map fun (terms, rest) => (.openVault (.escrow terms), rest)
  | openVault .airdrop, bs =>
    (Wire.decode bs).map fun (terms, rest) => (.openVault (.airdrop terms), rest)
  | handOverVault kind, bs => some (.handOverVault kind, bs)
  | createUser, bs => (Wire.decode bs).map fun (username, rest) => (.createUser username, rest)
  | updateProfile, bs =>
    (Wire.decode bs).map fun ((profileEffect, theme), rest) =>
      (.updateProfile profileEffect theme, rest)
  | createHandle, bs => (Wire.decode bs).map fun (text, rest) => (.createHandle text, rest)
  | moveHandle, bs => some (.moveHandle, bs)
  | createServer, bs =>
    (Wire.decode bs).map fun ((name, ticker), rest) => (.createServer name ticker, rest)
  | handOverServer, bs => (Wire.decode bs).map fun (next, rest) => (.handOverServer next, rest)
  | createMint, bs => (Wire.decode bs).map fun (terms, rest) => (.createMint terms, rest)
  | mintTokens, bs =>
    (Wire.decode bs).map fun ((recipients, amounts), rest) =>
      (.mintTokens recipients amounts, rest)

end Operation

namespace Instruction

def operation : Instruction → Operation
  | createRegistry => .createRegistry
  | handOverRegistry => .handOverRegistry
  | changeServiceSigner _ => .changeServiceSigner
  | openVault opening => .openVault opening.kind
  | handOverVault kind => .handOverVault kind
  | createUser _ => .createUser
  | updateProfile _ _ => .updateProfile
  | createHandle _ => .createHandle
  | moveHandle => .moveHandle
  | createServer _ _ => .createServer
  | handOverServer _ => .handOverServer
  | createMint _ => .createMint
  | mintTokens _ _ => .mintTokens

def encodeArguments : Instruction → Bytes
  | createRegistry | handOverRegistry | handOverVault _ | moveHandle => []
  | changeServiceSigner what => Wire.encode what
  | openVault .user => []
  | openVault (.server terms) | openVault (.escrow terms) | openVault (.airdrop terms) =>
    Wire.encode terms
  | createUser username => Wire.encode username
  | updateProfile profileEffect theme => Wire.encode (profileEffect, theme)
  | createHandle text => Wire.encode text
  | createServer name ticker => Wire.encode (name, ticker)
  | handOverServer next => Wire.encode next
  | createMint terms => Wire.encode terms
  | mintTokens recipients amounts => Wire.encode (recipients, amounts)

def encode (i : Instruction) : Bytes := i.operation.tag ++ i.encodeArguments

end Instruction

end VaultMarket
