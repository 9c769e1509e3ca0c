import VaultMarket.Instruction
import VaultMarket.Program.Registry
set_option autoImplicit false

namespace VaultMarket.Program

structure OpenVault where
  payer : AccountRef
  serviceSigner : AccountRef
  authority : AccountRef
  registry : Held Registry
  vault : AccountRef

def OpenVault.load (l : Ledger) : Loader OpenVault := do
  let payer ← Loader.signer "payer"
  let serviceSigner ← Loader.signer "service_signer"
  let authority ← Loader.signer "current_authority"
  let registry ← Loader.record Registry "config" l
  let vault ← Loader.fresh
  Loader.program "system_program" Identity.systemProgram l
  return { payer, serviceSigner, authority, registry, vault }

def openVault (call : Call) (opening : VaultOpening) : Outcome Ledger := do
  let kind := opening.kind
  let field := Operation.vaultField kind
  let a ← (OpenVault.load call.ledger).run' call.accounts
  let (l, bump) ← createRecord Vault field (.vault kind a.authority.key) a.payer a.vault
    call.ledger
  requireWritable "payer" a.payer
  requireService a.registry a.serviceSigner
  let vault ← Vault.fresh kind a.authority.key opening.terms? call.now bump
  Outcome.emit (.vaultOpened a.vault.key kind a.authority.key a.serviceSigner.key call.now)
  Outcome.say s!"{kind.name} vault initialized for {a.authority.key}"
  store field a.vault.key vault l

structure HandOverVault where
  serviceSigner : AccountRef
  current : AccountRef
  next : AccountRef
  registry : Held Registry
  vault : Held Vault

def HandOverVault.load (kind : VaultKind) (l : Ledger) : Loader HandOverVault := do
  let serviceSigner ← Loader.signer "service_signer"
  let current ← Loader.signer "current_authority"
  let next ← Loader.signer "new_authority"
  let registry ← Loader.record Registry "config" l
  let vault ← Loader.record Vault (Operation.vaultField kind) l
  return { serviceSigner, current, next, registry, vault }

/-- Hands over a vault at an address of this kind. The report names the kind that the record
itself states. -/
def handOverVault (call : Call) (kind : VaultKind) : Outcome Ledger := do
  let field := Operation.vaultField kind
  let a ← (HandOverVault.load kind call.ledger).run' call.accounts
  requireService a.registry a.serviceSigner
  requireStored field (.vault kind a.vault.value.creator) a.vault.value.bump a.vault.key
  requireWritable field a.vault.ref
  let vault ← a.vault.value.handOver a.current.key a.next.key call.now
  Outcome.emit (.vaultHandedOver a.vault.key vault.kind a.current.key a.next.key call.now)
  Outcome.say s!"{vault.kind.name} vault authority updated: {a.current.key} -> {a.next.key}"
  store field a.vault.key vault call.ledger

end VaultMarket.Program
