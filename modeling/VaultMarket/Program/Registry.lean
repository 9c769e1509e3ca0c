import VaultMarket.Access
set_option autoImplicit false

namespace VaultMarket.Program

def registryAddress : Derivation := .registry Identity.configAuthority

def requireRegistry (registry : Held Registry) : Except Failure Unit :=
  requireStored "config" registryAddress registry.value.bump registry.key

def requireService (registry : Held Registry) (serviceSigner : AccountRef) :
    Except Failure Unit := do
  requireRegistry registry
  require (registry.value.isSigner serviceSigner.key = true) (.onField "config" .invalidSigner)

/-- The account is the registry and may be written, and the signer is its update authority. -/
def requireUpdate (registry : Held Registry) (authority : AccountRef) : Except Failure Unit := do
  requireRegistry registry
  requireWritable "config" registry.ref
  require (registry.value.updateAuthority = authority.key) (.onField "config" .invalidAuthority)

structure CreateRegistry where
  payer : AccountRef
  authority : AccountRef
  registry : AccountRef

def CreateRegistry.load (l : Ledger) : Loader CreateRegistry := do
  let payer ← Loader.signer "payer"
  let authority ← Loader.signer "authority"
  let registry ← Loader.fresh
  Loader.program "system_program" Identity.systemProgram l
  return { payer, authority, registry }

def createRegistry (call : Call) : Outcome Ledger := do
  let a ← (CreateRegistry.load call.ledger).run' call.accounts
  let (l, bump) ← createRecord Registry "config" (.registry a.authority.key) a.payer a.registry
    call.ledger
  requireWritable "payer" a.payer
  require (a.authority.key = Identity.configAuthority) (.onField "authority" .invalidSigner)
  let registry := Registry.fresh a.payer.key a.authority.key call.now bump
  Outcome.emit (.registryCreated a.registry.key a.authority.key a.payer.key call.now)
  Outcome.say s!"Vault config initialized, update authority: {a.authority.key}"
  store "config" a.registry.key registry l

structure HandOverRegistry where
  registry : Held Registry
  current : AccountRef
  next : AccountRef

def HandOverRegistry.load (l : Ledger) : Loader HandOverRegistry := do
  let registry ← Loader.record Registry "config" l
  let current ← Loader.signer "current_authority"
  let next ← Loader.signer "new_authority"
  return { registry, current, next }

def handOverRegistry (call : Call) : Outcome Ledger := do
  let a ← (HandOverRegistry.load call.ledger).run' call.accounts
  requireUpdate a.registry a.current
  let registry := a.registry.value.handOver a.current.key a.next.key call.now
  Outcome.emit (.registryHandedOver a.registry.key a.current.key a.next.key call.now)
  Outcome.say s!"Vault config authority updated: {a.current.key} -> {a.next.key}"
  store "config" a.registry.key registry call.ledger

structure ChangeServiceSigner where
  registry : Held Registry
  authority : AccountRef
  serviceSigner : AccountRef

def ChangeServiceSigner.load (l : Ledger) : Loader ChangeServiceSigner := do
  let registry ← Loader.record Registry "config" l
  let authority ← Loader.signer "authority"
  let serviceSigner ← Loader.signer "service_signer"
  return { registry, authority, serviceSigner }

def changeServiceSigner (call : Call) (what : SignerChange) : Outcome Ledger := do
  let a ← (ChangeServiceSigner.load call.ledger).run' call.accounts
  requireUpdate a.registry a.authority
  let changed ← a.registry.value.change what a.serviceSigner.key
  let registry := changed.touch call.now a.authority.key
  Outcome.emit
    (.serviceSignerChanged a.registry.key a.serviceSigner.key what registry.count call.now)
  Outcome.say
    s!"Service signer {what.name}: {a.serviceSigner.key} ({registry.count.toNat} registered)"
  store "config" a.registry.key registry call.ledger

end VaultMarket.Program
