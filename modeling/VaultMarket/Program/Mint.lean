import VaultMarket.Program.Registry
set_option autoImplicit false

namespace VaultMarket.Program

structure CreateMint where
  payer : AccountRef
  serviceSigner : AccountRef
  registry : Held Registry
  mintAuthority : AccountRef
  mint : AccountRef
  mintRecord : AccountRef

def CreateMint.load (l : Ledger) : Loader CreateMint := do
  let payer ← Loader.signer "payer"
  let serviceSigner ← Loader.signer "service_signer"
  let registry ← Loader.record Registry "config" l
  let mintAuthority ← Loader.unchecked "mint_authority"
  let mint ← Loader.fresh
  let mintRecord ← Loader.fresh
  Loader.program "token_program" Identity.tokenProgram l
  Loader.program "system_program" Identity.systemProgram l
  return { payer, serviceSigner, registry, mintAuthority, mint, mintRecord }

def createMint (call : Call) (terms : MintTerms) : Outcome Ledger := do
  let a ← (CreateMint.load call.ledger).run' call.accounts
  let (l, _) ← create "mint" (.tokenMint a.payer.key terms.nonce) a.payer a.mint Mint.width
    Identity.tokenProgram call.ledger
  Outcome.start "InitializeMint2"
  let l := Token.openMint a.mint.key a.mintAuthority.key terms.decimals l
  requireWritable "mint" a.mint
  let (l, bump) ← createRecord MintRecord "mint_record" (.mintRecord a.mint.key) a.payer
    a.mintRecord l
  requireWritable "payer" a.payer
  requireService a.registry a.serviceSigner
  let _ ← requireFound "mint_authority" .mintAuthority a.mintAuthority.key
  let record ← MintRecord.fresh a.mint.key a.payer.key terms call.now bump
  Outcome.emit
    (.mintCreated a.mint.key a.payer.key terms.name terms.symbol terms.decimals call.now)
  Outcome.say s!"Token mint {a.mint.key} ({terms.symbol}) created"
  store "mint_record" a.mintRecord.key record l

structure MintTokens where
  serviceSigner : AccountRef
  registry : Held Registry
  mintAuthority : AccountRef
  mint : Held Mint
  mintRecord : Held MintRecord

def MintTokens.load (l : Ledger) : Loader MintTokens := do
  let serviceSigner ← Loader.signer "service_signer"
  let registry ← Loader.record Registry "config" l
  let mintAuthority ← Loader.unchecked "mint_authority"
  let mint ← Loader.mint "mint" l
  let mintRecord ← Loader.record MintRecord "mint_record" l
  Loader.program "token_program" Identity.tokenProgram l
  return { serviceSigner, registry, mintAuthority, mint, mintRecord }

/-- An amount for a token account that has to be the recipient's. -/
structure Payment where
  target : AccountRef
  recipient : Key
  amount : UInt64
deriving DecidableEq

def payments : List AccountRef → List Key → List UInt64 → List Payment
  | target :: targets, recipient :: recipients, amount :: amounts =>
    ⟨target, recipient, amount⟩ :: payments targets recipients amounts
  | _, _, _ => []

def requireHolding (mint : Key) (p : Payment) (l : Ledger) : Except Failure Unit := do
  let account := l.get p.target.key
  require (account.owner = Identity.tokenProgram)
    (.refused .invalidTokenAccount .raised (some (account.owner, Identity.tokenProgram)))
  let holding ← (Holding.unpack account.data).mapError Token.unpackFailed
  require (holding.mint = mint ∧ holding.owner = p.recipient) (.raised .invalidTokenAccount)

/-- Makes the payments in order. A payment sees what the payments before it changed. The flags of a
destination are not looked at: a host that passes on only what the caller marked as writable refuses
more batches than this one, and agrees with it on those that it accepts. -/
def pay (mint authority : Key) : List Payment → Ledger → Outcome Ledger
  | [], l => return l
  | p :: rest, l => do
    requireHolding mint p l
    Outcome.start "MintTo"
    let l ← Token.issue mint p.target.key authority p.amount l
    pay mint authority rest l

def mintTokens (call : Call) (recipients : List Key) (amounts : List UInt64) : Outcome Ledger := do
  let (a, targets) ← (MintTokens.load call.ledger).run call.accounts
  requireService a.registry a.serviceSigner
  let _ ← requireFound "mint_authority" .mintAuthority a.mintAuthority.key
  requireWritable "mint" a.mint.ref
  let record := a.mintRecord.value
  requireStored "mint_record" (.mintRecord a.mint.key) record.bump a.mintRecord.key
  require (record.mint = a.mint.key)
    (.refused .invalidParameter (.field "mint_record") (some (record.mint, a.mint.key)))
  let total ← batchTotal recipients amounts
  require (targets.length = recipients.length) (.raised .invalidParameter)
  let l ← pay a.mint.key a.mintAuthority.key (payments targets recipients amounts) call.ledger
  Outcome.emit
    (.tokensMinted a.mint.key (UInt8.ofNat recipients.length) total call.now)
  Outcome.say s!"Minted {total.toNat} of {a.mint.key} to {recipients.length} recipients"
  return l

end VaultMarket.Program
