import VaultMarket.Market
set_option autoImplicit false

namespace VaultMarket

structure MintRecord where
  mint : Key
  creator : Key
  name : String
  symbol : String
  uri : String
  decimals : UInt8
  nonce : UInt16
  createdAt : Int64
  bump : UInt8
deriving DecidableEq, Inhabited

structure MintTerms where
  name : String
  symbol : String
  decimals : UInt8
  uri : String
  nonce : UInt16
deriving DecidableEq, Inhabited

instance : Wire MintRecord :=
  Wire.via
    (fun r => (r.mint, r.creator, r.name, r.symbol, r.uri, r.decimals, r.nonce, r.createdAt,
      r.bump))
    (fun (mint, creator, name, symbol, uri, decimals, nonce, createdAt, bump) =>
      ⟨mint, creator, name, symbol, uri, decimals, nonce, createdAt, bump⟩)

instance : Wire MintTerms :=
  Wire.via (fun t => (t.name, t.symbol, t.decimals, t.uri, t.nonce))
    (fun (name, symbol, decimals, uri, nonce) => ⟨name, symbol, decimals, uri, nonce⟩)

/-- Checks the labels; the address of the description may be empty. -/
def MintTerms.validate (t : MintTerms) : Except Failure Unit := do
  validateLabel t.name Limits.tokenName
  validateLabel t.symbol Limits.tokenSymbol
  require (t.uri.utf8ByteSize ≤ Limits.tokenUri) (.raised .nameTooLong)

def MintRecord.fresh (mint creator : Key) (terms : MintTerms) (now : Int64) (bump : UInt8) :
    Except Failure MintRecord := do
  terms.validate
  return {
    mint, creator, bump
    name := terms.name
    symbol := terms.symbol
    uri := terms.uri
    decimals := terms.decimals
    nonce := terms.nonce
    createdAt := now }

/-- Adds positive amounts to `total` as long as it stays below 2⁶⁴. -/
def addAmounts : UInt64 → List UInt64 → Except Failure UInt64
  | total, [] => .ok total
  | total, amount :: rest => do
    require (0 < amount) (.raised .invalidParameter)
    require (total.toNat + amount.toNat < UInt64.size) (.raised .mathOverflow)
    addAmounts (total + amount) rest

/-- Checks a batch and gives its total. -/
def batchTotal (recipients : List Key) (amounts : List UInt64) : Except Failure UInt64 := do
  require (recipients ≠ [] ∧ recipients.length = amounts.length) (.raised .invalidParameter)
  require (recipients.length ≤ Limits.mintRecipients) (.raised .invalidParameter)
  addAmounts 0 amounts

end VaultMarket
