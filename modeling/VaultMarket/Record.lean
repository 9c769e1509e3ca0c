import VaultMarket.MintRecord
import VaultMarket.Registry
import VaultMarket.Tag
import VaultMarket.Vault
set_option autoImplicit false

namespace VaultMarket

class Record (α : Type) extends Wire α where
  typeName : String
  space : Nat

namespace Record

/-- The bytes of a text of at most `most` bytes, with its length. -/
def textSpace (most : Nat) : Nat := 4 + most

def keySpace : Nat := 32

def optionalKeySpace : Nat := 1 + keySpace

def timeSpace : Nat := 8

instance : Record Registry where
  typeName := "VaultConfigState"
  space := tagWidth + keySpace * Limits.serviceSigners + 1 + timeSpace + keySpace + timeSpace +
    keySpace + keySpace + 1

instance : Record Vault where
  typeName := "VaultState"
  space := tagWidth + 1 + keySpace + keySpace + textSpace Limits.serverId +
    textSpace Limits.serverName + timeSpace + timeSpace + 1

instance : Record User where
  typeName := "UserAccount"
  space := tagWidth + keySpace + textSpace Limits.username + optionalKeySpace +
    optionalKeySpace + optionalKeySpace + keySpace + 1

instance : Record Asset where
  typeName := "AssetAccount"
  space := tagWidth + keySpace + 1 + textSpace Limits.handle + 1

instance : Record Server where
  typeName := "ServerAccount"
  space := tagWidth + keySpace + textSpace Limits.serverLabel + textSpace Limits.ticker +
    optionalKeySpace + 1

instance : Record MintRecord where
  typeName := "MintRecord"
  space := tagWidth + keySpace + keySpace + textSpace Limits.tokenName +
    textSpace Limits.tokenSymbol + textSpace Limits.tokenUri + 1 + 2 + timeSpace + 1

variable {α : Type} [Record α]

def tag (α : Type) [Record α] : Bytes := VaultMarket.tag "account" (typeName α)

def write (a : α) : Bytes := tag α ++ Wire.encode a

def readFields (data : Bytes) : Except Fault α :=
  match Wire.decode (data.drop tagWidth) with
  | some (a, _) => .ok a
  | none => .error .malformedRecord

/-- The record that the data starts with, if its tag is that of the kind. -/
def read (data : Bytes) : Except Fault α :=
  if data.length < tagWidth then .error .missingTag
  else if data.take tagWidth ≠ tag α then .error .wrongTag
  else readFields data

/-- The record without a look at its tag. Data shorter than a tag cannot be cut, so it aborts. -/
def readAny (data : Bytes) : Except Failure α :=
  if data.length < tagWidth then .error .aborted
  else (readFields data).mapError .raised

end Record

end VaultMarket
