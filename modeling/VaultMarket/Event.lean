import VaultMarket.Registry
import VaultMarket.Tag
import VaultMarket.Vault
set_option autoImplicit false

namespace VaultMarket

inductive Event where
  | registryCreated (registry authority payer : Key) (time : Int64)
  | registryHandedOver (registry previous next : Key) (time : Int64)
  | serviceSignerChanged (registry serviceSigner : Key) (what : SignerChange) (count : UInt8)
      (time : Int64)
  | vaultOpened (vault : Key) (kind : VaultKind) (authority serviceSigner : Key) (time : Int64)
  | vaultHandedOver (vault : Key) (kind : VaultKind) (previous next : Key) (time : Int64)
  | userCreated (user authority : Key) (username : String) (vault : Key) (time : Int64)
  | profileUpdated (user : Key) (profileEffect theme : Option Key) (time : Int64)
  | handleCreated (user handle : Key) (text : String) (time : Int64)
  | handleMoved (handle source target : Key) (time : Int64)
  | serverCreated (server authority : Key) (name ticker : String) (time : Int64)
  | serverHandedOver (server previous next : Key) (time : Int64)
  | mintCreated (mint creator : Key) (name symbol : String) (decimals : UInt8) (time : Int64)
  | tokensMinted (mint : Key) (recipients : UInt8) (total : UInt64) (time : Int64)
deriving DecidableEq

namespace Event

def name : Event → String
  | registryCreated .. => "VaultConfigInitialized"
  | registryHandedOver .. => "VaultAuthorityUpdated"
  | serviceSignerChanged .. => "ServiceSignerChanged"
  | vaultOpened .. => "VaultInitialized"
  | vaultHandedOver .. => "VaultOwnershipTransferred"
  | userCreated .. => "UserCreated"
  | profileUpdated .. => "UserProfileUpdated"
  | handleCreated .. => "UserHandleCreated"
  | handleMoved .. => "UserHandleTransferred"
  | serverCreated .. => "ServerCreated"
  | serverHandedOver .. => "ServerOwnershipTransferred"
  | mintCreated .. => "TokenMintCreated"
  | tokensMinted .. => "TokensMinted"

def fields : Event → Bytes
  | registryCreated registry authority payer time =>
    Wire.encode (registry, authority, payer, time)
  | registryHandedOver registry previous next time =>
    Wire.encode (registry, previous, next, time)
  | serviceSignerChanged registry serviceSigner what count time =>
    Wire.encode (registry, serviceSigner, what, count, time)
  | vaultOpened vault kind authority serviceSigner time =>
    Wire.encode (vault, kind, authority, serviceSigner, time)
  | vaultHandedOver vault kind previous next time =>
    Wire.encode (vault, kind, previous, next, time)
  | userCreated user authority username vault time =>
    Wire.encode (user, authority, username, vault, time)
  | profileUpdated user profileEffect theme time =>
    Wire.encode (user, profileEffect, theme, time)
  | handleCreated user handle text time => Wire.encode (user, handle, text, time)
  | handleMoved handle source target time => Wire.encode (handle, source, target, time)
  | serverCreated server authority name ticker time =>
    Wire.encode (server, authority, name, ticker, time)
  | serverHandedOver server previous next time => Wire.encode (server, previous, next, time)
  | mintCreated mint creator name symbol decimals time =>
    Wire.encode (mint, creator, name, symbol, decimals, time)
  | tokensMinted mint recipients total time => Wire.encode (mint, recipients, total, time)

def encode (e : Event) : Bytes := tag "event" e.name ++ e.fields

end Event

end VaultMarket
