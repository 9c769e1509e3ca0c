import VaultMarket.Address
import VaultMarket.Ledger
import VaultMarket.Outcome
import VaultMarket.Record
import VaultMarket.System
import VaultMarket.Token
set_option autoImplicit false

namespace VaultMarket

structure AccountRef where
  key : Key
  signer : Bool
  writable : Bool
deriving DecidableEq

structure Call where
  ledger : Ledger
  now : Int64
  accounts : List AccountRef
deriving DecidableEq

/-- An account that was taken together with what it holds. -/
structure Held (α : Type) where
  ref : AccountRef
  value : α

namespace Held

variable {α : Type}

def key (h : Held α) : Key := h.ref.key

end Held

/-- Takes accounts off the front of the list. -/
abbrev Loader := StateT (List AccountRef) (Except Failure)

namespace Loader

def next (missing : Failure) : Loader AccountRef
  | [] => .error missing
  | a :: rest => .ok (a, rest)

def unchecked (field : String) : Loader AccountRef := next (.onField field .missingAccount)

def fresh : Loader AccountRef := next (.unattributed .missingAccount)

def signer (field : String) : Loader AccountRef := do
  let a ← unchecked field
  require (a.signer = true) (.onField field .missingSignature)
  return a

def program (field : String) (key : Key) (l : Ledger) : Loader Unit := do
  let a ← unchecked field
  require (a.key = key) (.refused .wrongProgram (.field field) (some (a.key, key)))
  require ((l.get key).executable = true) (.onField field .notExecutable)

def owned (field : String) (owner : Key) (l : Ledger) : Loader AccountRef := do
  let a ← unchecked field
  let account := l.get a.key
  require (¬account.IsVacant) (.onField field .missingRecord)
  require (account.owner = owner)
    (.refused .foreignOwner (.field field) (some (account.owner, owner)))
  return a

def record (α : Type) [Record α] (field : String) (l : Ledger) : Loader (Held α) := do
  let a ← owned field Identity.program l
  let value ← (Record.read (l.get a.key).data).mapError (Failure.onField field)
  return ⟨a, value⟩

def mint (field : String) (l : Ledger) : Loader (Held Mint) := do
  let a ← owned field Identity.tokenProgram l
  let value ← (Mint.unpack (l.get a.key).data).mapError (Failure.host · (.field field))
  return ⟨a, value⟩

end Loader

def requireWritable (field : String) (a : AccountRef) : Except Failure Unit :=
  require (a.writable = true) (.onField field .notWritable)

def requireAddress (field : String) (key address : Key) : Except Failure Unit :=
  require (key = address) (.refused .wrongAddress (.field field) (some (key, address)))

/-- The account must be at the address for the bump that its record stores. -/
def requireStored (field : String) (d : Derivation) (bump : UInt8) (key : Key) :
    Except Failure Unit :=
  match d.derive? Identity.program bump with
  | none => .error (.onField field .wrongAddress)
  | some address => requireAddress field key address

/-- The account must be at the address with the largest bump, which is given back. -/
def requireFound (field : String) (d : Derivation) (key : Key) : Except Failure UInt8 := do
  let found ← d.find Identity.program
  requireAddress field key found.address
  return found.bump

/-- Creates the account of a record at its address, and gives the ledger and the bump. -/
def create (field : String) (d : Derivation) (payer a : AccountRef) (space : Nat) (owner : Key)
    (l : Ledger) : Except Failure (Ledger × UInt8) := do
  let bump ← requireFound field d a.key
  let l ← System.provide payer.key a.key space owner l
  return (l, bump)

def createRecord (α : Type) [Record α] (field : String) (d : Derivation) (payer a : AccountRef)
    (l : Ledger) : Except Failure (Ledger × UInt8) := do
  let (l, bump) ← create field d payer a (Record.space α) Identity.program l
  requireWritable field a
  return (l, bump)

/-- Writes the record over the front of the account's data. -/
def store {α : Type} [Record α] (field : String) (key : Key) (value : α) (l : Ledger) :
    Except Failure Ledger := do
  let data := (l.get key).data
  let written := Record.write value
  require (written.length ≤ data.length) (.onField field .recordTooLong)
  return l.setData key (data.overwrite 0 written)

end VaultMarket
