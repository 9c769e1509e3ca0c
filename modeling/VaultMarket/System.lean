import VaultMarket.Fault
import VaultMarket.Ledger
set_option autoImplicit false

namespace VaultMarket.System

def rent (space : Nat) : UInt64 := UInt64.ofNat ((128 + space) * 6960)

/-- Who owns the payer, and whether it is executable, is not looked at. A host that lets only the
system program charge an account refuses more calls than this one; for the calls that it accepts
the two agree. -/
def transfer (source target : Key) (amount : UInt64) (l : Ledger) : Except Failure Ledger := do
  let payer := l.get source
  require (payer.data = []) (.host .invalidArgument .unattributed)
  require (amount ≤ payer.lamports) (.host (.custom 1) .unattributed)
  let l := l.set source { payer with lamports := payer.lamports - amount }
  let payee := l.get target
  return l.set target { payee with lamports := payee.lamports + amount }

def allocate (key : Key) (space : Nat) (l : Ledger) : Except Failure Ledger := do
  let a := l.get key
  require (a.data = [] ∧ a.owner = Identity.systemProgram) (.host (.custom 0) .unattributed)
  return l.setData key (Bytes.zeros space)

def assign (key owner : Key) (l : Ledger) : Ledger := l.set key { l.get key with owner }

def createAccount (payer key : Key) (space : Nat) (owner : Key) (l : Ledger) :
    Except Failure Ledger := do
  let l ← allocate key space l
  transfer payer key (rent space) (assign key owner l)

/-- Makes the account at `key` ready for a record. Lamports that it already holds count towards its
rent, and then the payer must be another account. -/
def provide (payer key : Key) (space : Nat) (owner : Key) (l : Ledger) : Except Failure Ledger := do
  let held := (l.get key).lamports
  if held = 0 then createAccount payer key space owner l
  else
    require (key ≠ payer) (.refused .payerAsRecord .raised (some (payer, key)))
    let l ← if held < rent space then transfer payer key (rent space - held) l else pure l
    let l ← allocate key space l
    return assign key owner l

end VaultMarket.System
