import VaultMarket.Program
set_option autoImplicit false

namespace VaultMarket

structure World where
  now : Int64
  ledger : Ledger
deriving DecidableEq

namespace World

def genesis : World := ⟨0, Ledger.genesis⟩

end World

inductive Step where
  | setClock (now : Int64)
  | setAccount (key : Key) (account : Account)
  | request (key : Key) (instruction : Instruction) (accounts : List AccountRef)
  | requestRaw (key : Key) (data : Bytes) (accounts : List AccountRef)
deriving DecidableEq

namespace AccountRef

/-- An account listed more than once is one account: each listing has the flags of all of them. -/
def merge (accounts : List AccountRef) : List AccountRef :=
  accounts.map fun a =>
    let same := accounts.filter (·.key = a.key)
    ⟨a.key, same.any (·.signer), same.any (·.writable)⟩

end AccountRef

namespace Ledger

def distinct : List Key → List Key
  | [] => []
  | k :: rest => k :: (distinct rest).filter (· ≠ k)

/-- The listed accounts whose lamports, owner or data differ, in order of first listing. -/
def changes (accounts : List AccountRef) (before after : Ledger) : List (Key × Account) :=
  (distinct (accounts.map (·.key))).filterMap fun key =>
    let old := before.get key
    let new := after.get key
    if old.lamports = new.lamports ∧ old.owner = new.owner ∧ old.data = new.data then none
    else some (key, new)

end Ledger

/-- What a step answers: a call shows its outcome and the listed accounts that it changed. -/
inductive Answer where
  | done
  | called (outcome : Outcome Ledger) (changed : List (Key × Account))

namespace World

def call (w : World) (key : Key) (data : Bytes) (accounts : List AccountRef) : Outcome Ledger :=
  Program.execute key data ⟨w.ledger, w.now, AccountRef.merge accounts⟩

def after (w : World) (outcome : Outcome Ledger) : World :=
  { w with ledger := settle w.ledger outcome.result }

def answerCall (w : World) (key : Key) (data : Bytes) (accounts : List AccountRef) :
    World × Answer :=
  let outcome := w.call key data accounts
  let next := w.after outcome
  (next, .called outcome (Ledger.changes accounts w.ledger next.ledger))

def step (w : World) : Step → World × Answer
  | .setClock now => ({ w with now }, .done)
  | .setAccount key account => ({ w with ledger := w.ledger.set key account }, .done)
  | .request key instruction accounts => w.answerCall key instruction.encode accounts
  | .requestRaw key data accounts => w.answerCall key data accounts

def run (w : World) : List Step → World × List Answer
  | [] => (w, [])
  | s :: rest =>
    let (w, answer) := w.step s
    let (w, answers) := run w rest
    (w, answer :: answers)

end World

end VaultMarket
