import VaultMarket.Program.Mint
import VaultMarket.Program.Server
import VaultMarket.Program.User
import VaultMarket.Program.Vault
set_option autoImplicit false

namespace VaultMarket.Program

def perform (call : Call) : Instruction → Outcome Ledger
  | .createRegistry => createRegistry call
  | .handOverRegistry => handOverRegistry call
  | .changeServiceSigner what => changeServiceSigner call what
  | .openVault opening => openVault call opening
  | .handOverVault kind => handOverVault call kind
  | .createUser username => createUser call username
  | .updateProfile profileEffect theme => updateProfile call profileEffect theme
  | .createHandle text => createHandle call text
  | .moveHandle => moveHandle call
  | .createServer name ticker => createServer call name ticker
  | .handOverServer next => handOverServer call next
  | .createMint terms => createMint call terms
  | .mintTokens recipients amounts => mintTokens call recipients amounts

/-- What data starts with that carries an event and no instruction. -/
def eventMarker : Bytes := [0xe4, 0x45, 0xa5, 0x2e, 0x51, 0xcb, 0x9a, 0x1d]

/-- The operation that the data asks for. The calls that the framework adds for interface
descriptions are outside this model. Data that starts with their tag, 40f4bc78a7e9690a, is taken for
that of an unknown instruction here, and what is proved of all data is not meant of such data. -/
def operation (data : Bytes) : Except Failure Operation :=
  match Operation.ofTag? (data.take tagWidth) with
  | some operation => .ok operation
  | none =>
    if data.take tagWidth = eventMarker then .error (.unattributed .eventAsInstruction)
    else .error (.unattributed .unknownInstruction)

def arguments (operation : Operation) (data : Bytes) : Except Failure Instruction :=
  match operation.decodeArguments (data.drop tagWidth) with
  | some (instruction, _) => .ok instruction
  | none => .error (.unattributed .malformedArguments)

/-- Runs the program under the key that the host calls it by. -/
def execute (key : Key) (data : Bytes) (call : Call) : Outcome Ledger := do
  require (key = Identity.program) (.unattributed .foreignProgram)
  let operation ← operation data
  Outcome.start operation.title
  let instruction ← arguments operation data
  perform call instruction

end VaultMarket.Program
