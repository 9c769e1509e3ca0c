import VaultMarket.Access
set_option autoImplicit false

namespace VaultMarket.Program

structure CreateServer where
  signer : AccountRef
  server : AccountRef

def CreateServer.load (l : Ledger) : Loader CreateServer := do
  let signer ← Loader.signer "signer"
  let server ← Loader.fresh
  Loader.program "system_program" Identity.systemProgram l
  return { signer, server }

def createServer (call : Call) (name ticker : String) : Outcome Ledger := do
  let a ← (CreateServer.load call.ledger).run' call.accounts
  let (l, bump) ← createRecord Server "server_account" (.server name ticker) a.signer a.server
    call.ledger
  requireWritable "signer" a.signer
  let server ← Server.fresh a.signer.key name ticker bump
  Outcome.emit (.serverCreated a.server.key a.signer.key name ticker call.now)
  Outcome.say s!"Server {name} ({ticker}) created by {a.signer.key}"
  store "server_account" a.server.key server l

structure HandOverServer where
  signer : AccountRef
  server : Held Server

def HandOverServer.load (l : Ledger) : Loader HandOverServer := do
  let signer ← Loader.signer "signer"
  let server ← Loader.record Server "server_account" l
  return { signer, server }

def handOverServer (call : Call) (next : Key) : Outcome Ledger := do
  let a ← (HandOverServer.load call.ledger).run' call.accounts
  let server := a.server.value
  requireStored "server_account" (.server server.name server.ticker) server.bump a.server.key
  requireWritable "server_account" a.server.ref
  require (server.authority = a.signer.key) (.onField "server_account" .unauthorized)
  Outcome.emit (.serverHandedOver a.server.key a.signer.key next call.now)
  Outcome.say s!"Server {server.name} ownership: {a.signer.key} -> {next}"
  store "server_account" a.server.key (server.handOver next) call.ledger

end VaultMarket.Program
