import VaultMarket.Access
set_option autoImplicit false

namespace VaultMarket.Program

def requireUser (field : String) (user : Held User) : Except Failure Unit := do
  requireStored field (.user user.value.username) user.value.bump user.key
  requireWritable field user.ref

def requireOwnUser (field : String) (user : Held User) (signer : AccountRef) :
    Except Failure Unit := do
  requireUser field user
  require (user.value.authority = signer.key) (.onField field .unauthorized)

structure CreateUser where
  signer : AccountRef
  user : AccountRef

def CreateUser.load (l : Ledger) : Loader CreateUser := do
  let signer ← Loader.signer "signer"
  let user ← Loader.fresh
  Loader.program "system_program" Identity.systemProgram l
  return { signer, user }

def createUser (call : Call) (username : String) : Outcome Ledger := do
  let a ← (CreateUser.load call.ledger).run' call.accounts
  let (l, bump) ← createRecord User "user_account" (.user username) a.signer a.user call.ledger
  requireWritable "signer" a.signer
  validateLabel username Limits.username
  let vault ← (Derivation.vault .user a.signer.key).find Identity.program
  let user := User.fresh a.signer.key username vault.address bump
  Outcome.emit (.userCreated a.user.key a.signer.key username vault.address call.now)
  Outcome.say s!"User {username} created for {a.signer.key}"
  store "user_account" a.user.key user l

structure UpdateProfile where
  signer : AccountRef
  user : Held User

def UpdateProfile.load (l : Ledger) : Loader UpdateProfile := do
  let signer ← Loader.signer "signer"
  let user ← Loader.record User "user_account" l
  return { signer, user }

def updateProfile (call : Call) (profileEffect theme : Option Key) : Outcome Ledger := do
  let a ← (UpdateProfile.load call.ledger).run' call.accounts
  requireOwnUser "user_account" a.user a.signer
  let user := a.user.value.decorate profileEffect theme
  Outcome.emit (.profileUpdated a.user.key user.profileEffect user.theme call.now)
  store "user_account" a.user.key user call.ledger

structure CreateHandle where
  signer : AccountRef
  user : Held User
  handle : AccountRef

def CreateHandle.load (l : Ledger) : Loader CreateHandle := do
  let signer ← Loader.signer "signer"
  let user ← Loader.record User "user_account" l
  let handle ← Loader.fresh
  Loader.program "system_program" Identity.systemProgram l
  return { signer, user, handle }

def createHandle (call : Call) (text : String) : Outcome Ledger := do
  let a ← (CreateHandle.load call.ledger).run' call.accounts
  let (l, bump) ← createRecord Asset "handle_asset" (.handle text) a.signer a.handle call.ledger
  requireWritable "signer" a.signer
  requireOwnUser "user_account" a.user a.signer
  validateLabel text Limits.handle
  let user ← a.user.value.attach a.handle.key
  let handle := Asset.handle a.signer.key text bump
  Outcome.emit (.handleCreated a.user.key a.handle.key text call.now)
  let l ← store "user_account" a.user.key user l
  store "handle_asset" a.handle.key handle l

structure MoveHandle where
  signer : AccountRef
  source : Held User
  target : Held User
  handle : Held Asset

def MoveHandle.load (l : Ledger) : Loader MoveHandle := do
  let signer ← Loader.signer "signer"
  let source ← Loader.record User "from_user_account" l
  let target ← Loader.record User "to_user_account" l
  let handle ← Loader.record Asset "handle_asset" l
  return { signer, source, target, handle }

def moveHandle (call : Call) : Outcome Ledger := do
  let a ← (MoveHandle.load call.ledger).run' call.accounts
  requireOwnUser "from_user_account" a.source a.signer
  requireUser "to_user_account" a.target
  require (a.target.key ≠ a.source.key) (.onField "to_user_account" .invalidParameter)
  requireStored "handle_asset" (.handle a.handle.value.text) a.handle.value.bump a.handle.key
  requireWritable "handle_asset" a.handle.ref
  require (a.handle.value.kind = .userHandle) (.onField "handle_asset" .handleMismatch)
  let moved ← HandleMove.run ⟨a.handle.value, a.source.value, a.target.value⟩ a.handle.key
  Outcome.emit (.handleMoved a.handle.key a.source.key a.target.key call.now)
  Outcome.say s!"Handle {moved.asset.text} moved to {moved.target.username}"
  let l ← store "from_user_account" a.source.key moved.source call.ledger
  let l ← store "to_user_account" a.target.key moved.target l
  store "handle_asset" a.handle.key moved.asset l

end VaultMarket.Program
