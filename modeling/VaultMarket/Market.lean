import VaultMarket.Fault
import VaultMarket.Limits
import VaultMarket.Wire
set_option autoImplicit false

namespace VaultMarket

structure User where
  authority : Key
  username : String
  handle : Option Key
  profileEffect : Option Key
  theme : Option Key
  vault : Key
  bump : UInt8
deriving DecidableEq, Inhabited

inductive AssetKind where
  | userHandle
  | profileEffect
  | theme
  | other
deriving DecidableEq

namespace AssetKind

instance : Inhabited AssetKind := ⟨other⟩

def all : List AssetKind := [userHandle, profileEffect, theme, other]

def name : AssetKind → String
  | userHandle => "UserHandle"
  | profileEffect => "ProfileEffect"
  | theme => "Theme"
  | other => "Other"

def index : AssetKind → UInt8
  | userHandle => 0
  | profileEffect => 1
  | theme => 2
  | other => 3

def ofIndex? : UInt8 → Option AssetKind
  | 0 => some userHandle
  | 1 => some profileEffect
  | 2 => some theme
  | 3 => some other
  | _ => none

instance : Wire AssetKind := Wire.narrow index ofIndex?

end AssetKind

structure Asset where
  owner : Key
  kind : AssetKind
  text : String
  bump : UInt8
deriving DecidableEq, Inhabited

structure Server where
  authority : Key
  name : String
  ticker : String
  theme : Option Key
  bump : UInt8
deriving DecidableEq, Inhabited

instance : Wire User :=
  Wire.via
    (fun u => (u.authority, u.username, u.handle, u.profileEffect, u.theme, u.vault, u.bump))
    (fun (authority, username, handle, profileEffect, theme, vault, bump) =>
      ⟨authority, username, handle, profileEffect, theme, vault, bump⟩)

instance : Wire Asset :=
  Wire.via (fun a => (a.owner, a.kind, a.text, a.bump))
    (fun (owner, kind, text, bump) => ⟨owner, kind, text, bump⟩)

instance : Wire Server :=
  Wire.via (fun s => (s.authority, s.name, s.ticker, s.theme, s.bump))
    (fun (authority, name, ticker, theme, bump) => ⟨authority, name, ticker, theme, bump⟩)

def validateLabel (label : String) (most : Nat) : Except Failure Unit := do
  require (label ≠ "") (.raised .invalidParameter)
  require (label.utf8ByteSize ≤ most) (.raised .nameTooLong)

namespace User

def fresh (authority : Key) (username : String) (vault : Key) (bump : UInt8) : User where
  authority := authority
  username := username
  handle := none
  profileEffect := none
  theme := none
  vault := vault
  bump := bump

/-- Overwrites what is given and keeps the rest. -/
def decorate (u : User) (profileEffect theme : Option Key) : User :=
  { u with profileEffect := profileEffect <|> u.profileEffect, theme := theme <|> u.theme }

def attach (u : User) (handle : Key) : Except Failure User := do
  require (u.handle = none) (.raised .handleAlreadyAssigned)
  return { u with handle := some handle }

end User

namespace Asset

def handle (owner : Key) (text : String) (bump : UInt8) : Asset where
  owner := owner
  kind := .userHandle
  text := text
  bump := bump

end Asset

namespace Server

def fresh (authority : Key) (name ticker : String) (bump : UInt8) : Except Failure Server := do
  validateLabel name Limits.serverLabel
  validateLabel ticker Limits.ticker
  return { authority, name, ticker, bump, theme := none }

def handOver (s : Server) (next : Key) : Server := { s with authority := next }

end Server

/-- The three records that a handle touches when it moves. -/
structure HandleMove where
  asset : Asset
  source : User
  target : User
deriving DecidableEq

/-- Moves the handle at `key` from one profile to another. The source must hold it, as profile and
as owner, and the target must hold none. -/
def HandleMove.run (m : HandleMove) (key : Key) : Except Failure HandleMove := do
  require (m.source.handle = some key ∧ m.asset.owner = m.source.authority)
    (.raised .handleMismatch)
  require (m.target.handle = none) (.raised .handleAlreadyAssigned)
  return {
    asset := { m.asset with owner := m.target.authority }
    source := { m.source with handle := none }
    target := { m.target with handle := some key } }

/-- A table of profiles and assets. -/
structure Market where
  users : List User
  assets : List Asset
deriving DecidableEq, Inhabited

namespace Market

inductive Action where
  | decorate (user : Nat) (profileEffect theme : Option Key)
  | move (key : Key) (asset source target : Nat)
deriving DecidableEq

def Names (m : Market) : Action → Prop
  | .decorate user _ _ => user < m.users.length
  | .move _ asset source target =>
    asset < m.assets.length ∧ source < m.users.length ∧ target < m.users.length ∧
      source ≠ target

instance (m : Market) (a : Action) : Decidable (m.Names a) := by
  cases a <;> unfold Names <;> infer_instance

/-- An action on rows that are not there aborts. -/
def act (m : Market) : Action → Except Failure Market
  | .decorate user profileEffect theme =>
    match m.users[user]? with
    | some u => .ok { m with users := m.users.set user (u.decorate profileEffect theme) }
    | none => .error .aborted
  | .move key asset source target =>
    match m.assets[asset]?, m.users[source]?, m.users[target]? with
    | some a, some s, some t => do
      let moved ← HandleMove.run ⟨a, s, t⟩ key
      return {
        users := (m.users.set source moved.source).set target moved.target
        assets := m.assets.set asset moved.asset }
    | _, _, _ => .error .aborted

end Market

end VaultMarket
