import VaultMarket.Proofs.Instructions
set_option autoImplicit false

/-!
# What an instruction does

`Effect` says for every instruction which accounts it takes, what it found there, and which records
it leaves. A call that succeeds has such an effect, and the accounts whose record it does not change
keep every byte. What follows about runs rests on this and never looks into an instruction again.
-/

namespace VaultMarket
open Function (update)

namespace Stored

def derivation : Stored → Derivation
  | registry _ => Program.registryAddress
  | vault v => .vault v.kind v.creator
  | user u => .user u.username
  | asset a => .handle a.text
  | server s => .server s.name s.ticker
  | mintRecord m => .mintRecord m.mint

def bump : Stored → UInt8
  | registry r => r.bump
  | vault v => v.bump
  | user u => u.bump
  | asset a => a.bump
  | server s => s.bump
  | mintRecord m => m.bump

end Stored

variable {before after : Records} {key : Key}

structure Placed (before : Records) (key : Key) (s : Stored) : Prop where
  stored : before key = some s
  placed : s.derivation.derive? Identity.program s.bump = some key

/-- A key without a record, at the address with the largest bump. -/
structure Vacancy (before : Records) (d : Derivation) (key : Key) (bump : UInt8) : Prop where
  found : d.find Identity.program = .ok ⟨key, bump⟩
  free : before key = none

/-- A registered service signer signs. -/
structure Gate (before : Records) (service registry : AccountRef) (r : Registry) : Prop
    extends Placed before registry.key (.registry r) where
  signed : service.signer = true
  registered : r.isSigner service.key = true

structure Governs (before : Records) (authority registry : AccountRef) (r : Registry) : Prop
    extends Placed before registry.key (.registry r) where
  signed : authority.signer = true
  current : r.updateAuthority = authority.key

structure Owns (before : Records) (signer user : AccountRef) (u : User) : Prop
    extends Placed before user.key (.user u) where
  signed : signer.signer = true
  own : u.authority = signer.key

/-- An instruction, at a time, takes accounts and leads from `before` to the last argument. -/
inductive Effect (now : Int64) (before : Records) :
    Instruction → List AccountRef → Records → Prop where
  | createRegistry {payer authority registry : AccountRef} {rest : List AccountRef} {bump : UInt8}
      (paid : payer.signer = true) (signed : authority.signer = true)
      (authorised : authority.key = Identity.configAuthority)
      (vacancy : Vacancy before (.registry authority.key) registry.key bump) :
      Effect now before .createRegistry (payer :: authority :: registry :: rest)
        (update before registry.key
          (some (.registry (Registry.fresh payer.key authority.key now bump))))
  | handOverRegistry {registry current next : AccountRef} {rest : List AccountRef} {r : Registry}
      (governs : Governs before current registry r) (accepted : next.signer = true) :
      Effect now before .handOverRegistry (registry :: current :: next :: rest)
        (update before registry.key (some (.registry (r.handOver current.key next.key now))))
  | changeServiceSigner {what : SignerChange} {registry authority service : AccountRef}
      {rest : List AccountRef} {r changed : Registry}
      (governs : Governs before authority registry r) (accepted : service.signer = true)
      (change : r.change what service.key = .ok changed) :
      Effect now before (.changeServiceSigner what) (registry :: authority :: service :: rest)
        (update before registry.key (some (.registry (changed.touch now authority.key))))
  | openVault {opening : VaultOpening} {payer service authority registry vault : AccountRef}
      {rest : List AccountRef} {r : Registry} {bump : UInt8} {v : Vault}
      (gate : Gate before service registry r) (paid : payer.signer = true)
      (signed : authority.signer = true)
      (vacancy : Vacancy before (.vault opening.kind authority.key) vault.key bump)
      (fresh : Vault.fresh opening.kind authority.key opening.terms? now bump = .ok v) :
      Effect now before (.openVault opening)
        (payer :: service :: authority :: registry :: vault :: rest)
        (update before vault.key (some (.vault v)))
  | handOverVault {kind : VaultKind} {service current next registry vault : AccountRef}
      {rest : List AccountRef} {r : Registry} {v v' : Vault}
      (gate : Gate before service registry r) (signed : current.signer = true)
      (accepted : next.signer = true) (stored : before vault.key = some (.vault v))
      (placed : (Derivation.vault kind v.creator).derive? Identity.program v.bump = some vault.key)
      (handOver : v.handOver current.key next.key now = .ok v') :
      Effect now before (.handOverVault kind)
        (service :: current :: next :: registry :: vault :: rest)
        (update before vault.key (some (.vault v')))
  | createUser {username : String} {signer user : AccountRef} {rest : List AccountRef}
      {bump : UInt8} {vault : DerivedAddress} (signed : signer.signer = true)
      (vacancy : Vacancy before (.user username) user.key bump)
      (label : validateLabel username Limits.username = .ok ())
      (found : (Derivation.vault .user signer.key).find Identity.program = .ok vault) :
      Effect now before (.createUser username) (signer :: user :: rest)
        (update before user.key (some (.user (User.fresh signer.key username vault.address bump))))
  | updateProfile {profileEffect theme : Option Key} {signer user : AccountRef}
      {rest : List AccountRef} {u : User} (owns : Owns before signer user u) :
      Effect now before (.updateProfile profileEffect theme) (signer :: user :: rest)
        (update before user.key (some (.user (u.decorate profileEffect theme))))
  | createHandle {text : String} {signer user handle : AccountRef} {rest : List AccountRef}
      {u : User} {bump : UInt8} (owns : Owns before signer user u)
      (vacancy : Vacancy before (.handle text) handle.key bump)
      (label : validateLabel text Limits.handle = .ok ()) (bare : u.handle = none) :
      Effect now before (.createHandle text) (signer :: user :: handle :: rest)
        (update (update before user.key (some (.user { u with handle := some handle.key })))
          handle.key (some (.asset (Asset.handle signer.key text bump))))
  | moveHandle {signer source target handle : AccountRef} {rest : List AccountRef} {s t : User}
      {a : Asset} (owns : Owns before signer source s)
      (other : Placed before target.key (.user t)) (apart : target.key ≠ source.key)
      (asset : Placed before handle.key (.asset a)) (kind : a.kind = .userHandle)
      (holds : s.handle = some handle.key) (owner : a.owner = s.authority)
      (bare : t.handle = none) :
      Effect now before .moveHandle (signer :: source :: target :: handle :: rest)
        (update (update (update before source.key (some (.user { s with handle := none })))
          target.key (some (.user { t with handle := some handle.key })))
          handle.key (some (.asset { a with owner := t.authority })))
  | createServer {name ticker : String} {signer server : AccountRef} {rest : List AccountRef}
      {bump : UInt8} {s : Server} (signed : signer.signer = true)
      (vacancy : Vacancy before (.server name ticker) server.key bump)
      (fresh : Server.fresh signer.key name ticker bump = .ok s) :
      Effect now before (.createServer name ticker) (signer :: server :: rest)
        (update before server.key (some (.server s)))
  | handOverServer {next : Key} {signer server : AccountRef} {rest : List AccountRef} {s : Server}
      (placed : Placed before server.key (.server s)) (signed : signer.signer = true)
      (own : s.authority = signer.key) :
      Effect now before (.handOverServer next) (signer :: server :: rest)
        (update before server.key (some (.server (s.handOver next))))
  | createMint {terms : MintTerms} {payer service registry authority mint record : AccountRef}
      {rest : List AccountRef} {r : Registry} {mintBump authorityBump bump : UInt8} {m : MintRecord}
      (gate : Gate before service registry r) (paid : payer.signer = true)
      (foundMint : (Derivation.tokenMint payer.key terms.nonce).find Identity.program =
        .ok ⟨mint.key, mintBump⟩)
      (foundAuthority : Derivation.mintAuthority.find Identity.program =
        .ok ⟨authority.key, authorityBump⟩)
      (vacancy : Vacancy before (.mintRecord mint.key) record.key bump)
      (fresh : MintRecord.fresh mint.key payer.key terms now bump = .ok m) :
      Effect now before (.createMint terms)
        (payer :: service :: registry :: authority :: mint :: record :: rest)
        (update before record.key (some (.mintRecord m)))
  | mintTokens {recipients : List Key} {amounts : List UInt64}
      {service registry authority mint record : AccountRef} {rest : List AccountRef}
      {r : Registry} {authorityBump : UInt8} {m : MintRecord} {total : UInt64}
      (gate : Gate before service registry r)
      (foundAuthority : Derivation.mintAuthority.find Identity.program =
        .ok ⟨authority.key, authorityBump⟩)
      (placed : Placed before record.key (.mintRecord m)) (same : m.mint = mint.key)
      (batch : batchTotal recipients amounts = .ok total) :
      Effect now before (.mintTokens recipients amounts)
        (service :: registry :: authority :: mint :: record :: rest) before

inductive RecordKind where
  | registry
  | vault
  | user
  | asset
  | server
  | mintRecord
deriving DecidableEq

def Stored.kind : Stored → RecordKind
  | registry _ => .registry
  | vault _ => .vault
  | user _ => .user
  | asset _ => .asset
  | server _ => .server
  | mintRecord _ => .mintRecord

def Instruction.touched : Instruction → List RecordKind
  | createRegistry | handOverRegistry | changeServiceSigner _ => [.registry]
  | openVault _ | handOverVault _ => [.vault]
  | createUser _ | updateProfile _ _ => [.user]
  | createHandle _ | moveHandle => [.user, .asset]
  | createServer _ _ | handOverServer _ => [.server]
  | createMint _ => [.mintRecord]
  | mintTokens _ _ => []

section Frame

variable {now : Int64} {i : Instruction} {accounts : List AccountRef} {k : Key} {s new : Stored}

theorem update_eq_some : update before key (some new) k = some s ↔
    k = key ∧ new = s ∨ k ≠ key ∧ before k = some s := by
  by_cases same : k = key
  · subst same
    rw [Function.update_self, Option.some.injEq]
    exact ⟨fun h => .inl ⟨rfl, h⟩, fun h => h.elim And.right fun h => absurd rfl h.1⟩
  · rw [Function.update_of_ne same]
    exact ⟨fun h => .inr ⟨same, h⟩, fun h => h.elim (fun h => absurd h.1 same) And.right⟩

theorem update_eq_some_of_kind (room : ∀ old, before key = some old → old.kind = new.kind)
    (other : s.kind ≠ new.kind) :
    update before key (some new) k = some s ↔ before k = some s := by
  by_cases same : k = key
  · subst same
    rw [Function.update_self]
    constructor
    · intro h
      cases h
      exact absurd rfl other
    · intro h
      exact absurd (room s h) other
  · rw [Function.update_of_ne same]

theorem Vacancy.room {d : Derivation} {bump : UInt8} {kind : RecordKind}
    (vacancy : Vacancy before d key bump) : ∀ old, before key = some old → old.kind = kind := by
  intro old held
  rw [vacancy.free] at held
  cases held

theorem Vacancy.ne_of_stored {d : Derivation} {bump : UInt8} (vacancy : Vacancy before d key bump)
    (stored : before k = some s) : key ≠ k := by
  rintro rfl
  rw [vacancy.free] at stored
  cases stored

theorem ne_of_kind {old : Stored} (stored : before key = some old) (held : before k = some s)
    (other : old.kind ≠ s.kind) : key ≠ k := by
  rintro rfl
  rw [stored] at held
  cases held
  exact other rfl

theorem room_of_stored {old : Stored} {kind : RecordKind} (stored : before key = some old)
    (same : old.kind = kind) : ∀ o, before key = some o → o.kind = kind := by
  intro o held
  rw [stored] at held
  cases held
  exact same

/-- Records of the given kinds are stored one after another, each at a free key or over a record of
its own kind. -/
inductive Overwrites (kinds : List RecordKind) (before : Records) : Records → Prop where
  | none : Overwrites kinds before before
  | store {middle : Records} {key : Key} {new : Stored} (earlier : Overwrites kinds before middle)
      (known : new.kind ∈ kinds) (room : ∀ old, middle key = some old → old.kind = new.kind) :
      Overwrites kinds before (update middle key (some new))

namespace Overwrites

variable {kinds : List RecordKind}

theorem untouched (h : Overwrites kinds before after) (other : s.kind ∉ kinds) :
    after k = some s ↔ before k = some s := by
  induction h with
  | none => exact Iff.rfl
  | store earlier known room ih =>
    have apart := ne_of_mem_of_not_mem known other
    rw [update_eq_some_of_kind room (Ne.symm apart), ih]

/-- No record is ever taken away, or replaced by one of another kind. -/
theorem stays (h : Overwrites kinds before after) (held : before k = some s) :
    ∃ s', after k = some s' ∧ s'.kind = s.kind := by
  induction h with
  | none => exact ⟨s, held, rfl⟩
  | @store middle key new earlier known room ih =>
    obtain ⟨s', held', kind⟩ := ih
    by_cases same : k = key
    · subst same
      exact ⟨new, Function.update_self _ _ _, (room s' held').symm.trans kind⟩
    · exact ⟨s', by rw [Function.update_of_ne same, held'], kind⟩

end Overwrites

theorem Effect.overwrites (h : Effect now before i accounts after) :
    Overwrites i.touched before after := by
  have first {kind : RecordKind} {rest : List RecordKind} : kind ∈ kind :: rest :=
    List.mem_cons_self
  cases h with
  | createRegistry _ _ _ vacancy => exact .store .none first vacancy.room
  | handOverRegistry governs => exact .store .none first (room_of_stored governs.stored rfl)
  | changeServiceSigner governs => exact .store .none first (room_of_stored governs.stored rfl)
  | openVault _ _ _ vacancy => exact .store .none first vacancy.room
  | handOverVault _ _ _ stored => exact .store .none first (room_of_stored stored rfl)
  | createUser _ vacancy => exact .store .none first vacancy.room
  | updateProfile owns => exact .store .none first (room_of_stored owns.stored rfl)
  | createHandle owns vacancy =>
    have apart := vacancy.ne_of_stored owns.stored
    refine .store (.store .none first (room_of_stored owns.stored rfl))
      (List.mem_cons_of_mem _ first) ?_
    rw [Function.update_of_ne apart]
    exact vacancy.room
  | moveHandle owns placed apart asset =>
    have apart₁ := ne_of_kind asset.stored owns.stored nofun
    have apart₂ := ne_of_kind asset.stored placed.stored nofun
    refine .store (.store (.store .none first (room_of_stored owns.stored rfl)) first ?_)
      (List.mem_cons_of_mem _ first) ?_
    · rw [Function.update_of_ne apart]
      exact room_of_stored placed.stored rfl
    · rw [Function.update_of_ne apart₂, Function.update_of_ne apart₁]
      exact room_of_stored asset.stored rfl
  | createServer _ vacancy => exact .store .none first vacancy.room
  | handOverServer placed => exact .store .none first (room_of_stored placed.stored rfl)
  | createMint _ _ _ _ vacancy => exact .store .none first vacancy.room
  | mintTokens => exact .none

theorem Effect.untouched (h : Effect now before i accounts after) (other : s.kind ∉ i.touched) :
    after k = some s ↔ before k = some s := h.overwrites.untouched other

theorem Effect.stays (h : Effect now before i accounts after) (held : before k = some s) :
    ∃ s', after k = some s' ∧ s'.kind = s.kind := h.overwrites.stays held

end Frame

/-- A call has the effect of the instruction and spares what it does not change. -/
structure Performs (call : Call) (i : Instruction) (l' : Ledger) : Prop where
  effect : Effect call.now call.ledger.records i call.accounts l'.records
  keeps : call.ledger.Keeps l'

end VaultMarket
