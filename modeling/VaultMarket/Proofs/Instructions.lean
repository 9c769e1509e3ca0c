import Mathlib.Tactic.Simproc.ExistsAndEq
import VaultMarket.Program
import VaultMarket.Proofs.Access
set_option autoImplicit false

/-!
# When an instruction succeeds

For each instruction, the accounts that it takes and the chain of checks, creations and stores that
it passes. These equivalences are the only place where an instruction is unfolded.
-/

namespace VaultMarket

namespace Outcome

variable {α β : Type}

def Gives (o : Outcome α) (a : α) : Prop := o.result = .ok a

theorem gives_bind {o : Outcome α} {f : α → Outcome β} {b : β} :
    (o >>= f).Gives b ↔ ∃ a, o.Gives a ∧ (f a).Gives b := result_bind_eq_ok

theorem gives_lift {r : Except Failure α} {a : α} : Gives (liftM r) a ↔ r = .ok a := Iff.rfl

theorem gives_pure {a b : α} : Gives (pure a) b ↔ a = b := by
  rw [Gives, result_pure, Except.ok.injEq]

theorem gives_write {entry : LogEntry} {u : Unit} : (write entry).Gives u ↔ True :=
  iff_true_intro rfl

theorem gives_emit {e : Event} {u : Unit} : (emit e).Gives u ↔ True := gives_write
theorem gives_say {text : String} {u : Unit} : (say text).Gives u ↔ True := gives_write
theorem gives_start {title : String} {u : Unit} : (start title).Gives u ↔ True := gives_write

end Outcome

namespace Program
open Loader Outcome

section Loads

variable {l : Ledger} {as rest : List AccountRef}

theorem CreateRegistry.load_eq_ok {a : CreateRegistry} : load l as = .ok (a, rest) ↔
    ∃ system, as = a.payer :: a.authority :: a.registry :: system :: rest ∧
      a.payer.signer = true ∧ a.authority.signer = true ∧
      l.IsHost Identity.systemProgram system := by
  obtain ⟨payer, authority, registry⟩ := a
  simp [load, bind_eq_ok, signer_eq_ok, fresh_eq_ok, program_eq_ok, pure_eq_ok, and_assoc,
    -bind_pure_comp]

theorem HandOverRegistry.load_eq_ok {a : HandOverRegistry} : load l as = .ok (a, rest) ↔
    as = a.registry.ref :: a.current :: a.next :: rest ∧
      l.records a.registry.key = some (.registry a.registry.value) ∧
      a.current.signer = true ∧ a.next.signer = true := by
  obtain ⟨registry, current, next⟩ := a
  simp [load, bind_eq_ok, signer_eq_ok, record_eq_ok, pure_eq_ok, and_assoc, Kind.wrap,
    -bind_pure_comp]

theorem ChangeServiceSigner.load_eq_ok {a : ChangeServiceSigner} : load l as = .ok (a, rest) ↔
    as = a.registry.ref :: a.authority :: a.serviceSigner :: rest ∧
      l.records a.registry.key = some (.registry a.registry.value) ∧
      a.authority.signer = true ∧ a.serviceSigner.signer = true := by
  obtain ⟨registry, authority, serviceSigner⟩ := a
  simp [load, bind_eq_ok, signer_eq_ok, record_eq_ok, pure_eq_ok, and_assoc, Kind.wrap,
    -bind_pure_comp]

theorem OpenVault.load_eq_ok {a : OpenVault} : load l as = .ok (a, rest) ↔
    ∃ system, as = a.payer :: a.serviceSigner :: a.authority :: a.registry.ref :: a.vault ::
        system :: rest ∧
      a.payer.signer = true ∧ a.serviceSigner.signer = true ∧ a.authority.signer = true ∧
      l.records a.registry.key = some (.registry a.registry.value) ∧
      l.IsHost Identity.systemProgram system := by
  obtain ⟨payer, serviceSigner, authority, registry, vault⟩ := a
  simp [load, bind_eq_ok, signer_eq_ok, fresh_eq_ok, program_eq_ok, record_eq_ok, pure_eq_ok,
    and_assoc, Kind.wrap, -bind_pure_comp]

theorem HandOverVault.load_eq_ok {kind : VaultKind} {a : HandOverVault} :
    load kind l as = .ok (a, rest) ↔
      as = a.serviceSigner :: a.current :: a.next :: a.registry.ref :: a.vault.ref :: rest ∧
      a.serviceSigner.signer = true ∧ a.current.signer = true ∧ a.next.signer = true ∧
      l.records a.registry.key = some (.registry a.registry.value) ∧
      l.records a.vault.key = some (.vault a.vault.value) := by
  obtain ⟨serviceSigner, current, next, registry, vault⟩ := a
  simp [load, bind_eq_ok, signer_eq_ok, record_eq_ok, pure_eq_ok, and_assoc, Kind.wrap,
    -bind_pure_comp]

theorem CreateUser.load_eq_ok {a : CreateUser} : load l as = .ok (a, rest) ↔
    ∃ system, as = a.signer :: a.user :: system :: rest ∧ a.signer.signer = true ∧
      l.IsHost Identity.systemProgram system := by
  obtain ⟨signer, user⟩ := a
  simp [load, bind_eq_ok, signer_eq_ok, fresh_eq_ok, program_eq_ok, pure_eq_ok, and_assoc,
    -bind_pure_comp]

theorem UpdateProfile.load_eq_ok {a : UpdateProfile} : load l as = .ok (a, rest) ↔
    as = a.signer :: a.user.ref :: rest ∧ a.signer.signer = true ∧
      l.records a.user.key = some (.user a.user.value) := by
  obtain ⟨signer, user⟩ := a
  simp [load, bind_eq_ok, signer_eq_ok, record_eq_ok, pure_eq_ok, and_assoc, Kind.wrap,
    -bind_pure_comp]

theorem CreateHandle.load_eq_ok {a : CreateHandle} : load l as = .ok (a, rest) ↔
    ∃ system, as = a.signer :: a.user.ref :: a.handle :: system :: rest ∧
      a.signer.signer = true ∧ l.records a.user.key = some (.user a.user.value) ∧
      l.IsHost Identity.systemProgram system := by
  obtain ⟨signer, user, handle⟩ := a
  simp [load, bind_eq_ok, signer_eq_ok, fresh_eq_ok, program_eq_ok, record_eq_ok, pure_eq_ok,
    and_assoc, Kind.wrap, -bind_pure_comp]

theorem MoveHandle.load_eq_ok {a : MoveHandle} : load l as = .ok (a, rest) ↔
    as = a.signer :: a.source.ref :: a.target.ref :: a.handle.ref :: rest ∧
      a.signer.signer = true ∧ l.records a.source.key = some (.user a.source.value) ∧
      l.records a.target.key = some (.user a.target.value) ∧
      l.records a.handle.key = some (.asset a.handle.value) := by
  obtain ⟨signer, source, target, handle⟩ := a
  simp [load, bind_eq_ok, signer_eq_ok, record_eq_ok, pure_eq_ok, and_assoc, Kind.wrap,
    -bind_pure_comp]

theorem CreateServer.load_eq_ok {a : CreateServer} : load l as = .ok (a, rest) ↔
    ∃ system, as = a.signer :: a.server :: system :: rest ∧ a.signer.signer = true ∧
      l.IsHost Identity.systemProgram system := by
  obtain ⟨signer, server⟩ := a
  simp [load, bind_eq_ok, signer_eq_ok, fresh_eq_ok, program_eq_ok, pure_eq_ok, and_assoc,
    -bind_pure_comp]

theorem HandOverServer.load_eq_ok {a : HandOverServer} : load l as = .ok (a, rest) ↔
    as = a.signer :: a.server.ref :: rest ∧ a.signer.signer = true ∧
      l.records a.server.key = some (.server a.server.value) := by
  obtain ⟨signer, server⟩ := a
  simp [load, bind_eq_ok, signer_eq_ok, record_eq_ok, pure_eq_ok, and_assoc, Kind.wrap,
    -bind_pure_comp]

theorem CreateMint.load_eq_ok {a : CreateMint} : load l as = .ok (a, rest) ↔
    ∃ token system, as = a.payer :: a.serviceSigner :: a.registry.ref :: a.mintAuthority ::
        a.mint :: a.mintRecord :: token :: system :: rest ∧
      a.payer.signer = true ∧ a.serviceSigner.signer = true ∧
      l.records a.registry.key = some (.registry a.registry.value) ∧
      l.IsHost Identity.tokenProgram token ∧ l.IsHost Identity.systemProgram system := by
  obtain ⟨payer, serviceSigner, registry, mintAuthority, mint, mintRecord⟩ := a
  simp [load, bind_eq_ok, signer_eq_ok, unchecked_eq_ok, fresh_eq_ok, program_eq_ok, record_eq_ok,
    pure_eq_ok, and_assoc, Kind.wrap, -bind_pure_comp]
  exact exists_comm

theorem MintTokens.load_eq_ok {a : MintTokens} : load l as = .ok (a, rest) ↔
    ∃ token, as = a.serviceSigner :: a.registry.ref :: a.mintAuthority :: a.mint.ref ::
        a.mintRecord.ref :: token :: rest ∧
      a.serviceSigner.signer = true ∧
      l.records a.registry.key = some (.registry a.registry.value) ∧
      (l.get a.mint.key).owner = Identity.tokenProgram ∧
      Mint.unpack (l.get a.mint.key).data = .ok a.mint.value ∧
      l.records a.mintRecord.key = some (.mintRecord a.mintRecord.value) ∧
      l.IsHost Identity.tokenProgram token := by
  obtain ⟨serviceSigner, registry, mintAuthority, mint, mintRecord⟩ := a
  simp [load, bind_eq_ok, signer_eq_ok, unchecked_eq_ok, mint_eq_ok, program_eq_ok, record_eq_ok,
    pure_eq_ok, and_assoc, Kind.wrap, -bind_pure_comp]

end Loads

section Checks

variable {u : Unit}

theorem requireRegistry_eq_ok {r : Held Registry} : requireRegistry r = .ok u ↔
    registryAddress.derive? Identity.program r.value.bump = some r.key :=
  requireStored_eq_ok

theorem requireService_eq_ok {r : Held Registry} {service : AccountRef} :
    requireService r service = .ok u ↔
      registryAddress.derive? Identity.program r.value.bump = some r.key ∧
        r.value.isSigner service.key = true := by
  simp [requireService, Except.bind_eq_ok, requireRegistry_eq_ok, require_eq_ok]

theorem requireUpdate_eq_ok {r : Held Registry} {authority : AccountRef} :
    requireUpdate r authority = .ok u ↔
      registryAddress.derive? Identity.program r.value.bump = some r.key ∧
        r.ref.writable = true ∧ r.value.updateAuthority = authority.key := by
  simp [requireUpdate, Except.bind_eq_ok, requireRegistry_eq_ok, requireWritable_eq_ok,
    require_eq_ok]

theorem requireUser_eq_ok {field : String} {user : Held User} :
    requireUser field user = .ok u ↔
      (Derivation.user user.value.username).derive? Identity.program user.value.bump =
        some user.key ∧ user.ref.writable = true := by
  simp [requireUser, Except.bind_eq_ok, requireStored_eq_ok, requireWritable_eq_ok]

theorem requireOwnUser_eq_ok {field : String} {user : Held User} {signer : AccountRef} :
    requireOwnUser field user signer = .ok u ↔
      ((Derivation.user user.value.username).derive? Identity.program user.value.bump =
        some user.key ∧ user.ref.writable = true) ∧ user.value.authority = signer.key := by
  simp [requireOwnUser, Except.bind_eq_ok, requireUser_eq_ok, require_eq_ok]

end Checks

section Instructions

variable {call : Call} {l' : Ledger}

theorem createRegistry_gives : (createRegistry call).Gives l' ↔
    ∃ a rest, CreateRegistry.load call.ledger call.accounts = .ok (a, rest) ∧ ∃ l₁ bump,
      createRecord Registry "config" (.registry a.authority.key) a.payer a.registry call.ledger =
        .ok (l₁, bump) ∧
      a.payer.writable = true ∧ a.authority.key = Identity.configAuthority ∧
      store "config" a.registry.key
        (Registry.fresh a.payer.key a.authority.key call.now bump) l₁ = .ok l' := by
  simp only [createRegistry, gives_bind, gives_lift, gives_emit, gives_say, run'_eq_ok,
    Prod.exists, exists_unit, exists_and_right, true_and, require_eq_ok, requireWritable_eq_ok]

theorem handOverRegistry_gives : (handOverRegistry call).Gives l' ↔
    ∃ a rest, HandOverRegistry.load call.ledger call.accounts = .ok (a, rest) ∧
      requireUpdate a.registry a.current = .ok () ∧
      store "config" a.registry.key
        (a.registry.value.handOver a.current.key a.next.key call.now) call.ledger = .ok l' := by
  simp only [handOverRegistry, gives_bind, gives_lift, gives_emit, gives_say, run'_eq_ok,
    exists_unit, exists_and_right, true_and]

theorem changeServiceSigner_gives {what : SignerChange} :
    (changeServiceSigner call what).Gives l' ↔
      ∃ a rest, ChangeServiceSigner.load call.ledger call.accounts = .ok (a, rest) ∧
      requireUpdate a.registry a.authority = .ok () ∧ ∃ changed,
      a.registry.value.change what a.serviceSigner.key = .ok changed ∧
      store "config" a.registry.key (changed.touch call.now a.authority.key) call.ledger =
        .ok l' := by
  simp only [changeServiceSigner, gives_bind, gives_lift, gives_emit, gives_say, run'_eq_ok,
    exists_unit, exists_and_right, true_and]

theorem openVault_gives {opening : VaultOpening} : (openVault call opening).Gives l' ↔
    ∃ a rest, OpenVault.load call.ledger call.accounts = .ok (a, rest) ∧ ∃ l₁ bump,
      createRecord Vault (Operation.vaultField opening.kind) (.vault opening.kind a.authority.key)
        a.payer a.vault call.ledger = .ok (l₁, bump) ∧
      a.payer.writable = true ∧ requireService a.registry a.serviceSigner = .ok () ∧ ∃ vault,
      Vault.fresh opening.kind a.authority.key opening.terms? call.now bump = .ok vault ∧
      store (Operation.vaultField opening.kind) a.vault.key vault l₁ = .ok l' := by
  simp only [openVault, gives_bind, gives_lift, gives_emit, gives_say, run'_eq_ok, Prod.exists,
    exists_unit, exists_and_right, true_and, requireWritable_eq_ok]

theorem handOverVault_gives {kind : VaultKind} : (handOverVault call kind).Gives l' ↔
    ∃ a rest, HandOverVault.load kind call.ledger call.accounts = .ok (a, rest) ∧
      requireService a.registry a.serviceSigner = .ok () ∧
      (Derivation.vault kind a.vault.value.creator).derive? Identity.program a.vault.value.bump =
        some a.vault.key ∧
      a.vault.ref.writable = true ∧ ∃ vault,
      a.vault.value.handOver a.current.key a.next.key call.now = .ok vault ∧
      store (Operation.vaultField kind) a.vault.key vault call.ledger = .ok l' := by
  simp only [handOverVault, gives_bind, gives_lift, gives_emit, gives_say, run'_eq_ok,
    exists_unit, exists_and_right, true_and, requireWritable_eq_ok, requireStored_eq_ok]

theorem createUser_gives {username : String} : (createUser call username).Gives l' ↔
    ∃ a rest, CreateUser.load call.ledger call.accounts = .ok (a, rest) ∧ ∃ l₁ bump,
      createRecord User "user_account" (.user username) a.signer a.user call.ledger =
        .ok (l₁, bump) ∧
      a.signer.writable = true ∧ validateLabel username Limits.username = .ok () ∧ ∃ vault,
      (Derivation.vault .user a.signer.key).find Identity.program = .ok vault ∧
      store "user_account" a.user.key (User.fresh a.signer.key username vault.address bump) l₁ =
        .ok l' := by
  simp only [createUser, gives_bind, gives_lift, gives_emit, gives_say, run'_eq_ok, Prod.exists,
    exists_unit, exists_and_right, true_and, requireWritable_eq_ok]

theorem updateProfile_gives {profileEffect theme : Option Key} :
    (updateProfile call profileEffect theme).Gives l' ↔
      ∃ a rest, UpdateProfile.load call.ledger call.accounts = .ok (a, rest) ∧
      requireOwnUser "user_account" a.user a.signer = .ok () ∧
      store "user_account" a.user.key (a.user.value.decorate profileEffect theme) call.ledger =
        .ok l' := by
  simp only [updateProfile, gives_bind, gives_lift, gives_emit, run'_eq_ok, exists_unit,
    exists_and_right, true_and]

theorem createHandle_gives {text : String} : (createHandle call text).Gives l' ↔
    ∃ a rest, CreateHandle.load call.ledger call.accounts = .ok (a, rest) ∧ ∃ l₁ bump,
      createRecord Asset "handle_asset" (.handle text) a.signer a.handle call.ledger =
        .ok (l₁, bump) ∧
      a.signer.writable = true ∧ requireOwnUser "user_account" a.user a.signer = .ok () ∧
      validateLabel text Limits.handle = .ok () ∧ ∃ user,
      a.user.value.attach a.handle.key = .ok user ∧ ∃ l₂,
      store "user_account" a.user.key user l₁ = .ok l₂ ∧
      store "handle_asset" a.handle.key (Asset.handle a.signer.key text bump) l₂ = .ok l' := by
  simp only [createHandle, gives_bind, gives_lift, gives_emit, run'_eq_ok, Prod.exists,
    exists_unit, exists_and_right, true_and, requireWritable_eq_ok]

theorem moveHandle_gives : (moveHandle call).Gives l' ↔
    ∃ a rest, MoveHandle.load call.ledger call.accounts = .ok (a, rest) ∧
      requireOwnUser "from_user_account" a.source a.signer = .ok () ∧
      requireUser "to_user_account" a.target = .ok () ∧ a.target.key ≠ a.source.key ∧
      (Derivation.handle a.handle.value.text).derive? Identity.program a.handle.value.bump =
        some a.handle.key ∧
      a.handle.ref.writable = true ∧ a.handle.value.kind = .userHandle ∧ ∃ moved,
      HandleMove.run ⟨a.handle.value, a.source.value, a.target.value⟩ a.handle.key = .ok moved ∧
      ∃ l₁, store "from_user_account" a.source.key moved.source call.ledger = .ok l₁ ∧
      ∃ l₂, store "to_user_account" a.target.key moved.target l₁ = .ok l₂ ∧
      store "handle_asset" a.handle.key moved.asset l₂ = .ok l' := by
  simp only [moveHandle, gives_bind, gives_lift, gives_emit, gives_say, run'_eq_ok, exists_unit,
    exists_and_right, true_and, require_eq_ok, requireWritable_eq_ok, requireStored_eq_ok]

theorem createServer_gives {name ticker : String} :
    (createServer call name ticker).Gives l' ↔
      ∃ a rest, CreateServer.load call.ledger call.accounts = .ok (a, rest) ∧ ∃ l₁ bump,
      createRecord Server "server_account" (.server name ticker) a.signer a.server call.ledger =
        .ok (l₁, bump) ∧
      a.signer.writable = true ∧ ∃ server,
      Server.fresh a.signer.key name ticker bump = .ok server ∧
      store "server_account" a.server.key server l₁ = .ok l' := by
  simp only [createServer, gives_bind, gives_lift, gives_emit, gives_say, run'_eq_ok,
    Prod.exists, exists_unit, exists_and_right, true_and, requireWritable_eq_ok]

theorem handOverServer_gives {next : Key} : (handOverServer call next).Gives l' ↔
    ∃ a rest, HandOverServer.load call.ledger call.accounts = .ok (a, rest) ∧
      (Derivation.server a.server.value.name a.server.value.ticker).derive? Identity.program
        a.server.value.bump = some a.server.key ∧
      a.server.ref.writable = true ∧ a.server.value.authority = a.signer.key ∧
      store "server_account" a.server.key (a.server.value.handOver next) call.ledger =
        .ok l' := by
  simp only [handOverServer, gives_bind, gives_lift, gives_emit, gives_say, run'_eq_ok,
    exists_unit, exists_and_right, true_and, require_eq_ok, requireWritable_eq_ok,
    requireStored_eq_ok]

theorem createMint_gives {terms : MintTerms} : (createMint call terms).Gives l' ↔
    ∃ a rest, CreateMint.load call.ledger call.accounts = .ok (a, rest) ∧ ∃ l₁ mintBump,
      create "mint" (.tokenMint a.payer.key terms.nonce) a.payer a.mint Mint.width
        Identity.tokenProgram call.ledger = .ok (l₁, mintBump) ∧
      a.mint.writable = true ∧ ∃ l₂ bump,
      createRecord MintRecord "mint_record" (.mintRecord a.mint.key) a.payer a.mintRecord
        (Token.openMint a.mint.key a.mintAuthority.key terms.decimals l₁) = .ok (l₂, bump) ∧
      a.payer.writable = true ∧ requireService a.registry a.serviceSigner = .ok () ∧
      (∃ authorityBump, Derivation.mintAuthority.find Identity.program =
        .ok ⟨a.mintAuthority.key, authorityBump⟩) ∧ ∃ record,
      MintRecord.fresh a.mint.key a.payer.key terms call.now bump = .ok record ∧
      store "mint_record" a.mintRecord.key record l₂ = .ok l' := by
  simp only [createMint, gives_bind, gives_lift, gives_emit, gives_say, gives_start, run'_eq_ok,
    Prod.exists, exists_unit, exists_and_right, true_and, requireWritable_eq_ok, requireFound_eq_ok]

theorem mintTokens_gives {recipients : List Key} {amounts : List UInt64} :
    (mintTokens call recipients amounts).Gives l' ↔
      ∃ a targets, MintTokens.load call.ledger call.accounts = .ok (a, targets) ∧
      requireService a.registry a.serviceSigner = .ok () ∧
      (∃ authorityBump, Derivation.mintAuthority.find Identity.program =
        .ok ⟨a.mintAuthority.key, authorityBump⟩) ∧
      a.mint.ref.writable = true ∧
      (Derivation.mintRecord a.mint.key).derive? Identity.program a.mintRecord.value.bump =
        some a.mintRecord.key ∧
      a.mintRecord.value.mint = a.mint.key ∧
      (∃ total, batchTotal recipients amounts = .ok total) ∧
      targets.length = recipients.length ∧
      (pay a.mint.key a.mintAuthority.key (payments targets recipients amounts)
        call.ledger).Gives l' := by
  simp only [mintTokens, StateT.run, gives_bind, gives_lift, gives_pure, gives_emit, gives_say,
    Prod.exists, exists_unit, exists_and_right, exists_eq_right, true_and, require_eq_ok,
    requireWritable_eq_ok, requireFound_eq_ok, requireStored_eq_ok]

end Instructions
end Program
end VaultMarket
