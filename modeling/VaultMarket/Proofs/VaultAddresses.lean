import VaultMarket.Proofs.Accounts
import VaultMarket.Proofs.Seeds
import VaultMarket.Proofs.VaultControl
set_option autoImplicit false

namespace VaultMarket
open Function (update)

/-- The joined labels are what the seeds of this server vault have after the word of a server. -/
def Server.Spells (name ticker : String) (creator : Key) : Prop :=
  Bytes.ofString (name ++ ticker) = Bytes.ofString "-vault" ++ creator.bytes

namespace Receipt

/-- The call opens a vault of this kind at `key`: its creator and a registered service signer
sign. -/
structure OpensVault (c : Receipt) (before : Records) (kind : VaultKind) (key creator : Key) :
    Prop where
  instruction : ∃ opening, c.instruction = .openVault opening ∧ opening.kind = kind
  vault : c.key? (Operation.vaultField kind) = some key
  creator : c.key? "current_authority" = some creator
  signed : c.Signed "current_authority"
  served : c.Signed "service_signer"
  registered : ∃ k r service, before k = some (.registry r) ∧
    c.key? "service_signer" = some service ∧ service ∈ r.active

structure CreatesServer (c : Receipt) (key : Key) (name ticker : String) : Prop where
  instruction : c.instruction = .createServer name ticker
  server : c.key? "server_account" = some key
  signed : c.Signed "signer"

end Receipt

/-- What the call leaves at the address of a vault: that vault, or a server that spells it out. -/
inductive Occupies (before : Records) (c : Receipt) (kind : VaultKind) (creator key : Key) :
    Stored → Prop where
  | vault {v : Vault} (same : v.kind = kind) (own : v.creator = creator)
      (opened : c.OpensVault before kind key creator) :
      Occupies before c kind creator key (.vault v)
  | server {s : Server} (same : kind = .server) (spelled : Server.Spells s.name s.ticker creator)
      (created : c.CreatesServer key s.name s.ticker) :
      Occupies before c kind creator key (.server s)

section Effects

variable {before after : Records} {now : Int64} {i : Instruction} {accounts : List AccountRef}
  {key k : Key} {new s : Stored}

theorem eq_of_update_free (free : before k = none)
    (held : update before key (some new) k = some s) : key = k ∧ new = s := by
  rcases update_eq_some.mp held with ⟨rfl, same⟩ | ⟨-, old⟩
  · exact ⟨rfl, same⟩
  · rw [free] at old
    cases old

theorem not_free_of_update {old : Stored} (stored : before key = some old) (free : before k = none)
    (held : update before key (some new) k = some s) : False := by
  rw [← (eq_of_update_free free held).1, stored] at free
  cases free

theorem Effect.touched_of_new (h : Effect now before i accounts after) (free : before k = none)
    (held : after k = some s) : s.kind ∈ i.touched := by
  by_contra other
  rw [(h.untouched other).mp held] at free
  cases free

theorem Effect.opens_vault {v : Vault} (h : Effect now before i accounts after)
    (hashed : List Bytes) (free : before key = none) (held : after key = some (.vault v)) :
    Receipt.OpensVault ⟨now, i, accounts, hashed⟩ before v.kind key v.creator := by
  have touched : .vault ∈ i.touched := h.touched_of_new free held
  cases h with
  | @openVault opening payer service authority registry vault rest r bump v₁ gate paid signed
      vacancy fresh =>
    obtain ⟨rfl, new⟩ := eq_of_update_free free held
    cases new
    obtain ⟨terms, -, rfl⟩ := Vault.fresh_eq_ok.mp fresh
    have registered := Registry.isSigner_iff.mp gate.registered
    refine ⟨⟨opening, rfl, rfl⟩, ?_, rfl, ⟨authority, rfl, signed⟩, ⟨service, rfl, gate.signed⟩,
      registry.key, r, service.key, gate.stored, rfl, registered⟩
    cases opening <;> rfl
  | handOverVault _ _ _ stored => exact (not_free_of_update stored free held).elim
  | _ => simp [Instruction.touched] at touched

theorem Effect.creates_server {sv : Server} (h : Effect now before i accounts after)
    (hashed : List Bytes) (free : before key = none) (held : after key = some (.server sv)) :
    Receipt.CreatesServer ⟨now, i, accounts, hashed⟩ key sv.name sv.ticker := by
  have touched : .server ∈ i.touched := h.touched_of_new free held
  cases h with
  | @createServer name ticker signer server rest bump s₁ signed vacancy fresh =>
    obtain ⟨rfl, new⟩ := eq_of_update_free free held
    cases new
    obtain ⟨-, -, rfl⟩ := Server.fresh_eq_ok.mp fresh
    exact ⟨rfl, rfl, signer, rfl, signed⟩
  | handOverServer placed => exact (not_free_of_update placed.stored free held).elim
  | _ => simp [Instruction.touched] at touched

end Effects

theorem Stored.eq_vault_or_server {s : Stored} {kind : VaultKind} {creator : Key}
    (h : Derivation.vault kind creator = s.derivation ∨
      (Derivation.vault kind creator).Clash s.derivation) :
    (∃ v, s = .vault v ∧ v.kind = kind ∧ v.creator = creator) ∨
      ∃ sv, s = .server sv ∧ kind = .server ∧ Server.Spells sv.name sv.ticker creator := by
  rcases h with same | clash
  · cases s with
    | vault v =>
      cases same
      exact .inl ⟨v, rfl, rfl, rfl⟩
    | _ => cases same
  · cases s with
    | server sv =>
      cases clash with
      | vaultServer joined => exact .inr ⟨sv, rfl, rfl, joined⟩
    | _ => cases clash

theorem Occupies.follows {before : Records} {c : Receipt} {kind : VaultKind} {creator key : Key}
    {s s' : Stored} (h : Occupies before c kind creator key s) (since : s.Follows s') :
    Occupies before c kind creator key s' := by
  have same := since.derivation
  cases h with
  | vault same_kind own opened =>
    cases s' with
    | vault v' =>
      obtain ⟨kind_eq, creator_eq⟩ := Derivation.vault.inj same
      exact .vault (kind_eq.trans same_kind) (creator_eq.trans own) opened
    | _ => cases same
  | server same_kind spelled created =>
    cases s' with
    | server s' =>
      obtain ⟨name_eq, ticker_eq⟩ := Derivation.server.inj same
      rw [← name_eq, ← ticker_eq] at spelled created
      exact .server same_kind spelled created
    | _ => cases same

namespace World

variable {steps first : List Step} {step : Step} {c : Receipt} {kind : VaultKind}
  {creator : Key} {home : DerivedAddress} {s : Stored}

theorem Makes.occupies (makes : Makes first step c home.address s)
    (honest : genesis.Honest steps) (part : first ++ [step] <+: steps)
    (found : (Derivation.vault kind creator).find Identity.program = .ok home)
    (free : CollisionFree
      (genesis.hashed steps ++ (Derivation.vault kind creator).tried Identity.program 255)) :
    Occupies (reached first).ledger.records c kind creator home.address s := by
  have trail := RecordTrail.of_honest (first ++ [step]) (honest_of_part part honest)
  have derived := Derivation.derive?_of_find found
  have derived' := Derivation.derive?_of_find makes.found
  have seeds := free.seeds_eq (List.mem_append_right _ (Derivation.mem_tried_of_find found))
    (List.mem_append_left _ (hashed_of_part part _ (trail.met makes.held))) derived derived'
  have clash := (Derivation.flatten_seeds_eq_iff (Derivation.derive?_eq_some.mp derived).1
    (Derivation.derive?_eq_some.mp derived').1).mp seeds.1
  rcases Stored.eq_vault_or_server clash with ⟨v, rfl, rfl, rfl⟩ | ⟨sv, rfl, server, spelled⟩
  · exact .vault rfl rfl (makes.effect.opens_vault c.hashed makes.free makes.held)
  · exact .server server spelled (makes.effect.creates_server c.hashed makes.free makes.held)

end World

/-- What stands at the key of a vault in the run, and what has come there. -/
structure VaultAddressKept (steps : List Step) (kind : VaultKind) (creator key : Key) : Prop where
  /-- An account of the program there is the vault or a server that spells it out, and has been made
  by a call for that. -/
  occupied : ((World.reached steps).ledger.get key).owner = Identity.program →
    ∃ s first step c, (World.reached steps).ledger.records key = some s ∧
      first ++ [step] <+: steps ∧ (World.reached first).receipt? step = some c ∧
      (World.reached first).ledger.records key = none ∧
      Occupies (World.reached first).ledger.records c kind creator key s
  made : ∀ first step s, first ++ [step] <+: steps →
    (World.reached first).ledger.records key = none →
    (World.reached (first ++ [step])).ledger.records key = some s →
    ∃ c, (World.reached first).receipt? step = some c ∧
      Occupies (World.reached first).ledger.records c kind creator key s

theorem vault_address_kept (steps : List Step) (honest : World.genesis.Honest steps)
    (kind : VaultKind) (creator : Key) (home : DerivedAddress)
    (found : (Derivation.vault kind creator).find Identity.program = .ok home)
    (free : CollisionFree (World.genesis.hashed steps ++
      (Derivation.vault kind creator).tried Identity.program 255)) :
    VaultAddressKept steps kind creator home.address := by
  refine ⟨fun own => ?_, fun first step s part vacant held => ?_⟩
  · have room := Ledger.room_eq_some.mpr ⟨own, rfl⟩
    obtain ⟨s, held, -⟩ := World.sized_of_honest steps honest home.address _ room
    obtain ⟨first, step, c, old, part, makes, since⟩ := World.made_in_run honest held
    have occupies := makes.occupies honest part found free
    exact ⟨s, first, step, c, held, part, makes.called, makes.free, occupies.follows since⟩
  · have fair := (World.honest_concat.mp (World.honest_of_part part honest)).2
    rcases World.origin_of_step fair held with ⟨old, before, -⟩ | ⟨c, makes⟩
    · rw [vacant] at before
      cases before
    · exact ⟨c, makes.called, makes.occupies honest part found free⟩

section Samples
open AccountRef (signing written shown)

set_option maxRecDepth 100000 in
theorem vault_address_kept_after_opening : World.genesis.Honest Step.vaultHandOver ∧
    CollisionFree (World.genesis.hashed Step.vaultHandOver ++
      (Derivation.vault .user (Key.filled 1)).tried Identity.program 255) ∧
    ∃ home, (Derivation.vault .user (Key.filled 1)).find Identity.program = .ok home ∧
      ((World.reached Step.vaultHandOver).ledger.get home.address).owner = Identity.program ∧
      VaultAddressKept Step.vaultHandOver .user (Key.filled 1) home.address := by
  have honest : World.genesis.Honest Step.vaultHandOver := by decide +kernel
  have free : CollisionFree (World.genesis.hashed Step.vaultHandOver ++
      (Derivation.vault .user (Key.filled 1)).tried Identity.program 255) := by
    decide +kernel
  have some : ((Derivation.vault .user (Key.filled 1)).find? Identity.program).isSome = true := by
    decide +kernel
  obtain ⟨bump, found⟩ := Derivation.exists_home some
  refine ⟨honest, free, _, found, ?_, ?_⟩
  · change ((World.reached Step.vaultHandOver).ledger.get
      (Derivation.vault .user (Key.filled 1)).home).owner = Identity.program
    decide +kernel
  · exact vault_address_kept Step.vaultHandOver honest .user (Key.filled 1) _ found free

/-- A stranger asks for a server whose labels spell out the server vault of the sample key. -/
def Step.spelledVault : List Step :=
  [fund (Key.filled 1),
   ask (.createServer "-vaultaaaaaaaaaaaaaaaaaaaaaaaaaa" "aaaaaa") [signing (Key.filled 1),
     written (Derivation.vault .server Derivation.sampleKey).home, shown Identity.systemProgram]]

set_option maxRecDepth 100000 in
theorem vault_address_taken : World.genesis.Honest Step.spelledVault ∧
    CollisionFree (World.genesis.hashed Step.spelledVault ++
      (Derivation.vault .server Derivation.sampleKey).tried Identity.program 255) ∧
    ∃ home, (Derivation.vault .server Derivation.sampleKey).find Identity.program = .ok home ∧
      ((World.reached Step.spelledVault).ledger.get home.address).owner = Identity.program ∧
      ¬∃ v, (World.reached Step.spelledVault).ledger.records home.address = some (.vault v) := by
  have free : CollisionFree (World.genesis.hashed Step.spelledVault ++
      (Derivation.vault .server Derivation.sampleKey).tried Identity.program 255) := by
    decide +kernel
  have some : ((Derivation.vault .server Derivation.sampleKey).find? Identity.program).isSome =
      true := by
    decide +kernel
  have stored : ((World.reached Step.spelledVault).ledger.records
      (Derivation.vault .server Derivation.sampleKey).home).map Stored.kind =
        Option.some .server := by
    decide +kernel
  obtain ⟨bump, found⟩ := Derivation.exists_home some
  obtain ⟨s, held, kind⟩ := Option.map_eq_some_iff.mp stored
  refine ⟨by decide +kernel, free, _, found, Ledger.owner_of_records held, ?_⟩
  rintro ⟨v, vault⟩
  cases held.symm.trans vault
  cases kind

end Samples
end VaultMarket
