import VaultMarket.Proofs.History
set_option autoImplicit false

/-!
# Who controls a vault

A vault keeps its kind, its creator and its first entries. Its authority and its last change follow
from the history of the calls. The instructions that hand a vault over do not look at the kind that
the record states: the address keeps the kinds apart, as long as no two hashed inputs collide.
-/

namespace VaultMarket
open Function (update)

namespace Receipt

def handedVault? (c : Receipt) : Option Key :=
  match c.instruction with
  | .handOverVault kind => c.key? (Operation.vaultField kind)
  | _ => none

def vaultHeir? (key : Key) (c : Receipt) : Option Key :=
  if c.handedVault? = some key then c.key? "new_authority" else none

def vaultDate? (key : Key) (c : Receipt) : Option Int64 :=
  if c.handedVault? = some key then some c.now else none

/-- The call hands over a vault of this kind at `key`: its authority, its next authority and a
registered service signer sign. -/
structure HandsOverVault (c : Receipt) (before : Records) (kind : VaultKind)
    (key authority : Key) : Prop where
  instruction : c.instruction = .handOverVault kind
  vault : c.key? (Operation.vaultField kind) = some key
  current : c.key? "current_authority" = some authority
  signed : c.Signed "current_authority"
  accepted : c.Signed "new_authority"
  served : c.Signed "service_signer"
  registered : ∃ k r service, before k = some (.registry r) ∧
    c.key? "service_signer" = some service ∧ service ∈ r.active

theorem vaultHeir?_of_other {key : Key} {c : Receipt} (other : c.handedVault? ≠ some key) :
    c.vaultHeir? key = none := if_neg other

theorem vaultDate?_of_other {key : Key} {c : Receipt} (other : c.handedVault? ≠ some key) :
    c.vaultDate? key = none := if_neg other

theorem handedVault?_of_untouched {c : Receipt} (other : .vault ∉ c.instruction.touched) :
    c.handedVault? = none := by
  unfold handedVault?
  split
  · rename_i same
    rw [same] at other
    exact absurd List.mem_cons_self other
  · rfl

theorem handedVault?_handOverVault {now : Int64} {kind : VaultKind} {hashed : List Bytes}
    {service current next registry vault : AccountRef} {rest : List AccountRef} :
    handedVault? ⟨now, .handOverVault kind,
      service :: current :: next :: registry :: vault :: rest, hashed⟩ = some vault.key := by
  cases kind <;> rfl

end Receipt

open Receipt (latest)

structure Vault.SameOrigin (v v' : Vault) : Prop where
  kind : v'.kind = v.kind
  creator : v'.creator = v.creator
  serverId : v'.serverId = v.serverId
  serverName : v'.serverName = v.serverName
  createdAt : v'.createdAt = v.createdAt
  bump : v'.bump = v.bump

theorem Vault.SameOrigin.refl (v : Vault) : v.SameOrigin v := ⟨rfl, rfl, rfl, rfl, rfl, rfl⟩

theorem Vault.SameOrigin.trans {v v' v'' : Vault} (first : v.SameOrigin v')
    (second : v'.SameOrigin v'') : v.SameOrigin v'' where
  kind := second.kind.trans first.kind
  creator := second.creator.trans first.creator
  serverId := second.serverId.trans first.serverId
  serverName := second.serverName.trans first.serverName
  createdAt := second.createdAt.trans first.createdAt
  bump := second.bump.trans first.bump

structure Vault.Follows (v v' : Vault) (key : Key) (c : Receipt) : Prop
    extends v.SameOrigin v' where
  authority : v'.authority = (c.vaultHeir? key).getD v.authority
  modifiedAt : v'.modifiedAt = (c.vaultDate? key).getD v.modifiedAt

theorem Vault.Follows.refl {v : Vault} {key : Key} {c : Receipt}
    (other : c.handedVault? ≠ some key) : v.Follows v key c := by
  refine ⟨.refl v, ?_, ?_⟩
  · rw [Receipt.vaultHeir?_of_other other, Option.getD_none]
  · rw [Receipt.vaultDate?_of_other other, Option.getD_none]

structure Vault.Opened (v : Vault) (key : Key) (c : Receipt) : Prop where
  found : (Derivation.vault v.kind v.creator).find Identity.program = .ok ⟨key, v.bump⟩
  authority : v.authority = v.creator
  modifiedAt : v.modifiedAt = v.createdAt
  other : c.handedVault? = none

section Effects

variable {before after : Records} {now : Int64} {i : Instruction} {accounts : List AccountRef}
  {k : Key} {v v' : Vault}

theorem Effect.vault_untouched (h : Effect now before i accounts after)
    (other : .vault ∉ i.touched) :
    after k = some (.vault v) ↔ before k = some (.vault v) := h.untouched other

theorem Effect.vault_stays (h : Effect now before i accounts after)
    (held : before k = some (.vault v)) : ∃ v', after k = some (.vault v') := by
  obtain ⟨s, held', kind⟩ := h.stays held
  cases s with
  | vault v' => exact ⟨v', held'⟩
  | _ => cases kind

theorem Effect.vault_origin (h : Effect now before i accounts after) (hashed : List Bytes)
    (held : after k = some (.vault v')) :
    (∃ v, before k = some (.vault v) ∧ v.Follows v' k ⟨now, i, accounts, hashed⟩) ∨
      before k = none ∧ v'.Opened k ⟨now, i, accounts, hashed⟩ := by
  by_cases other : .vault ∉ i.touched
  · left
    refine ⟨v', (h.vault_untouched other).mp held, .refl ?_⟩
    rw [Receipt.handedVault?_of_untouched other]
    nofun
  · cases h with
    | openVault _ _ _ vacancy fresh =>
      rcases update_eq_some.mp held with ⟨same, new⟩ | ⟨-, old⟩
      · cases new
        rw [same]
        obtain ⟨terms, -, rfl⟩ := Vault.fresh_eq_ok.mp fresh
        exact .inr ⟨vacancy.free, vacancy.found, rfl, rfl, rfl⟩
      · exact .inl ⟨v', old, .refl nofun⟩
    | handOverVault _ _ _ stored _ handOver =>
      left
      rcases update_eq_some.mp held with ⟨same, new⟩ | ⟨apart, old⟩
      · cases new
        rw [same]
        obtain ⟨-, rfl⟩ := Vault.handOver_eq_ok.mp handOver
        refine ⟨_, stored, ⟨rfl, rfl, rfl, rfl, rfl, rfl⟩, ?_, ?_⟩
        · rw [Receipt.vaultHeir?, if_pos Receipt.handedVault?_handOverVault]
          rfl
        · rw [Receipt.vaultDate?, if_pos Receipt.handedVault?_handOverVault]
          rfl
      · refine ⟨v', old, .refl ?_⟩
        rw [Receipt.handedVault?_handOverVault]
        exact fun e => apart (Option.some.inj e).symm
    | _ => exact absurd (by simp [Instruction.touched]) other

theorem Effect.vault_handed (h : Effect now before i accounts after) (hashed : List Bytes)
    (handed : Receipt.handedVault? ⟨now, i, accounts, hashed⟩ = some k)
    (held : before k = some (.vault v)) :
    ∃ kind, Receipt.HandsOverVault ⟨now, i, accounts, hashed⟩ before kind k v.authority ∧
      (Derivation.vault kind v.creator).derive? Identity.program v.bump = some k ∧
      (Derivation.vault kind v.creator).preimage Identity.program v.bump ∈
        i.hashed before accounts := by
  cases h with
  | @handOverVault kind service current next registry vault rest r v₀ v₁ gate signed accepted
      stored placed handOver =>
    have same : vault.key = k :=
      Option.some.inj (Receipt.handedVault?_handOverVault.symm.trans handed)
    subst same
    rw [stored] at held
    cases held
    obtain ⟨own, -⟩ := Vault.handOver_eq_ok.mp handOver
    have claims : before.vaultClaims kind vault = [(.vault kind v.creator, v.bump)] := by
      rw [Records.vaultClaims, stored]
    have registered := Registry.isSigner_iff.mp gate.registered
    refine ⟨kind, ⟨rfl, handed, congrArg some own, ⟨current, rfl, signed⟩, ⟨next, rfl, accepted⟩,
      ⟨service, rfl, gate.signed⟩, ?_⟩, placed, ?_⟩
    · exact ⟨registry.key, r, service.key, gate.stored, rfl, registered⟩
    · apply List.mem_append_right
      rw [Instruction.checked, claims, List.map_append]
      exact List.mem_append_right _ List.mem_cons_self
  | _ => cases handed

theorem Effect.vault_changed (h : Effect now before i accounts after) (hashed : List Bytes)
    (held : before k = some (.vault v)) (changed : after k ≠ before k) :
    Receipt.handedVault? ⟨now, i, accounts, hashed⟩ = some k := by
  have touched : .vault ∈ i.touched := by
    by_contra other
    rw [held] at changed
    exact changed ((h.vault_untouched other).mpr held)
  cases h with
  | openVault _ _ _ vacancy =>
    have apart := vacancy.ne_of_stored held
    exact absurd (Function.update_of_ne (Ne.symm apart) _ _) changed
  | @handOverVault _ _ _ _ _ vault =>
    have same : k = vault.key := by
      by_contra other
      exact changed (Function.update_of_ne other _ _)
    rw [same]
    exact Receipt.handedVault?_handOverVault
  | _ => simp [Instruction.touched] at touched

end Effects

/-- What a vault says follows from the history, and its address was hashed in it. -/
structure VaultTrail (records : Records) (history : List Receipt) : Prop where
  found : ∀ {k v}, records k = some (.vault v) →
    (Derivation.vault v.kind v.creator).find Identity.program = .ok ⟨k, v.bump⟩
  met : ∀ {k v}, records k = some (.vault v) →
    (Derivation.vault v.kind v.creator).preimage Identity.program v.bump ∈
      history.flatMap (·.hashed)
  standing : ∀ {k} c, c ∈ history → c.handedVault? = some k → ∃ v, records k = some (.vault v)
  authority : ∀ {k v}, records k = some (.vault v) →
    v.authority = (latest (Receipt.vaultHeir? k) history).getD v.creator
  modified : ∀ {k v}, records k = some (.vault v) →
    v.modifiedAt = (latest (Receipt.vaultDate? k) history).getD v.createdAt

namespace VaultTrail

variable {before after : Records} {history : List Receipt} {now : Int64} {i : Instruction}
  {accounts : List AccountRef} {k : Key} {v v' : Vault}

theorem empty : VaultTrail (fun _ => none) [] where
  found := nofun
  met := nofun
  standing := nofun
  authority := nofun
  modified := nofun

theorem latest_eq_none (trail : VaultTrail before history) (free : before k = none) :
    latest (Receipt.vaultHeir? k) history = none ∧
      latest (Receipt.vaultDate? k) history = none := by
  have other : ∀ c ∈ history, c.handedVault? ≠ some k := by
    intro c known handed
    obtain ⟨v, held⟩ := trail.standing c known handed
    rw [free] at held
    cases held
  exact ⟨Receipt.latest_eq_none.mpr fun c known => Receipt.vaultHeir?_of_other (other c known),
    Receipt.latest_eq_none.mpr fun c known => Receipt.vaultDate?_of_other (other c known)⟩

theorem met_of_opened (h : Effect now before i accounts after) (free : before k = none)
    (held : after k = some (.vault v)) :
    (Derivation.vault v.kind v.creator).preimage Identity.program v.bump ∈
      i.hashed before accounts := by
  by_cases other : .vault ∉ i.touched
  · rw [h.vault_untouched other, free] at held
    cases held
  · cases h with
    | openVault _ _ _ vacancy fresh =>
      rcases update_eq_some.mp held with ⟨-, new⟩ | ⟨-, old⟩
      · cases new
        obtain ⟨terms, -, rfl⟩ := Vault.fresh_eq_ok.mp fresh
        apply List.mem_append_left
        exact List.mem_append_left _ (Derivation.mem_tried_of_find vacancy.found)
      · rw [free] at old
        cases old
    | handOverVault _ _ _ stored =>
      rcases update_eq_some.mp held with ⟨same, -⟩ | ⟨-, old⟩
      · rw [same, stored] at free
        cases free
      · rw [free] at old
        cases old
    | _ => exact absurd (by simp [Instruction.touched]) other

theorem effect (trail : VaultTrail before history) (h : Effect now before i accounts after) :
    VaultTrail after (history ++ [⟨now, i, accounts, i.hashed before accounts⟩]) := by
  refine ⟨fun {k v} held => ?_, fun {k v} held => ?_, fun {k} c known handed => ?_,
    fun {k v} held => ?_, fun {k v} held => ?_⟩
  · rcases h.vault_origin [] held with ⟨v₀, old, follows⟩ | ⟨-, opened⟩
    · rw [follows.kind, follows.creator, follows.bump]
      exact trail.found old
    · exact opened.found
  · rw [List.flatMap_append, List.mem_append]
    rcases h.vault_origin [] held with ⟨v₀, old, follows⟩ | ⟨free, -⟩
    · rw [follows.kind, follows.creator, follows.bump]
      exact .inl (trail.met old)
    · right
      rw [List.flatMap_singleton]
      exact met_of_opened h free held
  · have earlier : ∃ v, before k = some (.vault v) := by
      rcases List.mem_append.mp known with known | known
      · exact trail.standing c known handed
      · cases List.mem_singleton.mp known
        cases h with
        | handOverVault _ _ _ stored =>
          rw [Receipt.handedVault?_handOverVault] at handed
          cases handed
          exact ⟨_, stored⟩
        | _ => cases handed
    obtain ⟨v, held⟩ := earlier
    exact h.vault_stays held
  · rw [Receipt.latest_concat]
    rcases h.vault_origin (i.hashed before accounts) held with ⟨v₀, old, follows⟩ | ⟨free, opened⟩
    · rw [Option.getD_or, follows.authority, trail.authority old, follows.creator]
    · rw [Receipt.vaultHeir?_of_other (by rw [opened.other]; nofun), Option.none_or,
        (trail.latest_eq_none free).1]
      exact opened.authority
  · rw [Receipt.latest_concat]
    rcases h.vault_origin (i.hashed before accounts) held with ⟨v₀, old, follows⟩ | ⟨free, opened⟩
    · rw [Option.getD_or, follows.modifiedAt, trail.modified old, follows.createdAt]
    · rw [Receipt.vaultDate?_of_other (by rw [opened.other]; nofun), Option.none_or,
        (trail.latest_eq_none free).2]
      exact opened.modifiedAt

theorem of_honest (steps : List Step) (honest : World.genesis.Honest steps) :
    VaultTrail (World.reached steps).ledger.records (World.genesis.receipts steps) :=
  World.history_induction (P := VaultTrail) empty (fun trail h => trail.effect h) steps honest

theorem lasting {w : World} (more : List Step) (honest : w.Honest more)
    (held : w.ledger.records k = some (.vault v)) :
    ∃ v', (w.run more).1.ledger.records k = some (.vault v') ∧ v.SameOrigin v' := by
  let P (records : Records) (_ : List Receipt) : Prop :=
    ∃ v', records k = some (.vault v') ∧ v.SameOrigin v'
  have start : P w.ledger.records [] := ⟨v, held, .refl v⟩
  refine World.later_induction (P := P) [] start ?_ more honest
  rintro before after history now i accounts ⟨v₁, held₁, origin₁⟩ h
  obtain ⟨v₂, held₂⟩ := h.vault_stays held₁
  rcases h.vault_origin [] held₂ with ⟨v₀, old, follows⟩ | ⟨free, -⟩
  · rw [held₁] at old
    cases old
    exact ⟨v₂, held₂, origin₁.trans follows.toSameOrigin⟩
  · rw [held₁] at free
    cases free

theorem handed_back (trail : VaultTrail before history) (held : before k = some (.vault v))
    {earlier later : List Receipt} {handOver : Receipt} {next : Key}
    (split : history = earlier ++ handOver :: later)
    (said : handOver.vaultHeir? k = some next) (other : next ≠ v.authority) :
    ∃ c ∈ later, c.vaultHeir? k = some v.authority := by
  subst split
  have authority := trail.authority held
  cases last : latest (Receipt.vaultHeir? k) (earlier ++ handOver :: later) with
  | none =>
    have known : handOver ∈ earlier ++ handOver :: later :=
      List.mem_append_right _ List.mem_cons_self
    exact absurd last (Receipt.latest_ne_none known said)
  | some heir =>
    rw [last, Option.getD_some] at authority
    rw [authority] at other ⊢
    exact Receipt.latest_since last said other

/-- Where no inputs collide, a vault is handed over as the kind that it is. -/
theorem kind_eq {inputs : List Bytes} {kind : VaultKind} (trail : VaultTrail before history)
    (free : CollisionFree inputs) (held : before k = some (.vault v))
    (known : ∀ x ∈ history.flatMap (·.hashed), x ∈ inputs)
    (derived : (Derivation.vault kind v.creator).derive? Identity.program v.bump = some k)
    (known' : (Derivation.vault kind v.creator).preimage Identity.program v.bump ∈ inputs) :
    kind = v.kind := by
  have own := Derivation.derive?_of_find (trail.found held)
  have same := free.seeds_eq known' (known _ (trail.met held)) derived own
  exact (Derivation.vault_eq_of_seeds same.1).1

end VaultTrail

theorem World.hands_over_vault {steps first : List Step} {s : Step} {k : Key} {v : Vault}
    {c : Receipt} (honest : World.genesis.Honest steps)
    (free : CollisionFree (World.genesis.hashed steps)) (part : first ++ [s] <+: steps)
    (held : (reached first).ledger.records k = some (.vault v))
    (called : (reached first).receipt? s = some c) (handed : c.handedVault? = some k) :
    c.HandsOverVault (reached first).ledger.records v.kind k v.authority := by
  obtain ⟨before, last⟩ := honest_concat.mp (honest_of_part part honest)
  have trail := VaultTrail.of_honest first before
  have met := hashed_of_part (w := genesis) part
  rw [hashed, receipts_concat, List.flatMap_append, called, Option.toList_some,
    List.flatMap_singleton] at met
  have advance := step_advance last
  rw [called] at advance
  cases advance with
  | call effect keeps =>
    obtain ⟨kind, hands, derived, known⟩ := effect.vault_handed _ handed held
    have same := trail.kind_eq free held (fun x known => met x (List.mem_append_left _ known))
      derived (met _ (List.mem_append_right _ known))
    rw [← same]
    exact hands

theorem World.vault_guarded {w : World} {s : Step} {k : Key} {v : Vault} (honest : s.Honest w)
    (held : w.ledger.records k = some (.vault v))
    (changed : (w.step s).1.ledger.get k ≠ w.ledger.get k) :
    ∃ c, w.receipt? s = some c ∧ c.handedVault? = some k := by
  obtain ⟨c, called, effect, record⟩ := changed_by_call honest held changed
  exact ⟨c, called, effect.vault_changed c.hashed held record⟩

/-- How vaults are governed at every point of the run. -/
structure VaultsGoverned (steps : List Step) : Prop where
  lasting : ∀ first later k v, first <+: later → later <+: steps →
    (World.reached first).ledger.records k = some (.vault v) →
    ∃ v', (World.reached later).ledger.records k = some (.vault v') ∧ v.SameOrigin v'
  /-- The authority is who the vault was last handed over to. -/
  authority : ∀ first k v, first <+: steps →
    (World.reached first).ledger.records k = some (.vault v) →
    v.authority =
      (latest (Receipt.vaultHeir? k) (World.genesis.receipts first)).getD v.creator
  modified : ∀ first k v, first <+: steps →
    (World.reached first).ledger.records k = some (.vault v) →
    v.modifiedAt =
      (latest (Receipt.vaultDate? k) (World.genesis.receipts first)).getD v.createdAt
  /-- A call that hands the vault over is one for its own kind, signed by the authority of that
  time, the next authority and a registered service signer. -/
  consented : ∀ first s k v c, first ++ [s] <+: steps →
    (World.reached first).ledger.records k = some (.vault v) →
    (World.reached first).receipt? s = some c → c.handedVault? = some k →
    c.HandsOverVault (World.reached first).ledger.records v.kind k v.authority
  guarded : ∀ first s k v, first ++ [s] <+: steps →
    (World.reached first).ledger.records k = some (.vault v) →
    ((World.reached first).step s).1.ledger.get k ≠ (World.reached first).ledger.get k →
    ∃ c, (World.reached first).receipt? s = some c ∧
      c.HandsOverVault (World.reached first).ledger.records v.kind k v.authority
  /-- Once the vault has gone to somebody else, a key has no say until the vault is handed to it. -/
  retired : ∀ first k v earlier handOver later next, first <+: steps →
    (World.reached first).ledger.records k = some (.vault v) →
    World.genesis.receipts first = earlier ++ handOver :: later →
    handOver.vaultHeir? k = some next → next ≠ v.authority →
    ∃ c ∈ later, c.vaultHeir? k = some v.authority

theorem vaults_governed (steps : List Step) (honest : World.genesis.Honest steps)
    (free : CollisionFree (World.genesis.hashed steps)) : VaultsGoverned steps := by
  have trail {first : List Step} (part : first <+: steps) :=
    VaultTrail.of_honest first (World.honest_of_part part honest)
  refine ⟨?_, ?_, ?_, ?_, ?_, ?_⟩
  · intro first later k v part whole held
    obtain ⟨rest, rfl⟩ := part
    obtain ⟨-, honest'⟩ := World.honest_append.mp (World.honest_of_part whole honest)
    rw [World.reached_append]
    exact VaultTrail.lasting rest honest' held
  · intro first k v part held
    exact (trail part).authority held
  · intro first k v part held
    exact (trail part).modified held
  · intro first s k v c part held called handed
    exact World.hands_over_vault honest free part held called handed
  · intro first s k v part held changed
    have step := (World.honest_concat.mp (World.honest_of_part part honest)).2
    obtain ⟨c, called, handed⟩ := World.vault_guarded step held changed
    exact ⟨c, called, World.hands_over_vault honest free part held called handed⟩
  · intro first k v earlier handOver later next part held split said other
    exact (trail part).handed_back held split said other

section Samples
open AccountRef (signing written shown)

def Step.vaultHandOver : List Step := founding ++
  [fund (Key.filled 1),
   ask (.openVault .user) [signing (Key.filled 1), signing (Key.filled 3), signing (Key.filled 1),
     shown Program.registryAddress.home, written (Derivation.vault .user (Key.filled 1)).home,
     shown Identity.systemProgram],
   setClock 9,
   ask (.handOverVault .user) [signing (Key.filled 3), signing (Key.filled 1),
     signing (Key.filled 2), shown Program.registryAddress.home,
     written (Derivation.vault .user (Key.filled 1)).home],
   ask (.handOverVault .user) [signing (Key.filled 3), signing (Key.filled 1),
     signing (Key.filled 2), shown Program.registryAddress.home,
     written (Derivation.vault .user (Key.filled 1)).home]]

set_option maxRecDepth 100000 in
theorem vaults_governed_after_hand_over :
    World.genesis.Honest Step.vaultHandOver ∧
      CollisionFree (World.genesis.hashed Step.vaultHandOver) ∧
      (World.genesis.receipts Step.vaultHandOver).length = 4 ∧
      VaultsGoverned Step.vaultHandOver := by
  have honest : World.genesis.Honest Step.vaultHandOver := by decide +kernel
  have free : CollisionFree (World.genesis.hashed Step.vaultHandOver) := by decide +kernel
  exact ⟨honest, free, by decide +kernel, vaults_governed Step.vaultHandOver honest free⟩

end Samples
end VaultMarket
