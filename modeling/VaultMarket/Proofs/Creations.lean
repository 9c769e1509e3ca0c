import VaultMarket.Proofs.Controllers
import VaultMarket.Proofs.Footprint
import VaultMarket.Proofs.ServerNames
set_option autoImplicit false

namespace VaultMarket
open Function (update)
open LawfulWire (Fits)
open Operation (accountFields)

namespace Ledger

/-- The account at `target` is where the search ends, if there can be a search; it is free and empty,
with any lamports, and the payer is another empty account that has what they lack of the rent. -/
structure Creatable (l : Ledger) (d : Derivation) (payer target : Key) (space : Nat) : Prop where
  found : d.Fits → ∃ bump, d.find Identity.program = .ok ⟨target, bump⟩
  free : (l.get target).owner = Identity.systemProgram
  empty : (l.get target).data = []
  apart : target ≠ payer
  unused : (l.get payer).data = []
  enough : (System.rent space).toNat ≤
    (l.get target).lamports.toNat + (l.get payer).lamports.toNat
  host : (l.get Identity.systemProgram).executable = true

variable {l : Ledger} {d : Derivation} {payer target : Key} {space : Nat}

theorem Creatable.ready (can : l.Creatable d payer target space) :
    System.Ready l payer target space where
  free := can.free
  empty := can.empty
  apart := can.apart
  paid lacking := by
    refine ⟨can.unused, ?_⟩
    rw [UInt64.le_iff_toNat_le, UInt64.toNat_sub_of_le _ _ (UInt64.le_of_lt lacking)]
    have enough := can.enough
    omega

end Ledger

namespace VaultOpening

def Accepts (opening : VaultOpening) : Prop :=
  ∀ t ∈ opening.terms?, LabelWithin t.serverId Limits.serverId ∧
    LabelWithin t.serverName Limits.serverName

def vault (opening : VaultOpening) (creator : Key) (now : Int64) (bump : UInt8) : Vault where
  kind := opening.kind
  creator := creator
  authority := creator
  serverId := (opening.terms?.getD default).serverId
  serverName := (opening.terms?.getD default).serverName
  createdAt := now
  modifiedAt := now
  bump := bump

theorem validate_eq_ok {t : VaultTerms} : t.validate = .ok () ↔
    LabelWithin t.serverId Limits.serverId ∧ LabelWithin t.serverName Limits.serverName := by
  rw [Vault.validate_eq_ok]
  constructor
  · rintro ⟨id, name, shortId, shortName⟩
    exact ⟨.of_ne_empty id shortId, .of_ne_empty name shortName⟩
  · rintro ⟨id, name⟩
    obtain ⟨filledId, shortId⟩ := validateLabel_eq_ok.mp id.valid
    obtain ⟨filledName, shortName⟩ := validateLabel_eq_ok.mp name.valid
    exact ⟨filledId, filledName, shortId, shortName⟩

theorem fresh_eq_ok {opening : VaultOpening} {creator : Key} {now : Int64} {bump : UInt8}
    {v : Vault} : Vault.fresh opening.kind creator opening.terms? now bump = .ok v ↔
      opening.Accepts ∧ v = opening.vault creator now bump := by
  rw [Vault.fresh_eq_ok]
  simp only [Vault.settledTerms_eq_ok, validate_eq_ok]
  cases opening <;> simp [Accepts, kind, terms?, vault]

end VaultOpening

section Creation

variable {α : Type} [Record α] {field : String} {d : Derivation} {payer a : AccountRef}
  {l l₁ l₂ l' : Ledger} {bump : UInt8} {value : α} {s : Stored}

end Creation

namespace Program

variable {call : Call} {payer target : Key}

end Program

namespace World

end World

section Samples
open AccountRef (signing written shown)

end Samples
end VaultMarket
