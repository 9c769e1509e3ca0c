import Mathlib.Data.List.Nodup
import VaultMarket.Proofs.RegistryControl
set_option autoImplicit false

namespace VaultMarket
open Function (update)

/-- The instructions that a service signer has to sign. -/
def Operation.Gated : Operation → Prop
  | openVault _ | handOverVault _ | createMint | mintTokens => True
  | _ => False

instance (o : Operation) : Decidable o.Gated := by
  cases o <;> unfold Operation.Gated <;> infer_instance

namespace Receipt

/-- What the call does to the registration of `key`. -/
def signerChange? (key : Key) (c : Receipt) : Option SignerChange :=
  match c.instruction with
  | .changeServiceSigner what => if c.key? "service_signer" = some key then some what else none
  | _ => none

theorem signerChange?_of_untouched {key : Key} {c : Receipt}
    (other : .registry ∉ c.instruction.touched) : c.signerChange? key = none := by
  unfold signerChange?
  split
  · rename_i same
    rw [same] at other
    exact absurd List.mem_cons_self other
  · rfl

end Receipt

open Receipt (latest)

/-- The registry lists each key once, and exactly the keys that were last added. -/
structure Registry.Lists (r : Registry) (history : List Receipt) : Prop where
  nodup : r.active.Nodup
  mem_iff : ∀ key, key ∈ r.active ↔ latest (Receipt.signerChange? key) history = some .add

namespace Registry.Lists

variable {r r' : Registry} {history : List Receipt} {c : Receipt} {key : Key}

theorem congr (lists : r.Lists history) (same : r'.active = r.active) : r'.Lists history := by
  refine ⟨?_, fun key => ?_⟩
  · rw [same]
    exact lists.nodup
  · rw [same]
    exact lists.mem_iff key

theorem concat (lists : r.Lists history) (silent : ∀ key, c.signerChange? key = none) :
    r.Lists (history ++ [c]) := by
  refine ⟨lists.nodup, fun key => ?_⟩
  rw [Receipt.latest_concat_of_none (silent key)]
  exact lists.mem_iff key

theorem change (lists : r.Lists history) {what : SignerChange}
    (done : r.change what key = .ok r')
    (said : ∀ k, c.signerChange? k = if k = key then some what else none) :
    r'.Lists (history ++ [c]) := by
  have other {k : Key} (apart : k ≠ key) : latest (Receipt.signerChange? k) (history ++ [c]) =
      latest (Receipt.signerChange? k) history := by
    rw [Receipt.latest_concat_of_none]
    rw [said, if_neg apart]
  have last : latest (Receipt.signerChange? key) (history ++ [c]) = some what := by
    rw [Receipt.latest_concat_of_some]
    rw [said, if_pos rfl]
  cases what with
  | add =>
    have fresh : key ∉ r.active := (Registry.add_eq_ok.mp done).2.1
    have grown : r'.active = r.active ++ [key] := Registry.active_add done
    refine ⟨?_, fun k => ?_⟩
    · rw [grown]
      exact List.nodup_append_comm.mp (List.nodup_cons.mpr ⟨fresh, lists.nodup⟩)
    · rw [grown, List.mem_append, List.mem_singleton]
      by_cases same : k = key
      · rw [same, last]
        exact ⟨fun _ => rfl, fun _ => .inr rfl⟩
      · rw [other same, ← lists.mem_iff k]
        exact or_iff_left same
  | remove =>
    have shrunk : r'.active = r.active.erase key := Registry.active_remove done
    refine ⟨?_, fun k => ?_⟩
    · rw [shrunk]
      exact lists.nodup.erase key
    · rw [shrunk, lists.nodup.mem_erase_iff]
      by_cases same : k = key
      · rw [same, last]
        exact ⟨fun h => absurd rfl h.1, nofun⟩
      · rw [other same, ← lists.mem_iff k]
        exact and_iff_right same

end Registry.Lists

structure SignerTrail (records : Records) (history : List Receipt) : Prop
    extends RegistryTrail records history where
  lists : ∀ {k r}, records k = some (.registry r) → r.Lists history

namespace SignerTrail

variable {before after : Records} {history : List Receipt} {now : Int64} {i : Instruction}
  {accounts : List AccountRef} {hashed : List Bytes} {k : Key} {r : Registry}

theorem empty : SignerTrail (fun _ => none) [] := ⟨RegistryTrail.empty, nofun⟩

theorem effect (trail : SignerTrail before history) (h : Effect now before i accounts after) :
    SignerTrail after (history ++ [⟨now, i, accounts, hashed⟩]) := by
  refine ⟨trail.toRegistryTrail.effect h, fun {k r} held => ?_⟩
  by_cases other : .registry ∉ i.touched
  · have old := trail.lists ((h.registry_untouched other).mp held)
    exact old.concat fun key => Receipt.signerChange?_of_untouched other
  · cases h with
    | createRegistry _ signed authorised vacancy =>
      have free := trail.none_of_vacancy authorised vacancy
      rcases update_eq_some.mp held with ⟨-, new⟩ | ⟨-, old⟩
      · cases new
        refine ⟨List.nodup_nil, fun key => ?_⟩
        rw [Registry.active_fresh, Receipt.latest_concat_of_none rfl, RegistryTrail.latest_eq_none
          (fun c => Receipt.signerChange?_of_untouched) trail.toRegistryTrail free]
        exact ⟨nofun, nofun⟩
      · exact absurd old (free k r)
    | handOverRegistry governs =>
      rcases update_eq_some.mp held with ⟨-, new⟩ | ⟨apart, old⟩
      · cases new
        apply Registry.Lists.concat
        · exact (trail.lists governs.stored).congr rfl
        · intro key
          rfl
      · exact absurd (trail.single old governs.stored) apart
    | @changeServiceSigner what _ _ service _ _ _ governs _ change =>
      rcases update_eq_some.mp held with ⟨-, new⟩ | ⟨apart, old⟩
      · cases new
        refine ((trail.lists governs.stored).change change fun key => ?_).congr rfl
        change (if some service.key = some key then some what else none) = _
        have same : some service.key = some key ↔ key = service.key := by
          rw [Option.some.injEq, eq_comm]
        exact if_congr same rfl rfl
      · exact absurd (trail.single old governs.stored) apart
    | _ => exact absurd (by simp [Instruction.touched]) other

theorem of_honest (steps : List Step) (honest : World.genesis.Honest steps) :
    SignerTrail (World.reached steps).ledger.records (World.genesis.receipts steps) :=
  World.history_induction (P := SignerTrail) empty (fun trail h => trail.effect h) steps honest

end SignerTrail

section Gates

variable {before after : Records} {history : List Receipt} {now : Int64} {i : Instruction}
  {accounts : List AccountRef} {hashed : List Bytes}

theorem Effect.gate (h : Effect now before i accounts after) (gated : i.operation.Gated) :
    ∃ service registry r, Receipt.account? ⟨now, i, accounts, hashed⟩ "service_signer" =
      some service ∧ Gate before service registry r := by
  cases h with
  | openVault gate => exact ⟨_, _, _, rfl, gate⟩
  | handOverVault gate => exact ⟨_, _, _, rfl, gate⟩
  | createMint gate => exact ⟨_, _, _, rfl, gate⟩
  | mintTokens gate => exact ⟨_, _, _, rfl, gate⟩
  | _ => exact gated.elim

end Gates

/-- Whoever passes the gate signs, and the last change of its registration was an addition; every
removal before that was followed by an addition. -/
theorem gated_call_registered (steps : List Step) (s : Step)
    (honest : World.genesis.Honest (steps ++ [s])) (c : Receipt)
    (called : (World.reached steps).receipt? s = some c)
    (gated : c.instruction.operation.Gated) :
    ∃ service, c.account? "service_signer" = some service ∧ service.signer = true ∧
      latest (Receipt.signerChange? service.key) (World.genesis.receipts steps) = some .add ∧
      ∀ earlier removal later, World.genesis.receipts steps = earlier ++ removal :: later →
        removal.signerChange? service.key = some .remove →
        ∃ d ∈ later, d.signerChange? service.key = some .add := by
  obtain ⟨before, last⟩ := World.honest_concat.mp honest
  have trail := SignerTrail.of_honest steps before
  have advance := World.step_advance last
  rw [called] at advance
  cases advance with
  | call effect keeps =>
    obtain ⟨service, registry, r, place, gate⟩ := effect.gate gated
    have listed := Registry.isSigner_iff.mp gate.registered
    have added := ((trail.lists gate.stored).mem_iff service.key).mp listed
    refine ⟨service, place, gate.signed, added, fun earlier removal later split removed => ?_⟩
    rw [split] at added
    exact Receipt.latest_since added removed nofun

section Samples
open AccountRef (signing written shown)

def Step.registeredAgain : List Step := founding ++
  [ask (.changeServiceSigner .remove) [written Program.registryAddress.home,
     signing Identity.configAuthority, signing (Key.filled 3)],
   ask (.changeServiceSigner .add) [written Program.registryAddress.home,
     signing Identity.configAuthority, signing (Key.filled 3)],
   fund (Key.filled 1)]

def Step.gatedOpening : Step :=
  ask (.openVault .user) [signing (Key.filled 1), signing (Key.filled 3), signing (Key.filled 1),
    shown Program.registryAddress.home, written (Derivation.vault .user (Key.filled 1)).home,
    shown Identity.systemProgram]

set_option maxRecDepth 100000 in
theorem gated_call_registered_again :
    World.genesis.Honest (Step.registeredAgain ++ [Step.gatedOpening]) ∧
      ∃ c service, (World.reached Step.registeredAgain).receipt? Step.gatedOpening = some c ∧
        c.instruction.operation.Gated ∧ c.account? "service_signer" = some service ∧
        service.signer = true ∧
        latest (Receipt.signerChange? service.key) (World.genesis.receipts Step.registeredAgain) =
          some .add := by
  have honest : World.genesis.Honest (Step.registeredAgain ++ [Step.gatedOpening]) := by
    decide +kernel
  have called := (Option.some_get (x := (World.reached Step.registeredAgain).receipt?
    Step.gatedOpening) (by decide +kernel)).symm
  have gated : (((World.reached Step.registeredAgain).receipt? Step.gatedOpening).get
      (by decide +kernel)).instruction.operation.Gated := by
    decide +kernel
  obtain ⟨service, place, signed, added, -⟩ :=
    gated_call_registered Step.registeredAgain Step.gatedOpening honest _ called gated
  exact ⟨honest, _, service, called, gated, place, signed, added⟩

end Samples
end VaultMarket
