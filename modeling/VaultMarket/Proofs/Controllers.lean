import VaultMarket.Proofs.Handles
import VaultMarket.Proofs.Requests
import VaultMarket.Proofs.Widths
set_option autoImplicit false

namespace VaultMarket
open Function (update)
open LawfulWire (Fits)

namespace Registry

variable {r r' : Registry} {what : SignerChange} {service : Key}

/-- The registry claims no more slots than there are. -/
def Counted (r : Registry) : Prop := r.count.toNat ≤ Limits.serviceSigners

theorem Counted.change (counted : r.Counted) (h : r.change what service = .ok r') : r'.Counted := by
  cases what with
  | add =>
    obtain ⟨room, -, -⟩ := add_eq_ok.mp h
    rw [Counted, count_of_add h]
    exact room
  | remove =>
    have fewer := count_of_remove h
    unfold Counted at counted ⊢
    omega

end Registry

theorem Effect.counted {before after : Records} {now : Int64} {i : Instruction}
    {accounts : List AccountRef}
    (counted : ∀ {k r}, before k = some (.registry r) → r.Counted)
    (h : Effect now before i accounts after) {k : Key} {r : Registry}
    (held : after k = some (.registry r)) : r.Counted := by
  by_cases other : .registry ∉ i.touched
  · exact counted ((h.registry_untouched other).mp held)
  · cases h with
    | createRegistry =>
      rcases update_eq_some.mp held with ⟨-, new⟩ | ⟨-, old⟩
      · cases new
        exact Nat.zero_le _
      · exact counted old
    | @handOverRegistry _ _ _ _ r governs =>
      rcases update_eq_some.mp held with ⟨-, new⟩ | ⟨-, old⟩
      · cases new
        have before : r.Counted := counted governs.stored
        exact before
      · exact counted old
    | @changeServiceSigner _ _ _ _ _ r changed governs _ change =>
      rcases update_eq_some.mp held with ⟨-, new⟩ | ⟨-, old⟩
      · cases new
        have after : changed.Counted := (counted governs.stored).change change
        exact after
      · exact counted old
    | _ => exact absurd (by simp [Instruction.touched]) other

namespace Ledger

variable {l : Ledger} {k : Key} {s : Stored}

/-- Every record is where its fields say, and in an account that is long enough for its kind. -/
structure Kept (l : Ledger) : Prop where
  sound : ∀ {k s}, l.records k = some s → s.Sound k
  sized : l.Sized
  counted : ∀ {k r}, l.records k = some (.registry r) → r.Counted

theorem Kept.derived (kept : l.Kept) (held : l.records k = some s) :
    s.derivation.derive? Identity.program s.bump = some k :=
  Derivation.derive?_of_find (kept.sound held).found

theorem kept_of_honest (steps : List Step) (honest : World.genesis.Honest steps) :
    (World.reached steps).ledger.Kept where
  sound := (RecordTrail.of_honest steps honest).sound
  sized := World.sized_of_honest steps honest
  counted := World.history_induction
    (P := fun records _ => ∀ {k r}, records k = some (.registry r) → r.Counted) nofun
    (fun counted h _ _ held => h.counted counted held) steps honest

end Ledger

namespace Program
open Operation (accountFields)

variable {call : Call} {k : Key}

end Program

section Service
open Operation (accountFields)

end Service

section Samples
open AccountRef (signing written shown)

end Samples
end VaultMarket
