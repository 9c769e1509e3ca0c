import Mathlib.Data.List.Nodup
import VaultMarket.Proofs.History
set_option autoImplicit false

namespace VaultMarket

namespace SignerSet

def add (signers : List Key) (key : Key) : Except Fault (List Key) :=
  if signers.length = Limits.serviceSigners then .error .tooManyServiceSigners
  else if key ∈ signers then .error .duplicateServiceSigner
  else .ok (signers ++ [key])

def remove (signers : List Key) (key : Key) : Except Fault (List Key) :=
  if key ∈ signers then .ok (signers.filter (· ≠ key)) else .error .unknownServiceSigner

def change (signers : List Key) : SignerChange → Key → Except Fault (List Key)
  | .add, key => add signers key
  | .remove, key => remove signers key

def act (signers : List Key) : Registry.Action → Except Fault (List Key)
  | .add key => add signers key
  | .remove key => remove signers key
  | .change what key => change signers what key
  | .touch _ _ => .ok signers

def next (signers : List Key) (a : Registry.Action) : List Key :=
  match act signers a with
  | .ok after => after
  | .error _ => signers

def run (actions : List Registry.Action) : List Key := actions.foldl next []

end SignerSet

namespace Registry

variable {r : Registry} {signers : List Key}

/-- The slots hold the signers in order, and then zero keys. -/
structure Represents (r : Registry) (signers : List Key) : Prop where
  keys_eq : r.slots.keys =
    signers ++ List.replicate (Limits.serviceSigners - signers.length) Key.zero
  count_eq : r.count.toNat = signers.length
  few : signers.length ≤ Limits.serviceSigners
  distinct : signers.Nodup

/-- What can be seen of the registry is what can be seen of the ordered set. -/
structure Refines (r : Registry) (signers : List Key) : Prop where
  active_eq : r.active = signers
  count_eq : r.count.toNat = signers.length
  few : signers.length ≤ 3
  distinct : signers.Nodup
  free : ∀ i, signers.length ≤ i → i < 3 → r.slots.keys[i]? = some Key.zero
  isSigner_iff : ∀ key, r.isSigner key = true ↔ key ∈ signers

/-- The registry gives what the ordered set gives, or refuses for the same reason. -/
inductive Agrees : Except Failure Registry → Except Fault (List Key) → Prop where
  | done {r : Registry} {signers : List Key} (repr : r.Represents signers) :
      Agrees (.ok r) (.ok signers)
  | refused {fault : Fault} {origin : Origin} :
      Agrees (.error (.refused fault origin none)) (.error fault)

namespace Represents

theorem active_eq (repr : r.Represents signers) : r.active = signers := by
  rw [active, SignerSlots.front, repr.keys_eq, repr.count_eq, List.take_left]

theorem refines (repr : r.Represents signers) : r.Refines signers where
  active_eq := repr.active_eq
  count_eq := repr.count_eq
  few := repr.few
  distinct := repr.distinct
  free i behind slot := by
    rw [repr.keys_eq, List.getElem?_append_right behind]
    refine List.getElem?_replicate_of_lt ?_
    simp only [Limits.serviceSigners]
    omega
  isSigner_iff key := by rw [Registry.isSigner_iff, repr.active_eq]

theorem empty : (default : Registry).Represents [] := ⟨rfl, rfl, Nat.zero_le _, List.nodup_nil⟩

theorem keys_set (repr : r.Represents signers) (key : Key)
    (room : signers.length < Limits.serviceSigners) :
    (r.slots.set r.count.toNat key).keys = signers ++ [key] ++
      List.replicate (Limits.serviceSigners - (signers ++ [key]).length) Key.zero := by
  have free : Limits.serviceSigners - signers.length =
      Limits.serviceSigners - (signers ++ [key]).length + 1 := by
    rw [List.length_append, List.length_singleton]
    omega
  change r.slots.keys.set r.count.toNat key = _
  rw [repr.keys_eq, repr.count_eq, List.set_append_right _ _ (Nat.le_refl _), Nat.sub_self, free,
    List.replicate_succ, List.set_cons_zero, List.append_assoc, List.singleton_append]

theorem keys_erase (repr : r.Represents signers) {key : Key} (known : key ∈ signers)
    (used : r.count.toNat ≤ Limits.serviceSigners) (known' : key ∈ r.active) :
    (r.slots.erase r.count.toNat key used known').keys = signers.erase key ++
      List.replicate (Limits.serviceSigners - (signers.erase key).length) Key.zero := by
  have few := repr.few
  have filled := List.length_pos_of_mem known
  have free : Limits.serviceSigners - (signers.erase key).length =
      Limits.serviceSigners - signers.length + 1 := by
    rw [List.length_erase_of_mem known]
    omega
  change r.active.erase key ++ Key.zero :: r.slots.keys.drop r.count.toNat = _
  rw [repr.active_eq, repr.keys_eq, repr.count_eq, List.drop_left, free, List.replicate_succ]

theorem add (repr : r.Represents signers) (key : Key) :
    Agrees (r.add key) (SignerSet.add signers key) := by
  have few := repr.few
  unfold SignerSet.add
  by_cases full : signers.length = Limits.serviceSigners
  · rw [if_pos full, Registry.add,
      require_of_not (by rw [repr.count_eq, full]; exact Nat.lt_irrefl _)]
    exact .refused
  · have room : signers.length < Limits.serviceSigners := Nat.lt_of_le_of_ne few full
    have slot : r.count.toNat < Limits.serviceSigners := by rw [repr.count_eq]; exact room
    rw [if_neg full]
    by_cases known : key ∈ signers
    · rw [if_pos known, Registry.add, require_of slot, repr.active_eq,
        require_of_not (not_not.mpr known)]
      exact .refused
    · have new : key ∉ r.active := by rw [repr.active_eq]; exact known
      have done := add_eq_ok.mpr ⟨slot, new, rfl⟩
      rw [if_neg known, done]
      refine .done ⟨repr.keys_set key room, ?_, ?_, ?_⟩
      · rw [count_of_add done, repr.count_eq, List.length_append, List.length_singleton]
      · rw [List.length_append, List.length_singleton]
        exact room
      · rw [← List.concat_eq_append]
        exact repr.distinct.concat known

theorem remove (repr : r.Represents signers) (key : Key) :
    Agrees (r.remove key) (SignerSet.remove signers key) := by
  have used : r.count.toNat ≤ Limits.serviceSigners := by
    rw [repr.count_eq]
    exact repr.few
  unfold SignerSet.remove
  by_cases known : key ∈ signers
  · have known' : key ∈ r.active := by rw [repr.active_eq]; exact known
    have once : signers.filter (· ≠ key) = signers.erase key := by
      rw [repr.distinct.erase_eq_filter]
      exact List.filter_congr fun k _ => by rw [bne, beq_eq_decide, decide_not]
    have done := remove_eq_ok.mpr ⟨known', used, rfl⟩
    have fewer := (count_of_remove done).trans repr.count_eq
    rw [if_pos known, once, done]
    refine .done ⟨repr.keys_erase known used known', ?_, ?_, repr.distinct.erase key⟩
    · rw [List.length_erase_of_mem known]
      omega
    · exact Nat.le_trans List.length_erase_le repr.few
  · have unknown : key ∉ r.active := by rw [repr.active_eq]; exact known
    rw [if_neg known, Registry.remove, dif_neg unknown]
    exact .refused

theorem act (repr : r.Represents signers) (a : Action) :
    Agrees (r.act a) (SignerSet.act signers a) := by
  cases a with
  | add key => exact repr.add key
  | remove key => exact repr.remove key
  | change what key =>
    cases what with
    | add => exact repr.add key
    | remove => exact repr.remove key
  | touch now who => exact .done ⟨repr.keys_eq, repr.count_eq, repr.few, repr.distinct⟩

theorem next (repr : r.Represents signers) (a : Action) :
    (settle r (r.act a)).Represents (SignerSet.next signers a) := by
  have agrees := repr.act a
  unfold SignerSet.next
  generalize r.act a = result, SignerSet.act signers a = expected at agrees
  cases agrees with
  | done repr' => exact repr'
  | refused => exact repr

theorem run (repr : r.Represents signers) (actions : List Action) :
    (settleAll Registry.act r actions).Represents (actions.foldl SignerSet.next signers) := by
  induction actions generalizing r signers with
  | nil => exact repr
  | cons a rest ih => exact ih (repr.next a)

end Represents

/-- Whatever is done to a new registry, it is the ordered set to which the same was done, and the
next action has the same result on both. -/
theorem refines_signer_set (actions : List Action) :
    (settleAll act default actions).Refines (SignerSet.run actions) ∧
      ∀ a, Agrees ((settleAll act default actions).act a)
        (SignerSet.act (SignerSet.run actions) a) := by
  have repr : (settleAll act default actions).Represents (SignerSet.run actions) :=
    Represents.empty.run actions
  exact ⟨repr.refines, repr.act⟩

example : (settleAll act default [.add (Key.filled 1), .add (Key.filled 2), .remove (Key.filled 1),
    .add Key.zero]).active = [Key.filled 2, Key.zero] := by
  decide +kernel

end Registry
end VaultMarket
