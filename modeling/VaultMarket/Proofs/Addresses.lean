import VaultMarket.Address
import VaultMarket.Wire.Lawful
set_option autoImplicit false

namespace VaultMarket
namespace Derivation

variable {d d' : Derivation} {program key : Key} {bump bump' : UInt8} {n : Nat}

theorem derive?_eq_some : d.derive? program bump = some key ↔
    d.Fits ∧ ¬Curve.isPoint key.bytes ∧ d.candidate program bump = key := by
  unfold derive?
  split
  · rename_i fits
    dsimp only
    split
    · rename_i point
      refine ⟨nofun, ?_⟩
      rintro ⟨-, off, rfl⟩
      exact absurd point off
    · rename_i off
      rw [Option.some.injEq]
      refine ⟨?_, fun h => h.2.2⟩
      rintro rfl
      exact ⟨fits, off, rfl⟩
  · rename_i long
    exact ⟨nofun, fun h => absurd h.1 long⟩

theorem derive?_eq_none : d.derive? program bump = none ↔
    ¬d.Fits ∨ Curve.isPoint (d.candidate program bump).bytes := by
  by_cases fits : d.Fits
  · simp [derive?, fits]
  · simp [derive?, fits]

theorem hash_of_derive? (h : d.derive? program bump = some key) :
    Sha256.hash (d.preimage program bump) = key.bytes := by
  rw [← (derive?_eq_some.mp h).2.2, candidate]

/-- The inputs that a search from bump `n` down hashes. -/
def tried (d : Derivation) (program : Key) : Nat → List Bytes
  | 0 => []
  | n + 1 =>
    d.preimage program (UInt8.ofNat (n + 1)) ::
      match d.derive? program (UInt8.ofNat (n + 1)) with
      | some _ => []
      | none => tried d program n

theorem tried_succ_of_none (none : d.derive? program (UInt8.ofNat (n + 1)) = none) :
    d.tried program (n + 1) =
      d.preimage program (UInt8.ofNat (n + 1)) :: d.tried program n := by
  simp only [tried, none]

theorem search_eq_some (h : d.search program n = some ⟨key, bump⟩) :
    d.derive? program bump = some key ∧ d.preimage program bump ∈ d.tried program n := by
  induction n with
  | zero => cases h
  | succ n ih =>
    unfold search at h
    split at h
    · rename_i address derived
      cases h
      exact ⟨derived, List.mem_cons_self⟩
    · rename_i derived
      obtain ⟨found, known⟩ := ih h
      rw [tried_succ_of_none derived]
      exact ⟨found, List.mem_cons_of_mem _ known⟩

theorem search_eq_none : d.search program n = none ↔
    ∀ m < n, d.derive? program (UInt8.ofNat (m + 1)) = none := by
  induction n with
  | zero => simp [search]
  | succ n ih =>
    simp only [search, Nat.forall_lt_succ_right, ← ih]
    cases d.derive? program (UInt8.ofNat (n + 1)) <;> simp

/-- A search fails for seeds that do not fit, and where every candidate is a point of the curve. -/
theorem find?_eq_none : d.find? program = none ↔
    ¬d.Fits ∨ ∀ bump : UInt8, bump ≠ 0 → Curve.isPoint (d.candidate program bump).bytes := by
  rw [find?, search_eq_none]
  simp only [derive?_eq_none]
  constructor
  · intro missing
    refine (Decidable.em d.Fits).symm.imp_right fun fits bump used => ?_
    have positive : 0 < bump.toNat := Nat.pos_of_ne_zero fun none => used (UInt8.toNat_inj.mp none)
    have same : UInt8.ofNat (bump.toNat - 1 + 1) = bump := by
      rw [Nat.sub_add_cancel positive, UInt8.ofNat_toNat]
    have tried := missing (bump.toNat - 1) (by have := bump.toNat_lt; omega)
    rw [same] at tried
    exact tried.resolve_left (· fits)
  · rintro missing m small
    refine missing.imp_right fun points => points _ fun none => ?_
    have zero := congrArg UInt8.toNat none
    rw [UInt8.toNat_ofNat_of_lt' (Nat.succ_lt_succ small)] at zero
    cases zero

theorem find_eq_ok : d.find program = .ok ⟨key, bump⟩ ↔
    d.search program 255 = some ⟨key, bump⟩ := by
  unfold find find?
  cases d.search program 255 <;> simp

theorem derive?_of_find (h : d.find program = .ok ⟨key, bump⟩) :
    d.derive? program bump = some key :=
  (search_eq_some (find_eq_ok.mp h)).1

theorem mem_tried_of_find (h : d.find program = .ok ⟨key, bump⟩) :
    d.preimage program bump ∈ d.tried program 255 :=
  (search_eq_some (find_eq_ok.mp h)).2

theorem preimage_eq_iff : d.preimage program bump = d'.preimage program bump' ↔
    d.seeds.flatten = d'.seeds.flatten ∧ bump = bump' := by
  unfold preimage
  rw [List.append_left_inj, List.append_left_inj, ← List.concat_eq_append, ← List.concat_eq_append]
  constructor
  · intro h
    rw [List.concat_inj] at h
    exact h
  · rintro ⟨seeds, rfl⟩
    rw [seeds]

end Derivation

theorem VaultKind.seed_injective {kind kind' : VaultKind}
    (h : Bytes.ofString kind.seed = Bytes.ofString kind'.seed) : kind = kind' := by
  cases kind <;> cases kind' <;> first | rfl | exact absurd h (by decide +kernel)

theorem Derivation.vault_eq_of_seeds {kind kind' : VaultKind} {creator creator' : Key}
    (h : (vault kind creator).seeds.flatten = (vault kind' creator').seeds.flatten) :
    kind = kind' ∧ creator = creator' := by
  simp only [seeds, label, arguments, List.flatten_cons, List.flatten_nil, List.append_nil] at h
  have width : creator.bytes.length = creator'.bytes.length := by
    rw [creator.length_eq, creator'.length_eq]
  obtain ⟨seed, bytes⟩ := List.append_inj' h width
  exact ⟨VaultKind.seed_injective seed, Key.ext bytes⟩

/-- No two of the inputs have the same hash. -/
def CollisionFree (inputs : List Bytes) : Prop :=
  ∀ x ∈ inputs, ∀ y ∈ inputs, Sha256.hash x = Sha256.hash y → x = y

instance (inputs : List Bytes) : Decidable (CollisionFree inputs) := by
  unfold CollisionFree; infer_instance

theorem CollisionFree.seeds_eq {inputs : List Bytes} {d d' : Derivation} {program key : Key}
    {bump bump' : UInt8} (free : CollisionFree inputs)
    (known : d.preimage program bump ∈ inputs) (known' : d'.preimage program bump' ∈ inputs)
    (derived : d.derive? program bump = some key)
    (derived' : d'.derive? program bump' = some key) :
    d.seeds.flatten = d'.seeds.flatten ∧ bump = bump' := by
  have same : Sha256.hash (d.preimage program bump) = Sha256.hash (d'.preimage program bump') := by
    rw [Derivation.hash_of_derive? derived, Derivation.hash_of_derive? derived']
  exact Derivation.preimage_eq_iff.mp (free _ known _ known' same)

end VaultMarket
