import VaultMarket.Proofs.Access
import VaultMarket.Proofs.Seeds
set_option autoImplicit false

namespace VaultMarket

inductive SeedFault where
  | beyondLimits
  | onCurve
deriving DecidableEq

namespace SeedList

def most : Nat := 16

def address (seeds : List Bytes) (program : Key) : Except SeedFault Key :=
  if seeds.length ≤ most ∧ ∀ s ∈ seeds, s.length ≤ Limits.seed then
    let key : Key :=
      ⟨Sha256.hash (seeds.flatten ++ program.bytes ++ Derivation.marker), Sha256.length_hash _⟩
    if Curve.isPoint key.bytes then .error .onCurve else .ok key
  else .error .beyondLimits

/-- Looks for an address from bump `n` down. A point of the curve takes the search to the next bump,
and seeds beyond the limits end it. -/
def search (seeds : List Bytes) (program : Key) : Nat → Option DerivedAddress
  | 0 => none
  | n + 1 =>
    match address (seeds ++ [[UInt8.ofNat (n + 1)]]) program with
    | .ok key => some ⟨key, UInt8.ofNat (n + 1)⟩
    | .error .onCurve => search seeds program n
    | .error .beyondLimits => none

variable {seeds : List Bytes} {program key : Key} {n : Nat}

theorem search_of_ok (found : address (seeds ++ [[UInt8.ofNat (n + 1)]]) program = .ok key) :
    search seeds program (n + 1) = some ⟨key, UInt8.ofNat (n + 1)⟩ := by
  rw [search, found]

theorem search_of_curve
    (point : address (seeds ++ [[UInt8.ofNat (n + 1)]]) program = .error .onCurve) :
    search seeds program (n + 1) = search seeds program n := by
  rw [search, point]

theorem search_of_limits
    (beyond : address (seeds ++ [[UInt8.ofNat (n + 1)]]) program = .error .beyondLimits) :
    search seeds program (n + 1) = none := by
  rw [search, beyond]

end SeedList

namespace Derivation

variable {d : Derivation} {program key : Key} {bump : UInt8} {n : Nat}

section Direct

theorem length_seeds_le (d : Derivation) : d.seeds.length ≤ 3 := by
  cases d <;> exact Nat.le_of_ble_eq_true rfl

/-- A bump is one more seed of one byte, so it does not matter to the limits. -/
theorem limits_concat_iff : ((d.seeds ++ [[bump]]).length ≤ SeedList.most ∧
    ∀ s ∈ d.seeds ++ [[bump]], s.length ≤ Limits.seed) ↔ d.Fits := by
  have few : (d.seeds ++ [[bump]]).length ≤ SeedList.most := by
    rw [List.length_append, List.length_singleton]
    exact Nat.le_trans (Nat.succ_le_succ d.length_seeds_le) (by decide)
  have byte : [bump].length ≤ Limits.seed := Nat.le_of_ble_eq_true rfl
  rw [List.forall_mem_append, List.forall_mem_singleton]
  exact ⟨fun h => h.2.1, fun fits => ⟨few, fits, byte⟩⟩

theorem address_of_fits (fits : d.Fits) : SeedList.address (d.seeds ++ [[bump]]) program =
    if Curve.isPoint (d.candidate program bump).bytes then .error .onCurve
    else .ok (d.candidate program bump) := by
  have joined : (d.seeds ++ [[bump]]).flatten ++ program.bytes ++ marker =
      d.preimage program bump := by
    rw [preimage, List.flatten_append, List.flatten_singleton]
  unfold SeedList.address
  rw [if_pos (limits_concat_iff.mpr fits)]
  simp only [joined, candidate]
  rfl

theorem address_of_long (long : ¬d.Fits) :
    SeedList.address (d.seeds ++ [[bump]]) program = .error .beyondLimits := by
  unfold SeedList.address
  exact if_neg fun within => long (limits_concat_iff.mp within)

theorem address_eq_ok : SeedList.address (d.seeds ++ [[bump]]) program = .ok key ↔
    d.derive? program bump = some key := by
  rw [derive?_eq_some]
  by_cases fits : d.Fits
  · rw [address_of_fits fits]
    split <;> rename_i point
    · exact ⟨nofun, fun h => absurd (h.2.2 ▸ point) h.2.1⟩
    · rw [Except.ok.injEq]
      exact ⟨fun h => ⟨fits, h ▸ point, h⟩, fun h => h.2.2⟩
  · rw [address_of_long fits]
    exact ⟨nofun, fun h => absurd h.1 fits⟩

theorem search_eq_search : d.search program n = SeedList.search d.seeds program n := by
  by_cases fits : d.Fits
  · induction n with
    | zero => rfl
    | succ n ih =>
      cases derived : d.derive? program (UInt8.ofNat (n + 1)) with
      | some key => rw [search, derived, SeedList.search_of_ok (address_eq_ok.mpr derived)]
      | none =>
        have point := (derive?_eq_none.mp derived).resolve_left (· fits)
        rw [search, derived, SeedList.search_of_curve (by rw [address_of_fits fits, if_pos point])]
        exact ih
  · have missing : d.search program n = none :=
      search_eq_none.mpr fun m _ => derive?_eq_none.mpr (.inl fits)
    cases n with
    | zero => rfl
    | succ n => rw [missing, SeedList.search_of_limits (address_of_long fits)]

end Direct

theorem search_largest (small : n < UInt8.size) (h : d.search program n = some ⟨key, bump⟩) :
    1 ≤ bump.toNat ∧ bump.toNat ≤ n ∧
      ∀ m, bump.toNat < m → m ≤ n → d.derive? program (UInt8.ofNat m) = none := by
  induction n with
  | zero => cases h
  | succ n ih =>
    unfold search at h
    split at h
    · cases h
      rw [UInt8.toNat_ofNat_of_lt' small]
      exact ⟨Nat.succ_pos n, Nat.le_refl _, fun m above below => absurd below (Nat.not_le.mpr above)⟩
    · rename_i missing
      obtain ⟨used, within, above⟩ := ih (Nat.lt_of_succ_lt small) h
      refine ⟨used, Nat.le_succ_of_le within, fun m larger below => ?_⟩
      rcases Nat.le_succ_iff.mp below with below | rfl
      · exact above m larger below
      · exact missing

/-- The seeds fit, and some bump gives a hash that is not on the curve. -/
def Searchable (d : Derivation) (program : Key) : Prop :=
  (∀ s ∈ d.seeds, s.length ≤ 32) ∧
    ∃ bump : UInt8, 1 ≤ bump.toNat ∧ Curve.isPoint (d.candidate program bump).bytes = false

theorem searchable_iff : d.Searchable program ↔ d.find? program ≠ none := by
  have fits_iff : d.Fits ↔ ∀ s ∈ d.seeds, s.length ≤ 32 := Iff.rfl
  rw [Ne, find?_eq_none, not_or, not_not, fits_iff, not_forall]
  refine and_congr_right fun fits => exists_congr fun bump => ?_
  have used : 1 ≤ bump.toNat ↔ bump ≠ 0 := by
    rw [Nat.one_le_iff_ne_zero, Ne, Ne, ← UInt8.toNat_inj]
    rfl
  rw [used, Classical.not_imp, Bool.not_eq_true]

/-- What is found, by either search: the address for the largest bump that gives one, which the
direct derivation with that bump gives again. -/
structure Canonical (d : Derivation) (program : Key) (found : DerivedAddress) : Prop where
  tried : d.find? program = some found
  counted_on : d.find program = .ok found
  used : 1 ≤ found.bump.toNat
  largest : ∀ bump, found.bump < bump → Curve.isPoint (d.candidate program bump).bytes = true
  address_eq : found.address = d.candidate program found.bump
  off_curve : Curve.isPoint found.address.bytes = false
  direct : SeedList.address (d.seeds ++ [[found.bump]]) program = .ok found.address

theorem canonical_of_find? {found : DerivedAddress} (h : d.find? program = some found) :
    d.Canonical program found := by
  obtain ⟨address, bump⟩ := found
  obtain ⟨derived, -⟩ := search_eq_some h
  obtain ⟨used, -, above⟩ := search_largest (by decide) h
  obtain ⟨fits, off, same⟩ := derive?_eq_some.mp derived
  constructor
  case tried => exact h
  case counted_on => exact find_eq_ok.mpr h
  case used => exact used
  case largest =>
    intro bump' larger
    have missing := above bump'.toNat (UInt8.lt_iff_toNat_lt.mp larger)
      (Nat.le_of_lt_succ bump'.toNat_lt)
    rw [UInt8.ofNat_toNat] at missing
    exact (derive?_eq_none.mp missing).resolve_left (· fits)
  case address_eq => exact same.symm
  case off_curve => exact Bool.eq_false_iff.mpr off
  case direct => exact address_eq_ok.mpr derived

end Derivation

/-- How the two searches for an address and the check of a stored bump relate. -/
structure FindersAgree (d : Derivation) (program : Key) : Prop where
  search_eq : d.find? program = SeedList.search d.seeds program 255
  found : d.Searchable program → ∃ found, d.Canonical program found
  missing : ¬d.Searchable program →
    d.find? program = none ∧ d.find program = .error .aborted
  stored_iff : ∀ found field key, program = Identity.program → d.find? program = some found →
    (requireStored field d found.bump key = .ok () ↔ key = found.address)

theorem finders_agree (d : Derivation) (program : Key) : FindersAgree d program := by
  constructor
  case search_eq => exact Derivation.search_eq_search
  case found =>
    intro searchable
    obtain ⟨found, some_found⟩ :=
      Option.ne_none_iff_exists'.mp (Derivation.searchable_iff.mp searchable)
    exact ⟨found, Derivation.canonical_of_find? some_found⟩
  case missing =>
    intro unsearchable
    have missing : d.find? program = none := by
      by_contra found
      exact unsearchable (Derivation.searchable_iff.mpr found)
    refine ⟨missing, ?_⟩
    rw [Derivation.find, missing]
  case stored_iff =>
    rintro found field key rfl some_found
    have canonical := Derivation.canonical_of_find? some_found
    have derived := Derivation.address_eq_ok.mp canonical.direct
    rw [requireStored_eq_ok, derived, Option.some.injEq]
    exact eq_comm

section Samples

/-- A name that fills its seed, in letters of two bytes each. -/
def Derivation.fullUser : Derivation := .user "éééééééééééééééé"

theorem finders_agree_of_full_seed : ∃ found,
    Derivation.fullUser.Searchable Identity.program ∧
      Derivation.fullUser.Canonical Identity.program found := by
  have searchable : Derivation.fullUser.Searchable Identity.program := by
    refine ⟨by decide, 255, ?_⟩
    decide +kernel
  obtain ⟨found, canonical⟩ := (finders_agree Derivation.fullUser Identity.program).found searchable
  exact ⟨found, searchable, canonical⟩

end Samples
end VaultMarket
