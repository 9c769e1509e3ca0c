import VaultMarket.Proofs.History
set_option autoImplicit false

namespace VaultMarket
open Function (update)

/-- The profile at `k` has the asset at `a` as its handle. -/
def Records.Holds (records : Records) (k a : Key) : Prop :=
  ∃ u, records k = some (.user u) ∧ u.handle = some a

/-- Profiles and handles belong together one to one, and the owners agree. -/
structure HandlesMatch (records : Records) : Prop where
  asset_of_handle : ∀ (k a : Key) (u : User), records k = some (.user u) → u.handle = some a →
    ∃ asset, records a = some (.asset asset) ∧ asset.kind = .userHandle ∧
      asset.owner = u.authority
  holder_of_asset : ∀ (a : Key) (asset : Asset), records a = some (.asset asset) →
    ∃! k, records.Holds k a

namespace Records

variable {before : Records} {key k a : Key}

theorem holds_update_user {u : User} :
    Records.Holds (update before key (some (.user u))) k a ↔
      k = key ∧ u.handle = some a ∨ k ≠ key ∧ before.Holds k a := by
  unfold Holds
  by_cases same : k = key
  · subst same
    simp only [Function.update_self]
    constructor
    · rintro ⟨_, e, held⟩
      cases e
      exact .inl ⟨trivial, held⟩
    · rintro (⟨-, held⟩ | ⟨other, -⟩)
      · exact ⟨u, rfl, held⟩
      · exact absurd rfl other
  · simp only [Function.update_of_ne same]
    exact ⟨fun h => .inr ⟨same, h⟩, fun h => h.elim (fun h => absurd h.1 same) And.right⟩

theorem user_update_asset {asset : Asset} {u : User}
    (room : ∀ old, before key = some old → old.kind = .asset) :
    update before key (some (.asset asset)) k = some (.user u) ↔ before k = some (.user u) :=
  update_eq_some_of_kind room nofun

theorem asset_update_user {asset : Asset} {u u' : User} (profile : before key = some (.user u)) :
    update before key (some (.user u')) k = some (.asset asset) ↔
      before k = some (.asset asset) :=
  update_eq_some_of_kind (room_of_stored profile rfl) nofun

theorem holds_update_asset {asset : Asset}
    (room : ∀ old, before key = some old → old.kind = .asset) :
    Records.Holds (update before key (some (.asset asset))) k a ↔ before.Holds k a := by
  unfold Holds
  exact exists_congr fun u => and_congr_left fun _ => user_update_asset room

end Records

namespace HandlesMatch

variable {before after : Records} {key k a : Key}

theorem asset_of_holds (inv : HandlesMatch before) (h : before.Holds k a) :
    ∃ asset, before a = some (.asset asset) := by
  obtain ⟨u, profile, handle⟩ := h
  obtain ⟨asset, held, -⟩ := inv.asset_of_handle k a u profile handle
  exact ⟨asset, held⟩

theorem unique (inv : HandlesMatch before) {k' : Key} (h : before.Holds k a)
    (h' : before.Holds k' a) : k = k' := by
  obtain ⟨asset, held⟩ := inv.asset_of_holds h
  exact (inv.holder_of_asset a asset held).unique h h'

theorem congr (inv : HandlesMatch before)
    (users : ∀ (k : Key) (u : User), after k = some (.user u) ↔ before k = some (.user u))
    (assets : ∀ (k : Key) (asset : Asset),
      after k = some (.asset asset) ↔ before k = some (.asset asset)) : HandlesMatch after := by
  have holds (k a : Key) : after.Holds k a ↔ before.Holds k a :=
    exists_congr fun u => and_congr_left fun _ => users k u
  refine ⟨fun k a u profile handle => ?_, fun a asset held => ?_⟩
  · simp only [assets]
    exact inv.asset_of_handle k a u ((users k u).mp profile) handle
  · simp only [holds]
    exact inv.holder_of_asset a asset ((assets a asset).mp held)

theorem update_user (inv : HandlesMatch before) {u' : User}
    (room : ∀ old, before key = some old → old.kind = .user)
    (handle : ∀ a, u'.handle = some a →
      ∃ u, before key = some (.user u) ∧ u.handle = some a ∧ u.authority = u'.authority)
    (kept : ∀ u, before key = some (.user u) → u'.handle = u.handle) :
    HandlesMatch (update before key (some (.user u'))) := by
  have assets (k : Key) (asset : Asset) :
      update before key (some (.user u')) k = some (.asset asset) ↔
        before k = some (.asset asset) :=
    update_eq_some_of_kind room nofun
  have holds (k a : Key) :
      Records.Holds (update before key (some (.user u'))) k a ↔ before.Holds k a := by
    rw [Records.holds_update_user]
    constructor
    · rintro (⟨rfl, held⟩ | ⟨-, old⟩)
      · obtain ⟨u, profile, old, -⟩ := handle a held
        exact ⟨u, profile, old⟩
      · exact old
    · rintro ⟨u, profile, old⟩
      by_cases same : k = key
      · subst same
        exact .inl ⟨rfl, (kept u profile).trans old⟩
      · exact .inr ⟨same, u, profile, old⟩
  refine ⟨fun k a u profile held => ?_, fun a asset held => ?_⟩
  · simp only [assets]
    rcases update_eq_some.mp profile with ⟨rfl, e⟩ | ⟨-, old⟩
    · cases e
      obtain ⟨u, profile, old, own⟩ := handle a held
      rw [← own]
      exact inv.asset_of_handle k a u profile old
    · exact inv.asset_of_handle k a u old held
  · simp only [holds]
    exact inv.holder_of_asset a asset ((assets a asset).mp held)

/-- The handle at `key`, new or not, goes to the profile at `target` and to nobody else. -/
theorem give (inv : HandlesMatch before) (key target : Key) (given : Asset)
    (kind : given.kind = .userHandle)
    (assets : ∀ (k : Key) (asset : Asset), after k = some (.asset asset) ↔
      k = key ∧ asset = given ∨ k ≠ key ∧ before k = some (.asset asset))
    (holds : ∀ k a : Key, after.Holds k a ↔ k = target ∧ a = key ∨ a ≠ key ∧ before.Holds k a)
    (own : ∀ u, after target = some (.user u) → given.owner = u.authority)
    (profiles : ∀ (k : Key) (u : User), after k = some (.user u) →
      ∃ old, before k = some (.user old) ∧ old.authority = u.authority) : HandlesMatch after := by
  refine ⟨fun k a u profile held => ?_, fun a asset held => ?_⟩
  · rcases (holds k a).mp ⟨u, profile, held⟩ with ⟨rfl, rfl⟩ | ⟨other, old, earlier, handle⟩
    · exact ⟨given, (assets a given).mpr (.inl ⟨rfl, rfl⟩), kind, own u profile⟩
    · obtain ⟨old', earlier', same⟩ := profiles k u profile
      rw [earlier] at earlier'
      cases earlier'
      obtain ⟨asset, found, kind, owner⟩ := inv.asset_of_handle k a old earlier handle
      exact ⟨asset, (assets a asset).mpr (.inr ⟨other, found⟩), kind, owner.trans same⟩
  · simp only [holds]
    rcases (assets a asset).mp held with ⟨rfl, -⟩ | ⟨other, found⟩
    · refine ⟨target, .inl ⟨rfl, rfl⟩, fun k h => ?_⟩
      rcases h with ⟨same, -⟩ | ⟨other, -⟩
      · exact same
      · exact absurd rfl other
    · obtain ⟨k, h, only⟩ := inv.holder_of_asset a asset found
      refine ⟨k, .inr ⟨other, h⟩, fun k' h' => only k' ?_⟩
      rcases h' with ⟨-, same⟩ | ⟨-, earlier⟩
      · exact absurd same other
      · exact earlier

theorem assets_of_give {middle : Records} {given asset : Asset}
    (same : middle k = some (.asset asset) ↔ before k = some (.asset asset)) :
    update middle key (some (.asset given)) k = some (.asset asset) ↔
      k = key ∧ asset = given ∨ k ≠ key ∧ before k = some (.asset asset) := by
  rw [update_eq_some, same, Stored.asset.injEq, @eq_comm _ given]

theorem profile_of_update {u u' v : User} (profile : before key = some (.user u))
    (h : update before key (some (.user u')) k = some (.user v))
    (same : u.authority = u'.authority) :
    ∃ old, before k = some (.user old) ∧ old.authority = v.authority := by
  rcases update_eq_some.mp h with ⟨rfl, e⟩ | ⟨-, old⟩
  · cases e
    exact ⟨u, profile, same⟩
  · exact ⟨v, old, rfl⟩

theorem not_holds {u : User} (profile : before k = some (.user u)) (bare : u.handle = none) :
    ¬before.Holds k a := by
  rintro ⟨u', profile', held⟩
  rw [profile] at profile'
  cases profile'
  rw [bare] at held
  cases held

theorem create (inv : HandlesMatch before) {u : User} {given : Asset}
    (free : before key = none) (profile : before k = some (.user u)) (bare : u.handle = none)
    (kind : given.kind = .userHandle) (own : given.owner = u.authority) :
    HandlesMatch (update (update before k (some (.user { u with handle := some key }))) key
      (some (.asset given))) := by
  have apart : key ≠ k := by
    rintro rfl
    rw [free] at profile
    cases profile
  have empty : update before k (some (.user { u with handle := some key })) key = none := by
    rw [Function.update_of_ne apart, free]
  have room : ∀ old, update before k (some (.user { u with handle := some key })) key = some old →
      old.kind = .asset := fun old h => by rw [empty] at h; cases h
  have unheld (k' : Key) : ¬before.Holds k' key := by
    intro h
    obtain ⟨asset, held⟩ := inv.asset_of_holds h
    rw [free] at held
    cases held
  refine inv.give key k given kind (fun k' asset => ?_) (fun k' a => ?_) (fun v h => ?_)
    (fun k' v h => ?_)
  · exact assets_of_give (Records.asset_update_user profile)
  · rw [Records.holds_update_asset room, Records.holds_update_user]
    constructor
    · rintro (⟨rfl, e⟩ | ⟨-, h⟩)
      · cases e
        exact .inl ⟨rfl, rfl⟩
      · refine .inr ⟨?_, h⟩
        rintro rfl
        exact unheld _ h
    · rintro (⟨rfl, rfl⟩ | ⟨-, h⟩)
      · exact .inl ⟨rfl, rfl⟩
      · refine .inr ⟨?_, h⟩
        rintro rfl
        exact not_holds profile bare h
  · rw [Function.update_of_ne (Ne.symm apart), Function.update_self] at h
    cases h
    exact own
  · have h := (Records.user_update_asset room).mp h
    exact profile_of_update profile h rfl

theorem move (inv : HandlesMatch before) {source target : Key} {s t : User} {asset : Asset}
    (own : before source = some (.user s)) (other : before target = some (.user t))
    (apart : target ≠ source) (found : before key = some (.asset asset))
    (kind : asset.kind = .userHandle) (holds : s.handle = some key) (bare : t.handle = none) :
    HandlesMatch (update (update (update before source (some (.user { s with handle := none })))
      target (some (.user { t with handle := some key }))) key
      (some (.asset { asset with owner := t.authority }))) := by
  have apart₁ : key ≠ source := ne_of_kind found own nofun
  have apart₂ : key ≠ target := ne_of_kind found other nofun
  have target₁ : update before source (some (.user { s with handle := none })) target =
      some (.user t) := by
    rw [Function.update_of_ne apart, other]
  have room : ∀ old, update (update before source (some (.user { s with handle := none })))
      target (some (.user { t with handle := some key })) key = some old → old.kind = .asset := by
    rw [Function.update_of_ne apart₂, Function.update_of_ne apart₁]
    exact room_of_stored found rfl
  refine inv.give key target { asset with owner := t.authority } kind (fun k asset => ?_)
    (fun k a => ?_) (fun v h => ?_) (fun k v h => ?_)
  · apply assets_of_give
    rw [Records.asset_update_user target₁, Records.asset_update_user own]
  · rw [Records.holds_update_asset room, Records.holds_update_user, Records.holds_update_user]
    constructor
    · rintro (⟨rfl, e⟩ | ⟨-, ⟨-, e⟩ | ⟨third, h⟩⟩)
      · cases e
        exact .inl ⟨rfl, rfl⟩
      · cases e
      · refine .inr ⟨?_, h⟩
        rintro rfl
        exact third (inv.unique h ⟨s, own, holds⟩)
    · rintro (⟨rfl, rfl⟩ | ⟨fresh, h⟩)
      · exact .inl ⟨rfl, rfl⟩
      · refine .inr ⟨?_, .inr ⟨?_, h⟩⟩
        · rintro rfl
          exact not_holds other bare h
        · rintro rfl
          obtain ⟨u, profile, held⟩ := h
          rw [own] at profile
          cases profile
          rw [holds] at held
          cases held
          exact fresh rfl
  · rw [Function.update_of_ne (Ne.symm apart₂), Function.update_self] at h
    cases h
    rfl
  · have h := (Records.user_update_asset room).mp h
    obtain ⟨u, first, same⟩ := profile_of_update target₁ h rfl
    obtain ⟨old, earlier, same'⟩ := profile_of_update own first rfl
    exact ⟨old, earlier, same'.trans same⟩

theorem effect (inv : HandlesMatch before) {now : Int64} {i : Instruction}
    {accounts : List AccountRef} (h : Effect now before i accounts after) :
    HandlesMatch after := by
  by_cases others : .user ∉ i.touched ∧ .asset ∉ i.touched
  · exact inv.congr (fun k u => h.untouched others.1) (fun k asset => h.untouched others.2)
  · cases h with
    | createUser _ vacancy =>
      refine inv.update_user vacancy.room (fun a held => ?_) (fun u held => ?_)
      · cases held
      · rw [vacancy.free] at held
        cases held
    | updateProfile owns =>
      refine inv.update_user (room_of_stored owns.stored rfl) (fun a held => ?_) (fun u held => ?_)
      · exact ⟨_, owns.stored, held, rfl⟩
      · rw [owns.stored] at held
        cases held
        rfl
    | createHandle owns vacancy _ bare =>
      exact inv.create vacancy.free owns.stored bare rfl owns.own.symm
    | moveHandle owns other apart asset kind holds _ bare =>
      exact inv.move owns.stored other.stored apart asset.stored kind holds bare
    | _ => exact absurd ⟨by simp [Instruction.touched], by simp [Instruction.touched]⟩ others

theorem empty : HandlesMatch fun _ => none := by
  refine ⟨fun k a u profile => ?_, fun a asset held => ?_⟩
  · cases profile
  · cases held

end HandlesMatch

theorem handles_match_of_honest (steps : List Step) (honest : World.genesis.Honest steps) :
    HandlesMatch (World.reached steps).ledger.records :=
  World.history_induction (P := fun records _ => HandlesMatch records) HandlesMatch.empty
    (fun inv h => inv.effect h) steps honest

section Samples
open AccountRef (signing written shown)

def Step.handleMoves : List Step :=
  [fund (Key.filled 1), fund (Key.filled 2),
   ask (.createUser "one") [signing (Key.filled 1), written (Derivation.user "one").home,
     shown Identity.systemProgram],
   ask (.createUser "two") [signing (Key.filled 2), written (Derivation.user "two").home,
     shown Identity.systemProgram],
   ask (.createHandle "h") [signing (Key.filled 1), written (Derivation.user "one").home,
     written (Derivation.handle "h").home, shown Identity.systemProgram],
   ask .moveHandle [signing (Key.filled 1), written (Derivation.user "one").home,
     written (Derivation.user "two").home, written (Derivation.handle "h").home]]

set_option maxRecDepth 100000 in
theorem handles_match_after_move :
    World.genesis.Honest Step.handleMoves ∧
      (World.genesis.receipts Step.handleMoves).length = 4 ∧
      HandlesMatch (World.reached Step.handleMoves).ledger.records := by
  have honest : World.genesis.Honest Step.handleMoves := by decide +kernel
  exact ⟨honest, by decide +kernel, handles_match_of_honest Step.handleMoves honest⟩

end Samples
end VaultMarket
