import VaultMarket.Proofs.History
set_option autoImplicit false

namespace VaultMarket
open Function (update)

namespace Receipt

def registryHeir? (c : Receipt) : Option Key :=
  match c.instruction with
  | .handOverRegistry => c.key? "new_authority"
  | _ => none

def registryChange? (c : Receipt) : Option (Int64 × Key) :=
  match c.instruction with
  | .handOverRegistry => (c.key? "current_authority").map (c.now, ·)
  | .changeServiceSigner _ => (c.key? "authority").map (c.now, ·)
  | _ => none

/-- The call changes the registry at `key`, which `authority` controls: the authority signs, and so
does the key that takes over or that is registered or struck off. -/
def ChangesRegistry (c : Receipt) (key authority : Key) : Prop :=
  c.key? "config" = some key ∧
    (c.instruction = .handOverRegistry ∧ c.key? "current_authority" = some authority ∧
        c.Signed "current_authority" ∧ c.Signed "new_authority" ∨
      (∃ what, c.instruction = .changeServiceSigner what) ∧ c.key? "authority" = some authority ∧
        c.Signed "authority" ∧ c.Signed "service_signer")

def CreatesRegistry (c : Receipt) (key : Key) (r : Registry) : Prop :=
  c.instruction = .createRegistry ∧ c.key? "config" = some key ∧ r.createdAt = c.now ∧
    c.key? "payer" = some r.createdBy

theorem registryHeir?_of_untouched {c : Receipt} (other : .registry ∉ c.instruction.touched) :
    c.registryHeir? = none := by
  unfold registryHeir?
  split
  · rename_i same
    rw [same] at other
    exact absurd List.mem_cons_self other
  · rfl

theorem registryChange?_of_untouched {c : Receipt} (other : .registry ∉ c.instruction.touched) :
    c.registryChange? = none := by
  unfold registryChange?
  split
  · rename_i same
    rw [same] at other
    exact absurd List.mem_cons_self other
  · rename_i same
    rw [same] at other
    exact absurd List.mem_cons_self other
  · rfl

end Receipt

open Receipt (latest)

structure Registry.Follows (r r' : Registry) (c : Receipt) : Prop where
  bump : r'.bump = r.bump
  createdAt : r'.createdAt = r.createdAt
  createdBy : r'.createdBy = r.createdBy
  authority : r'.updateAuthority = c.registryHeir?.getD r.updateAuthority
  modified : (r'.modifiedAt, r'.modifiedBy) = c.registryChange?.getD (r.modifiedAt, r.modifiedBy)

theorem Registry.change_entries {r r' : Registry} {what : SignerChange} {key : Key}
    (h : r.change what key = .ok r') : r'.bump = r.bump ∧ r'.createdAt = r.createdAt ∧
      r'.createdBy = r.createdBy ∧ r'.updateAuthority = r.updateAuthority := by
  cases what with
  | add =>
    obtain ⟨-, -, rfl⟩ := Registry.add_eq_ok.mp h
    exact ⟨rfl, rfl, rfl, rfl⟩
  | remove =>
    obtain ⟨-, -, rfl⟩ := Registry.remove_eq_ok.mp h
    exact ⟨rfl, rfl, rfl, rfl⟩

section Effects

variable {before after : Records} {now : Int64} {i : Instruction} {accounts : List AccountRef}
  {hashed : List Bytes} {k : Key} {r r' : Registry}

theorem Effect.registry_untouched (h : Effect now before i accounts after)
    (other : .registry ∉ i.touched) :
    after k = some (.registry r) ↔ before k = some (.registry r) := h.untouched other

theorem Effect.registry_stays (h : Effect now before i accounts after)
    (held : before k = some (.registry r)) : ∃ r', after k = some (.registry r') := by
  obtain ⟨s, held', kind⟩ := h.stays held
  cases s with
  | registry r' => exact ⟨r', held'⟩
  | _ => cases kind

theorem Effect.registry_changed (h : Effect now before i accounts after)
    (held : before k = some (.registry r)) (changed : after k ≠ before k) :
    Receipt.ChangesRegistry ⟨now, i, accounts, hashed⟩ k r.updateAuthority := by
  have touched : .registry ∈ i.touched := by
    by_contra other
    rw [held] at changed
    exact changed ((h.registry_untouched other).mpr held)
  cases h with
  | createRegistry _ _ _ vacancy =>
    have apart := vacancy.ne_of_stored held
    exact absurd (Function.update_of_ne (Ne.symm apart) _ _) changed
  | @handOverRegistry registry current next rest r₀ governs accepted =>
    have same : k = registry.key := by
      by_contra other
      exact changed (Function.update_of_ne other _ _)
    have stored := governs.stored
    rw [← same, held] at stored
    cases stored
    refine ⟨congrArg some same.symm, .inl ⟨rfl, congrArg some governs.current.symm, ?_, ?_⟩⟩
    · exact ⟨current, rfl, governs.signed⟩
    · exact ⟨next, rfl, accepted⟩
  | @changeServiceSigner what registry authority service rest r₀ changed' governs accepted =>
    have same : k = registry.key := by
      by_contra other
      exact changed (Function.update_of_ne other _ _)
    have stored := governs.stored
    rw [← same, held] at stored
    cases stored
    refine ⟨congrArg some same.symm, .inr ⟨⟨what, rfl⟩, congrArg some governs.current.symm, ?_, ?_⟩⟩
    · exact ⟨authority, rfl, governs.signed⟩
    · exact ⟨service, rfl, accepted⟩
  | _ => simp [Instruction.touched] at touched

/-- Every registry was there before, or it is the new one. There is no other registry beside the
one that a call changes. -/
theorem Effect.registry_origin (h : Effect now before i accounts after) (hashed : List Bytes)
    (single : ∀ {k k' : Key} {r r' : Registry}, before k = some (.registry r) →
      before k' = some (.registry r') → k = k')
    (held : after k = some (.registry r')) :
    (∃ r, before k = some (.registry r) ∧ r.Follows r' ⟨now, i, accounts, hashed⟩) ∨
      i = .createRegistry ∧ before k = none := by
  by_cases other : .registry ∉ i.touched
  · left
    refine ⟨r', (h.registry_untouched other).mp held, rfl, rfl, rfl, ?_, ?_⟩
    · rw [Receipt.registryHeir?_of_untouched other]
      rfl
    · rw [Receipt.registryChange?_of_untouched other]
      rfl
  · cases h with
    | createRegistry _ _ _ vacancy =>
      rcases update_eq_some.mp held with ⟨same, -⟩ | ⟨-, old⟩
      · rw [same]
        exact .inr ⟨rfl, vacancy.free⟩
      · exact .inl ⟨r', old, rfl, rfl, rfl, rfl, rfl⟩
    | handOverRegistry governs =>
      left
      rcases update_eq_some.mp held with ⟨same, new⟩ | ⟨apart, old⟩
      · cases new
        rw [same]
        exact ⟨_, governs.stored, rfl, rfl, rfl, rfl, rfl⟩
      · exact absurd (single old governs.stored) apart
    | changeServiceSigner governs _ change =>
      left
      rcases update_eq_some.mp held with ⟨same, new⟩ | ⟨apart, old⟩
      · cases new
        rw [same]
        obtain ⟨bump, createdAt, createdBy, authority⟩ := Registry.change_entries change
        exact ⟨_, governs.stored, bump, createdAt, createdBy, authority, rfl⟩
      · exact absurd (single old governs.stored) apart
    | _ => exact absurd (by simp [Instruction.touched]) other

end Effects

structure RegistryTrail (records : Records) (history : List Receipt) : Prop where
  found : ∀ {k r}, records k = some (.registry r) →
    Program.registryAddress.find Identity.program = .ok ⟨k, r.bump⟩
  created : ∀ {k r}, records k = some (.registry r) → ∃ c ∈ history, c.CreatesRegistry k r
  standing : ∀ c ∈ history, .registry ∈ c.instruction.touched →
    ∃ k r, records k = some (.registry r)
  once : (history.filter (·.instruction = .createRegistry)).length ≤ 1
  authorised : ∀ c ∈ history, c.instruction = .createRegistry →
    c.key? "authority" = some Identity.configAuthority ∧ c.Signed "authority"
  authority : ∀ {k r}, records k = some (.registry r) →
    r.updateAuthority = (latest Receipt.registryHeir? history).getD Identity.configAuthority
  modified : ∀ {k r}, records k = some (.registry r) → (r.modifiedAt, r.modifiedBy) =
    (latest Receipt.registryChange? history).getD (r.createdAt, r.createdBy)

namespace RegistryTrail

variable {before after : Records} {history : List Receipt} {now : Int64} {i : Instruction}
  {accounts : List AccountRef} {hashed : List Bytes} {k k' : Key} {r r' : Registry}

theorem empty : RegistryTrail (fun _ => none) [] where
  found := nofun
  created := nofun
  standing := nofun
  once := Nat.zero_le 1
  authorised := nofun
  authority := nofun
  modified := nofun

theorem single (trail : RegistryTrail before history) (held : before k = some (.registry r))
    (held' : before k' = some (.registry r')) : k = k' := by
  have same := (trail.found held).symm.trans (trail.found held')
  exact congrArg DerivedAddress.address (Except.ok.inj same)

theorem none_touched (trail : RegistryTrail before history)
    (free : ∀ k r, before k ≠ some (.registry r)) :
    ∀ c ∈ history, .registry ∉ c.instruction.touched := by
  intro c known touched
  obtain ⟨k, r, held⟩ := trail.standing c known touched
  exact free k r held

theorem latest_eq_none {α : Type} {f : Receipt → Option α}
    (silent : ∀ c : Receipt, .registry ∉ c.instruction.touched → f c = none)
    (trail : RegistryTrail before history) (free : ∀ k r, before k ≠ some (.registry r)) :
    latest f history = none :=
  Receipt.latest_eq_none.mpr fun c known => silent c (trail.none_touched free c known)

theorem none_of_vacancy (trail : RegistryTrail before history) {authority : Key} {bump : UInt8}
    (authorised : authority = Identity.configAuthority)
    (vacancy : Vacancy before (.registry authority) k bump) :
    ∀ k' r, before k' ≠ some (.registry r) := by
  intro k' r held
  have here := vacancy.found
  rw [authorised] at here
  have same := (trail.found held).symm.trans here
  cases same
  rw [vacancy.free] at held
  cases held

/-- The one step that makes a registry: there was none, so no call has touched one. -/
theorem create (trail : RegistryTrail before history) {payer authority registry : AccountRef}
    {rest : List AccountRef} {bump : UInt8} (signed : authority.signer = true)
    (authorised : authority.key = Identity.configAuthority)
    (vacancy : Vacancy before (.registry authority.key) registry.key bump) :
    RegistryTrail
      (update before registry.key
        (some (.registry (Registry.fresh payer.key authority.key now bump))))
      (history ++ [⟨now, .createRegistry, payer :: authority :: registry :: rest, hashed⟩]) := by
  have here : Program.registryAddress.find Identity.program = .ok ⟨registry.key, bump⟩ := by
    rw [Program.registryAddress, ← authorised]
    exact vacancy.found
  have free := trail.none_of_vacancy authorised vacancy
  have untouched := trail.none_touched free
  have only {k : Key} {r : Registry} (held : update before registry.key
      (some (.registry (Registry.fresh payer.key authority.key now bump))) k =
        some (.registry r)) :
      k = registry.key ∧ Registry.fresh payer.key authority.key now bump = r := by
    rcases update_eq_some.mp held with ⟨same, new⟩ | ⟨-, old⟩
    · cases new
      exact ⟨same, rfl⟩
    · exact absurd old (free k r)
  refine ⟨fun held => ?_, fun held => ?_, fun c known touched => ?_, ?_, fun c known create => ?_,
    fun held => ?_, fun held => ?_⟩
  · obtain ⟨rfl, rfl⟩ := only held
    exact here
  · obtain ⟨rfl, rfl⟩ := only held
    exact ⟨_, List.mem_append_right _ List.mem_cons_self, rfl, rfl, rfl, rfl⟩
  · exact ⟨registry.key, _, Function.update_self _ _ _⟩
  · have earlier : history.filter (·.instruction = .createRegistry) = [] := by
      rw [List.filter_eq_nil_iff]
      intro c known create
      have create := of_decide_eq_true create
      have other := untouched c known
      rw [create] at other
      exact other List.mem_cons_self
    rw [List.filter_append, earlier]
    exact Nat.le_refl 1
  · rcases List.mem_append.mp known with known | known
    · exact trail.authorised c known create
    · cases List.mem_singleton.mp known
      exact ⟨congrArg some authorised, authority, rfl, signed⟩
  · obtain ⟨rfl, rfl⟩ := only held
    rw [Receipt.latest_concat,
      latest_eq_none (fun c => Receipt.registryHeir?_of_untouched) trail free]
    exact authorised
  · obtain ⟨rfl, rfl⟩ := only held
    rw [Receipt.latest_concat,
      latest_eq_none (fun c => Receipt.registryChange?_of_untouched) trail free]
    rfl

theorem follow (trail : RegistryTrail before history) {c : Receipt}
    (other : c.instruction ≠ .createRegistry)
    (touches : .registry ∈ c.instruction.touched → ∃ k r, before k = some (.registry r))
    (stays : ∀ {k r}, before k = some (.registry r) → ∃ r', after k = some (.registry r'))
    (origin : ∀ {k r'}, after k = some (.registry r') →
      ∃ r, before k = some (.registry r) ∧ r.Follows r' c) :
    RegistryTrail after (history ++ [c]) := by
  refine ⟨fun held => ?_, fun held => ?_, fun d known touched => ?_, ?_, fun d known create => ?_,
    fun held => ?_, fun held => ?_⟩
  · obtain ⟨r, old, follows⟩ := origin held
    rw [follows.bump]
    exact trail.found old
  · obtain ⟨r, old, follows⟩ := origin held
    obtain ⟨d, known, create, config, at_, by_⟩ := trail.created old
    refine ⟨d, List.mem_append_left _ known, create, config, ?_, ?_⟩
    · rw [follows.createdAt, at_]
    · rw [follows.createdBy, by_]
  · have earlier : ∃ k r, before k = some (.registry r) := by
      rcases List.mem_append.mp known with known | known
      · exact trail.standing d known touched
      · cases List.mem_singleton.mp known
        exact touches touched
    obtain ⟨k, r, held⟩ := earlier
    exact ⟨k, stays held⟩
  · rw [List.filter_append, List.filter_cons_of_neg (by simpa using other), List.filter_nil,
      List.append_nil]
    exact trail.once
  · rcases List.mem_append.mp known with known | known
    · exact trail.authorised d known create
    · cases List.mem_singleton.mp known
      exact absurd create other
  · obtain ⟨r, old, follows⟩ := origin held
    rw [follows.authority, Receipt.latest_concat, Option.getD_or, trail.authority old]
  · obtain ⟨r, old, follows⟩ := origin held
    rw [follows.modified, Receipt.latest_concat, Option.getD_or, trail.modified old,
      follows.createdAt, follows.createdBy]

theorem effect (trail : RegistryTrail before history) (h : Effect now before i accounts after) :
    RegistryTrail after (history ++ [⟨now, i, accounts, hashed⟩]) := by
  by_cases create : i = .createRegistry
  · subst create
    cases h with
    | createRegistry _ signed authorised vacancy => exact trail.create signed authorised vacancy
  · refine trail.follow create (fun touched => ?_) (fun held => h.registry_stays held)
      (fun held => ?_)
    · cases h with
      | createRegistry => exact absurd rfl create
      | handOverRegistry governs => exact ⟨_, _, governs.stored⟩
      | changeServiceSigner governs => exact ⟨_, _, governs.stored⟩
      | _ => simp [Instruction.touched] at touched
    · rcases h.registry_origin hashed trail.single held with follows | ⟨same, -⟩
      · exact follows
      · exact absurd same create

theorem of_honest (steps : List Step) (honest : World.genesis.Honest steps) :
    RegistryTrail (World.reached steps).ledger.records (World.genesis.receipts steps) :=
  World.history_induction (P := RegistryTrail) empty (fun trail h => trail.effect h) steps honest

theorem lasting (steps more : List Step) (honest : World.genesis.Honest (steps ++ more))
    (held : (World.reached steps).ledger.records k = some (.registry r)) :
    ∃ r', (World.reached (steps ++ more)).ledger.records k = some (.registry r') ∧
      r'.createdAt = r.createdAt ∧ r'.createdBy = r.createdBy ∧ r'.bump = r.bump := by
  obtain ⟨earlier, rest⟩ := World.honest_append.mp honest
  let P (records : Records) (history : List Receipt) : Prop := RegistryTrail records history ∧
    ∃ r', records k = some (.registry r') ∧
      r'.createdAt = r.createdAt ∧ r'.createdBy = r.createdBy ∧ r'.bump = r.bump
  have start : P (World.reached steps).ledger.records (World.genesis.receipts steps) :=
    ⟨of_honest steps earlier, r, held, rfl, rfl, rfl⟩
  have all := World.later_induction (P := P) (World.genesis.receipts steps) start ?_ more rest
  · rw [World.reached_append]
    exact all.2
  · rintro before after history now i accounts ⟨trail, r₁, held₁, at₁, by₁, bump₁⟩ h
    refine ⟨trail.effect h, ?_⟩
    obtain ⟨r₂, held₂⟩ := h.registry_stays held₁
    rcases h.registry_origin [] trail.single held₂ with ⟨r₀, old, follows⟩ | ⟨-, free⟩
    · rw [held₁] at old
      cases old
      refine ⟨r₂, held₂, ?_, ?_, ?_⟩
      · rw [follows.createdAt, at₁]
      · rw [follows.createdBy, by₁]
      · rw [follows.bump, bump₁]
    · rw [held₁] at free
      cases free

end RegistryTrail

theorem World.registry_guarded {w : World} {s : Step} {k : Key} {r : Registry}
    (honest : s.Honest w) (held : w.ledger.records k = some (.registry r))
    (changed : (w.step s).1.ledger.get k ≠ w.ledger.get k) :
    ∃ c, w.receipt? s = some c ∧ c.ChangesRegistry k r.updateAuthority := by
  obtain ⟨c, called, effect, record⟩ := changed_by_call honest held changed
  exact ⟨c, called, effect.registry_changed held record⟩

/-- How the registry is governed at every point of the run. -/
structure RegistryGoverned (steps : List Step) : Prop where
  once : ((World.genesis.receipts steps).filter (·.instruction = .createRegistry)).length ≤ 1
  authorised : ∀ c ∈ World.genesis.receipts steps, c.instruction = .createRegistry →
    c.key? "authority" = some Identity.configAuthority ∧ c.Signed "authority"
  created : ∀ first k r, first <+: steps →
    (World.reached first).ledger.records k = some (.registry r) →
    ∃ c ∈ World.genesis.receipts first, c.CreatesRegistry k r
  lasting : ∀ first later k r, first <+: later → later <+: steps →
    (World.reached first).ledger.records k = some (.registry r) →
    ∃ r', (World.reached later).ledger.records k = some (.registry r')
  /-- There is never another registry, and its first entries stay. -/
  single : ∀ first later k k' r r', first <+: later → later <+: steps →
    (World.reached first).ledger.records k = some (.registry r) →
    (World.reached later).ledger.records k' = some (.registry r') →
    k' = k ∧ r'.createdAt = r.createdAt ∧ r'.createdBy = r.createdBy ∧ r'.bump = r.bump
  authority : ∀ first k r, first <+: steps →
    (World.reached first).ledger.records k = some (.registry r) →
    r.updateAuthority = (latest Receipt.registryHeir? (World.genesis.receipts first)).getD
      Identity.configAuthority
  modified : ∀ first k r, first <+: steps →
    (World.reached first).ledger.records k = some (.registry r) →
    (r.modifiedAt, r.modifiedBy) =
      (latest Receipt.registryChange? (World.genesis.receipts first)).getD
        (r.createdAt, r.createdBy)
  /-- A step changes the account only on behalf of the update authority of that time. -/
  guarded : ∀ first s k r, first ++ [s] <+: steps →
    (World.reached first).ledger.records k = some (.registry r) →
    ((World.reached first).step s).1.ledger.get k ≠ (World.reached first).ledger.get k →
    ∃ c, (World.reached first).receipt? s = some c ∧ c.ChangesRegistry k r.updateAuthority

theorem registry_governed (steps : List Step) (honest : World.genesis.Honest steps) :
    RegistryGoverned steps := by
  have trail {first : List Step} (part : first <+: steps) :=
    RegistryTrail.of_honest first (World.honest_of_part part honest)
  have all := RegistryTrail.of_honest steps honest
  refine ⟨all.once, all.authorised, ?_, ?_, ?_, ?_, ?_, ?_⟩
  · intro first k r part held
    exact (trail part).created held
  · intro first later k r part whole held
    obtain ⟨more, rfl⟩ := part
    obtain ⟨r', held', -⟩ :=
      RegistryTrail.lasting first more (World.honest_of_part whole honest) held
    exact ⟨r', held'⟩
  · intro first later k k' r r' part whole held held'
    obtain ⟨more, rfl⟩ := part
    obtain ⟨r₁, held₁, entries⟩ :=
      RegistryTrail.lasting first more (World.honest_of_part whole honest) held
    have same : k' = k := (trail whole).single held' held₁
    rw [same, held₁] at held'
    cases held'
    exact ⟨same, entries⟩
  · intro first k r part held
    exact (trail part).authority held
  · intro first k r part held
    exact (trail part).modified held
  · intro first s k r part held changed
    have step := (World.honest_concat.mp (World.honest_of_part part honest)).2
    exact World.registry_guarded step held changed

section Samples
open AccountRef (signing written shown)

def Step.registryHandOver : List Step := founding ++
  [ask .handOverRegistry [written Program.registryAddress.home, signing Identity.configAuthority,
     signing (Key.filled 1)],
   setClock 9,
   ask (.changeServiceSigner .remove) [written Program.registryAddress.home,
     signing (Key.filled 1), signing (Key.filled 3)]]

set_option maxRecDepth 100000 in
theorem registry_governed_after_hand_over :
    World.genesis.Honest Step.registryHandOver ∧
      (World.genesis.receipts Step.registryHandOver).length = 4 ∧
      RegistryGoverned Step.registryHandOver := by
  have honest : World.genesis.Honest Step.registryHandOver := by decide +kernel
  exact ⟨honest, by decide +kernel, registry_governed Step.registryHandOver honest⟩

end Samples
end VaultMarket
