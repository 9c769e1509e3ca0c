import VaultMarket.Proofs.Footprint
import VaultMarket.Proofs.MarketControl
set_option autoImplicit false

/-!
# What a call leaves as it is

Every call of an honest run stays within its footprint, and the three parts of the footprint are
disjoint: what is made is new, what is written keeps all but its data, and who is charged loses
lamports and nothing else. Only one operation both writes and charges; there a profile would have to
be its own authority, and no run makes such a profile. The records that a call only checks keep
every byte, because what is stored has another key.
-/

namespace VaultMarket

namespace Operation

def checkedFields : Operation → List String
  | openVault _ | handOverVault _ | createMint => ["config"]
  | mintTokens => ["config", "mint_record"]
  | _ => []

end Operation

namespace Receipt

variable {c : Receipt} {field : String} {fields : List String} {key : Key}

def footprint (c : Receipt) : Footprint := c.instruction.operation.footprint c.accounts

theorem mem_listed (named : c.key? field = some key) (known : field ∈ fields) :
    key ∈ c.instruction.operation.listed fields c.accounts := by
  obtain ⟨a, found, rfl⟩ := Option.map_eq_some_iff.mp named
  obtain ⟨n, place, here⟩ := Option.bind_eq_some_iff.mp found
  obtain ⟨bound, name, -⟩ := List.idxOf?_eq_some_iff.mp place
  rw [List.length_map] at bound
  rw [List.getElem_map] at name
  have paired : (c.instruction.operation.accountFields[n], a.key) ∈
      c.instruction.operation.accountFields.zip (c.accounts.map (·.key)) := by
    refine List.mem_of_getElem? (i := n) (List.getElem?_zip_eq_some.mpr ⟨?_, ?_⟩)
    · exact List.getElem?_eq_getElem bound
    · rw [List.getElem?_map, here]
      rfl
  exact List.mem_filterMap.mpr ⟨_, paired, if_pos (name ▸ known)⟩

structure Framed (c : Receipt) (before after : Ledger) : Prop where
  /-- An account that is only read keeps every byte. So does that of the service signer, unless the
  call lists it once more to be made, to be written or to pay. -/
  untouched : ∀ k, k ∉ c.footprint.made → k ∉ c.footprint.written → k ∉ c.footprint.charged →
    after.get k = before.get k
  made : ∀ k ∈ c.footprint.made, c.footprint.Makes before after k
  written : ∀ k ∈ c.footprint.written, ∃ data, after.get k = { before.get k with data }
  charged : ∀ k ∈ c.footprint.charged, ∃ lamports ≤ (before.get k).lamports,
    after.get k = { before.get k with lamports }
  owners : ∀ k, (after.get k).owner ≠ (before.get k).owner → k ∈ c.footprint.made
  lamports : c.instruction.operation.initFields = [] →
    ∀ k, (after.get k).lamports = (before.get k).lamports
  total : after.total Account.funds = before.total Account.funds
  /-- The registry and the record of a mint keep every byte, however the accounts are listed. -/
  checked : ∀ field ∈ c.instruction.operation.checkedFields, ∀ k, c.key? field = some k →
    after.get k = before.get k

end Receipt

/-- No profile is its own authority. -/
def Records.ForeignAuthority (records : Records) : Prop :=
  ∀ k u, records k = some (.user u) → u.authority ≠ k

namespace Program
open Operation (footprint)

variable {call : Call} {l' : Ledger} {k : Key}

theorem createHandle_unpaid {text : String} (foreign : call.ledger.records.ForeignAuthority)
    (h : (createHandle call text).Gives l')
    (written : k ∈ (footprint .createHandle call.accounts).written) :
    k ∉ (footprint .createHandle call.accounts).charged := by
  obtain ⟨a, rest, load, l₁, bump, -, -, own, -⟩ := createHandle_gives.mp h
  obtain ⟨system, accounts, -, held, -⟩ := CreateHandle.load_eq_ok.mp load
  rw [accounts] at written ⊢
  intro charged
  have user : k = a.user.key := List.mem_singleton.mp written
  have signer : k = a.signer.key := List.mem_singleton.mp charged
  have same : a.user.value.authority = a.user.key :=
    (requireOwnUser_eq_ok.mp own).2.trans (signer.symm.trans user)
  exact foreign _ _ held same

theorem perform_unpaid {i : Instruction} (foreign : call.ledger.records.ForeignAuthority)
    (h : (perform call i).Gives l')
    (written : k ∈ (footprint i.operation call.accounts).written) :
    k ∉ (footprint i.operation call.accounts).charged := by
  by_cases makes : i.operation.initFields = []
  · rw [Operation.charged_eq_nil makes]
    exact List.not_mem_nil
  · by_cases handle : i.operation = .createHandle
    · cases i <;> cases handle
      exact createHandle_unpaid foreign h written
    · rw [Operation.written_eq_nil makes handle] at written
      cases written

end Program

theorem Effect.checked_same {before after : Records} {now : Int64} {i : Instruction}
    {accounts : List AccountRef} {k : Key} {field : String}
    (h : Effect now before i accounts after) (hashed : List Bytes)
    (checked : field ∈ i.operation.checkedFields)
    (named : Receipt.key? ⟨now, i, accounts, hashed⟩ field = some k) :
    ∃ s, before k = some s ∧ after k = some s := by
  cases h with
  | openVault gate _ _ vacancy =>
    cases List.mem_singleton.mp checked
    cases named
    have apart := vacancy.ne_of_stored gate.stored
    exact ⟨_, gate.stored, (Function.update_of_ne (Ne.symm apart) _ _).trans gate.stored⟩
  | handOverVault gate _ _ stored =>
    cases List.mem_singleton.mp checked
    cases named
    have apart := ne_of_kind gate.stored stored nofun
    exact ⟨_, gate.stored, (Function.update_of_ne apart _ _).trans gate.stored⟩
  | createMint gate _ _ _ vacancy =>
    cases List.mem_singleton.mp checked
    cases named
    have apart := vacancy.ne_of_stored gate.stored
    exact ⟨_, gate.stored, (Function.update_of_ne (Ne.symm apart) _ _).trans gate.stored⟩
  | mintTokens gate _ placed =>
    rcases List.mem_cons.mp checked with config | record
    · cases config
      cases named
      exact ⟨_, gate.stored, gate.stored⟩
    · cases List.mem_singleton.mp record
      cases named
      exact ⟨_, placed.stored, placed.stored⟩
  | _ => cases checked

namespace World

variable {w : World} {s : Step} {c : Receipt} {k : Key}

theorem within_of_call (called : w.receipt? s = some c) :
    w.ledger.Within c.footprint (w.step s).1.ledger :=
  Program.perform_within (performed_of_call called)

theorem makes_of_call (called : w.receipt? s = some c) (made : k ∈ c.footprint.made) :
    c.footprint.Makes w.ledger (w.step s).1.ledger k :=
  Program.perform_makes (performed_of_call called) made

/-- Who makes a profile pays for it, and so is not the account that is made. -/
theorem foreign_of_founded {u : User} (called : w.receipt? s = some c) (founded : u.Founded k c) :
    u.authority ≠ k := by
  have made : k ∈ c.footprint.made := by
    refine Receipt.mem_listed founded.user ?_
    rw [founded.call]
    exact List.mem_cons_self
  have charged : u.authority ∈ c.footprint.charged := by
    refine Receipt.mem_listed founded.founder.signer ?_
    rw [founded.call]
    exact List.mem_cons_self
  rintro rfl
  exact (makes_of_call called made).uncharged charged

theorem step_foreign (fair : s.Honest w) (foreign : w.ledger.records.ForeignAuthority) :
    (w.step s).1.ledger.records.ForeignAuthority := by
  by_cases same : (w.step s).1.ledger.records = w.ledger.records
  · rw [same]
    exact foreign
  · obtain ⟨c, called, effect⟩ := effect_of_changed fair same
    intro k u held
    rcases effect.user_origin c.hashed held with ⟨u₀, old, -⟩ | ⟨-, founded⟩
    · obtain ⟨u', held', profile⟩ := effect.retains.user old
      rw [held] at held'
      cases held'
      rw [profile.authority]
      exact foreign k u₀ old
    · exact foreign_of_founded called founded

theorem foreign_of_honest (steps : List Step) (honest : genesis.Honest steps) :
    (reached steps).ledger.records.ForeignAuthority := by
  induction steps using List.reverseRecOn with
  | nil =>
    intro k u held
    rw [records_start] at held
    cases held
  | append_singleton more s ih =>
    obtain ⟨earlier, last⟩ := honest_concat.mp honest
    rw [reached, run_concat]
    exact step_foreign last (ih earlier)

theorem succeeds_iff : (w.step s).2.Succeeds ↔ ∃ c, w.receipt? s = some c := by
  have told := step_told (w := w) (s := s)
  generalize w.receipt? s = c? at told
  cases told with
  | silent fails => exact ⟨fun h => absurd h fails, nofun⟩
  | call succeeds => exact ⟨fun _ => ⟨_, rfl⟩, fun _ => succeeds⟩

theorem framed_of_call (foreign : w.ledger.records.ForeignAuthority)
    (called : w.receipt? s = some c) : c.Framed w.ledger (w.step s).1.ledger := by
  have within := within_of_call called
  have old {k : Key} (part : k ∈ c.footprint.written ∨ k ∈ c.footprint.charged) :
      k ∉ c.footprint.made := by
    intro made
    have makes := makes_of_call called made
    exact part.elim makes.unwritten makes.uncharged
  have unpaid {k : Key} (written : k ∈ c.footprint.written) : k ∉ c.footprint.charged :=
    Program.perform_unpaid foreign (performed_of_call called) written
  refine ⟨fun k => within.get_eq, fun k => makes_of_call called, fun k written => ?_,
    fun k charged => ?_, fun k other => ?_, fun none k => ?_, within.total_eq,
    fun field checked k named => ?_⟩
  · exact ⟨_, within.written_eq (old (.inl written)) (unpaid written)⟩
  · have new := old (.inr charged)
    have unwritten : k ∉ c.footprint.written := fun written => unpaid written charged
    exact ⟨_, within.lamports_le k new, within.charged_eq new unwritten⟩
  · by_contra new
    exact other (within.owner_eq k new)
  · refine within.lamports_eq k ?_ ?_
    · rw [Receipt.footprint, Operation.made_eq_nil none]
      exact List.not_mem_nil
    · rw [Receipt.footprint, Operation.charged_eq_nil none]
      exact List.not_mem_nil
  · obtain ⟨r, before, after⟩ := (effect_of_call called).checked_same c.hashed checked named
    exact keeps_of_call called k r before after

end World

/-- After any honest run, a call that succeeds leaves every account outside its footprint as it was,
and within the footprint changes no more than each part allows. -/
theorem calls_framed (steps : List Step) (s : Step) (honest : World.genesis.Honest steps)
    (succeeds : ((World.reached steps).step s).2.Succeeds) :
    ∃ c, (World.reached steps).receipt? s = some c ∧
      c.Framed (World.reached steps).ledger ((World.reached steps).step s).1.ledger := by
  obtain ⟨c, called⟩ := World.succeeds_iff.mp succeeds
  exact ⟨c, called, World.framed_of_call (World.foreign_of_honest steps honest) called⟩

section Samples
open AccountRef (signing written shown)

def Step.secondHandle : Step :=
  ask (.createHandle "i") [signing (Key.filled 1), written (Derivation.user "one").home,
    written (Derivation.handle "i").home, shown Identity.systemProgram]

set_option maxRecDepth 100000 in
theorem calls_framed_of_second_handle : World.genesis.Honest Step.handleMoves ∧
    ((World.reached Step.handleMoves).step Step.secondHandle).2.Succeeds ∧
    ((World.reached Step.handleMoves).receipt? Step.secondHandle).map Receipt.footprint =
      some ⟨[(Derivation.handle "i").home], [(Derivation.user "one").home], [Key.filled 1]⟩ ∧
    ∃ c, (World.reached Step.handleMoves).receipt? Step.secondHandle = some c ∧
      c.Framed (World.reached Step.handleMoves).ledger
        ((World.reached Step.handleMoves).step Step.secondHandle).1.ledger := by
  have sample : World.genesis.Honest Step.handleMoves ∧
      ((World.reached Step.handleMoves).receipt? Step.secondHandle).map Receipt.footprint =
        some ⟨[(Derivation.handle "i").home], [(Derivation.user "one").home],
          [Key.filled 1]⟩ := by
    decide +kernel
  obtain ⟨honest, footprint⟩ := sample
  obtain ⟨c, called, -⟩ := Option.map_eq_some_iff.mp footprint
  have succeeds := World.succeeds_iff.mpr ⟨c, called⟩
  exact ⟨honest, succeeds, footprint,
    calls_framed Step.handleMoves Step.secondHandle honest succeeds⟩

end Samples
end VaultMarket
