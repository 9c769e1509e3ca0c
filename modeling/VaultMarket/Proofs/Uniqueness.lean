import VaultMarket.Proofs.Origins
import VaultMarket.Proofs.Persistence
set_option autoImplicit false

namespace VaultMarket
open Function (update)

namespace Stored

variable {s s' : Stored}

/-- The record, blank wherever it can change after it was made. -/
def identity : Stored → Stored
  | registry r => registry { r with
      slots := .free, count := 0, modifiedAt := 0, modifiedBy := Key.zero
      updateAuthority := Key.zero }
  | vault v => vault { v with authority := Key.zero, modifiedAt := 0 }
  | user u => user { u with handle := none, profileEffect := none, theme := none }
  | asset a => asset { a with owner := Key.zero }
  | server s => server { s with authority := Key.zero }
  | mintRecord m => mintRecord m

theorem kind_identity (s : Stored) : s.identity.kind = s.kind := by
  cases s <;> rfl

theorem kind_of_identity (same : s'.identity = s.identity) : s'.kind = s.kind := by
  rw [← kind_identity s', same, kind_identity]

def tag : Stored → Bytes
  | registry _ => Record.tag Registry
  | vault _ => Record.tag Vault
  | user _ => Record.tag User
  | asset _ => Record.tag Asset
  | server _ => Record.tag Server
  | mintRecord _ => Record.tag MintRecord

theorem take_of_readsAs {data : Bytes} (h : ReadsAs data s) : data.take tagWidth = s.tag := by
  cases s <;> exact tag_of_read h

theorem tag_eq_of_kind (same : s'.kind = s.kind) : s'.tag = s.tag := by
  cases s <;> cases s' <;> cases same <;> rfl

end Stored

namespace Records

variable {before middle after : Records} {key : Key} {new : Stored}

/-- Every record stays at its key, and as what it is. -/
def Retains (before after : Records) : Prop :=
  ∀ k s, before k = some s → ∃ s', after k = some s' ∧ s'.identity = s.identity

theorem Retains.refl (before : Records) : before.Retains before := fun _ s held => ⟨s, held, rfl⟩

theorem Retains.trans (first : before.Retains middle) (second : middle.Retains after) :
    before.Retains after := by
  intro k s held
  obtain ⟨s₁, held₁, same₁⟩ := first k s held
  obtain ⟨s₂, held₂, same₂⟩ := second k s₁ held₁
  exact ⟨s₂, held₂, same₂.trans same₁⟩

theorem Retains.store (earlier : before.Retains middle)
    (room : ∀ old, middle key = some old → new.identity = old.identity) :
    before.Retains (update middle key (some new)) := by
  intro k s held
  obtain ⟨s', held', same'⟩ := earlier k s held
  by_cases here : k = key
  · subst here
    exact ⟨new, Function.update_self _ _ _, (room s' held').trans same'⟩
  · exact ⟨s', by rw [Function.update_of_ne here, held'], same'⟩

theorem identity_of_stored {old : Stored} (stored : before key = some old)
    (same : new.identity = old.identity) :
    ∀ o, before key = some o → new.identity = o.identity := by
  intro o held
  rw [stored] at held
  cases held
  exact same

end Records

section Effects

variable {before after : Records} {now : Int64} {i : Instruction} {accounts : List AccountRef}

theorem Vacancy.nothing_kept {d : Derivation} {key : Key} {bump : UInt8} {new : Stored}
    (vacancy : Vacancy before d key bump) :
    ∀ old, before key = some old → new.identity = old.identity := by
  intro old held
  rw [vacancy.free] at held
  cases held

theorem Registry.identity_of_change {r changed : Registry} {what : SignerChange} {service who : Key}
    (change : r.change what service = .ok changed) :
    (Stored.registry (changed.touch now who)).identity = (Stored.registry r).identity := by
  cases what with
  | add =>
    obtain ⟨-, -, rfl⟩ := Registry.add_eq_ok.mp change
    rfl
  | remove =>
    obtain ⟨-, -, rfl⟩ := Registry.remove_eq_ok.mp change
    rfl

theorem Effect.retains (h : Effect now before i accounts after) : before.Retains after := by
  have start := Records.Retains.refl before
  have kept {key : Key} {old new : Stored} (stored : before key = some old)
      (same : new.identity = old.identity) := Records.identity_of_stored stored same
  cases h with
  | createRegistry _ _ _ vacancy => exact start.store vacancy.nothing_kept
  | handOverRegistry governs => exact start.store (kept governs.stored rfl)
  | changeServiceSigner governs _ change =>
    exact start.store (kept governs.stored (Registry.identity_of_change change))
  | openVault _ _ _ vacancy => exact start.store vacancy.nothing_kept
  | handOverVault _ _ _ stored _ handOver =>
    obtain ⟨-, rfl⟩ := Vault.handOver_eq_ok.mp handOver
    exact start.store (kept stored rfl)
  | createUser _ vacancy => exact start.store vacancy.nothing_kept
  | updateProfile owns => exact start.store (kept owns.stored rfl)
  | createHandle owns vacancy =>
    refine (start.store ?_).store ?_
    · exact kept owns.stored rfl
    · rw [Function.update_of_ne (vacancy.ne_of_stored owns.stored)]
      exact vacancy.nothing_kept
  | moveHandle owns other apart asset =>
    have apart₁ := ne_of_kind asset.stored owns.stored nofun
    have apart₂ := ne_of_kind asset.stored other.stored nofun
    refine ((start.store ?_).store ?_).store ?_
    · exact kept owns.stored rfl
    · rw [Function.update_of_ne apart]
      exact kept other.stored rfl
    · rw [Function.update_of_ne apart₂, Function.update_of_ne apart₁]
      exact kept asset.stored rfl
  | createServer _ vacancy => exact start.store vacancy.nothing_kept
  | handOverServer placed => exact start.store (kept placed.stored rfl)
  | createMint _ _ _ _ vacancy => exact start.store vacancy.nothing_kept
  | mintTokens => exact start

theorem World.later_retains {w : World} (more : List Step) (honest : w.Honest more) :
    w.ledger.records.Retains (w.run more).1.ledger.records :=
  later_induction (P := fun records _ => w.ledger.records.Retains records) [] (.refl _)
    (fun retains h => retains.trans h.retains) more honest

end Effects

/-- What the call claims for good: what it makes an account at the address of. -/
def Receipt.claimed? (c : Receipt) : Option Derivation :=
  match c.instruction, c.accounts with
  | .createRegistry, _ => some Program.registryAddress
  | .openVault opening, _ :: _ :: authority :: _ => some (.vault opening.kind authority.key)
  | .createUser username, _ => some (.user username)
  | .createHandle text, _ => some (.handle text)
  | .createServer name ticker, _ => some (.server name ticker)
  | .createMint terms, payer :: _ => some (.tokenMint payer.key terms.nonce)
  | _, _ => none

/-- Where the record goes of what is claimed. The account of a mint belongs to the token program;
its record is another account. -/
def Derivation.recordAt : Derivation → Except Failure DerivedAddress
  | tokenMint payer nonce => do
    let mint ← (tokenMint payer nonce).find Identity.program
    (mintRecord mint.address).find Identity.program
  | d => d.find Identity.program

/-- The call has made the record, which says for whom and as what. -/
def Stored.MadeFor (c : Receipt) (s : Stored) : Prop :=
  match c.instruction, c.accounts, s with
  | .createRegistry, payer :: _, registry r => r.createdBy = payer.key ∧ r.createdAt = c.now
  | .openVault opening, _ :: _ :: authority :: _, vault v =>
    v.kind = opening.kind ∧ v.creator = authority.key ∧ v.createdAt = c.now
  | .createUser username, signer :: _, user u => u.authority = signer.key ∧ u.username = username
  | .createHandle text, signer :: _, asset a =>
    a.kind = .userHandle ∧ a.text = text ∧ a.owner = signer.key
  | .createServer name ticker, signer :: _, server s =>
    s.name = name ∧ s.ticker = ticker ∧ s.authority = signer.key
  | .createMint terms, payer :: _, mintRecord m =>
    m.creator = payer.key ∧ m.nonce = terms.nonce ∧ m.name = terms.name ∧
      m.symbol = terms.symbol ∧ m.uri = terms.uri ∧ m.decimals = terms.decimals ∧
      m.createdAt = c.now
  | _, _, _ => False

section Claims

variable {before after : Records} {c : Receipt} {d : Derivation}

theorem Effect.makes_claimed (h : Effect c.now before c.instruction c.accounts after)
    (claimed : c.claimed? = some d) : ∃ home s, d.recordAt = .ok home ∧
      before home.address = none ∧ after home.address = some s ∧ s.MadeFor c := by
  obtain ⟨now, i, accounts, hashed⟩ := c
  cases h with
  | @createRegistry payer authority registry rest bump _ _ authorised vacancy =>
    cases claimed
    have found : Program.registryAddress.find Identity.program = .ok ⟨registry.key, bump⟩ := by
      rw [Program.registryAddress, ← authorised]
      exact vacancy.found
    exact ⟨_, _, found, vacancy.free, Function.update_self _ _ _, rfl, rfl⟩
  | openVault _ _ _ vacancy fresh =>
    cases claimed
    obtain ⟨t, -, rfl⟩ := Vault.fresh_eq_ok.mp fresh
    exact ⟨_, _, vacancy.found, vacancy.free, Function.update_self _ _ _, rfl, rfl, rfl⟩
  | createUser _ vacancy =>
    cases claimed
    exact ⟨_, _, vacancy.found, vacancy.free, Function.update_self _ _ _, rfl, rfl⟩
  | createHandle _ vacancy =>
    cases claimed
    exact ⟨_, _, vacancy.found, vacancy.free, Function.update_self _ _ _, rfl, rfl, rfl⟩
  | createServer _ vacancy fresh =>
    cases claimed
    obtain ⟨-, -, rfl⟩ := Server.fresh_eq_ok.mp fresh
    exact ⟨_, _, vacancy.found, vacancy.free, Function.update_self _ _ _, rfl, rfl, rfl⟩
  | @createMint terms payer _ _ _ _ record _ _ _ _ bump _ _ _ foundMint _ vacancy fresh =>
    cases claimed
    obtain ⟨-, rfl⟩ := MintRecord.fresh_eq_ok.mp fresh
    have found : (Derivation.tokenMint payer.key terms.nonce).recordAt = .ok ⟨record.key, bump⟩ :=
      Except.bind_eq_ok.mpr ⟨_, foundMint, vacancy.found⟩
    exact ⟨_, _, found, vacancy.free, Function.update_self _ _ _, rfl, rfl, rfl, rfl, rfl, rfl,
      rfl⟩
  | _ => cases claimed

/-- What the history has claimed has its record, and nothing has been claimed twice. -/
structure ClaimTrail (records : Records) (history : List Receipt) : Prop where
  taken : ∀ {c d}, c ∈ history → c.claimed? = some d →
    ∃ home s, d.recordAt = .ok home ∧ records home.address = some s
  once : ∀ d, (history.countP fun c => c.claimed? = some d) ≤ 1

namespace ClaimTrail

variable {history : List Receipt}

theorem empty : ClaimTrail (fun _ => none) [] where
  taken := nofun
  once _ := Nat.zero_le _

theorem unclaimed (trail : ClaimTrail before history) {home : DerivedAddress}
    (found : d.recordAt = .ok home) (free : before home.address = none) :
    (history.countP fun c => c.claimed? = some d) = 0 := by
  rw [List.countP_eq_zero]
  intro c earlier
  rw [decide_eq_true_eq]
  intro claimed
  obtain ⟨home', s, found', held⟩ := trail.taken earlier claimed
  rw [found] at found'
  cases found'
  rw [free] at held
  cases held

theorem effect (trail : ClaimTrail before history)
    (h : Effect c.now before c.instruction c.accounts after) :
    ClaimTrail after (history ++ [c]) where
  taken {c' d} known claimed := by
    rcases List.mem_append.mp known with earlier | last
    · obtain ⟨home, s, found, held⟩ := trail.taken earlier claimed
      obtain ⟨s', held', -⟩ := h.retains _ s held
      exact ⟨home, s', found, held'⟩
    · cases List.mem_singleton.mp last
      obtain ⟨home, s, found, -, held, -⟩ := h.makes_claimed claimed
      exact ⟨home, s, found, held⟩
  once d := by
    rw [List.countP_append, List.countP_singleton]
    by_cases claimed : c.claimed? = some d
    · obtain ⟨home, -, found, free, -⟩ := h.makes_claimed claimed
      exact Nat.le_of_eq (by rw [trail.unclaimed found free, if_pos (decide_eq_true claimed)])
    · rw [if_neg (by rwa [decide_eq_true_eq])]
      exact trail.once d

theorem of_honest (steps : List Step) (honest : World.genesis.Honest steps) :
    ClaimTrail (World.reached steps).ledger.records (World.genesis.receipts steps) :=
  World.history_induction (P := ClaimTrail) empty (fun trail h => trail.effect h) steps honest

end ClaimTrail
end Claims

structure Account.Lasts (a a' : Account) : Prop where
  owner : a'.owner = a.owner
  tag : a'.data.take tagWidth = a.data.take tagWidth
  length : a'.data.length = a.data.length
  lamports : a'.lamports = a.lamports

theorem World.lasts_of_honest {first more : List Step} {k : Key}
    (honest : genesis.Honest (first ++ more))
    (own : ((reached first).ledger.get k).owner = Identity.program) :
    ((reached first).ledger.get k).Lasts ((reached (first ++ more)).ledger.get k) := by
  obtain ⟨earlier, rest⟩ := honest_append.mp honest
  rw [reached_append]
  obtain ⟨s, held, -⟩ := sized_of_honest first earlier k _ (Ledger.room_eq_some.mpr ⟨own, rfl⟩)
  obtain ⟨s', held', same⟩ := later_retains more rest k s held
  have full := Ledger.data_ne_nil_of_records held
  obtain ⟨own', length, lamports⟩ := run_steady more rest k own full
  have tag := Stored.take_of_readsAs (Account.record?_eq_some.mp held).2
  have tag' := Stored.take_of_readsAs (Account.record?_eq_some.mp held').2
  refine ⟨own'.trans own.symm, ?_, length, lamports⟩
  rw [tag, tag', Stored.tag_eq_of_kind (Stored.kind_of_identity same)]

structure RecordsPersist (steps : List Step) : Prop where
  lasting : ∀ {first later : List Step} {k : Key}, first <+: later → later <+: steps →
    ((World.reached first).ledger.get k).owner = Identity.program →
    ((World.reached first).ledger.get k).Lasts ((World.reached later).ledger.get k)
  refused : ∀ {first : List Step} {s : Step} {k : Key}, first <+: steps →
    ((World.reached first).ledger.get k).owner = Identity.program → k ∈ s.inits →
    ¬((World.reached first).step s).2.Succeeds ∧
      ((World.reached first).step s).1 = World.reached first
  once : ∀ d, ((World.genesis.receipts steps).countP fun c => c.claimed? = some d) ≤ 1
  made : ∀ {first : List Step} {s : Step} {c : Receipt} {d : Derivation},
    first ++ [s] <+: steps → (World.reached first).receipt? s = some c → c.claimed? = some d →
    ∃ home r, d.recordAt = .ok home ∧
      (World.reached (first ++ [s])).ledger.records home.address = some r ∧ r.MadeFor c ∧
      ∀ later, first ++ [s] <+: later → later <+: steps → ∃ r',
        (World.reached later).ledger.records home.address = some r' ∧ r'.identity = r.identity

/-- An account of the program stays one through the rest of the run, and whatever would make it
again fails. So each name, each vault of a key, the registry and each mint of a payer is made for
at most one caller, and the record keeps saying whose it is. -/
theorem records_persist (steps : List Step) (honest : World.genesis.Honest steps) :
    RecordsPersist steps := by
  refine ⟨fun {first later k} part whole own => ?_, fun _ own init => World.step_refused init own,
    (ClaimTrail.of_honest steps honest).once, fun {first s c d} part called claimed => ?_⟩
  · obtain ⟨more, rfl⟩ := part
    exact World.lasts_of_honest (World.honest_of_part whole honest) own
  · obtain ⟨-, fair⟩ := World.honest_concat.mp (World.honest_of_part part honest)
    have advance := World.step_advance fair
    rw [called] at advance
    cases advance with
    | call effect _ =>
      obtain ⟨home, r, found, -, held, made⟩ := effect.makes_claimed claimed
      refine ⟨home, r, found, ?_, made, fun later after whole => ?_⟩
      · rw [World.reached, World.run_concat]
        exact held
      · obtain ⟨more, rfl⟩ := after
        have rest := (World.honest_append.mp (World.honest_of_part whole honest)).2
        rw [World.reached_append]
        refine World.later_retains more rest home.address r ?_
        rw [World.run_concat]
        exact held

section Samples
open AccountRef (signing written shown)

def Step.rivalUser : List Step := everyKind ++
  [fund (Key.filled 2),
   ask (.createUser "one") [signing (Key.filled 2), written (Derivation.user "one").home,
     shown Identity.systemProgram]]

set_option maxRecDepth 100000 in
theorem records_persist_of_rival_user : World.genesis.Honest Step.rivalUser ∧
    (World.genesis.receipts Step.rivalUser).map Receipt.claimed? =
      [some Program.registryAddress, none, some (.vault .server (Key.filled 1)),
       some (.user "one"), some (.handle "h"), some (.server "guild" "GLD"),
       some Derivation.sampleMint] ∧
    RecordsPersist Step.rivalUser := by
  have sample : World.genesis.Honest Step.rivalUser ∧
      (World.genesis.receipts Step.rivalUser).map Receipt.claimed? =
        [some Program.registryAddress, none, some (.vault .server (Key.filled 1)),
         some (.user "one"), some (.handle "h"), some (.server "guild" "GLD"),
         some Derivation.sampleMint] := by
    decide +kernel
  obtain ⟨honest, claims⟩ := sample
  exact ⟨honest, claims, records_persist Step.rivalUser honest⟩

end Samples
end VaultMarket
