import VaultMarket.Proofs.Controllers
import VaultMarket.Proofs.Dispatch
import VaultMarket.Proofs.Seeds
set_option autoImplicit false

/-!
# When a call aborts

Most checks refuse a call with a fault. Two places abort it: a search for an address that finds
none, and the removal of a signer from a registry that claims more slots than there are. No registry
of an honest run makes such a claim, so every abort comes from a search, and a search fails only
for a label that is too long for a seed or because each of its candidates is a point of the curve.
-/

namespace VaultMarket

/-- The action has no answer at all. -/
def Aborts {α : Type} (x : Except Failure α) : Prop := x = .error .aborted

instance {α : Type} : (x : Except Failure α) → Decidable (Aborts x)
  | .ok _ => isFalse nofun
  | .error failure => decidable_of_iff (failure = .aborted) (by simp [Aborts])

section Results

variable {α β : Type} {x : Except Failure α} {f : α → Except Failure β} {a : α}
  {condition : Prop} [Decidable condition] {failure : Failure}

@[simp] theorem bind_aborts : Aborts (x >>= f) ↔ Aborts x ∨ ∃ a, x = .ok a ∧ Aborts (f a) := by
  cases x <;> simp [Aborts, bind, Except.bind]

@[simp] theorem map_aborts {f : α → β} : Aborts (f <$> x) ↔ Aborts x := by
  cases x <;> simp [Aborts, Functor.map, Except.map]

@[simp] theorem not_aborts_ok : ¬Aborts (.ok a : Except Failure α) := nofun
@[simp] theorem not_aborts_pure : ¬Aborts (pure a : Except Failure α) := nofun

@[simp] theorem not_aborts_error (named : failure ≠ .aborted) :
    ¬Aborts (.error failure : Except Failure α) :=
  fun aborts => named (Except.error.inj aborts)

@[simp] theorem not_aborts_require (named : failure ≠ .aborted) :
    ¬Aborts (require condition failure) := by
  unfold require
  split
  · exact not_aborts_ok
  · exact not_aborts_error named

@[simp] theorem not_aborts_mapError {ε : Type} {y : Except ε α} {g : ε → Failure}
    (named : ∀ e, g e ≠ .aborted) : ¬Aborts (y.mapError g) := by
  cases y with
  | error e => exact not_aborts_error (named e)
  | ok a => exact not_aborts_ok

@[simp] theorem Failure.raised_ne_aborted {fault : Fault} : raised fault ≠ .aborted := nofun

@[simp] theorem Failure.onField_ne_aborted {field : String} {fault : Fault} :
    onField field fault ≠ .aborted := nofun

@[simp] theorem Failure.unattributed_ne_aborted {fault : Fault} :
    unattributed fault ≠ .aborted := nofun

@[simp] theorem Token.failed_ne_aborted {code : Nat} : failed code ≠ .aborted := nofun

@[simp] theorem Token.unpackFailed_ne_aborted {fault : HostFault} :
    unpackFailed fault ≠ .aborted := nofun

end Results

namespace Outcome

variable {α β : Type} {o : Outcome α} {f : α → Outcome β} {r : Except Failure α} {a : α}

protected def Aborts (o : Outcome α) : Prop := VaultMarket.Aborts o.result

@[simp] theorem bind_aborts : (o >>= f).Aborts ↔ o.Aborts ∨ ∃ a, o.Gives a ∧ (f a).Aborts := by
  change VaultMarket.Aborts (o.andThen f).result ↔ _
  unfold andThen Outcome.Aborts Gives
  cases o.result <;> simp [VaultMarket.Aborts]

@[simp] theorem lift_aborts : Outcome.Aborts (liftM r) ↔ VaultMarket.Aborts r := Iff.rfl

@[simp] theorem not_aborts_pure : ¬(pure a : Outcome α).Aborts := nofun
@[simp] theorem not_aborts_start {title : String} : ¬(start title).Aborts := nofun
@[simp] theorem not_aborts_emit {e : Event} : ¬(emit e).Aborts := nofun
@[simp] theorem not_aborts_say {text : String} : ¬(say text).Aborts := nofun

end Outcome

namespace Loader

variable {α β : Type} {x : Loader α} {f : α → Loader β} {as : List AccountRef} {field : String}
  {key : Key} {l : Ledger}

@[simp] theorem bind_aborts : Aborts ((x >>= f) as) ↔
    Aborts (x as) ∨ ∃ a rest, x as = .ok (a, rest) ∧ Aborts (f a rest) := by
  change Aborts (x as >>= fun p => f p.1 p.2) ↔ _
  rw [VaultMarket.bind_aborts, Prod.exists]

@[simp] theorem not_aborts_pure {a : α} : ¬Aborts ((pure a : Loader α) as) :=
  VaultMarket.not_aborts_pure

@[simp] theorem lift_aborts {r : Except Failure α} :
    Aborts ((liftM r : Loader α) as) ↔ Aborts r := by
  change Aborts (r >>= fun a => pure (a, as)) ↔ _
  simp

@[simp] theorem run_aborts : Aborts (StateT.run x as) ↔ Aborts (x as) := Iff.rfl

theorem not_aborts_next {missing : Failure} (named : missing ≠ .aborted) :
    ¬Aborts (next missing as) := by
  cases as <;> simp [next, named]

@[simp] theorem not_aborts_unchecked : ¬Aborts (unchecked field as) :=
  not_aborts_next Failure.onField_ne_aborted

@[simp] theorem not_aborts_fresh : ¬Aborts (fresh as) :=
  not_aborts_next Failure.unattributed_ne_aborted

@[simp] theorem not_aborts_signer : ¬Aborts (signer field as) := by
  simp [signer, -bind_pure_comp]

@[simp] theorem not_aborts_program : ¬Aborts (program field key l as) := by simp [program]

@[simp] theorem not_aborts_owned : ¬Aborts (owned field key l as) := by
  simp [owned, -bind_pure_comp]

@[simp] theorem not_aborts_record [Record α] : ¬Aborts (record α field l as) := by
  simp [record, -bind_pure_comp]

@[simp] theorem not_aborts_mint : ¬Aborts (mint field l as) := by simp [mint, -bind_pure_comp]

end Loader

section Checks

variable {field : String} {d : Derivation} {program key owner : Key} {bump : UInt8}
  {payer a : AccountRef} {l : Ledger} {space : Nat}

@[simp] theorem find_aborts : Aborts (d.find program) ↔ d.find? program = none := by
  unfold Derivation.find
  cases d.find? program <;> simp [Aborts]

@[simp] theorem not_aborts_requireWritable : ¬Aborts (requireWritable field a) := by
  simp [requireWritable]

@[simp] theorem not_aborts_requireStored : ¬Aborts (requireStored field d bump key) := by
  unfold requireStored
  split <;> simp [requireAddress]

@[simp] theorem requireFound_aborts :
    Aborts (requireFound field d key) ↔ d.find? Identity.program = none := by
  simp [requireFound, requireAddress]

@[simp] theorem not_aborts_transfer {source target : Key} {amount : UInt64} :
    ¬Aborts (System.transfer source target amount l) := by
  simp [System.transfer]

@[simp] theorem not_aborts_allocate : ¬Aborts (System.allocate key space l) := by
  simp [System.allocate]

@[simp] theorem not_aborts_provide {payer : Key} :
    ¬Aborts (System.provide payer key space owner l) := by
  unfold System.provide
  dsimp only
  split
  · simp [System.createAccount]
  · split <;> simp

@[simp] theorem create_aborts :
    Aborts (create field d payer a space owner l) ↔ d.find? Identity.program = none := by
  simp [create]

@[simp] theorem createRecord_aborts {α : Type} [Record α] :
    Aborts (createRecord α field d payer a l) ↔ d.find? Identity.program = none := by
  simp [createRecord]

@[simp] theorem not_aborts_store {α : Type} [Record α] {value : α} :
    ¬Aborts (store field key value l) := by
  simp [store]

end Checks

section Values

variable {key : Key} {now : Int64} {bump : UInt8}

@[simp] theorem not_aborts_attach {u : User} : ¬Aborts (u.attach key) := by simp [User.attach]

@[simp] theorem not_aborts_validateLabel {label : String} {most : Nat} :
    ¬Aborts (validateLabel label most) := by
  simp [validateLabel]

@[simp] theorem not_aborts_freshVault {kind : VaultKind} {terms : Option VaultTerms} :
    ¬Aborts (Vault.fresh kind key terms now bump) := by
  have settled : ¬Aborts (Vault.settledTerms kind terms) := by
    unfold Vault.settledTerms
    split <;> simp [VaultTerms.validate]
  simp [Vault.fresh, settled]

@[simp] theorem not_aborts_freshServer {name ticker : String} :
    ¬Aborts (Server.fresh key name ticker bump) := by
  simp [Server.fresh]

@[simp] theorem not_aborts_freshMintRecord {mint : Key} {terms : MintTerms} :
    ¬Aborts (MintRecord.fresh mint key terms now bump) := by
  simp [MintRecord.fresh, MintTerms.validate]

@[simp] theorem not_aborts_batchTotal {recipients : List Key} {amounts : List UInt64} :
    ¬Aborts (batchTotal recipients amounts) := by
  have added (total : UInt64) : ¬Aborts (addAmounts total amounts) := by
    induction amounts generalizing total with
    | nil => exact not_aborts_ok
    | cons amount rest ih => simp [addAmounts, ih]
  simp [batchTotal, added]

/-- A registry that claims no more slots than there are can be changed or refuses the change. -/
theorem Registry.Counted.not_aborts {r : Registry} (counted : r.Counted) (what : SignerChange)
    (key : Key) : ¬Aborts (r.change what key) := by
  cases what with
  | add => simp [Registry.change, Registry.add]
  | remove =>
    change ¬Aborts (r.remove key)
    unfold Registry.remove
    split
    · split
      · exact not_aborts_ok
      · rename_i full
        exact absurd counted full
    · exact not_aborts_error Failure.unattributed_ne_aborted

end Values

namespace Program

section Steps

variable {field : String} {r : Held Registry} {user : Held User} {a : AccountRef} {l : Ledger}
  {mint authority : Key}

@[simp] theorem not_aborts_requireService : ¬Aborts (requireService r a) := by
  simp [requireService, requireRegistry]

@[simp] theorem not_aborts_requireUpdate : ¬Aborts (requireUpdate r a) := by
  simp [requireUpdate, requireRegistry]

@[simp] theorem not_aborts_requireUser : ¬Aborts (requireUser field user) := by
  simp [requireUser]

@[simp] theorem not_aborts_requireOwnUser : ¬Aborts (requireOwnUser field user a) := by
  simp [requireOwnUser]

@[simp] theorem not_aborts_requireSole {authority : Account} :
    ¬Aborts (Token.requireSole authority) := by
  unfold Token.requireSole
  split <;> simp

@[simp] theorem not_aborts_pay {ps : List Payment} : ¬(pay mint authority ps l).Aborts := by
  induction ps generalizing l with
  | nil => simp [pay]
  | cons p ps ih => simp [pay, requireHolding, Token.issue, ih]

end Steps

section Loads

variable {l : Ledger} {as : List AccountRef}

@[simp] theorem CreateRegistry.not_aborts_load : ¬Aborts (load l as) := by
  simp [load, -bind_pure_comp]

@[simp] theorem HandOverRegistry.not_aborts_load : ¬Aborts (load l as) := by
  simp [load, -bind_pure_comp]

@[simp] theorem ChangeServiceSigner.not_aborts_load : ¬Aborts (load l as) := by
  simp [load, -bind_pure_comp]

@[simp] theorem OpenVault.not_aborts_load : ¬Aborts (load l as) := by
  simp [load, -bind_pure_comp]

@[simp] theorem HandOverVault.not_aborts_load {kind : VaultKind} : ¬Aborts (load kind l as) := by
  simp [load, -bind_pure_comp]

@[simp] theorem CreateUser.not_aborts_load : ¬Aborts (load l as) := by
  simp [load, -bind_pure_comp]

@[simp] theorem UpdateProfile.not_aborts_load : ¬Aborts (load l as) := by
  simp [load, -bind_pure_comp]

@[simp] theorem CreateHandle.not_aborts_load : ¬Aborts (load l as) := by
  simp [load, -bind_pure_comp]

@[simp] theorem MoveHandle.not_aborts_load : ¬Aborts (load l as) := by
  simp [load, -bind_pure_comp]

@[simp] theorem CreateServer.not_aborts_load : ¬Aborts (load l as) := by
  simp [load, -bind_pure_comp]

@[simp] theorem HandOverServer.not_aborts_load : ¬Aborts (load l as) := by
  simp [load, -bind_pure_comp]

@[simp] theorem CreateMint.not_aborts_load : ¬Aborts (load l as) := by
  simp [load, -bind_pure_comp]

@[simp] theorem MintTokens.not_aborts_load : ¬Aborts (load l as) := by
  simp [load, -bind_pure_comp]

end Loads

/-- The instruction searches an address that is not found. -/
def Unplaced (i : Instruction) (accounts : List AccountRef) : Prop :=
  ∃ d ∈ i.searched accounts, d.find? Identity.program = none

theorem found_of_placed {i : Instruction} {accounts : List AccountRef} {d : Derivation}
    (placed : ¬Unplaced i accounts) (searched : d ∈ i.searched accounts) :
    d.find? Identity.program ≠ none :=
  fun unfound => placed ⟨d, searched, unfound⟩

section Instructions

variable {call : Call}

theorem aborts_of_load {α β : Type} {x : Loader α} {f : α → Outcome β} {as : List AccountRef}
    (taken : ¬Aborts (x as)) (h : ((liftM (x.run' as) : Outcome α) >>= f).Aborts) :
    ∃ a rest, x as = .ok (a, rest) ∧ (f a).Aborts := by
  rcases Outcome.bind_aborts.mp h with taking | ⟨a, load, later⟩
  · exact absurd (map_aborts.mp taking) taken
  · obtain ⟨rest, load⟩ := Loader.run'_eq_ok.mp load
    exact ⟨a, rest, load, later⟩

theorem createRegistry_unplaced (h : (createRegistry call).Aborts) :
    Unplaced .createRegistry call.accounts := by
  obtain ⟨a, rest, load, h⟩ := aborts_of_load CreateRegistry.not_aborts_load h
  obtain ⟨system, accounts, -⟩ := CreateRegistry.load_eq_ok.mp load
  rw [accounts]
  exact ⟨_, List.mem_cons_self, by simpa using h⟩

theorem openVault_unplaced {opening : VaultOpening} (h : (openVault call opening).Aborts) :
    Unplaced (.openVault opening) call.accounts := by
  obtain ⟨a, rest, load, h⟩ := aborts_of_load OpenVault.not_aborts_load h
  obtain ⟨system, accounts, -⟩ := OpenVault.load_eq_ok.mp load
  rw [accounts]
  exact ⟨_, List.mem_cons_self, by simpa using h⟩

theorem createUser_unplaced {username : String} (h : (createUser call username).Aborts) :
    Unplaced (.createUser username) call.accounts := by
  obtain ⟨a, rest, load, h⟩ := aborts_of_load CreateUser.not_aborts_load h
  obtain ⟨system, accounts, -⟩ := CreateUser.load_eq_ok.mp load
  rw [accounts]
  by_contra placed
  have profile : (Derivation.user username).find? Identity.program ≠ none :=
    found_of_placed placed List.mem_cons_self
  have vault : (Derivation.vault .user a.signer.key).find? Identity.program ≠ none :=
    found_of_placed placed (List.mem_cons_of_mem _ List.mem_cons_self)
  simp [profile, vault] at h

theorem createHandle_unplaced {text : String} (h : (createHandle call text).Aborts) :
    Unplaced (.createHandle text) call.accounts := by
  obtain ⟨a, rest, load, h⟩ := aborts_of_load CreateHandle.not_aborts_load h
  exact ⟨_, List.mem_cons_self, by simpa using h⟩

theorem createServer_unplaced {name ticker : String} (h : (createServer call name ticker).Aborts) :
    Unplaced (.createServer name ticker) call.accounts := by
  obtain ⟨a, rest, load, h⟩ := aborts_of_load CreateServer.not_aborts_load h
  exact ⟨_, List.mem_cons_self, by simpa using h⟩

theorem createMint_unplaced {terms : MintTerms} (h : (createMint call terms).Aborts) :
    Unplaced (.createMint terms) call.accounts := by
  obtain ⟨a, rest, load, h⟩ := aborts_of_load CreateMint.not_aborts_load h
  obtain ⟨token, system, accounts, -⟩ := CreateMint.load_eq_ok.mp load
  rw [accounts]
  by_contra placed
  have mint : (Derivation.tokenMint a.payer.key terms.nonce).find? Identity.program ≠ none :=
    found_of_placed placed List.mem_cons_self
  have record : (Derivation.mintRecord a.mint.key).find? Identity.program ≠ none :=
    found_of_placed placed (List.mem_cons_of_mem _ List.mem_cons_self)
  have authority : Derivation.mintAuthority.find? Identity.program ≠ none :=
    found_of_placed placed (List.mem_cons_of_mem _ (List.mem_cons_of_mem _ List.mem_cons_self))
  simp [mint, record, authority] at h

theorem mintTokens_unplaced {recipients : List Key} {amounts : List UInt64}
    (h : (mintTokens call recipients amounts).Aborts) :
    Unplaced (.mintTokens recipients amounts) call.accounts := by
  by_contra placed
  have authority : Derivation.mintAuthority.find? Identity.program ≠ none :=
    found_of_placed placed List.mem_cons_self
  simp [mintTokens, authority] at h

theorem not_aborts_changeServiceSigner {what : SignerChange}
    (counted : ∀ k r, call.ledger.records k = some (.registry r) → r.Counted) :
    ¬(changeServiceSigner call what).Aborts := by
  intro h
  obtain ⟨a, rest, load, h⟩ := aborts_of_load ChangeServiceSigner.not_aborts_load h
  obtain ⟨-, held, -⟩ := ChangeServiceSigner.load_eq_ok.mp load
  have changed := (counted _ _ held).not_aborts what a.serviceSigner.key
  simp [changed] at h

/-- In a ledger with a counted registry, only a search that fails makes an instruction abort. -/
theorem perform_unplaced {i : Instruction}
    (counted : ∀ k r, call.ledger.records k = some (.registry r) → r.Counted)
    (h : (perform call i).Aborts) : Unplaced i call.accounts := by
  cases i with
  | createRegistry => exact createRegistry_unplaced h
  | handOverRegistry => simp [perform, handOverRegistry] at h
  | changeServiceSigner what => exact absurd h (not_aborts_changeServiceSigner counted)
  | openVault opening => exact openVault_unplaced h
  | handOverVault kind => simp [perform, handOverVault, Vault.handOver] at h
  | createUser username => exact createUser_unplaced h
  | updateProfile profileEffect theme => simp [perform, updateProfile] at h
  | createHandle text => exact createHandle_unplaced h
  | moveHandle => simp [perform, moveHandle, HandleMove.run] at h
  | createServer name ticker => exact createServer_unplaced h
  | handOverServer next => simp [perform, handOverServer] at h
  | createMint terms => exact createMint_unplaced h
  | mintTokens recipients amounts => exact mintTokens_unplaced h

end Instructions

theorem not_aborts_dispatch {key : Key} {data : Bytes} : ¬(dispatch key data).Aborts := by
  have named : ¬Aborts (operation data) := by
    unfold operation
    split
    · exact not_aborts_ok
    · split <;> simp
  have read (o : Operation) : ¬Aborts (arguments o data) := by
    unfold arguments
    split <;> simp
  simp [dispatch, named, read]

end Program

namespace Derivation

/-- The seeds that are texts of the caller. Every other seed is a key or a number. -/
def labels : Derivation → List String
  | user label | handle label => [label]
  | server name ticker => [name, ticker]
  | _ => []

theorem fits_of_labels {d : Derivation} (short : ∀ s ∈ d.labels, s.utf8ByteSize ≤ Limits.seed) :
    d.Fits := by
  have key (k : Key) : k.bytes.length ≤ Limits.seed := Nat.le_of_eq k.length_eq
  have nonce (n : UInt16) : (Bytes.littleEndian 2 n.toNat).reverse.length ≤ Limits.seed := by
    rw [List.length_reverse, Bytes.length_littleEndian]
    decide
  rw [fits_iff]
  cases d <;> simp_all [labels, arguments, Bytes.length_ofString]

/-- Every candidate for the address is a point of the curve. -/
def Exhausted (d : Derivation) : Prop :=
  ∀ bump : UInt8, bump ≠ 0 → Curve.isPoint (d.candidate Identity.program bump).bytes

end Derivation

namespace Instruction

def labels : Instruction → List String
  | createUser label | createHandle label => [label]
  | createServer name ticker => [name, ticker]
  | _ => []

theorem labels_of_searched (i : Instruction) (accounts : List AccountRef) :
    ∀ d ∈ i.searched accounts, ∀ label ∈ d.labels, label ∈ i.labels := by
  fun_cases i.searched accounts <;> simp [labels, Derivation.labels]

def LongLabel (i : Instruction) : Prop := ∃ label ∈ i.labels, Limits.seed < label.utf8ByteSize

theorem fits_of_searched {i : Instruction} {accounts : List AccountRef} {d : Derivation}
    (short : ¬i.LongLabel) (searched : d ∈ i.searched accounts) : d.Fits :=
  Derivation.fits_of_labels fun label seed =>
    have listed := labels_of_searched i accounts d searched label seed
    Nat.le_of_not_lt fun long => short ⟨label, listed, long⟩

end Instruction

/-- The call has no answer: neither a ledger nor a failure. -/
def Answer.Aborts : Answer → Prop
  | done => False
  | called outcome _ => outcome.Aborts

instance : (a : Answer) → Decidable a.Aborts
  | .done => inferInstanceAs (Decidable False)
  | .called outcome _ => inferInstanceAs (Decidable (VaultMarket.Aborts outcome.result))

/-- What it takes for a call to abort. -/
structure AbortsExplained (w : World) : Prop where
  raw : ∀ (key : Key) (data : Bytes) (accounts : List AccountRef),
    (w.step (.requestRaw key data accounts)).2.Aborts →
    ∃ i, (Program.dispatch key data).Gives i ∧
      (i.LongLabel ∨ ∃ d ∈ i.searched (AccountRef.merge accounts), d.Exhausted)
  request : ∀ (key : Key) (i : Instruction) (accounts : List AccountRef), i.Fits →
    (w.step (.request key i accounts)).2.Aborts →
    i.LongLabel ∨ ∃ d ∈ i.searched (AccountRef.merge accounts), d.Exhausted
  signers : ∀ (key : Key) (data : Bytes) (accounts : List AccountRef) (what : SignerChange),
    (Program.dispatch key data).Gives (.changeServiceSigner what) →
    ¬(w.step (.requestRaw key data accounts)).2.Aborts

theorem aborts_explained (steps : List Step) (honest : World.genesis.Honest steps) :
    AbortsExplained (World.reached steps) := by
  have kept := Ledger.kept_of_honest steps honest
  have raw (key : Key) (data : Bytes) (accounts : List AccountRef)
      (aborts : ((World.reached steps).answerCall key data accounts).2.Aborts) :
      ∃ i, (Program.dispatch key data).Gives i ∧
        (i.LongLabel ∨ ∃ d ∈ i.searched (AccountRef.merge accounts), d.Exhausted) := by
    have called : (Program.dispatch key data >>= Program.perform ⟨(World.reached steps).ledger,
        (World.reached steps).now, AccountRef.merge accounts⟩).Aborts := by
      rw [← Program.execute_eq_dispatch]
      exact aborts
    rcases Outcome.bind_aborts.mp called with undispatched | ⟨i, read, aborts⟩
    · exact absurd undispatched Program.not_aborts_dispatch
    · obtain ⟨d, searched, unfound⟩ := Program.perform_unplaced (fun _ _ => kept.counted) aborts
      refine ⟨i, read, (Classical.em i.LongLabel).imp_right fun short => ⟨d, searched, ?_⟩⟩
      exact (Derivation.find?_eq_none.mp unfound).resolve_left
        (· (Instruction.fits_of_searched short searched))
  constructor
  case raw => exact raw
  case request =>
    intro key i accounts fits aborts
    obtain ⟨i', read, cause⟩ := raw key i.encode accounts aborts
    have own := (Program.dispatch_gives.mp read).2
    have whole := Program.instruction_encode fits []
    rw [List.append_nil, own] at whole
    cases whole
    exact cause
  case signers =>
    intro key data accounts what read aborts
    obtain ⟨i, read', cause⟩ := raw key data accounts aborts
    have same := (Program.dispatch_gives.mp read').2
    rw [(Program.dispatch_gives.mp read).2] at same
    cases same
    rcases cause with ⟨label, listed, -⟩ | ⟨d, searched, -⟩
    · exact absurd listed List.not_mem_nil
    · exact absurd searched List.not_mem_nil

section Samples
open AccountRef (signing written shown)

/-- A name of thirty-three letters, which is one more than a seed has room for. -/
def Instruction.longUser : Instruction := .createUser "abcdefghijklmnopqrstuvwxyzabcdefg"

def AccountRef.longUser : List AccountRef :=
  [signing (Key.filled 1), written (Key.filled 2), shown Identity.systemProgram]

theorem aborts_explained_of_long_user : World.genesis.Honest [Step.fund (Key.filled 1)] ∧
    ((World.reached [Step.fund (Key.filled 1)]).step (.request Identity.program .longUser
      AccountRef.longUser)).2.Aborts ∧
    (Instruction.longUser.LongLabel ∨
      ∃ d ∈ Instruction.longUser.searched (AccountRef.merge AccountRef.longUser), d.Exhausted) := by
  have sample : World.genesis.Honest [Step.fund (Key.filled 1)] ∧
      ((World.reached [Step.fund (Key.filled 1)]).step (.request Identity.program .longUser
        AccountRef.longUser)).2.Aborts := by
    decide +kernel
  obtain ⟨honest, aborts⟩ := sample
  have fits : Instruction.longUser.Fits := by
    change "abcdefghijklmnopqrstuvwxyzabcdefg".utf8ByteSize < UInt32.size
    decide +kernel
  exact ⟨honest, aborts, (aborts_explained _ honest).request _ _ _ fits aborts⟩

end Samples
end VaultMarket
