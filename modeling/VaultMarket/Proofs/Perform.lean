import VaultMarket.Proofs.Changes
import VaultMarket.Proofs.Effect
set_option autoImplicit false

namespace VaultMarket
open Function (update)
open LawfulWire (Fits)

section Writes

variable {α : Type} [Record α] [LawfulWire α] [Kind α] {field label : String} {d : Derivation}
  {payer a : AccountRef} {l l₁ l' : Ledger} {bump : UInt8} {key : Key} {old value : α}

omit [LawfulWire α] [Kind α] in
theorem createRecord_creates (created : createRecord α field d payer a l = .ok (l₁, bump)) :
    l.Creates l₁ a.key Identity.program (Record.space α) :=
  System.provide_creates (createRecord_eq_ok.mp created).2.1

omit [LawfulWire α] [Kind α] in
theorem createRecord_vacancy (created : createRecord α field d payer a l = .ok (l₁, bump)) :
    Vacancy l.records d a.key bump :=
  ⟨(createRecord_eq_ok.mp created).1, (createRecord_creates created).records_self⟩

theorem records_of_creation (created : createRecord α field d payer a l = .ok (l₁, bump))
    (stored : store label a.key value l₁ = .ok l') (fits : Fits value) :
    l'.records = update l.records a.key (some (Kind.wrap value)) := by
  have creates := createRecord_creates created
  rw [store_records stored creates.owner_eq fits, creates.records_update, Function.update_idem]

theorem keeps_of_creation (created : createRecord α field d payer a l = .ok (l₁, bump))
    (stored : store label a.key value l₁ = .ok l') (fits : Fits value) : l.Keeps l' := by
  have creates := createRecord_creates created
  exact creates.spares.keeps.store stored creates.owner_eq fits (.inr creates.records_self)

theorem records_of_update (held : l.records key = some (Kind.wrap old))
    (stored : store label key value l = .ok l') (fits : Fits value) :
    l'.records = update l.records key (some (Kind.wrap value)) :=
  store_records stored (Ledger.owner_of_records held) fits

theorem keeps_of_update (held : l.records key = some (Kind.wrap old))
    (stored : store label key value l = .ok l') (fits : Fits value) : l.Keeps l' :=
  (Ledger.Spares.refl l).keeps.store stored (Ledger.owner_of_records held) fits (.inl rfl)

theorem fits_of_held (held : l.records key = some (Kind.wrap old)) : Fits old :=
  Record.fits_of_read (Ledger.records_eq_wrap.mp held).2

theorem fits_of_username {u u' : User} (held : l.records key = some (.user u))
    (same : u'.username = u.username) : Fits u' := by
  have read : Fits u := fits_of_held held
  rw [User.fits_iff] at read ⊢
  rw [same]
  exact read

end Writes

namespace Program

variable {call : Call} {l' : Ledger}

section Checks

variable {before : Records} {r : Held Registry} {service authority : AccountRef}

theorem gate_of_requireService (stored : before r.key = some (.registry r.value))
    (signed : service.signer = true) (h : requireService r service = .ok ()) :
    Gate before service r.ref r.value := by
  obtain ⟨placed, registered⟩ := requireService_eq_ok.mp h
  exact ⟨⟨stored, placed⟩, signed, registered⟩

theorem governs_of_requireUpdate (stored : before r.key = some (.registry r.value))
    (signed : authority.signer = true) (h : requireUpdate r authority = .ok ()) :
    Governs before authority r.ref r.value := by
  obtain ⟨placed, -, current⟩ := requireUpdate_eq_ok.mp h
  exact ⟨⟨stored, placed⟩, signed, current⟩

theorem placed_of_requireUser {field : String} {user : Held User}
    (stored : before user.key = some (.user user.value)) (h : requireUser field user = .ok ()) :
    Placed before user.key (.user user.value) :=
  ⟨stored, (requireUser_eq_ok.mp h).1⟩

theorem owns_of_requireOwnUser {field : String} {user : Held User} {signer : AccountRef}
    (stored : before user.key = some (.user user.value)) (signed : signer.signer = true)
    (h : requireOwnUser field user signer = .ok ()) : Owns before signer user.ref user.value := by
  obtain ⟨⟨placed, -⟩, own⟩ := requireOwnUser_eq_ok.mp h
  exact ⟨⟨stored, placed⟩, signed, own⟩

end Checks

theorem createRegistry_performs (h : (createRegistry call).Gives l') :
    Performs call .createRegistry l' := by
  obtain ⟨a, rest, load, l₁, bump, created, -, authorised, stored⟩ := createRegistry_gives.mp h
  obtain ⟨system, accounts, paid, signed, -⟩ := CreateRegistry.load_eq_ok.mp load
  refine ⟨?_, keeps_of_creation created stored (Registry.fits _)⟩
  rw [accounts, records_of_creation created stored (Registry.fits _)]
  exact .createRegistry paid signed authorised (createRecord_vacancy created)

theorem handOverRegistry_performs (h : (handOverRegistry call).Gives l') :
    Performs call .handOverRegistry l' := by
  obtain ⟨a, rest, load, checked, stored⟩ := handOverRegistry_gives.mp h
  obtain ⟨accounts, held, signed, accepted⟩ := HandOverRegistry.load_eq_ok.mp load
  refine ⟨?_, keeps_of_update held stored (Registry.fits _)⟩
  rw [accounts, records_of_update held stored (Registry.fits _)]
  exact .handOverRegistry (governs_of_requireUpdate held signed checked) accepted

theorem changeServiceSigner_performs {what : SignerChange}
    (h : (changeServiceSigner call what).Gives l') :
    Performs call (.changeServiceSigner what) l' := by
  obtain ⟨a, rest, load, checked, changed, change, stored⟩ := changeServiceSigner_gives.mp h
  obtain ⟨accounts, held, signed, accepted⟩ := ChangeServiceSigner.load_eq_ok.mp load
  refine ⟨?_, keeps_of_update held stored (Registry.fits _)⟩
  rw [accounts, records_of_update held stored (Registry.fits _)]
  exact .changeServiceSigner (governs_of_requireUpdate held signed checked) accepted change

theorem openVault_performs {opening : VaultOpening} (h : (openVault call opening).Gives l') :
    Performs call (.openVault opening) l' := by
  obtain ⟨a, rest, load, l₁, bump, created, -, checked, v, fresh, stored⟩ := openVault_gives.mp h
  obtain ⟨system, accounts, paid, served, signed, held, -⟩ := OpenVault.load_eq_ok.mp load
  have fits := Vault.fits_of_fresh fresh
  refine ⟨?_, keeps_of_creation created stored fits⟩
  rw [accounts, records_of_creation created stored fits]
  exact .openVault (gate_of_requireService held served checked) paid signed
    (createRecord_vacancy created) fresh

theorem handOverVault_performs {kind : VaultKind} (h : (handOverVault call kind).Gives l') :
    Performs call (.handOverVault kind) l' := by
  obtain ⟨a, rest, load, checked, placed, -, v, handOver, stored⟩ := handOverVault_gives.mp h
  obtain ⟨accounts, served, signed, accepted, registry, held⟩ :=
    HandOverVault.load_eq_ok.mp load
  have fits := Vault.fits_of_handOver handOver (fits_of_held held)
  refine ⟨?_, keeps_of_update held stored fits⟩
  rw [accounts, records_of_update held stored fits]
  exact .handOverVault (gate_of_requireService registry served checked) signed accepted held placed
    handOver

theorem createUser_performs {username : String} (h : (createUser call username).Gives l') :
    Performs call (.createUser username) l' := by
  obtain ⟨a, rest, load, l₁, bump, created, -, label, vault, found, stored⟩ :=
    createUser_gives.mp h
  obtain ⟨system, accounts, signed, -⟩ := CreateUser.load_eq_ok.mp load
  have fits : Fits (User.fresh a.signer.key username vault.address bump) :=
    User.fits_iff.mpr (Nat.lt_of_le_of_lt (validateLabel_eq_ok.mp label).2 (by decide))
  refine ⟨?_, keeps_of_creation created stored fits⟩
  rw [accounts, records_of_creation created stored fits]
  exact .createUser signed (createRecord_vacancy created) label found

theorem updateProfile_performs {profileEffect theme : Option Key}
    (h : (updateProfile call profileEffect theme).Gives l') :
    Performs call (.updateProfile profileEffect theme) l' := by
  obtain ⟨a, rest, load, checked, stored⟩ := updateProfile_gives.mp h
  obtain ⟨accounts, signed, held⟩ := UpdateProfile.load_eq_ok.mp load
  have fits : Fits (a.user.value.decorate profileEffect theme) :=
    fits_of_username held rfl
  refine ⟨?_, keeps_of_update held stored fits⟩
  rw [accounts, records_of_update held stored fits]
  exact .updateProfile (owns_of_requireOwnUser held signed checked)

theorem createHandle_performs {text : String} (h : (createHandle call text).Gives l') :
    Performs call (.createHandle text) l' := by
  obtain ⟨a, rest, load, l₁, bump, created, -, checked, label, u, attach, l₂, first, second⟩ :=
    createHandle_gives.mp h
  obtain ⟨system, accounts, signed, held, -⟩ := CreateHandle.load_eq_ok.mp load
  obtain ⟨bare, rfl⟩ := User.attach_eq_ok.mp attach
  have fits : Fits { a.user.value with handle := some a.handle.key } :=
    fits_of_username held rfl
  have short : Fits (Asset.handle a.signer.key text bump) :=
    Asset.fits_iff.mpr (Nat.lt_of_le_of_lt (validateLabel_eq_ok.mp label).2 (by decide))
  have creates := createRecord_creates created
  have free := creates.records_self
  have apart : a.handle.key ≠ a.user.key := fun e => by rw [e, held] at free; cases free
  have unchanged : l₁.get a.user.key = call.ledger.get a.user.key := creates.spares _ _ held
  have own : (l₁.get a.user.key).owner = Identity.program := by
    rw [unchanged, Ledger.owner_of_records held]
  have own' : (l₂.get a.handle.key).owner = Identity.program := by
    rw [store_other first apart, creates.owner_eq]
  refine ⟨?_, (creates.spares.keeps.store first own fits (.inl unchanged)).store second own' short
    (.inr free)⟩
  rw [accounts, store_records second own' short, store_records first own fits,
    creates.records_update, Function.update_comm apart, Function.update_idem]
  exact .createHandle (owns_of_requireOwnUser held signed checked) (createRecord_vacancy created)
    label bare

theorem moveHandle_performs (h : (moveHandle call).Gives l') : Performs call .moveHandle l' := by
  obtain ⟨a, rest, load, checked, other, apart, placed, -, kind, moved, run, l₁, first, l₂, second,
    third⟩ := moveHandle_gives.mp h
  obtain ⟨accounts, signed, source, target, asset⟩ := MoveHandle.load_eq_ok.mp load
  obtain ⟨⟨holds, owner⟩, bare, rfl⟩ := HandleMove.run_eq_ok.mp run
  have fits₁ : Fits { a.source.value with handle := none } :=
    fits_of_username source rfl
  have fits₂ : Fits { a.target.value with handle := some a.handle.key } :=
    fits_of_username target rfl
  have fits₃ : Fits { a.handle.value with owner := a.target.value.authority } :=
    Asset.fits_iff.mpr (Asset.fits_iff.mp (fits_of_held asset : Fits a.handle.value))
  have apart₁ : a.handle.key ≠ a.source.key := fun e => by rw [e, source] at asset; cases asset
  have apart₂ : a.handle.key ≠ a.target.key := fun e => by rw [e, target] at asset; cases asset
  have unchanged₁ : l₁.get a.target.key = call.ledger.get a.target.key := store_other first apart
  have unchanged₂ : l₂.get a.handle.key = call.ledger.get a.handle.key := by
    rw [store_other second apart₂, store_other first apart₁]
  have own₁ : (l₁.get a.target.key).owner = Identity.program := by
    rw [unchanged₁, Ledger.owner_of_records target]
  have own₂ : (l₂.get a.handle.key).owner = Identity.program := by
    rw [unchanged₂, Ledger.owner_of_records asset]
  have keeps₁ := keeps_of_update source first fits₁
  have keeps₂ := keeps₁.store second own₁ fits₂ (.inl unchanged₁)
  refine ⟨?_, keeps₂.store third own₂ fits₃ (.inl unchanged₂)⟩
  rw [accounts, store_records third own₂ fits₃, store_records second own₁ fits₂,
    records_of_update source first fits₁]
  exact .moveHandle (owns_of_requireOwnUser source signed checked)
    (placed_of_requireUser target other) apart ⟨asset, placed⟩ kind holds owner bare

theorem createServer_performs {name ticker : String}
    (h : (createServer call name ticker).Gives l') :
    Performs call (.createServer name ticker) l' := by
  obtain ⟨a, rest, load, l₁, bump, created, -, server, fresh, stored⟩ := createServer_gives.mp h
  obtain ⟨system, accounts, signed, -⟩ := CreateServer.load_eq_ok.mp load
  have fits := Server.fits_of_fresh fresh
  refine ⟨?_, keeps_of_creation created stored fits⟩
  rw [accounts, records_of_creation created stored fits]
  exact .createServer signed (createRecord_vacancy created) fresh

theorem handOverServer_performs {next : Key} (h : (handOverServer call next).Gives l') :
    Performs call (.handOverServer next) l' := by
  obtain ⟨a, rest, load, placed, -, own, stored⟩ := handOverServer_gives.mp h
  obtain ⟨accounts, signed, held⟩ := HandOverServer.load_eq_ok.mp load
  have fits : Fits (a.server.value.handOver next) :=
    Server.fits_iff.mpr (Server.fits_iff.mp (fits_of_held held : Fits a.server.value))
  refine ⟨?_, keeps_of_update held stored fits⟩
  rw [accounts, records_of_update held stored fits]
  exact .handOverServer ⟨held, placed⟩ signed own

theorem createMint_performs {terms : MintTerms} (h : (createMint call terms).Gives l') :
    Performs call (.createMint terms) l' := by
  obtain ⟨a, rest, load, l₁, mintBump, made, -, l₂, bump, created, -, checked, ⟨_, authority⟩, m,
    fresh, stored⟩ := createMint_gives.mp h
  obtain ⟨token, system, accounts, paid, served, registry, -⟩ := CreateMint.load_eq_ok.mp load
  obtain ⟨found, provided⟩ := create_eq_ok.mp made
  have fits := MintRecord.fits_of_fresh fresh
  have opens := System.provide_creates provided
  have tokens : l₁.TokensOnly (Token.openMint a.mint.key a.mintAuthority.key terms.decimals l₁) :=
    Ledger.tokensOnly_setData opens.owner_eq
  have same : (Token.openMint a.mint.key a.mintAuthority.key terms.decimals l₁).records =
      call.ledger.records := by
    rw [tokens.records_eq, opens.records_eq (by decide)]
  have creates := createRecord_creates created
  have vacancy := createRecord_vacancy created
  have spares := (opens.spares.trans tokens.spares).trans creates.spares
  rw [same] at vacancy
  refine ⟨?_, spares.keeps.store stored creates.owner_eq fits (.inr vacancy.free)⟩
  rw [accounts, records_of_creation created stored fits, same]
  exact .createMint (gate_of_requireService registry served checked) paid found authority vacancy
    fresh

section Payments

variable {l : Ledger} {mint authority : Key} {p : Payment} {ps : List Payment}

theorem requireHolding_eq_ok : requireHolding mint p l = .ok () ↔
    (l.get p.target.key).owner = Identity.tokenProgram ∧ ∃ holding,
      Holding.unpack (l.get p.target.key).data = .ok holding ∧
      holding.mint = mint ∧ holding.owner = p.recipient := by
  simp only [requireHolding, Except.bind_eq_ok, exists_unit, require_eq_ok,
    Except.mapError_eq_ok]

theorem pay_cons_gives : (pay mint authority (p :: ps) l).Gives l' ↔
    requireHolding mint p l = .ok () ∧ ∃ l₁, Token.issue mint p.target.key authority p.amount l =
      .ok l₁ ∧ (pay mint authority ps l₁).Gives l' := by
  simp only [pay, Outcome.gives_bind, Outcome.gives_lift, Outcome.gives_start, exists_unit,
    true_and]

theorem issue_tokensOnly {target : Key} {amount : UInt64}
    (own : (l.get target).owner = Identity.tokenProgram)
    (minted : (l.get mint).owner = Identity.tokenProgram)
    (h : Token.issue mint target authority amount l = .ok l') : l.TokensOnly l' := by
  obtain ⟨holding, -, -, -, -, m, -, -, -, -, -, -, rfl⟩ := Token.issue_eq_ok.mp h
  have first : l.TokensOnly
      (l.setData target (Wire.encode { holding with amount := holding.amount + amount })) :=
    Ledger.tokensOnly_setData own
  exact first.trans (Ledger.tokensOnly_setData ((first.owner_eq mint).trans minted))

/-- Payments change nothing but tokens, since each is checked to go to the token program. -/
theorem pay_tokensOnly (minted : (l.get mint).owner = Identity.tokenProgram)
    (h : (pay mint authority ps l).Gives l') : l.TokensOnly l' := by
  induction ps generalizing l with
  | nil =>
    cases h
    exact .refl _
  | cons p ps ih =>
    obtain ⟨checked, l₁, issued, rest⟩ := pay_cons_gives.mp h
    have own := (requireHolding_eq_ok.mp checked).1
    have first := issue_tokensOnly own minted issued
    exact first.trans (ih ((first.owner_eq mint).trans minted) rest)

end Payments

theorem mintTokens_performs {recipients : List Key} {amounts : List UInt64}
    (h : (mintTokens call recipients amounts).Gives l') :
    Performs call (.mintTokens recipients amounts) l' := by
  obtain ⟨a, targets, load, checked, ⟨_, authority⟩, -, placed, same, ⟨total, batch⟩, -, paid⟩ :=
    mintTokens_gives.mp h
  obtain ⟨token, accounts, served, registry, minted, -, record, -⟩ := MintTokens.load_eq_ok.mp load
  have tokens := pay_tokensOnly minted paid
  rw [← same] at placed
  refine ⟨?_, tokens.spares.keeps⟩
  rw [accounts, tokens.records_eq]
  exact .mintTokens (gate_of_requireService registry served checked) authority ⟨record, placed⟩ same
    batch

theorem perform_performs {i : Instruction} (h : (perform call i).Gives l') :
    Performs call i l' := by
  cases i with
  | createRegistry => exact createRegistry_performs h
  | handOverRegistry => exact handOverRegistry_performs h
  | changeServiceSigner what => exact changeServiceSigner_performs h
  | openVault opening => exact openVault_performs h
  | handOverVault kind => exact handOverVault_performs h
  | createUser username => exact createUser_performs h
  | updateProfile profileEffect theme => exact updateProfile_performs h
  | createHandle text => exact createHandle_performs h
  | moveHandle => exact moveHandle_performs h
  | createServer name ticker => exact createServer_performs h
  | handOverServer next => exact handOverServer_performs h
  | createMint terms => exact createMint_performs h
  | mintTokens recipients amounts => exact mintTokens_performs h

end Program
end VaultMarket
