import VaultMarket.Proofs.Batches
set_option autoImplicit false

namespace VaultMarket
open Function (update)

namespace Program

variable {call : Call} {l l' : Ledger} {mint authority : Key}

theorem amounts_payments {targets : List AccountRef} {recipients : List Key}
    {amounts : List UInt64} (listed : targets.length = recipients.length)
    (paired : recipients.length = amounts.length) :
    (payments targets recipients amounts).map (·.amount) = amounts := by
  induction amounts generalizing targets recipients with
  | nil =>
    rw [List.eq_nil_of_length_eq_zero paired]
    cases targets <;> rfl
  | cons amount amounts ih =>
    obtain ⟨recipient, recipients, rfl⟩ := List.exists_cons_of_length_eq_add_one paired
    obtain ⟨target, targets, rfl⟩ := List.exists_cons_of_length_eq_add_one listed
    rw [payments, List.map_cons, ih (Nat.succ.inj listed) (Nat.succ.inj paired)]

/-- Each payment sees the ledger that the payments before it left, so that amounts for one holding
add up. -/
theorem pay_issued {ps : List Payment} (own : (l.get mint).owner = Identity.tokenProgram) {m : Mint}
    (minted : l.mint? mint = some m) (h : (pay mint authority ps l).Gives l') :
    l.Issued l' mint ((ps.map (·.amount)).map UInt64.toNat).sum := by
  induction ps generalizing l m with
  | nil =>
    cases h
    exact .nothing minted
  | cons p ps ih =>
    obtain ⟨checked, l₁, issued, rest⟩ := pay_cons_gives.mp h
    have target := (requireHolding_eq_ok.mp checked).1
    have first := Token.issue_issued target own issued
    have own' : (l₁.get mint).owner = Identity.tokenProgram :=
      ((issue_tokensOnly target own issued).owner_eq mint).trans own
    obtain ⟨m', supply, -, minted', -⟩ := first.minted
    have later := ih own' minted' rest
    exact first.trans later

end Program

/-- What an instruction with these accounts does to tokens. -/
inductive TokenEffect (before after : Ledger) : Instruction → List AccountRef → Prop where
  | kept {i : Instruction} {accounts : List AccountRef} (opens : i.operation ≠ .createMint)
      (issues : i.operation ≠ .mintTokens) (same : after.tokens = before.tokens) :
      TokenEffect before after i accounts
  | createMint {terms : MintTerms} {payer service registry authority mint : AccountRef}
      {rest : List AccountRef} (free : before.tokens mint.key = none)
      (opened : after.tokens = update before.tokens mint.key
        (some (Wire.encode (Mint.fresh authority.key terms.decimals)))) :
      TokenEffect before after (.createMint terms)
        (payer :: service :: registry :: authority :: mint :: rest)
  | mintTokens {recipients : List Key} {amounts : List UInt64}
      {service registry authority mint : AccountRef} {rest : List AccountRef} {total : UInt64}
      (batch : batchTotal recipients amounts = .ok total)
      (issued : before.Issued after mint.key total.toNat) :
      TokenEffect before after (.mintTokens recipients amounts)
        (service :: registry :: authority :: mint :: rest)

section Creation

variable {α : Type} [Record α] {field label : String} {d : Derivation} {payer a : AccountRef}
  {l l₁ l' : Ledger} {bump : UInt8} {value : α} {key : Key} {s : Stored}

theorem tokens_of_creation (created : createRecord α field d payer a l = .ok (l₁, bump))
    (stored : store label a.key value l₁ = .ok l') : l'.tokens = l.tokens := by
  have creates := createRecord_creates created
  rw [Ledger.tokens_of_store stored creates.owner_eq, creates.tokens_eq (by decide)]

theorem tokens_of_update (held : l.records key = some s)
    (stored : store label key value l = .ok l') : l'.tokens = l.tokens :=
  Ledger.tokens_of_store stored (Ledger.owner_of_records held)

end Creation

namespace Program

variable {call : Call} {l' : Ledger}

theorem createHandle_tokens {text : String} (h : (createHandle call text).Gives l') :
    l'.tokens = call.ledger.tokens := by
  obtain ⟨a, rest, load, l₁, bump, created, -, -, -, u, -, l₂, first, second⟩ :=
    createHandle_gives.mp h
  obtain ⟨system, -, -, held, -⟩ := CreateHandle.load_eq_ok.mp load
  have creates := createRecord_creates created
  have own : (l₁.get a.user.key).owner = Identity.program := by
    rw [creates.spares _ _ held]
    exact Ledger.owner_of_records held
  have own' : (l₂.get a.handle.key).owner = Identity.program := by
    rw [Ledger.owner_of_store first, creates.owner_eq]
  rw [Ledger.tokens_of_store second own', Ledger.tokens_of_store first own,
    creates.tokens_eq (by decide)]

theorem moveHandle_tokens (h : (moveHandle call).Gives l') : l'.tokens = call.ledger.tokens := by
  obtain ⟨a, rest, load, -, -, -, -, -, -, moved, -, l₁, first, l₂, second, third⟩ :=
    moveHandle_gives.mp h
  obtain ⟨-, -, source, target, asset⟩ := MoveHandle.load_eq_ok.mp load
  have own : (l₁.get a.target.key).owner = Identity.program := by
    rw [Ledger.owner_of_store first]
    exact Ledger.owner_of_records target
  have own' : (l₂.get a.handle.key).owner = Identity.program := by
    rw [Ledger.owner_of_store second, Ledger.owner_of_store first]
    exact Ledger.owner_of_records asset
  rw [Ledger.tokens_of_store third own', Ledger.tokens_of_store second own,
    tokens_of_update source first]

theorem createMint_tokens {terms : MintTerms} (h : (createMint call terms).Gives l') :
    TokenEffect call.ledger l' (.createMint terms) call.accounts := by
  obtain ⟨a, rest, load, l₁, mintBump, made, -, l₂, bump, created, -, -, -, m, -, stored⟩ :=
    createMint_gives.mp h
  obtain ⟨token, system, accounts, -⟩ := CreateMint.load_eq_ok.mp load
  have opens := System.provide_creates (create_eq_ok.mp made).2
  have opened : (Token.openMint a.mint.key a.mintAuthority.key terms.decimals l₁).tokens =
      update l₁.tokens a.mint.key
        (some (Wire.encode (Mint.fresh a.mintAuthority.key terms.decimals))) :=
    Ledger.tokens_setData opens.owner_eq
  rw [accounts]
  refine .createMint opens.tokens_self ?_
  rw [tokens_of_creation created stored, opened, opens.tokens_update, Function.update_idem]

theorem mintTokens_tokens {recipients : List Key} {amounts : List UInt64}
    (h : (mintTokens call recipients amounts).Gives l') :
    TokenEffect call.ledger l' (.mintTokens recipients amounts) call.accounts := by
  obtain ⟨a, targets, load, -, -, -, -, -, ⟨total, batch⟩, listed, paid⟩ := mintTokens_gives.mp h
  obtain ⟨token, accounts, -, -, own, unpacked, -⟩ := MintTokens.load_eq_ok.mp load
  have minted : call.ledger.mint? a.mint.key = some a.mint.value := by
    rw [Ledger.mint?, Ledger.tokens_of_owned own]
    exact Token.mint?_eq_some.mpr unpacked
  have issued := pay_issued own minted paid
  rw [amounts_payments listed (batchTotal_eq_ok.mp batch).2.1, ← toNat_batchTotal batch] at issued
  rw [accounts]
  exact .mintTokens batch issued

theorem perform_tokens {i : Instruction} (h : (perform call i).Gives l') :
    TokenEffect call.ledger l' i call.accounts := by
  cases i with
  | createRegistry =>
    obtain ⟨a, rest, -, l₁, bump, created, -, -, stored⟩ := createRegistry_gives.mp h
    exact .kept nofun nofun (tokens_of_creation created stored)
  | handOverRegistry =>
    obtain ⟨a, rest, load, -, stored⟩ := handOverRegistry_gives.mp h
    exact .kept nofun nofun (tokens_of_update (HandOverRegistry.load_eq_ok.mp load).2.1 stored)
  | changeServiceSigner what =>
    obtain ⟨a, rest, load, -, changed, -, stored⟩ := changeServiceSigner_gives.mp h
    exact .kept nofun nofun (tokens_of_update (ChangeServiceSigner.load_eq_ok.mp load).2.1 stored)
  | openVault opening =>
    obtain ⟨a, rest, -, l₁, bump, created, -, -, v, -, stored⟩ := openVault_gives.mp h
    exact .kept nofun nofun (tokens_of_creation created stored)
  | handOverVault kind =>
    obtain ⟨a, rest, load, -, -, -, v, -, stored⟩ := handOverVault_gives.mp h
    obtain ⟨-, -, -, -, -, held⟩ := HandOverVault.load_eq_ok.mp load
    exact .kept nofun nofun (tokens_of_update held stored)
  | createUser username =>
    obtain ⟨a, rest, -, l₁, bump, created, -, -, vault, -, stored⟩ := createUser_gives.mp h
    exact .kept nofun nofun (tokens_of_creation created stored)
  | updateProfile profileEffect theme =>
    obtain ⟨a, rest, load, -, stored⟩ := updateProfile_gives.mp h
    exact .kept nofun nofun (tokens_of_update (UpdateProfile.load_eq_ok.mp load).2.2 stored)
  | createHandle text => exact .kept nofun nofun (createHandle_tokens h)
  | moveHandle => exact .kept nofun nofun (moveHandle_tokens h)
  | createServer name ticker =>
    obtain ⟨a, rest, -, l₁, bump, created, -, server, -, stored⟩ := createServer_gives.mp h
    exact .kept nofun nofun (tokens_of_creation created stored)
  | handOverServer next =>
    obtain ⟨a, rest, load, -, -, -, stored⟩ := handOverServer_gives.mp h
    exact .kept nofun nofun (tokens_of_update (HandOverServer.load_eq_ok.mp load).2.2 stored)
  | createMint terms => exact createMint_tokens h
  | mintTokens recipients amounts => exact mintTokens_tokens h

end Program

namespace World

variable {w : World} {s : Step} {c : Receipt}

theorem ledger_of_silent (silent : w.receipt? s = none) :
    (w.step s).1.ledger = w.ledger ∨ ∃ key account, s = .setAccount key account := by
  have failed {key : Key} {data : Bytes} {accounts : List AccountRef}
      (silent : w.receiptOf key data accounts = none) :
      settle w.ledger (w.call key data accounts).result = w.ledger := by
    unfold receiptOf at silent
    cases outcome : (w.call key data accounts).result with
    | error failure => rfl
    | ok l' =>
      obtain ⟨-, i, asked, -⟩ := Program.execute_gives.mp (outcome : Outcome.Gives _ l')
      simp only [outcome, asked] at silent
      cases silent
  cases s with
  | setClock now => exact .inl rfl
  | setAccount key account => exact .inr ⟨key, account, rfl⟩
  | request key i accounts => exact .inl (failed silent)
  | requestRaw key data accounts => exact .inl (failed silent)

theorem tokens_of_call (called : w.receipt? s = some c) :
    TokenEffect w.ledger (w.step s).1.ledger c.instruction c.accounts :=
  Program.perform_tokens (performed_of_call called)

end World
end VaultMarket
