import VaultMarket.Proofs.Supply
import VaultMarket.Proofs.Uniqueness
set_option autoImplicit false

namespace VaultMarket

/-- The mint is the one that the record describes: the program mints it, and nobody freezes. -/
structure Mint.Matches (m : Mint) (r : MintRecord) : Prop where
  decimals : m.decimals = r.decimals
  minted : m.authority.present = true
  authority : ∃ bump,
    Derivation.mintAuthority.find Identity.program = .ok ⟨m.authority.value, bump⟩
  unfrozen : m.freezeAuthority.present = false

namespace Mint.Matches

variable {m : Mint} {r : MintRecord}

theorem withSupply (h : m.Matches r) (supply : UInt64) : Mint.Matches { m with supply } r :=
  ⟨h.decimals, h.minted, h.authority, h.unfrozen⟩

end Mint.Matches

def MintRecord.MatchedIn (r : MintRecord) (l : Ledger) : Prop :=
  ∃ m, l.mint? r.mint = some m ∧ m.Matches r

/-- A record of a mint has been there before, or the call makes it together with its mint. -/
inductive MintRecordOrigin (before : Records) (key : Key) (r : MintRecord) :
    Instruction → List AccountRef → Prop where
  | old {i : Instruction} {accounts : List AccountRef}
      (held : before key = some (.mintRecord r)) : MintRecordOrigin before key r i accounts
  | new {terms : MintTerms} {payer service registry authority mint : AccountRef}
      {rest : List AccountRef} {bump : UInt8}
      (found : Derivation.mintAuthority.find Identity.program = .ok ⟨authority.key, bump⟩)
      (same : r.mint = mint.key) (decimals : r.decimals = terms.decimals) :
      MintRecordOrigin before key r (.createMint terms)
        (payer :: service :: registry :: authority :: mint :: rest)

section Effects

variable {before after : Records} {now : Int64} {i : Instruction} {accounts : List AccountRef}
  {k : Key} {r : MintRecord}

theorem Effect.mintRecord_origin (h : Effect now before i accounts after)
    (held : after k = some (.mintRecord r)) : MintRecordOrigin before k r i accounts := by
  by_cases other : i.operation = .createMint
  · cases h with
    | createMint _ _ _ foundAuthority _ fresh =>
      rcases update_eq_some.mp held with ⟨-, same⟩ | ⟨-, old⟩
      · obtain ⟨-, rfl⟩ := MintRecord.fresh_eq_ok.mp fresh
        cases same
        exact .new foundAuthority rfl rfl
      · exact .old old
    | _ => cases other
  · have untouched : RecordKind.mintRecord ∉ i.touched := by
      cases i <;> first | exact absurd rfl other | simp [Instruction.touched]
    exact .old ((h.untouched (s := .mintRecord r) untouched).mp held)

end Effects

namespace MintRecord.MatchedIn

variable {l l' : Ledger} {history : List Receipt} {s : Step} {c? : Option Receipt}
  {es : List Event} {r : MintRecord}

theorem step (matched : r.MatchedIn l) (h : MintStep l l' s c? es) (spares : s.SparesMints history)
    (made : MintMade history r.mint) : r.MatchedIn l' := by
  obtain ⟨m, held, same⟩ := matched
  by_cases paid : c?.bind Receipt.paidMint? = some r.mint
  · cases h with
    | kept _ silent =>
      rw [silent] at paid
      cases paid
    | host => cases paid
    | made _ silent =>
      rw [Option.bind_some, silent] at paid
      cases paid
    | paid _ told issued =>
      rw [Option.bind_some, told] at paid
      cases paid
      obtain ⟨m₀, supply, before, after, -⟩ := issued.minted
      rw [held] at before
      cases before
      exact ⟨_, after, same.withSupply supply⟩
  · exact ⟨m, h.mint?_eq spares made held paid, same⟩

theorem of_creation {terms : MintTerms} {payer service registry authority mint : AccountRef}
    {rest : List AccountRef} {bump : UInt8}
    (tokens : TokenEffect l l' (.createMint terms)
      (payer :: service :: registry :: authority :: mint :: rest))
    (found : Derivation.mintAuthority.find Identity.program = .ok ⟨authority.key, bump⟩)
    (same : r.mint = mint.key) (decimals : r.decimals = terms.decimals) : r.MatchedIn l' := by
  cases tokens with
  | kept opens => exact absurd rfl opens
  | createMint _ opened =>
    refine ⟨Mint.fresh authority.key terms.decimals, ?_, decimals.symm, rfl, ⟨bump, found⟩, rfl⟩
    rw [Ledger.mint?_of_opened opened, same, Function.update_self]

end MintRecord.MatchedIn

namespace World

variable {steps : List Step} {s : Step}

theorem matched_of_honest (steps : List Step) (honest : genesis.Honest steps)
    (spares : genesis.SparesMints [] steps) {k : Key} {r : MintRecord}
    (held : (reached steps).ledger.records k = some (.mintRecord r)) :
    r.MatchedIn (reached steps).ledger := by
  induction steps using List.reverseRecOn generalizing k r with
  | nil =>
    rw [records_start] at held
    cases held
  | append_singleton steps s ih =>
    obtain ⟨earlier, fair⟩ := honest_concat.mp honest
    obtain ⟨spared, spares⟩ := sparesMints_concat.mp spares
    rw [reached, run_concat] at held ⊢
    have old (stored : (reached steps).ledger.records k = some (.mintRecord r)) :
        r.MatchedIn ((reached steps).step s).1.ledger :=
      (ih earlier spared stored).step step_mints spares (made_of_record earlier stored)
    cases called : (reached steps).receipt? s with
    | none =>
      rw [records_of_silent fair called] at held
      exact old held
    | some c =>
      have origin := (effect_of_call called).mintRecord_origin held
      have tokens := tokens_of_call called
      obtain ⟨now, i, accounts, hashed⟩ := c
      cases origin with
      | old stored => exact old stored
      | new found same decimals => exact .of_creation tokens found same decimals

end World

/-- The payer and the nonce of a call that makes a mint. -/
def Receipt.mintOrder? (c : Receipt) : Option (Key × UInt16) :=
  match c.instruction with
  | .createMint terms => (c.key? "payer").map (·, terms.nonce)
  | _ => none

theorem Receipt.claimed_of_mintOrder? {c : Receipt} {payer : Key} {nonce : UInt16}
    (order : c.mintOrder? = some (payer, nonce)) :
    c.claimed? = some (.tokenMint payer nonce) := by
  obtain ⟨now, i, accounts, hashed⟩ := c
  unfold mintOrder? at order
  split at order
  · rename_i terms same
    cases same
    cases accounts with
    | nil => cases order
    | cons p rest =>
      cases order
      rfl
  · cases order

/-- The account of the token program that the record describes, as it is stored. -/
structure MintRecord.Agrees (l : Ledger) (r : MintRecord) : Prop where
  owner : (l.get r.mint).owner = Identity.tokenProgram
  mint : ∃ m, Mint.unpack (l.get r.mint).data = .ok m ∧ m.initialized = true ∧ m.Matches r
  address : ∃ bump, (Derivation.tokenMint r.creator r.nonce).find Identity.program =
    .ok ⟨r.mint, bump⟩

theorem MintRecord.MatchedIn.unpacked {l : Ledger} {r : MintRecord} (matched : r.MatchedIn l) :
    (l.get r.mint).owner = Identity.tokenProgram ∧
      ∃ m, Mint.unpack (l.get r.mint).data = .ok m ∧ m.initialized = true ∧ m.Matches r := by
  obtain ⟨m, held, same⟩ := matched
  have own : (l.get r.mint).owner = Identity.tokenProgram := by
    by_contra foreign
    rw [Ledger.mint?, Ledger.tokens_of_foreign foreign] at held
    cases held
  rw [Ledger.mint?, Ledger.tokens_of_owned own] at held
  have unpacked := Token.mint?_eq_some.mp held
  exact ⟨own, m, unpacked, (Mint.unpack_eq_ok.mp unpacked).2.2, same⟩

structure MintRecordsAgree (steps : List Step) : Prop where
  agreeing : ∀ k r, (World.reached steps).ledger.records k = some (.mintRecord r) →
    r.Agrees (World.reached steps).ledger
  apart : ∀ k k' r r', (World.reached steps).ledger.records k = some (.mintRecord r) →
    (World.reached steps).ledger.records k' = some (.mintRecord r') → k ≠ k' → r.mint ≠ r'.mint
  once : ((World.genesis.receipts steps).filterMap Receipt.mintOrder?).Nodup

theorem nodup_mintOrders (steps : List Step) (honest : World.genesis.Honest steps) :
    ((World.genesis.receipts steps).filterMap Receipt.mintOrder?).Nodup := by
  rw [List.nodup_iff_count_le_one]
  rintro ⟨payer, nonce⟩
  rw [List.count_filterMap]
  refine le_trans (List.countP_mono_left fun c _ order => ?_)
    ((ClaimTrail.of_honest steps honest).once (.tokenMint payer nonce))
  rw [decide_eq_true_eq]
  exact Receipt.claimed_of_mintOrder? (eq_of_beq order)

/-- As long as the host does not replace mints that were made here, every record of a mint agrees
with the mint of the token program, no two records share a mint, and no payer makes two mints with
one nonce. -/
theorem mint_records_agree (steps : List Step) (honest : World.genesis.Honest steps)
    (spares : World.genesis.SparesMints [] steps) : MintRecordsAgree steps where
  agreeing k r held := by
    obtain ⟨owner, mint⟩ := (World.matched_of_honest steps honest spares held).unpacked
    exact ⟨owner, mint, ((RecordTrail.of_honest steps honest).sound held).refers⟩
  apart k k' r r' held held' apart same := by
    have found := ((RecordTrail.of_honest steps honest).sound held).found
    have found' := ((RecordTrail.of_honest steps honest).sound held').found
    change (Derivation.mintRecord r.mint).find Identity.program = _ at found
    rw [same] at found
    exact apart (congrArg DerivedAddress.address (Except.ok.inj (found.symm.trans found')))
  once := nodup_mintOrders steps honest

section Samples
open AccountRef (signing written shown)

def Derivation.secondMint : Derivation := .tokenMint (Key.filled 1) 8

def Step.twoMints : List Step := issuing ++
  [ask (.createMint ⟨"Gold", "GLD", 0, "", 8⟩) [signing (Key.filled 1), signing (Key.filled 3),
    shown Program.registryAddress.home, shown Derivation.mintAuthority.home,
    written Derivation.secondMint.home,
    written (Derivation.mintRecord Derivation.secondMint.home).home,
    shown Identity.tokenProgram, shown Identity.systemProgram]]

set_option maxRecDepth 100000 in
theorem mint_records_agree_of_two_mints : World.genesis.Honest Step.twoMints ∧
    World.genesis.SparesMints [] Step.twoMints ∧
    Stored.kindAt Step.twoMints (.mintRecord Derivation.sampleMint.home) = some .mintRecord ∧
    Stored.kindAt Step.twoMints (.mintRecord Derivation.secondMint.home) = some .mintRecord ∧
    (World.genesis.receipts Step.twoMints).filterMap Receipt.mintOrder? =
      [(Key.filled 1, 7), (Key.filled 1, 8)] ∧
    MintRecordsAgree Step.twoMints := by
  have sample : World.genesis.Honest Step.twoMints ∧ World.genesis.SparesMints [] Step.twoMints ∧
      Stored.kindAt Step.twoMints (.mintRecord Derivation.sampleMint.home) = some .mintRecord ∧
      Stored.kindAt Step.twoMints (.mintRecord Derivation.secondMint.home) = some .mintRecord ∧
      (World.genesis.receipts Step.twoMints).filterMap Receipt.mintOrder? =
        [(Key.filled 1, 7), (Key.filled 1, 8)] := by
    decide +kernel
  obtain ⟨honest, spares, first, second, orders⟩ := sample
  exact ⟨honest, spares, first, second, orders, mint_records_agree Step.twoMints honest spares⟩

end Samples
end VaultMarket
