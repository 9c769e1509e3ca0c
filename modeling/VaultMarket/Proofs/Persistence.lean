import VaultMarket.Proofs.Accounts
import VaultMarket.Proofs.Requests
set_option autoImplicit false

namespace VaultMarket
open Function (update)

namespace Ledger

variable {l l₁ l' : Ledger} {key owner k : Key} {space : Nat}

/-- No account with data is taken from the program, resized or charged. -/
def Steady (l l' : Ledger) : Prop :=
  ∀ k, (l.get k).owner = Identity.program → (l.get k).data ≠ [] →
    (l'.get k).owner = Identity.program ∧ (l'.get k).data.length = (l.get k).data.length ∧
      (l'.get k).lamports = (l.get k).lamports

theorem Steady.refl (l : Ledger) : l.Steady l := fun _ own _ => ⟨own, rfl, rfl⟩

theorem Steady.trans (first : l.Steady l₁) (second : l₁.Steady l') : l.Steady l' := by
  intro k own full
  obtain ⟨own₁, length₁, lamports₁⟩ := first k own full
  have full₁ : (l₁.get k).data ≠ [] := by
    rw [← List.length_pos_iff, length₁]
    exact List.length_pos_iff.mpr full
  obtain ⟨own', length', lamports'⟩ := second k own₁ full₁
  exact ⟨own', length'.trans length₁, lamports'.trans lamports₁⟩

theorem Creates.steady (h : l.Creates l' key owner space) : l.Steady l' := by
  intro k own full
  have other : k ≠ key := by
    rintro rfl
    rw [h.free] at own
    exact absurd own (by decide)
  rw [h.spared k other full]
  exact ⟨own, rfl, rfl⟩

theorem TokensOnly.steady (h : l.TokensOnly l') : l.Steady l' := by
  intro k own _
  rw [h.spared k (by rw [own]; decide)]
  exact ⟨own, rfl, rfl⟩

end Ledger

section Stores

variable {α : Type} [Record α] {field label : String} {d : Derivation} {payer a : AccountRef}
  {l l₁ l' : Ledger} {bump : UInt8} {key : Key} {value : α}

theorem steady_of_store (stored : store field key value l = .ok l') : l.Steady l' := by
  obtain ⟨short, rfl⟩ := store_eq_ok.mp stored
  intro k own _
  by_cases same : k = key
  · rw [same] at own ⊢
    rw [Ledger.setData, Ledger.get_set_same]
    exact ⟨own, Ledger.length_overwrite_zero short, rfl⟩
  · rw [Ledger.setData, Ledger.get_set_other _ _ same]
    exact ⟨own, rfl, rfl⟩

theorem steady_of_creation (created : createRecord α field d payer a l = .ok (l₁, bump))
    (stored : store label a.key value l₁ = .ok l') : l.Steady l' :=
  (createRecord_creates created).steady.trans (steady_of_store stored)

end Stores

namespace Program

variable {call : Call} {l' : Ledger}

theorem createMint_steady {terms : MintTerms} (h : (createMint call terms).Gives l') :
    call.ledger.Steady l' := by
  obtain ⟨a, rest, -, l₁, mintBump, made, -, l₂, bump, created, -, -, -, m, -, stored⟩ :=
    createMint_gives.mp h
  have opens := System.provide_creates (create_eq_ok.mp made).2
  have tokens : l₁.TokensOnly (Token.openMint a.mint.key a.mintAuthority.key terms.decimals l₁) :=
    Ledger.tokensOnly_setData opens.owner_eq
  exact (opens.steady.trans tokens.steady).trans (steady_of_creation created stored)

theorem perform_steady {i : Instruction} (h : (perform call i).Gives l') :
    call.ledger.Steady l' := by
  cases i with
  | createRegistry =>
    obtain ⟨a, rest, -, l₁, bump, created, -, -, stored⟩ := createRegistry_gives.mp h
    exact steady_of_creation created stored
  | handOverRegistry =>
    obtain ⟨a, rest, -, -, stored⟩ := handOverRegistry_gives.mp h
    exact steady_of_store stored
  | changeServiceSigner what =>
    obtain ⟨a, rest, -, -, changed, -, stored⟩ := changeServiceSigner_gives.mp h
    exact steady_of_store stored
  | openVault opening =>
    obtain ⟨a, rest, -, l₁, bump, created, -, -, v, -, stored⟩ := openVault_gives.mp h
    exact steady_of_creation created stored
  | handOverVault kind =>
    obtain ⟨a, rest, -, -, -, -, v, -, stored⟩ := handOverVault_gives.mp h
    exact steady_of_store stored
  | createUser username =>
    obtain ⟨a, rest, -, l₁, bump, created, -, -, vault, -, stored⟩ := createUser_gives.mp h
    exact steady_of_creation created stored
  | updateProfile profileEffect theme =>
    obtain ⟨a, rest, -, -, stored⟩ := updateProfile_gives.mp h
    exact steady_of_store stored
  | createHandle text =>
    obtain ⟨a, rest, -, l₁, bump, created, -, -, -, u, -, l₂, first, second⟩ :=
      createHandle_gives.mp h
    have creates := createRecord_creates created
    exact (creates.steady.trans (steady_of_store first)).trans (steady_of_store second)
  | moveHandle =>
    obtain ⟨a, rest, -, -, -, -, -, -, -, moved, -, l₁, first, l₂, second, third⟩ :=
      moveHandle_gives.mp h
    exact ((steady_of_store first).trans (steady_of_store second)).trans (steady_of_store third)
  | createServer name ticker =>
    obtain ⟨a, rest, -, l₁, bump, created, -, server, -, stored⟩ := createServer_gives.mp h
    exact steady_of_creation created stored
  | handOverServer next =>
    obtain ⟨a, rest, -, -, -, -, stored⟩ := handOverServer_gives.mp h
    exact steady_of_store stored
  | createMint terms => exact createMint_steady h
  | mintTokens recipients amounts =>
    obtain ⟨a, targets, load, -, -, -, -, -, -, -, paid⟩ := mintTokens_gives.mp h
    obtain ⟨token, -, -, -, minted, -⟩ := MintTokens.load_eq_ok.mp load
    exact (pay_tokensOnly minted paid).steady

end Program

namespace World

variable {w : World} {s : Step}

theorem answerCall_steady {key : Key} {data : Bytes} {accounts : List AccountRef} :
    w.ledger.Steady (w.answerCall key data accounts).1.ledger := by
  change w.ledger.Steady (settle w.ledger (w.call key data accounts).result)
  cases outcome : (w.call key data accounts).result with
  | error failure => exact .refl _
  | ok l' =>
    obtain ⟨-, i, -, done⟩ := Program.execute_gives.mp (outcome : Outcome.Gives _ l')
    exact Program.perform_steady done

theorem step_steady (honest : s.Honest w) : w.ledger.Steady (w.step s).1.ledger := by
  cases s with
  | setClock now => exact .refl _
  | setAccount key account =>
    intro k own _
    have other : k ≠ key := by
      rintro rfl
      exact honest.1 own
    have same : ((w.step (.setAccount key account)).1.ledger.get k) = w.ledger.get k :=
      Ledger.get_set_other _ _ other
    rw [same]
    exact ⟨own, rfl, rfl⟩
  | request key i accounts => exact answerCall_steady
  | requestRaw key data accounts => exact answerCall_steady

theorem run_steady (more : List Step) (honest : w.Honest more) :
    w.ledger.Steady (w.run more).1.ledger := by
  induction more generalizing w with
  | nil => exact .refl _
  | cons s rest ih =>
    obtain ⟨fair, rest⟩ := honest
    exact (step_steady fair).trans (ih rest)

end World

namespace Operation

def initFields : Operation → List String
  | createRegistry => ["config"]
  | openVault kind => [vaultField kind]
  | createUser => ["user_account"]
  | createHandle => ["handle_asset"]
  | createServer => ["server_account"]
  | createMint => ["mint", "mint_record"]
  | _ => []

def initKeys (o : Operation) (accounts : List AccountRef) : List Key :=
  (o.accountFields.zip (accounts.map (·.key))).filterMap fun (field, key) =>
    if field.name ∈ o.initFields then some key else none

theorem initKeys_merge (o : Operation) (accounts : List AccountRef) :
    o.initKeys (AccountRef.merge accounts) = o.initKeys accounts := by
  have keys : (AccountRef.merge accounts).map (·.key) = accounts.map (·.key) := by
    rw [AccountRef.merge, List.map_map]
    rfl
  rw [initKeys, keys, initKeys]

end Operation

def Step.inits : Step → List Key
  | .request _ i accounts => i.operation.initKeys accounts
  | .requestRaw _ data accounts =>
    match Program.operation data with
    | .ok o => o.initKeys accounts
    | .error _ => []
  | _ => []

namespace Program
open Operation (initKeys initFields accountFields)

variable {call : Call} {l' : Ledger} {k : Key}

theorem free_of_creation {α : Type} [Record α] {field : String} {d : Derivation}
    {payer a : AccountRef} {l l₁ : Ledger} {bump : UInt8}
    (created : createRecord α field d payer a l = .ok (l₁, bump)) :
    (l.get a.key).owner = Identity.systemProgram :=
  (createRecord_creates created).free

theorem createMint_free {terms : MintTerms} (h : (createMint call terms).Gives l')
    (init : k ∈ initKeys .createMint call.accounts) :
    (call.ledger.get k).owner = Identity.systemProgram := by
  obtain ⟨a, rest, load, l₁, mintBump, made, -, l₂, bump, created, -⟩ := createMint_gives.mp h
  obtain ⟨token, system, accounts, -⟩ := CreateMint.load_eq_ok.mp load
  have opens := System.provide_creates (create_eq_ok.mp made).2
  have tokens : l₁.TokensOnly (Token.openMint a.mint.key a.mintAuthority.key terms.decimals l₁) :=
    Ledger.tokensOnly_setData opens.owner_eq
  have second : (l₁.get a.mintRecord.key).owner = Identity.systemProgram := by
    rw [← tokens.owner_eq, free_of_creation created]
  have keys : initKeys .createMint call.accounts = [a.mint.key, a.mintRecord.key] := by
    rw [accounts]
    rfl
  simp only [keys, List.mem_cons, List.not_mem_nil, or_false] at init
  rcases init with rfl | rfl
  · exact opens.free
  · have apart : a.mintRecord.key ≠ a.mint.key := by
      intro same
      rw [same, opens.owner_eq] at second
      exact absurd second (by decide)
    rw [← (opens.content _ apart).1, second]

/-- A call that succeeds makes accounts where the system program had them. -/
theorem perform_free {i : Instruction} (h : (perform call i).Gives l')
    (init : k ∈ i.operation.initKeys call.accounts) :
    (call.ledger.get k).owner = Identity.systemProgram := by
  have only {key : Key} (keys : i.operation.initKeys call.accounts = [key]) : k = key :=
    List.mem_singleton.mp (keys ▸ init)
  cases i with
  | createRegistry =>
    obtain ⟨a, rest, load, l₁, bump, created, -⟩ := createRegistry_gives.mp h
    obtain ⟨system, accounts, -⟩ := CreateRegistry.load_eq_ok.mp load
    rw [only (by rw [accounts]; rfl)]
    exact free_of_creation created
  | openVault opening =>
    obtain ⟨a, rest, load, l₁, bump, created, -⟩ := openVault_gives.mp h
    obtain ⟨system, accounts, -⟩ := OpenVault.load_eq_ok.mp load
    rw [only (by rw [accounts]; cases opening <;> rfl)]
    exact free_of_creation created
  | createUser username =>
    obtain ⟨a, rest, load, l₁, bump, created, -⟩ := createUser_gives.mp h
    obtain ⟨system, accounts, -⟩ := CreateUser.load_eq_ok.mp load
    rw [only (by rw [accounts]; rfl)]
    exact free_of_creation created
  | createHandle text =>
    obtain ⟨a, rest, load, l₁, bump, created, -⟩ := createHandle_gives.mp h
    obtain ⟨system, accounts, -⟩ := CreateHandle.load_eq_ok.mp load
    rw [only (by rw [accounts]; rfl)]
    exact free_of_creation created
  | createServer name ticker =>
    obtain ⟨a, rest, load, l₁, bump, created, -⟩ := createServer_gives.mp h
    obtain ⟨system, accounts, -⟩ := CreateServer.load_eq_ok.mp load
    rw [only (by rw [accounts]; rfl)]
    exact free_of_creation created
  | createMint terms => exact createMint_free h init
  | _ =>
    obtain ⟨pair, -, made⟩ := List.mem_filterMap.mp init
    exact absurd made nofun

end Program
namespace World

variable {w : World} {s : Step} {k : Key}

theorem answerCall_refused {key : Key} {data : Bytes} {accounts : List AccountRef} {o : Operation}
    (named : Program.operation data = .ok o) (init : k ∈ o.initKeys accounts)
    (own : (w.ledger.get k).owner = Identity.program) :
    ¬(w.answerCall key data accounts).2.Succeeds ∧ (w.answerCall key data accounts).1 = w := by
  have refused (l' : Ledger) : ¬(w.call key data accounts).Gives l' := by
    intro gives
    obtain ⟨-, i, asked, done⟩ := Program.execute_gives.mp gives
    have operation := Program.operation_of_instruction asked
    rw [named] at operation
    cases operation
    have free := Program.perform_free done (by rw [Operation.initKeys_merge]; exact init)
    change (w.ledger.get k).owner = Identity.systemProgram at free
    rw [own] at free
    exact absurd free (by decide)
  refine ⟨fun succeeds => ?_, ?_⟩
  · obtain ⟨l', gives⟩ := succeeds
    exact refused l' gives
  · change w.after (w.call key data accounts) = w
    unfold after
    cases outcome : (w.call key data accounts).result with
    | ok l' => exact absurd outcome (refused l')
    | error failure => rfl

/-- Where the program has an account, no other can be made, and the attempt changes nothing. -/
theorem step_refused (init : k ∈ s.inits) (own : (w.ledger.get k).owner = Identity.program) :
    ¬(w.step s).2.Succeeds ∧ (w.step s).1 = w := by
  cases s with
  | setClock now => cases init
  | setAccount key account => cases init
  | request key i accounts =>
    have named : Program.operation i.encode = .ok i.operation := by
      rw [← List.append_nil i.encode, Program.operation_encode]
    exact answerCall_refused named init own
  | requestRaw key data accounts =>
    simp only [Step.inits] at init
    split at init
    · rename_i o named
      exact answerCall_refused named init own
    · exact absurd init List.not_mem_nil

end World
end VaultMarket
