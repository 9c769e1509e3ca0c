import VaultMarket.Proofs.Persistence
import VaultMarket.Proofs.Provision
import VaultMarket.Proofs.Tokens
set_option autoImplicit false

/-!
# Footprints

A footprint names the accounts that a change of the ledger may make, write and charge. Only where an
account is made does an owner change, data changes only there and where it is written, and lamports
move only from who is charged to what is made. Footprints of single writes compose, so that each
instruction is followed from write to write.
-/

namespace VaultMarket

structure Footprint where
  made : List Key
  written : List Key
  charged : List Key
deriving DecidableEq

def Account.funds (a : Account) : Nat := a.lamports.toNat

theorem Account.eq_of_parts {a a' : Account} (lamports : a'.lamports = a.lamports)
    (owner : a'.owner = a.owner) (executable : a'.executable = a.executable)
    (data : a'.data = a.data) : a' = a := by
  obtain ⟨_, _, _, _⟩ := a
  cases lamports
  cases owner
  cases executable
  cases data
  rfl

/-- The account at `key` is new, and belongs to this program or the token program. -/
structure Footprint.Makes (f : Footprint) (l l' : Ledger) (key : Key) : Prop where
  free : (l.get key).owner = Identity.systemProgram
  uncharged : key ∉ f.charged
  unwritten : key ∉ f.written
  owned : (l'.get key).owner = Identity.program ∨ (l'.get key).owner = Identity.tokenProgram

namespace Ledger

variable {f : Footprint} {l l₁ l' : Ledger} {key : Key} {data : Bytes}

/-- The change stays within the footprint, and all lamports together stay as many as they were. -/
structure Within (f : Footprint) (l l' : Ledger) : Prop where
  owner_eq : ∀ k, k ∉ f.made → (l'.get k).owner = (l.get k).owner
  data_eq : ∀ k, k ∉ f.made → k ∉ f.written → (l'.get k).data = (l.get k).data
  sameHosts : l.SameHosts l'
  lamports_eq : ∀ k, k ∉ f.made → k ∉ f.charged → (l'.get k).lamports = (l.get k).lamports
  lamports_le : ∀ k, k ∉ f.made → (l'.get k).lamports ≤ (l.get k).lamports
  total_eq : l'.total Account.funds = l.total Account.funds

theorem Within.refl (l : Ledger) : l.Within f l :=
  ⟨fun _ _ => rfl, fun _ _ _ => rfl, fun _ => rfl, fun _ _ _ => rfl, fun _ _ => UInt64.le_refl _,
    rfl⟩

theorem Within.trans (first : l.Within f l₁) (second : l₁.Within f l') : l.Within f l' where
  owner_eq k new := (second.owner_eq k new).trans (first.owner_eq k new)
  data_eq k new other := (second.data_eq k new other).trans (first.data_eq k new other)
  sameHosts := first.sameHosts.trans second.sameHosts
  lamports_eq k new other := (second.lamports_eq k new other).trans (first.lamports_eq k new other)
  lamports_le k new := UInt64.le_trans (second.lamports_le k new) (first.lamports_le k new)
  total_eq := second.total_eq.trans first.total_eq

theorem Within.written_eq (h : l.Within f l') (new : key ∉ f.made) (unpaid : key ∉ f.charged) :
    l'.get key = { l.get key with data := (l'.get key).data } :=
  Account.eq_of_parts (h.lamports_eq key new unpaid) (h.owner_eq key new) (h.sameHosts key) rfl

theorem Within.charged_eq (h : l.Within f l') (new : key ∉ f.made) (unwritten : key ∉ f.written) :
    l'.get key = { l.get key with lamports := (l'.get key).lamports } :=
  Account.eq_of_parts rfl (h.owner_eq key new) (h.sameHosts key) (h.data_eq key new unwritten)

theorem Within.get_eq (h : l.Within f l') (new : key ∉ f.made) (unwritten : key ∉ f.written)
    (unpaid : key ∉ f.charged) : l'.get key = l.get key :=
  Account.eq_of_parts (h.lamports_eq key new unpaid) (h.owner_eq key new) (h.sameHosts key)
    (h.data_eq key new unwritten)

theorem lamports_setData (k : Key) :
    ((l.setData key data).get k).lamports = (l.get k).lamports := by
  by_cases same : k = key
  · rw [same, setData, get_set_same]
  · rw [setData, get_set_other _ _ same]

theorem total_setData : (l.setData key data).total Account.funds = l.total Account.funds := by
  have change : (l.setData key data).total Account.funds + (l.get key).funds =
      l.total Account.funds + ((l.setData key data).get key).funds :=
    total_change rfl fun k _ => congrArg UInt64.toNat (lamports_setData k)
  have same : ((l.setData key data).get key).funds = (l.get key).funds :=
    congrArg UInt64.toNat (lamports_setData key)
  omega

theorem within_setData (known : key ∈ f.made ∨ key ∈ f.written) :
    l.Within f (l.setData key data) where
  owner_eq _ _ := owner_setData
  data_eq k new other := by
    have apart : k ≠ key := by
      rintro rfl
      exact known.elim new other
    rw [setData, get_set_other _ _ apart]
  sameHosts := sameHosts_set rfl
  lamports_eq k _ _ := lamports_setData k
  lamports_le k _ := UInt64.le_of_eq (lamports_setData k)
  total_eq := total_setData

end Ledger

namespace System

variable {payer key owner : Key} {amount held : UInt64} {space : Nat} {l l₀ l₁ l' : Ledger}

/-- What the lamports that an account holds lack of its rent. -/
def due (space : Nat) (held : UInt64) : UInt64 :=
  if held < rent space then rent space - held else 0

theorem toNat_due : (due space held).toNat = (rent space).toNat - held.toNat := by
  unfold due
  split
  · rename_i lacking
    exact UInt64.toNat_sub_of_le _ _ (UInt64.le_of_lt lacking)
  · rename_i enough
    rw [UInt64.lt_iff_toNat_lt] at enough
    rw [UInt64.toNat_zero]
    omega

theorem due_zero : due space 0 = rent space := by
  rw [← UInt64.toNat_inj, toNat_due, UInt64.toNat_zero, Nat.sub_zero]

structure Pays (l l' : Ledger) (payer key : Key) (amount : UInt64) : Prop where
  apart : key ≠ payer
  covered : amount ≤ (l.get payer).lamports
  room : (l.get key).lamports.toNat + amount.toNat < UInt64.size
  charged : l'.get payer = { l.get payer with lamports := (l.get payer).lamports - amount }
  credited : (l'.get key).lamports = (l.get key).lamports + amount
  others : ∀ k, k ≠ key → k ≠ payer → l'.get k = l.get k

theorem Pays.nothing (apart : key ≠ payer) (l : Ledger) : Pays l l payer key 0 where
  apart := apart
  covered := UInt64.zero_le
  room := (l.get key).lamports.toNat_lt
  charged := by rw [UInt64.sub_zero]
  credited := (UInt64.add_zero _).symm
  others _ _ _ := rfl

theorem transfer_pays (apart : key ≠ payer)
    (room : (l.get key).lamports.toNat + amount.toNat < UInt64.size)
    (h : transfer payer key amount l = .ok l') : Pays l l' payer key amount := by
  obtain ⟨-, covered, rfl⟩ := transfer_eq_ok.mp h
  refine ⟨apart, covered, room, ?_, ?_, fun k other third => ?_⟩
  · rw [Ledger.get_set_other _ _ (Ne.symm apart), Ledger.get_set_same]
  · rw [Ledger.get_set_same, Ledger.get_set_other _ _ apart]
  · rw [Ledger.get_set_other _ _ other, Ledger.get_set_other _ _ third]

/-- What else happens to the account that is paid does not matter, but for its lamports. -/
theorem Pays.congr (h : Pays l₀ l₁ payer key amount)
    (before : ∀ k, k ≠ key → l₀.get k = l.get k)
    (lamports : (l₀.get key).lamports = (l.get key).lamports)
    (after : ∀ k, k ≠ key → l'.get k = l₁.get k)
    (lamports' : (l'.get key).lamports = (l₁.get key).lamports) : Pays l l' payer key amount where
  apart := h.apart
  covered := before payer h.apart.symm ▸ h.covered
  room := lamports ▸ h.room
  charged := by rw [after payer h.apart.symm, h.charged, before payer h.apart.symm]
  credited := by rw [lamports', h.credited, lamports]
  others k other third := by rw [after k other, h.others k other third, before k other]

theorem lamports_allocated :
    ((assign key owner (l.setData key (Bytes.zeros space))).get key).lamports =
      (l.get key).lamports := by
  rw [assign, Ledger.get_set_same, Ledger.lamports_setData]

theorem pays_of_createAccount (width : space ≠ 0)
    (h : createAccount payer key space owner l = .ok l') (broke : (l.get key).lamports = 0) :
    Pays l l' payer key (rent space) := by
  obtain ⟨-, -, apart, -⟩ := (exists_createAccount_iff width).mp ⟨l', h⟩
  obtain ⟨-, -, paid⟩ := createAccount_eq_ok.mp h
  refine (transfer_pays apart ?_ paid).congr (fun k => get_allocated_other) lamports_allocated
    (fun _ _ => rfl) rfl
  rw [lamports_allocated, broke, UInt64.toNat_zero, Nat.zero_add]
  exact (rent space).toNat_lt

theorem Pays.fill (h : Pays l l₁ payer key amount)
    (filled : (allocate key space l₁ >>= fun l => pure (assign key owner l)) = .ok l') :
    Pays l l' payer key amount := by
  obtain ⟨l₂, allocated, e⟩ := Except.bind_eq_ok.mp filled
  obtain ⟨-, -, rfl⟩ := allocate_eq_ok.mp allocated
  cases e
  exact h.congr (fun _ _ => rfl) rfl (fun k => get_allocated_other) lamports_allocated

/-- Whether the new account is funded or not, the payer pays once what it lacks, and gets nothing. -/
theorem provide_pays (width : space ≠ 0) (h : provide payer key space owner l = .ok l') :
    Pays l l' payer key (due space (l.get key).lamports) := by
  unfold provide at h
  dsimp only at h
  split at h
  · rename_i broke
    rw [broke, due_zero]
    exact pays_of_createAccount width h broke
  · obtain ⟨_, required, h⟩ := Except.bind_eq_ok.mp h
    have apart := require_eq_ok.mp required
    unfold due
    split at h
    · rename_i lacking
      rw [if_pos lacking]
      obtain ⟨l₁, paid, h⟩ := Except.bind_eq_ok.mp h
      refine (transfer_pays apart ?_ paid).fill h
      rw [UInt64.toNat_sub_of_le _ _ (UInt64.le_of_lt lacking)]
      have bound : (rent space).toNat < UInt64.size := (rent space).toNat_lt
      have lacking := UInt64.lt_iff_toNat_lt.mp lacking
      omega
    · rename_i enough
      rw [if_neg enough]
      exact (Pays.nothing apart l).fill h

theorem Pays.total_eq (h : Pays l l' payer key amount) :
    l'.total Account.funds = l.total Account.funds := by
  let middle := l.set payer (l'.get payer)
  have payer_eq : middle.get payer = l'.get payer := Ledger.get_set_same _ _ _
  have key_eq : middle.get key = l.get key := Ledger.get_set_other _ _ h.apart
  have first : middle.total Account.funds + (l.get payer).funds =
      l.total Account.funds + (middle.get payer).funds :=
    Ledger.total_change rfl fun k other => congrArg Account.funds (Ledger.get_set_other _ _ other)
  have second : l'.total Account.funds + (middle.get key).funds =
      middle.total Account.funds + (l'.get key).funds := by
    refine Ledger.total_change rfl fun k other => congrArg Account.funds ?_
    by_cases same : k = payer
    · rw [same, payer_eq]
    · rw [h.others k other same]
      exact (Ledger.get_set_other _ _ same).symm
  have lost : (l'.get payer).funds = (l.get payer).funds - amount.toNat := by
    rw [Account.funds, h.charged]
    exact UInt64.toNat_sub_of_le _ _ h.covered
  have got : (l'.get key).funds = (l.get key).funds + amount.toNat := by
    rw [Account.funds, h.credited]
    exact toNat_add_of_lt h.room
  have covered : amount.toNat ≤ (l.get payer).funds := UInt64.le_iff_toNat_le.mp h.covered
  rw [payer_eq, lost] at first
  rw [key_eq, got] at second
  omega

theorem provide_within {f : Footprint} (width : space ≠ 0) (made : key ∈ f.made)
    (charged : payer ∈ f.charged) (h : provide payer key space owner l = .ok l') :
    l.Within f l' := by
  have pays := provide_pays width h
  have creates := provide_creates h
  have apart {k : Key} (new : k ∉ f.made) : k ≠ key := fun same => new (same ▸ made)
  refine ⟨fun k new => (creates.content k (apart new)).1,
    fun k new _ => (creates.content k (apart new)).2, sameHosts_of_provide h,
    fun k new free => ?_, fun k new => ?_, pays.total_eq⟩
  · have third : k ≠ payer := fun same => free (same ▸ charged)
    rw [pays.others k (apart new) third]
  · by_cases third : k = payer
    · rw [third, pays.charged]
      exact UInt64.sub_le pays.covered
    · exact UInt64.le_of_eq (by rw [pays.others k (apart new) third])

end System

section Writes

variable {α : Type} [Record α] {field label : String} {d : Derivation} {payer a : AccountRef}
  {l l₁ l' : Ledger} {bump : UInt8} {key : Key} {value : α} {f : Footprint}

theorem within_of_store (known : key ∈ f.made ∨ key ∈ f.written)
    (stored : store field key value l = .ok l') : l.Within f l' := by
  obtain ⟨-, rfl⟩ := store_eq_ok.mp stored
  exact Ledger.within_setData known

theorem within_of_createRecord (width : Record.space α ≠ 0) (made : a.key ∈ f.made)
    (charged : payer.key ∈ f.charged)
    (created : createRecord α field d payer a l = .ok (l₁, bump)) : l.Within f l₁ :=
  System.provide_within width made charged (createRecord_eq_ok.mp created).2.1

theorem within_of_creation (width : Record.space α ≠ 0) (made : a.key ∈ f.made)
    (charged : payer.key ∈ f.charged)
    (created : createRecord α field d payer a l = .ok (l₁, bump))
    (stored : store label a.key value l₁ = .ok l') : l.Within f l' :=
  (within_of_createRecord width made charged created).trans (within_of_store (.inl made) stored)

theorem ne_payer_of_createRecord (width : Record.space α ≠ 0)
    (created : createRecord α field d payer a l = .ok (l₁, bump)) : a.key ≠ payer.key := by
  obtain ⟨-, provided, -⟩ := createRecord_eq_ok.mp created
  exact (System.provide_pays width provided).apart

theorem Token.issue_within {mint target authority : Key} {amount : UInt64}
    (target_known : target ∈ f.written) (mint_known : mint ∈ f.written)
    (h : Token.issue mint target authority amount l = .ok l') : l.Within f l' := by
  obtain ⟨holding, -, -, -, -, m, -, -, -, -, -, -, rfl⟩ := Token.issue_eq_ok.mp h
  exact (Ledger.within_setData (.inr target_known)).trans
    (Ledger.within_setData (.inr mint_known))

end Writes

namespace Operation

def listed (o : Operation) (fields : List String) (accounts : List AccountRef) : List Key :=
  (o.accountFields.zip (accounts.map (·.key))).filterMap fun (field, key) =>
    if field.name ∈ fields then some key else none

/-- The fields whose accounts the operation writes and has not made. -/
def writtenFields : Operation → List String
  | handOverRegistry | changeServiceSigner => ["config"]
  | handOverVault kind => [vaultField kind]
  | updateProfile | createHandle => ["user_account"]
  | moveHandle => ["from_user_account", "to_user_account", "handle_asset"]
  | handOverServer => ["server_account"]
  | mintTokens => ["mint"]
  | _ => []

def payerFields : Operation → List String
  | createRegistry | openVault _ | createMint => ["payer"]
  | createUser | createHandle | createServer => ["signer"]
  | _ => []

/-- The accounts after the fields, where the operation takes any number of them. -/
def furtherKeys : Operation → List AccountRef → List Key
  | mintTokens, accounts => (accounts.drop mintTokens.accountFields.length).map (·.key)
  | _, _ => []

def footprint (o : Operation) (accounts : List AccountRef) : Footprint where
  made := o.initKeys accounts
  written := o.listed o.writtenFields accounts ++ o.furtherKeys accounts
  charged := o.listed o.payerFields accounts

variable {o : Operation} {accounts : List AccountRef}

theorem listed_nil : o.listed [] accounts = [] := by simp [listed]

theorem made_eq_nil (none : o.initFields = []) : (o.footprint accounts).made = [] := by
  change o.listed o.initFields accounts = []
  rw [none, listed_nil]

theorem charged_eq_nil (none : o.initFields = []) : (o.footprint accounts).charged = [] := by
  have free : o.payerFields = [] := by
    cases o <;> first | rfl | cases none
  change o.listed o.payerFields accounts = []
  rw [free, listed_nil]

/-- What makes accounts writes no others, but for the profile that gets a handle. -/
theorem written_eq_nil (makes : o.initFields ≠ []) (other : o ≠ .createHandle) :
    (o.footprint accounts).written = [] := by
  have fields : o.writtenFields = [] := by
    cases o <;> first | rfl | exact absurd rfl makes | exact absurd rfl other
  have further : o.furtherKeys accounts = [] := by
    cases o <;> first | rfl | exact absurd rfl makes
  change o.listed o.writtenFields accounts ++ o.furtherKeys accounts = []
  rw [fields, further, listed_nil, List.append_nil]

end Operation

namespace Program
open Operation (footprint)

variable {call : Call} {l' : Ledger}

theorem createMint_within {terms : MintTerms} (h : (createMint call terms).Gives l') :
    call.ledger.Within (footprint .createMint call.accounts) l' := by
  obtain ⟨a, rest, load, l₁, mintBump, opened, -, l₂, bump, created, -, -, -, m, -, stored⟩ :=
    createMint_gives.mp h
  obtain ⟨token, system, accounts, -⟩ := CreateMint.load_eq_ok.mp load
  have made : (footprint .createMint call.accounts).made = [a.mint.key, a.mintRecord.key] := by
    rw [accounts]
    rfl
  have charged : (footprint .createMint call.accounts).charged = [a.payer.key] := by
    rw [accounts]
    rfl
  have mint : a.mint.key ∈ (footprint .createMint call.accounts).made := by simp [made]
  have record : a.mintRecord.key ∈ (footprint .createMint call.accounts).made := by simp [made]
  have payer : a.payer.key ∈ (footprint .createMint call.accounts).charged := by simp [charged]
  have first := System.provide_within (by decide) mint payer (create_eq_ok.mp opened).2
  exact (first.trans (Ledger.within_setData (.inl mint))).trans
    (within_of_creation (by decide) record payer created stored)

theorem pay_within {f : Footprint} {l : Ledger} {mint authority : Key} {ps : List Payment}
    (mint_known : mint ∈ f.written) (known : ∀ p ∈ ps, p.target.key ∈ f.written)
    (h : (pay mint authority ps l).Gives l') : l.Within f l' := by
  induction ps generalizing l with
  | nil =>
    cases h
    exact .refl _
  | cons p ps ih =>
    obtain ⟨-, l₁, issued, rest⟩ := pay_cons_gives.mp h
    have first := Token.issue_within (known p List.mem_cons_self) mint_known issued
    exact first.trans (ih (fun q later => known q (List.mem_cons_of_mem _ later)) rest)

theorem target_mem_of_payments {targets : List AccountRef} {recipients : List Key}
    {amounts : List UInt64} {p : Payment} (h : p ∈ payments targets recipients amounts) :
    p.target ∈ targets := by
  induction targets generalizing recipients amounts with
  | nil => cases h
  | cons target targets ih =>
    cases recipients with
    | nil => cases h
    | cons recipient recipients =>
      cases amounts with
      | nil => cases h
      | cons amount amounts =>
        rcases List.mem_cons.mp h with rfl | later
        · exact List.mem_cons_self
        · exact List.mem_cons_of_mem _ (ih later)

theorem mintTokens_within {recipients : List Key} {amounts : List UInt64}
    (h : (mintTokens call recipients amounts).Gives l') :
    call.ledger.Within (footprint .mintTokens call.accounts) l' := by
  obtain ⟨a, targets, load, -, -, -, -, -, -, -, paid⟩ := mintTokens_gives.mp h
  obtain ⟨token, accounts, -⟩ := MintTokens.load_eq_ok.mp load
  have written : (footprint .mintTokens call.accounts).written =
      a.mint.key :: targets.map (·.key) := by
    rw [accounts]
    rfl
  refine pay_within ?_ (fun p listed => ?_) paid
  · rw [written]
    exact List.mem_cons_self
  · rw [written]
    exact List.mem_cons_of_mem _ (List.mem_map_of_mem (target_mem_of_payments listed))

theorem perform_within {i : Instruction} (h : (perform call i).Gives l') :
    call.ledger.Within (footprint i.operation call.accounts) l' := by
  cases i with
  | createRegistry =>
    obtain ⟨a, rest, load, l₁, bump, created, -, -, stored⟩ := createRegistry_gives.mp h
    obtain ⟨system, accounts, -⟩ := CreateRegistry.load_eq_ok.mp load
    rw [accounts]
    exact within_of_creation (by decide) List.mem_cons_self List.mem_cons_self created stored
  | handOverRegistry =>
    obtain ⟨a, rest, load, -, stored⟩ := handOverRegistry_gives.mp h
    rw [(HandOverRegistry.load_eq_ok.mp load).1]
    exact within_of_store (.inr List.mem_cons_self) stored
  | changeServiceSigner what =>
    obtain ⟨a, rest, load, -, changed, -, stored⟩ := changeServiceSigner_gives.mp h
    rw [(ChangeServiceSigner.load_eq_ok.mp load).1]
    exact within_of_store (.inr List.mem_cons_self) stored
  | openVault opening =>
    obtain ⟨a, rest, load, l₁, bump, created, -, -, v, -, stored⟩ := openVault_gives.mp h
    obtain ⟨system, accounts, -⟩ := OpenVault.load_eq_ok.mp load
    rw [accounts]
    refine within_of_creation (by decide) ?_ List.mem_cons_self created stored
    cases opening <;> exact List.mem_cons_self
  | handOverVault kind =>
    obtain ⟨a, rest, load, -, -, -, v, -, stored⟩ := handOverVault_gives.mp h
    rw [(HandOverVault.load_eq_ok.mp load).1]
    refine within_of_store (.inr ?_) stored
    cases kind <;> exact List.mem_cons_self
  | createUser username =>
    obtain ⟨a, rest, load, l₁, bump, created, -, -, vault, -, stored⟩ := createUser_gives.mp h
    obtain ⟨system, accounts, -⟩ := CreateUser.load_eq_ok.mp load
    rw [accounts]
    exact within_of_creation (by decide) List.mem_cons_self List.mem_cons_self created stored
  | updateProfile profileEffect theme =>
    obtain ⟨a, rest, load, -, stored⟩ := updateProfile_gives.mp h
    rw [(UpdateProfile.load_eq_ok.mp load).1]
    exact within_of_store (.inr List.mem_cons_self) stored
  | createHandle text =>
    obtain ⟨a, rest, load, l₁, bump, created, -, -, -, u, -, l₂, first, second⟩ :=
      createHandle_gives.mp h
    obtain ⟨system, accounts, -⟩ := CreateHandle.load_eq_ok.mp load
    rw [accounts]
    refine ((within_of_createRecord (by decide) ?_ ?_ created).trans
      (within_of_store (.inr ?_) first)).trans (within_of_store (.inl ?_) second) <;>
      exact List.mem_cons_self
  | moveHandle =>
    obtain ⟨a, rest, load, -, -, -, -, -, -, moved, -, l₁, first, l₂, second, third⟩ :=
      moveHandle_gives.mp h
    rw [(MoveHandle.load_eq_ok.mp load).1]
    refine ((within_of_store (.inr ?_) first).trans (within_of_store (.inr ?_) second)).trans
      (within_of_store (.inr ?_) third)
    · exact List.mem_cons_self
    · exact List.mem_cons_of_mem _ List.mem_cons_self
    · exact List.mem_cons_of_mem _ (List.mem_cons_of_mem _ List.mem_cons_self)
  | createServer name ticker =>
    obtain ⟨a, rest, load, l₁, bump, created, -, server, -, stored⟩ := createServer_gives.mp h
    obtain ⟨system, accounts, -⟩ := CreateServer.load_eq_ok.mp load
    rw [accounts]
    exact within_of_creation (by decide) List.mem_cons_self List.mem_cons_self created stored
  | handOverServer next =>
    obtain ⟨a, rest, load, -, -, -, stored⟩ := handOverServer_gives.mp h
    rw [(HandOverServer.load_eq_ok.mp load).1]
    exact within_of_store (.inr List.mem_cons_self) stored
  | createMint terms => exact createMint_within h
  | mintTokens recipients amounts => exact mintTokens_within h

section Made

variable {α : Type} [Record α] {field : String} {d : Derivation} {payer a : AccountRef}
  {l l₁ : Ledger} {bump : UInt8} {f : Footprint} {k : Key}

theorem makes_of_creation (width : Record.space α ≠ 0) (charged : f.charged = [payer.key])
    (written : a.key ∉ f.written) (created : createRecord α field d payer a l = .ok (l₁, bump))
    (kept : (l'.get a.key).owner = (l₁.get a.key).owner) : f.Makes l l' a.key where
  free := free_of_creation created
  uncharged := by
    rw [charged, List.mem_singleton]
    exact ne_payer_of_createRecord width created
  unwritten := written
  owned := .inl (kept.trans (createRecord_creates created).owner_eq)

theorem createHandle_makes {text : String} (h : (createHandle call text).Gives l')
    (made : k ∈ (footprint .createHandle call.accounts).made) :
    (footprint .createHandle call.accounts).Makes call.ledger l' k := by
  obtain ⟨a, rest, load, l₁, bump, created, -, -, -, u, -, l₂, first, second⟩ :=
    createHandle_gives.mp h
  obtain ⟨system, accounts, -, held, -⟩ := CreateHandle.load_eq_ok.mp load
  rw [accounts] at made ⊢
  rw [List.mem_singleton.mp made]
  refine makes_of_creation (by decide) rfl (fun same => ?_) created ?_
  · have free := (createRecord_creates created).records_self
    have here : a.handle.key = a.user.key := List.mem_singleton.mp same
    rw [here, held] at free
    cases free
  · rw [Ledger.owner_of_store second, Ledger.owner_of_store first]

theorem createMint_makes {terms : MintTerms} (h : (createMint call terms).Gives l')
    (made : k ∈ (footprint .createMint call.accounts).made) :
    (footprint .createMint call.accounts).Makes call.ledger l' k := by
  have free := createMint_free h made
  obtain ⟨a, rest, load, l₁, mintBump, opened, -, l₂, bump, created, -, -, -, m, -, stored⟩ :=
    createMint_gives.mp h
  obtain ⟨token, system, accounts, -⟩ := CreateMint.load_eq_ok.mp load
  have provided := (create_eq_ok.mp opened).2
  have creates := createRecord_creates created
  have mint_owner : ((Token.openMint a.mint.key a.mintAuthority.key terms.decimals l₁).get
      a.mint.key).owner = Identity.tokenProgram :=
    Ledger.owner_setData.trans (System.provide_creates provided).owner_eq
  rw [accounts] at made ⊢
  rcases List.mem_cons.mp made with same | last
  · have pays := System.provide_pays (by decide) provided
    have apart : a.mint.key ≠ a.mintRecord.key := by
      intro one
      have record := creates.free
      rw [← one, mint_owner] at record
      exact absurd record (by decide)
    rw [same] at free ⊢
    refine ⟨free, fun payer => pays.apart (List.mem_singleton.mp payer), List.not_mem_nil, .inr ?_⟩
    rw [Ledger.owner_of_store stored, (creates.content _ apart).1, mint_owner]
  · rw [List.mem_singleton.mp last] at free ⊢
    have other := ne_payer_of_createRecord (by decide) created
    refine ⟨free, fun payer => other (List.mem_singleton.mp payer), List.not_mem_nil, .inl ?_⟩
    rw [Ledger.owner_of_store stored, creates.owner_eq]

/-- What is listed to be made is made, and is neither charged nor listed for a write. -/
theorem perform_makes {i : Instruction} (h : (perform call i).Gives l')
    (made : k ∈ (footprint i.operation call.accounts).made) :
    (footprint i.operation call.accounts).Makes call.ledger l' k := by
  cases i with
  | createRegistry =>
    obtain ⟨a, rest, load, l₁, bump, created, -, -, stored⟩ := createRegistry_gives.mp h
    obtain ⟨system, accounts, -⟩ := CreateRegistry.load_eq_ok.mp load
    rw [accounts] at made ⊢
    rw [List.mem_singleton.mp made]
    exact makes_of_creation (by decide) rfl List.not_mem_nil created (Ledger.owner_of_store stored)
  | openVault opening =>
    obtain ⟨a, rest, load, l₁, bump, created, -, -, v, -, stored⟩ := openVault_gives.mp h
    obtain ⟨system, accounts, -⟩ := OpenVault.load_eq_ok.mp load
    rw [accounts] at made ⊢
    have here : k = a.vault.key := by
      cases opening <;> exact List.mem_singleton.mp made
    rw [here]
    have payer : (footprint (.openVault opening.kind) (a.payer :: a.serviceSigner :: a.authority ::
        a.registry.ref :: a.vault :: system :: rest)).charged = [a.payer.key] := by
      cases opening <;> rfl
    exact makes_of_creation (by decide) payer List.not_mem_nil created
      (Ledger.owner_of_store stored)
  | createUser username =>
    obtain ⟨a, rest, load, l₁, bump, created, -, -, vault, -, stored⟩ := createUser_gives.mp h
    obtain ⟨system, accounts, -⟩ := CreateUser.load_eq_ok.mp load
    rw [accounts] at made ⊢
    rw [List.mem_singleton.mp made]
    exact makes_of_creation (by decide) rfl List.not_mem_nil created (Ledger.owner_of_store stored)
  | createHandle text => exact createHandle_makes h made
  | createServer name ticker =>
    obtain ⟨a, rest, load, l₁, bump, created, -, server, -, stored⟩ := createServer_gives.mp h
    obtain ⟨system, accounts, -⟩ := CreateServer.load_eq_ok.mp load
    rw [accounts] at made ⊢
    rw [List.mem_singleton.mp made]
    exact makes_of_creation (by decide) rfl List.not_mem_nil created (Ledger.owner_of_store stored)
  | createMint terms => exact createMint_makes h made
  | _ =>
    rw [Operation.made_eq_nil rfl] at made
    cases made

end Made
end Program
end VaultMarket
