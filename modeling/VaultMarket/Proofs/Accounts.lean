import VaultMarket.Proofs.Origins
set_option autoImplicit false

namespace VaultMarket
open Function (update)
open LawfulWire (Fits)

def Stored.space : Stored → Nat
  | registry _ => Record.space Registry
  | vault _ => Record.space Vault
  | user _ => Record.space User
  | asset _ => Record.space Asset
  | server _ => Record.space Server
  | mintRecord _ => Record.space MintRecord

theorem Stored.space_eq_of_kind {s s' : Stored} (same : s.kind = s'.kind) : s.space = s'.space := by
  cases s <;> cases s' <;> cases same <;> rfl

namespace Ledger

variable {l l₁ l' : Ledger} {key owner : Key} {space : Nat}

def room (l : Ledger) (key : Key) : Option Nat :=
  if (l.get key).owner = Identity.program then some (l.get key).data.length else none

theorem room_eq_some {n : Nat} : l.room key = some n ↔
    (l.get key).owner = Identity.program ∧ (l.get key).data.length = n := by
  unfold room
  split <;> simp_all

theorem room_of_foreign (h : (l.get key).owner ≠ Identity.program) : l.room key = none := if_neg h

theorem Creates.room_other (h : l.Creates l' key owner space) {k : Key} (other : k ≠ key) :
    l'.room k = l.room k := by
  obtain ⟨owner_eq, data_eq⟩ := h.content k other
  rw [room, room, owner_eq, data_eq]

theorem Creates.room_eq (h : l.Creates l' key owner space) (foreign : owner ≠ Identity.program) :
    l'.room = l.room := by
  funext k
  by_cases same : k = key
  · subst same
    have free : (l.get k).owner ≠ Identity.program := by rw [h.free]; decide
    rw [room_of_foreign free, room_of_foreign (h.owner_eq ▸ foreign)]
  · exact h.room_other same

theorem Creates.room_update (h : l.Creates l' key Identity.program space) :
    l'.room = update l.room key (some space) := by
  funext k
  by_cases same : k = key
  · subst same
    rw [Function.update_self, room_eq_some, h.data_eq]
    exact ⟨h.owner_eq, List.length_replicate⟩
  · rw [Function.update_of_ne same, h.room_other same]

theorem TokensOnly.room_eq (h : l.TokensOnly l') : l'.room = l.room := by
  funext k
  by_cases own : (l.get k).owner = Identity.program
  · have foreign : (l.get k).owner ≠ Identity.tokenProgram := by rw [own]; decide
    rw [room, h.spared k foreign, room]
  · rw [room_of_foreign own, room_of_foreign (h.owner_eq k ▸ own)]

theorem length_overwrite_zero {data new : Bytes} (short : new.length ≤ data.length) :
    (data.overwrite 0 new).length = data.length := by
  rw [Record.overwrite_zero, List.length_append, List.length_drop]
  omega

theorem room_eq_of_store {α : Type} [Record α] {field : String} {value : α}
    (h : store field key value l = .ok l') : l'.room = l.room := by
  obtain ⟨short, rfl⟩ := store_eq_ok.mp h
  funext k
  by_cases same : k = key
  · subst same
    rw [room, setData, get_set_same, length_overwrite_zero short, room]
  · rw [room, setData, get_set_other _ _ same, room]

/-- The accounts of the program keep their room, but for at most one new account that has the room
for the record that it holds. -/
def Grows (l l' : Ledger) : Prop :=
  l'.room = l.room ∨ ∃ key s, l'.records key = some s ∧ l'.room = update l.room key (some s.space)

end Ledger

section Creation

variable {α : Type} [Record α] [LawfulWire α] [Kind α] {field label : String} {d : Derivation}
  {payer a : AccountRef} {l l₁ l' : Ledger} {bump : UInt8} {value : α}

theorem grows_of_creation (created : createRecord α field d payer a l = .ok (l₁, bump))
    (stored : store label a.key value l₁ = .ok l') (fits : Fits value)
    (width : (Kind.wrap value).space = Record.space α) : l.Grows l' := by
  refine .inr ⟨a.key, Kind.wrap value, ?_, ?_⟩
  · rw [records_of_creation created stored fits, Function.update_self]
  · rw [Ledger.room_eq_of_store stored, (createRecord_creates created).room_update, width]

end Creation

namespace Program

variable {call : Call} {l' : Ledger}

theorem createUser_grows {username : String} (h : (createUser call username).Gives l') :
    call.ledger.Grows l' := by
  obtain ⟨a, rest, -, l₁, bump, created, -, label, vault, -, stored⟩ := createUser_gives.mp h
  have fits : Fits (User.fresh a.signer.key username vault.address bump) :=
    User.fits_iff.mpr (Nat.lt_of_le_of_lt (validateLabel_eq_ok.mp label).2 (by decide))
  exact grows_of_creation created stored fits rfl

theorem createHandle_grows {text : String} (h : (createHandle call text).Gives l') :
    call.ledger.Grows l' := by
  obtain ⟨a, rest, -, l₁, bump, created, -, -, label, u, -, l₂, first, second⟩ :=
    createHandle_gives.mp h
  have short : Fits (Asset.handle a.signer.key text bump) :=
    Asset.fits_iff.mpr (Nat.lt_of_le_of_lt (validateLabel_eq_ok.mp label).2 (by decide))
  have room : l₂.room = update call.ledger.room a.handle.key (some (Record.space Asset)) := by
    rw [Ledger.room_eq_of_store first, (createRecord_creates created).room_update]
  have own : (l₂.get a.handle.key).owner = Identity.program :=
    (Ledger.room_eq_some.mp (congrFun room a.handle.key |>.trans (Function.update_self ..))).1
  refine .inr ⟨a.handle.key, .asset (Asset.handle a.signer.key text bump), ?_, ?_⟩
  · rw [store_records second own short, Function.update_self]
    rfl
  · rw [Ledger.room_eq_of_store second, room]
    rfl

theorem createMint_grows {terms : MintTerms} (h : (createMint call terms).Gives l') :
    call.ledger.Grows l' := by
  obtain ⟨a, rest, -, l₁, mintBump, made, -, l₂, bump, created, -, -, -, m, fresh, stored⟩ :=
    createMint_gives.mp h
  have opens := System.provide_creates (create_eq_ok.mp made).2
  have tokens : l₁.TokensOnly (Token.openMint a.mint.key a.mintAuthority.key terms.decimals l₁) :=
    Ledger.tokensOnly_setData opens.owner_eq
  have same : (Token.openMint a.mint.key a.mintAuthority.key terms.decimals l₁).room =
      call.ledger.room := by
    rw [tokens.room_eq, opens.room_eq (by decide)]
  have grows := grows_of_creation created stored (MintRecord.fits_of_fresh fresh) rfl
  rwa [Ledger.Grows, same] at grows

theorem perform_grows {i : Instruction} (h : (perform call i).Gives l') :
    call.ledger.Grows l' := by
  cases i with
  | createRegistry =>
    obtain ⟨a, rest, -, l₁, bump, created, -, -, stored⟩ := createRegistry_gives.mp h
    exact grows_of_creation created stored (Registry.fits _) rfl
  | handOverRegistry =>
    obtain ⟨a, rest, -, -, stored⟩ := handOverRegistry_gives.mp h
    exact .inl (Ledger.room_eq_of_store stored)
  | changeServiceSigner what =>
    obtain ⟨a, rest, -, -, changed, -, stored⟩ := changeServiceSigner_gives.mp h
    exact .inl (Ledger.room_eq_of_store stored)
  | openVault opening =>
    obtain ⟨a, rest, -, l₁, bump, created, -, -, v, fresh, stored⟩ := openVault_gives.mp h
    exact grows_of_creation created stored (Vault.fits_of_fresh fresh) rfl
  | handOverVault kind =>
    obtain ⟨a, rest, -, -, -, -, v, -, stored⟩ := handOverVault_gives.mp h
    exact .inl (Ledger.room_eq_of_store stored)
  | createUser username => exact createUser_grows h
  | updateProfile profileEffect theme =>
    obtain ⟨a, rest, -, -, stored⟩ := updateProfile_gives.mp h
    exact .inl (Ledger.room_eq_of_store stored)
  | createHandle text => exact createHandle_grows h
  | moveHandle =>
    obtain ⟨a, rest, -, -, -, -, -, -, -, moved, -, l₁, first, l₂, second, third⟩ :=
      moveHandle_gives.mp h
    rw [Ledger.Grows, Ledger.room_eq_of_store third, Ledger.room_eq_of_store second,
      Ledger.room_eq_of_store first]
    exact .inl rfl
  | createServer name ticker =>
    obtain ⟨a, rest, -, l₁, bump, created, -, server, fresh, stored⟩ := createServer_gives.mp h
    exact grows_of_creation created stored (Server.fits_of_fresh fresh) rfl
  | handOverServer next =>
    obtain ⟨a, rest, -, -, -, -, stored⟩ := handOverServer_gives.mp h
    exact .inl (Ledger.room_eq_of_store stored)
  | createMint terms => exact createMint_grows h
  | mintTokens recipients amounts =>
    obtain ⟨a, targets, load, -, -, -, -, -, -, -, paid⟩ := mintTokens_gives.mp h
    obtain ⟨token, -, -, -, minted, -⟩ := MintTokens.load_eq_ok.mp load
    exact .inl (pay_tokensOnly minted paid).room_eq

end Program

/-- Every account of the program holds a record and has the room for the longest of its kind. -/
def Ledger.Sized (l : Ledger) : Prop :=
  ∀ key n, l.room key = some n → ∃ s, l.records key = some s ∧ n = s.space

theorem Ledger.Sized.grows {l l' : Ledger} (sized : l.Sized) (grows : l.Grows l')
    (stays : ∀ k s, l.records k = some s → ∃ s', l'.records k = some s' ∧ s'.kind = s.kind) :
    l'.Sized := by
  have kept (k : Key) (n : Nat) (room : l.room k = some n) :
      ∃ s, l'.records k = some s ∧ n = s.space := by
    obtain ⟨s, held, width⟩ := sized k n room
    obtain ⟨s', held', kind⟩ := stays k s held
    exact ⟨s', held', width.trans (Stored.space_eq_of_kind kind.symm)⟩
  intro k n room
  rcases grows with same | ⟨key, s, held, same⟩
  · rw [same] at room
    exact kept k n room
  · rw [same] at room
    by_cases new : k = key
    · subst new
      rw [Function.update_self] at room
      exact ⟨s, held, (Option.some.inj room).symm⟩
    · rw [Function.update_of_ne new] at room
      exact kept k n room

namespace World

variable {w : World} {s : Step}

theorem answerCall_grows {key : Key} {data : Bytes} {accounts : List AccountRef} :
    w.ledger.Grows (w.answerCall key data accounts).1.ledger := by
  change w.ledger.Grows (settle w.ledger (w.call key data accounts).result)
  cases outcome : (w.call key data accounts).result with
  | error failure => exact .inl rfl
  | ok l' =>
    obtain ⟨-, i, -, done⟩ := Program.execute_gives.mp (outcome : Outcome.Gives _ l')
    exact Program.perform_grows done

theorem step_grows (honest : s.Honest w) : w.ledger.Grows (w.step s).1.ledger := by
  cases s with
  | setClock now => exact .inl rfl
  | setAccount key account =>
    refine .inl (funext fun k => ?_)
    change (w.ledger.set key account).room k = w.ledger.room k
    by_cases same : k = key
    · subst same
      have foreign : ((w.ledger.set k account).get k).owner ≠ Identity.program := by
        rw [Ledger.get_set_same]
        exact honest.2
      rw [Ledger.room_of_foreign honest.1, Ledger.room_of_foreign foreign]
    · rw [Ledger.room, Ledger.get_set_other _ _ same, Ledger.room]
  | request key i accounts => exact answerCall_grows
  | requestRaw key data accounts => exact answerCall_grows

theorem step_stays (honest : s.Honest w) (k : Key) (r : Stored)
    (held : w.ledger.records k = some r) :
    ∃ r', (w.step s).1.ledger.records k = some r' ∧ r'.kind = r.kind := by
  have advance := step_advance honest
  generalize w.receipt? s = c? at advance
  cases advance with
  | idle same _ => exact ⟨r, same ▸ held, rfl⟩
  | call effect _ => exact effect.stays held

theorem sized_of_honest (steps : List Step) (honest : genesis.Honest steps) :
    (reached steps).ledger.Sized := by
  induction steps using List.reverseRecOn with
  | nil =>
    intro key n room
    have own : (Ledger.genesis.get key).owner = Identity.program := (Ledger.room_eq_some.mp room).1
    rw [owner_genesis] at own
    exact absurd own (by decide)
  | append_singleton steps last ih =>
    obtain ⟨earlier, fair⟩ := honest_concat.mp honest
    rw [reached, run_concat]
    exact (ih earlier).grows (step_grows fair) (step_stays fair)

end World

/-- In every ledger of an honest run, each account of the program decodes as one of the six records,
has the room for the longest of its kind, and is where its own fields say. -/
theorem program_accounts_sound (steps : List Step) (honest : World.genesis.Honest steps) (key : Key)
    (own : ((World.reached steps).ledger.get key).owner = Identity.program) :
    ∃ s, Stored.ReadsAs ((World.reached steps).ledger.get key).data s ∧
      ((World.reached steps).ledger.get key).data.length = s.space ∧ s.Sound key := by
  have room := Ledger.room_eq_some.mpr ⟨own, rfl⟩
  obtain ⟨s, held, width⟩ := World.sized_of_honest steps honest key _ room
  have reads := (Account.record?_eq_some.mp held).2
  exact ⟨s, reads, width, (RecordTrail.of_honest steps honest).sound held⟩

section Samples
open AccountRef (signing written shown)

def Derivation.sampleMint : Derivation := .tokenMint (Key.filled 1) 7

def Step.everyKind : List Step := founding ++
  [fund (Key.filled 1),
   ask (.openVault (.server ⟨"id", "name"⟩)) [signing (Key.filled 1), signing (Key.filled 3),
     signing (Key.filled 1), shown Program.registryAddress.home,
     written (Derivation.vault .server (Key.filled 1)).home, shown Identity.systemProgram],
   ask (.createUser "one") [signing (Key.filled 1), written (Derivation.user "one").home,
     shown Identity.systemProgram],
   ask (.createHandle "h") [signing (Key.filled 1), written (Derivation.user "one").home,
     written (Derivation.handle "h").home, shown Identity.systemProgram],
   ask (.createServer "guild" "GLD") [signing (Key.filled 1),
     written (Derivation.server "guild" "GLD").home, shown Identity.systemProgram],
   ask (.createMint ⟨"Gold", "GLD", 6, "", 7⟩) [signing (Key.filled 1), signing (Key.filled 3),
     shown Program.registryAddress.home, shown Derivation.mintAuthority.home,
     written Derivation.sampleMint.home,
     written (Derivation.mintRecord Derivation.sampleMint.home).home,
     shown Identity.tokenProgram, shown Identity.systemProgram]]

def Derivation.everyKind : List Derivation :=
  [Program.registryAddress, .vault .server (Key.filled 1), .user "one", .handle "h",
   .server "guild" "GLD", .mintRecord Derivation.sampleMint.home]

def Stored.kindAt (steps : List Step) (d : Derivation) : Option RecordKind :=
  ((World.reached steps).ledger.records d.home).map Stored.kind

theorem owner_of_kindAt {steps : List Step} {d : Derivation} (h : Stored.kindAt steps d ≠ none) :
    ((World.reached steps).ledger.get d.home).owner = Identity.program := by
  cases held : (World.reached steps).ledger.records d.home with
  | none =>
    rw [Stored.kindAt, held] at h
    exact absurd rfl h
  | some s => exact Ledger.owner_of_records held

set_option maxRecDepth 100000 in
theorem program_accounts_sound_of_every_kind : World.genesis.Honest Step.everyKind ∧
    Derivation.everyKind.map (Stored.kindAt Step.everyKind) =
      [some .registry, some .vault, some .user, some .asset, some .server, some .mintRecord] ∧
    ∀ d ∈ Derivation.everyKind,
      ((World.reached Step.everyKind).ledger.get d.home).owner = Identity.program ∧
      ∃ s, Stored.ReadsAs ((World.reached Step.everyKind).ledger.get d.home).data s ∧
        ((World.reached Step.everyKind).ledger.get d.home).data.length = s.space ∧
        s.Sound d.home := by
  have honest : World.genesis.Honest Step.everyKind := by decide +kernel
  have kinds : Derivation.everyKind.map (Stored.kindAt Step.everyKind) =
      [some .registry, some .vault, some .user, some .asset, some .server, some .mintRecord] := by
    decide +kernel
  refine ⟨honest, kinds, fun d known => ?_⟩
  have filled : Stored.kindAt Step.everyKind d ≠ none := by
    have all : ∀ o ∈ Derivation.everyKind.map (Stored.kindAt Step.everyKind), o ≠ none := by
      rw [kinds]
      decide
    exact all _ (List.mem_map_of_mem known)
  have own := owner_of_kindAt filled
  exact ⟨own, program_accounts_sound Step.everyKind honest d.home own⟩

end Samples
end VaultMarket
