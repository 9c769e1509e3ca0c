import VaultMarket.Proofs.Supply
set_option autoImplicit false

/-!
# A catalog built from events

An indexer that sees nothing but the events can keep a catalog of the registry, the vaults, the
users, the handles, the servers and the mints. The catalog leaves out the labels of vaults, the
descriptions and numbers of mints, and all bumps; the rest of it is at every point what the ledger
holds. Some of it no single event says: who changed the service signers is who had the authority
then, and a handle belongs to the authority of the profile that it is attached to.
-/

namespace VaultMarket
open Function (update)

structure RegistryView where
  signers : List Key
  count : UInt8
  authority : Key
  createdAt : Int64
  createdBy : Key
  modifiedAt : Int64
  modifiedBy : Key
deriving DecidableEq

structure VaultView where
  kind : VaultKind
  creator : Key
  authority : Key
  createdAt : Int64
  modifiedAt : Int64
deriving DecidableEq

structure UserView where
  authority : Key
  username : String
  vault : Key
  handle : Option Key
  profileEffect : Option Key
  theme : Option Key
deriving DecidableEq

structure HandleView where
  owner : Key
  text : String
deriving DecidableEq

structure ServerView where
  authority : Key
  name : String
  ticker : String
deriving DecidableEq

structure MintView where
  creator : Key
  name : String
  symbol : String
  decimals : UInt8
  createdAt : Int64
  supply : Nat
deriving DecidableEq

inductive View where
  | registry (r : RegistryView)
  | vault (v : VaultView)
  | user (u : UserView)
  | handle (h : HandleView)
  | server (s : ServerView)
deriving DecidableEq

def Registry.view (r : Registry) : RegistryView :=
  ⟨r.active, r.count, r.updateAuthority, r.createdAt, r.createdBy, r.modifiedAt, r.modifiedBy⟩

def Vault.view (v : Vault) : VaultView := ⟨v.kind, v.creator, v.authority, v.createdAt, v.modifiedAt⟩

def User.view (u : User) : UserView :=
  ⟨u.authority, u.username, u.vault, u.handle, u.profileEffect, u.theme⟩

def Asset.view (a : Asset) : HandleView := ⟨a.owner, a.text⟩

def Server.view (s : Server) : ServerView := ⟨s.authority, s.name, s.ticker⟩

/-- What the catalog has of a record. The record of a mint is listed with the mint. -/
def Stored.view? : Stored → Option View
  | registry r => some (.registry r.view)
  | vault v => some (.vault v.view)
  | user u => some (.user u.view)
  | asset a => some (.handle a.view)
  | server s => some (.server s.view)
  | mintRecord _ => none

abbrev Views := Key → Option View

def Records.views (r : Records) : Views := fun key => (r key).bind Stored.view?

structure Catalog where
  views : Views
  mints : Key → Option MintView

namespace Catalog

def empty : Catalog := ⟨fun _ => none, fun _ => none⟩

/-- What an event says about records. An event on something unknown says nothing. -/
def recordView (views : Views) : Event → Views
  | .registryCreated registry authority payer time =>
    update views registry (some (.registry ⟨[], 0, authority, time, payer, time, payer⟩))
  | .registryHandedOver registry previous next time =>
    match views registry with
    | some (.registry r) => update views registry (some (.registry
        { r with authority := next, modifiedAt := time, modifiedBy := previous }))
    | _ => views
  | .serviceSignerChanged registry service what count time =>
    match views registry with
    | some (.registry r) =>
      update views registry (some (.registry { r with
        signers := what.apply r.signers service
        count
        modifiedAt := time
        modifiedBy := r.authority }))
    | _ => views
  | .vaultOpened vault kind authority _ time =>
    update views vault (some (.vault ⟨kind, authority, authority, time, time⟩))
  | .vaultHandedOver vault _ _ next time =>
    match views vault with
    | some (.vault v) =>
      update views vault (some (.vault { v with authority := next, modifiedAt := time }))
    | _ => views
  | .userCreated user authority username vault _ =>
    update views user (some (.user ⟨authority, username, vault, none, none, none⟩))
  | .profileUpdated user profileEffect theme _ =>
    match views user with
    | some (.user u) => update views user (some (.user { u with profileEffect, theme }))
    | _ => views
  | .handleCreated user handle text _ =>
    match views user with
    | some (.user u) =>
      update (update views user (some (.user { u with handle := some handle })))
        handle (some (.handle ⟨u.authority, text⟩))
    | _ => views
  | .handleMoved handle source target _ =>
    match views source, views target, views handle with
    | some (.user s), some (.user t), some (.handle h) =>
      update (update (update views source (some (.user { s with handle := none })))
        target (some (.user { t with handle := some handle })))
        handle (some (.handle { h with owner := t.authority }))
    | _, _, _ => views
  | .serverCreated server authority name ticker _ =>
    update views server (some (.server ⟨authority, name, ticker⟩))
  | .serverHandedOver server _ next _ =>
    match views server with
    | some (.server s) => update views server (some (.server { s with authority := next }))
    | _ => views
  | .mintCreated .. | .tokensMinted .. => views

def recordMint (mints : Key → Option MintView) : Event → Key → Option MintView
  | .mintCreated mint creator name symbol decimals time =>
    update mints mint (some ⟨creator, name, symbol, decimals, time, 0⟩)
  | .tokensMinted mint _ total _ =>
    match mints mint with
    | some v => update mints mint (some { v with supply := v.supply + total.toNat })
    | none => mints
  | _ => mints

def record (c : Catalog) (e : Event) : Catalog :=
  ⟨recordView c.views e, recordMint c.mints e⟩

end Catalog

section Views

variable {before after : Records} {key : Key}

theorem Records.views_update (before : Records) (key : Key) (s : Stored) :
    Records.views (update before key (some s)) = update before.views key s.view? := by
  funext k
  by_cases same : k = key
  · subst same
    rw [views, Function.update_self, Function.update_self, Option.bind_some]
  · rw [views, Function.update_of_ne same, Function.update_of_ne same, views]

theorem Records.views_of_stored {s : Stored} (held : before key = some s) :
    before.views key = s.view? := by
  rw [views, held, Option.bind_some]

theorem Registry.view_of_change {r changed : Registry} {what : SignerChange} {service who : Key}
    {now : Int64} (change : r.change what service = .ok changed) :
    (changed.touch now who).view =
      { r.view with
        signers := what.apply r.active service
        count := changed.count
        modifiedAt := now
        modifiedBy := who } := by
  obtain ⟨-, createdAt, createdBy, authority⟩ := Registry.change_entries change
  have view : (changed.touch now who).view = ⟨changed.active, changed.count,
      changed.updateAuthority, changed.createdAt, changed.createdBy, now, who⟩ := rfl
  rw [view, Registry.active_change change, createdAt, createdBy, authority]
  rfl

/-- The event of a call says exactly what the call changes in the views of the records. -/
theorem Effect.view_recorded {now : Int64} {i : Instruction} {accounts : List AccountRef}
    {e : Event} (h : Effect now before i accounts after)
    (report : i.report? now after accounts = some e) :
    Catalog.recordView before.views e = after.views := by
  cases h with
  | createRegistry =>
    cases report
    rw [Records.views_update]
    rfl
  | handOverRegistry governs =>
    cases report
    have held := Records.views_of_stored governs.stored
    rw [Records.views_update]
    simp only [Catalog.recordView, held, Stored.view?]
    rfl
  | @changeServiceSigner what registry authority service rest r changed governs _ change =>
    simp only [Instruction.report?, Function.update_self] at report
    cases report
    have held := Records.views_of_stored governs.stored
    rw [Records.views_update]
    simp only [Catalog.recordView, held, Stored.view?, Registry.view_of_change change,
      ← governs.current]
    rfl
  | openVault _ _ _ _ fresh =>
    cases report
    obtain ⟨t, -, rfl⟩ := Vault.fresh_eq_ok.mp fresh
    rw [Records.views_update]
    rfl
  | handOverVault _ _ _ stored _ handOver =>
    obtain ⟨-, rfl⟩ := Vault.handOver_eq_ok.mp handOver
    simp only [Instruction.report?, Function.update_self] at report
    cases report
    have held := Records.views_of_stored stored
    rw [Records.views_update]
    simp only [Catalog.recordView, held, Stored.view?]
    rfl
  | createUser =>
    simp only [Instruction.report?, Function.update_self] at report
    cases report
    rw [Records.views_update]
    rfl
  | updateProfile owns =>
    simp only [Instruction.report?, Function.update_self] at report
    cases report
    have held := Records.views_of_stored owns.stored
    rw [Records.views_update]
    simp only [Catalog.recordView, held, Stored.view?]
    rfl
  | createHandle owns =>
    cases report
    have held := Records.views_of_stored owns.stored
    rw [Records.views_update, Records.views_update]
    simp only [Catalog.recordView, held, Stored.view?, ← owns.own]
    rfl
  | moveHandle owns other _ asset =>
    cases report
    have source := Records.views_of_stored owns.stored
    have target := Records.views_of_stored other.stored
    have handle := Records.views_of_stored asset.stored
    rw [Records.views_update, Records.views_update, Records.views_update]
    simp only [Catalog.recordView, source, target, handle, Stored.view?]
    rfl
  | createServer _ _ fresh =>
    cases report
    obtain ⟨-, -, rfl⟩ := Server.fresh_eq_ok.mp fresh
    rw [Records.views_update]
    rfl
  | handOverServer placed =>
    cases report
    have held := Records.views_of_stored placed.stored
    rw [Records.views_update]
    simp only [Catalog.recordView, held, Stored.view?]
    rfl
  | @createMint _ _ _ _ _ _ record _ _ _ _ _ _ _ _ _ _ vacancy =>
    cases report
    have free : before.views record.key = none := by
      rw [Records.views, vacancy.free, Option.bind_none]
    rw [Records.views_update, Stored.view?, ← free, Function.update_eq_self]
    rfl
  | mintTokens _ _ _ _ batch =>
    simp only [Instruction.report?, batch] at report
    cases report
    rfl

end Views

def MintRecord.view (r : MintRecord) (supply : Nat) : MintView :=
  ⟨r.creator, r.name, r.symbol, r.decimals, r.createdAt, supply⟩

/-- The ledger has the mint `m` and a record of it, and they say what the view says. -/
def Ledger.ShowsMint (l : Ledger) (m : Key) (v : MintView) : Prop :=
  ∃ k r mint, l.records k = some (.mintRecord r) ∧ r.mint = m ∧ l.mint? m = some mint ∧
    mint.decimals = r.decimals ∧ v = r.view mint.supply.toNat

/-- The mints of the catalog are in the ledger, and every record of the ledger is one of a mint of
the catalog. -/
structure MintsMatch (mints : Key → Option MintView) (l : Ledger) : Prop where
  shown : ∀ {m v}, mints m = some v → l.ShowsMint m v
  listed : ∀ {k r}, l.records k = some (.mintRecord r) → ∃ v, mints r.mint = some v

theorem Catalog.recordMint_of_report {i : Instruction} {now : Int64} {after : Records}
    {accounts : List AccountRef} {e : Event} {mints : Key → Option MintView}
    (opens : i.operation ≠ .createMint) (issues : i.operation ≠ .mintTokens)
    (report : i.report? now after accounts = some e) : recordMint mints e = mints := by
  unfold Instruction.report? at report
  split at report
  all_goals first
    | exact absurd rfl opens
    | exact absurd rfl issues
    | (cases report <;> rfl)
    | (split at report <;> cases report; rfl)

namespace MintsMatch

variable {mints : Key → Option MintView} {l l' : Ledger} {after : Records} {now : Int64}
  {i : Instruction} {accounts : List AccountRef} {e : Event}

theorem congr (all : MintsMatch mints l)
    (records : ∀ {k r}, l'.records k = some (.mintRecord r) ↔ l.records k = some (.mintRecord r))
    (same : ∀ {k r}, l.records k = some (.mintRecord r) → l'.mint? r.mint = l.mint? r.mint) :
    MintsMatch mints l' := by
  refine ⟨fun {m v} known => ?_, fun held => all.listed (records.mp held)⟩
  obtain ⟨k, r, mint, held, rfl, minted, decimals, view⟩ := all.shown known
  exact ⟨k, r, mint, records.mpr held, rfl, (same held).trans minted, decimals, view⟩

theorem createMint (all : MintsMatch mints l) {terms : MintTerms}
    {payer service registry authority mint : AccountRef} {rest : List AccountRef}
    (h : Effect now l.records (.createMint terms)
      (payer :: service :: registry :: authority :: mint :: rest) after)
    (same : l'.records = after)
    (opened : l'.tokens = update l.tokens mint.key
      (some (Wire.encode (Mint.fresh authority.key terms.decimals)))) :
    MintsMatch (update mints mint.key
      (some ⟨payer.key, terms.name, terms.symbol, terms.decimals, now, 0⟩)) l' := by
  have fresh : l'.mint? mint.key = some (Mint.fresh authority.key terms.decimals) := by
    rw [Ledger.mint?_of_opened opened, Function.update_self]
  cases h with
  | @createMint _ _ _ _ _ _ record rest r _ _ bump m _ _ _ _ vacancy new =>
    obtain ⟨-, rfl⟩ := MintRecord.fresh_eq_ok.mp new
    refine ⟨fun {k v} known => ?_, fun {k r} held => ?_⟩
    · by_cases here : k = mint.key
      · subst here
        rw [Function.update_self] at known
        cases known
        have held := (congrFun same record.key).trans (Function.update_self _ _ _)
        exact ⟨record.key, _, _, held, rfl, fresh, rfl, rfl⟩
      · rw [Function.update_of_ne here] at known
        obtain ⟨place, r, m, held, named, minted, decimals, view⟩ := all.shown known
        refine ⟨place, r, m, ?_, named, ?_, decimals, view⟩
        · rw [same, Function.update_of_ne (vacancy.ne_of_stored held).symm]
          exact held
        · rw [Ledger.mint?_of_opened opened, Function.update_of_ne here, minted]
    · by_cases here : r.mint = mint.key
      · rw [here]
        exact ⟨_, Function.update_self _ _ _⟩
      · rw [Function.update_of_ne here]
        rw [same] at held
        rcases update_eq_some.mp held with ⟨-, new⟩ | ⟨-, old⟩
        · cases new
          exact absurd rfl here
        · exact all.listed old

theorem mintTokens (all : MintsMatch mints l) {mint : Key} {n : Nat} {v : MintView}
    (records : l'.records = l.records) (known : mints mint = some v)
    (issued : l.Issued l' mint n) :
    MintsMatch (update mints mint (some { v with supply := v.supply + n })) l' := by
  refine ⟨fun {k w} said => ?_, fun {k r} held => ?_⟩
  · by_cases here : k = mint
    · subst here
      rw [Function.update_self] at said
      cases said
      obtain ⟨place, r, m, held, named, minted, decimals, rfl⟩ := all.shown known
      obtain ⟨m', supply, before, after, grown⟩ := issued.minted
      rw [minted] at before
      cases before
      refine ⟨place, r, _, records ▸ held, named, after, decimals, ?_⟩
      rw [grown]
      rfl
    · rw [Function.update_of_ne here] at said
      obtain ⟨place, r, m, held, named, minted, decimals, view⟩ := all.shown said
      refine ⟨place, r, m, records ▸ held, named, ?_, decimals, view⟩
      rw [issued.other_mints k here, minted]
  · rw [records] at held
    by_cases here : r.mint = mint
    · rw [here]
      exact ⟨_, Function.update_self _ _ _⟩
    · rw [Function.update_of_ne here]
      exact all.listed held

theorem effect (all : MintsMatch mints l) (h : Effect now l.records i accounts after)
    (same : l'.records = after) (tokens : TokenEffect l l' i accounts)
    (report : i.report? now after accounts = some e) :
    MintsMatch (Catalog.recordMint mints e) l' := by
  cases tokens with
  | kept opens issues kept =>
    rw [Catalog.recordMint_of_report opens issues report]
    have untouched : RecordKind.mintRecord ∉ i.touched := by
      cases i <;> first | exact absurd rfl opens | simp [Instruction.touched]
    refine all.congr (fun {k r} => ?_) fun _ => congrFun (Ledger.mint?_congr kept) _
    rw [same]
    exact h.untouched (s := .mintRecord r) untouched
  | createMint free opened =>
    cases report
    exact all.createMint h same opened
  | @mintTokens recipients amounts _ _ _ mint _ total batch issued =>
    simp only [Instruction.report?, batch] at report
    cases report
    obtain ⟨k, r, paid, held⟩ := h.pays [] rfl
    have named : mint.key = r.mint := Option.some.inj paid
    obtain ⟨v, known⟩ := all.listed held
    rw [← named] at known
    have records : l'.records = l.records := by
      cases h with
      | mintTokens => exact same
    simp only [Catalog.recordMint, known]
    exact all.mintTokens records known issued

end MintsMatch

/-- The catalog says exactly what the ledger holds. -/
structure Catalog.Agrees (c : Catalog) (l : Ledger) : Prop where
  views : c.views = l.records.views
  mints : ∀ m v, c.mints m = some v ↔ l.ShowsMint m v

namespace World

def catalog (w : World) (steps : List Step) : Catalog :=
  (w.events steps).foldl Catalog.record .empty

variable {steps : List Step} {s : Step}

theorem catalog_concat : genesis.catalog (steps ++ [s]) =
    ((reached steps).step s).2.events.foldl Catalog.record (genesis.catalog steps) := by
  rw [catalog, events_concat, List.foldl_append]
  rfl

theorem mints_of_silent {mints : Key → Option MintView} (honest : genesis.Honest (steps ++ [s]))
    (spares : genesis.SparesMints [] (steps ++ [s])) (silent : (reached steps).receipt? s = none)
    (all : MintsMatch mints (reached steps).ledger) :
    MintsMatch mints ((reached steps).step s).1.ledger := by
  obtain ⟨earlier, fair⟩ := honest_concat.mp honest
  have spared := (sparesMints_concat.mp spares).2
  have advance := step_advance fair
  rw [silent] at advance
  cases advance with
  | idle records _ =>
    refine all.congr (fun {k r} => by rw [records]) fun {k r} held => ?_
    obtain ⟨v, known⟩ := all.listed held
    obtain ⟨-, -, mint, -, -, minted, -⟩ := all.shown known
    rw [minted]
    refine step_mints.mint?_eq spared (made_of_record earlier held) minted ?_
    rw [silent]
    exact nofun

theorem catalog_follows (steps : List Step) (honest : genesis.Honest steps)
    (spares : genesis.SparesMints [] steps) :
    (genesis.catalog steps).views = (reached steps).ledger.records.views ∧
      MintsMatch (genesis.catalog steps).mints (reached steps).ledger := by
  induction steps using List.reverseRecOn with
  | nil =>
    rw [records_start]
    refine ⟨rfl, nofun, fun {k r} held => ?_⟩
    rw [records_start] at held
    cases held
  | append_singleton steps s ih =>
    obtain ⟨earlier, fair⟩ := honest_concat.mp honest
    obtain ⟨views, mints⟩ := ih earlier (sparesMints_concat.mp spares).1
    have last : reached (steps ++ [s]) = ((reached steps).step s).1 := run_concat
    rw [catalog_concat, last]
    cases called : (reached steps).receipt? s with
    | none =>
      rw [no_events_of_silent called, records_of_silent fair called]
      exact ⟨views, mints_of_silent honest spares called mints⟩
    | some c =>
      have effect := effect_of_call called
      obtain ⟨e, one_event, report⟩ := report_of_call called
      rw [one_event]
      refine ⟨?_, mints.effect effect rfl (tokens_of_call called) report⟩
      rw [← effect.view_recorded report, ← views]
      rfl

/-- A mint has one record, so that the ledger shows it in one way. -/
theorem shown_once (honest : genesis.Honest steps) {m : Key} {v v' : MintView}
    (shown : (reached steps).ledger.ShowsMint m v)
    (shown' : (reached steps).ledger.ShowsMint m v') : v = v' := by
  obtain ⟨k, r, mint, held, rfl, minted, -, rfl⟩ := shown
  obtain ⟨k', r', mint', held', same, minted', -, rfl⟩ := shown'
  have trail := RecordTrail.of_honest steps honest
  have found := (trail.sound held).found
  have found' := (trail.sound held').found
  change (Derivation.mintRecord r'.mint).find Identity.program = _ at found'
  rw [same] at found'
  change (Derivation.mintRecord r.mint).find Identity.program = _ at found
  have place : k = k' := congrArg DerivedAddress.address (Except.ok.inj (found.symm.trans found'))
  subst place
  rw [held] at held'
  cases held'
  rw [minted] at minted'
  cases minted'
  rfl

end World

structure EventsTell (steps : List Step) : Prop where
  one_event : ∀ first s, first ++ [s] <+: steps → ((World.reached first).step s).2.Succeeds →
    ∃ e, ((World.reached first).step s).2.events = [e]
  agrees : ∀ first, first <+: steps →
    (World.genesis.catalog first).Agrees (World.reached first).ledger

/-- The events of the calls that succeed, and nothing else, give the registry, the vaults, the
users, the handles, the servers and the mints, at every point of a run in which the host leaves the
accounts of the program and the mints made here alone. -/
theorem events_tell_state (steps : List Step) (honest : World.genesis.Honest steps)
    (spares : World.genesis.SparesMints [] steps) : EventsTell steps := by
  refine ⟨fun first s _ succeeds => World.one_event_of_succeeds succeeds, fun first part => ?_⟩
  have honest := World.honest_of_part part honest
  obtain ⟨views, mints⟩ :=
    World.catalog_follows first honest (World.sparesMints_of_part part spares)
  refine ⟨views, fun m v => ⟨mints.shown, fun shown => ?_⟩⟩
  obtain ⟨k, r, mint, held, rfl, -⟩ := id shown
  obtain ⟨v', known⟩ := mints.listed held
  rw [known, World.shown_once honest shown (mints.shown known)]

section Samples
open AccountRef (signing written shown)

def Step.handleSale : List Step := issuing ++
  [ask (.createUser "one") [signing (Key.filled 1), written (Derivation.user "one").home,
     shown Identity.systemProgram],
   ask (.createHandle "h") [signing (Key.filled 1), written (Derivation.user "one").home,
     written (Derivation.handle "h").home, shown Identity.systemProgram],
   fund (Key.filled 2),
   ask (.createUser "two") [signing (Key.filled 2), written (Derivation.user "two").home,
     shown Identity.systemProgram],
   ask .moveHandle [signing (Key.filled 1), written (Derivation.user "one").home,
     written (Derivation.user "two").home, written (Derivation.handle "h").home]]

set_option maxRecDepth 100000 in
theorem events_tell_state_of_handleSale : World.genesis.Honest Step.handleSale ∧
    World.genesis.SparesMints [] Step.handleSale ∧
    (World.genesis.events Step.handleSale).length = 8 ∧ EventsTell Step.handleSale := by
  have sample : World.genesis.Honest Step.handleSale ∧
      World.genesis.SparesMints [] Step.handleSale ∧
      (World.genesis.events Step.handleSale).length = 8 := by
    decide +kernel
  obtain ⟨honest, spares, length⟩ := sample
  exact ⟨honest, spares, length, events_tell_state Step.handleSale honest spares⟩

end Samples
end VaultMarket
