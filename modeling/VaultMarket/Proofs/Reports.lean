import VaultMarket.Proofs.History
set_option autoImplicit false

namespace VaultMarket

def LogEntry.event? : LogEntry → Option Event
  | started _ => none
  | event e => some e
  | message _ => none

namespace Outcome

variable {α β : Type} {o : Outcome α} {f : α → Outcome β} {b : β} {es : List Event}

def events (o : Outcome α) : List Event := o.log.filterMap LogEntry.event?

structure Yields (o : Outcome α) (es : List Event) (a : α) : Prop where
  gives : o.Gives a
  events_eq : o.events = es

theorem yields_bind : (o >>= f).Yields es b ↔ ∃ a first rest, o.Yields first a ∧
    (f a).Yields rest b ∧ es = first ++ rest := by
  constructor
  · rintro ⟨done, rfl⟩
    obtain ⟨a, first, rest⟩ := gives_bind.mp done
    refine ⟨a, _, _, ⟨first, rfl⟩, ⟨rest, rfl⟩, ?_⟩
    rw [events, log_bind_of_ok first, List.filterMap_append]
    rfl
  · rintro ⟨a, _, _, ⟨first, rfl⟩, ⟨rest, rfl⟩, rfl⟩
    refine ⟨gives_bind.mpr ⟨a, first, rest⟩, ?_⟩
    rw [events, log_bind_of_ok first, List.filterMap_append]
    rfl

theorem yields_pure {a a' : α} : (pure a : Outcome α).Yields es a' ↔ a = a' ∧ es = [] := by
  constructor
  · rintro ⟨done, rfl⟩
    exact ⟨gives_pure.mp done, rfl⟩
  · rintro ⟨rfl, rfl⟩
    exact ⟨gives_pure.mpr rfl, rfl⟩

theorem yields_lift {r : Except Failure α} {a : α} :
    (liftM r : Outcome α).Yields es a ↔ r = .ok a ∧ es = [] := by
  constructor
  · rintro ⟨done, rfl⟩
    exact ⟨done, rfl⟩
  · rintro ⟨done, rfl⟩
    exact ⟨done, rfl⟩

theorem yields_lift_bind {r : Except Failure α} :
    ((liftM r : Outcome α) >>= f).Yields es b ↔ ∃ a, r = .ok a ∧ (f a).Yields es b := by
  simp only [yields_bind, yields_lift]
  constructor
  · rintro ⟨a, _, rest, ⟨done, rfl⟩, after, rfl⟩
    exact ⟨a, done, after⟩
  · rintro ⟨a, done, after⟩
    exact ⟨a, [], es, ⟨done, rfl⟩, after, rfl⟩

theorem yields_write_bind {entry : LogEntry} {f : Unit → Outcome β} :
    (write entry >>= f).Yields es b ↔
      ∃ rest, (f ()).Yields rest b ∧ es = entry.event?.toList ++ rest := by
  have noted : (write entry).events = entry.event?.toList := by
    cases entry <;> rfl
  simp only [yields_bind]
  constructor
  · rintro ⟨⟨⟩, _, rest, ⟨-, rfl⟩, after, rfl⟩
    exact ⟨rest, after, by rw [noted]⟩
  · rintro ⟨rest, after, rfl⟩
    exact ⟨(), _, rest, ⟨gives_write.mpr trivial, noted⟩, after, rfl⟩

theorem yields_emit_bind {e : Event} {f : Unit → Outcome β} :
    (emit e >>= f).Yields es b ↔ ∃ rest, (f ()).Yields rest b ∧ es = e :: rest := yields_write_bind

theorem yields_say_bind {text : String} {f : Unit → Outcome β} :
    (say text >>= f).Yields es b ↔ (f ()).Yields es b := by
  refine yields_write_bind.trans ?_
  exact ⟨fun ⟨rest, after, same⟩ => same ▸ after, fun after => ⟨es, after, rfl⟩⟩

theorem yields_start_bind {title : String} {f : Unit → Outcome β} :
    (start title >>= f).Yields es b ↔ (f ()).Yields es b := by
  refine yields_write_bind.trans ?_
  exact ⟨fun ⟨rest, after, same⟩ => same ▸ after, fun after => ⟨es, after, rfl⟩⟩

end Outcome

/-- What a call reports that succeeds with these accounts and leaves the records `after`. -/
def Instruction.report? (now : Int64) (after : Records) :
    Instruction → List AccountRef → Option Event
  | .createRegistry, payer :: authority :: registry :: _ =>
    some (.registryCreated registry.key authority.key payer.key now)
  | .handOverRegistry, registry :: current :: next :: _ =>
    some (.registryHandedOver registry.key current.key next.key now)
  | .changeServiceSigner what, registry :: _ :: service :: _ =>
    match after registry.key with
    | some (.registry r) => some (.serviceSignerChanged registry.key service.key what r.count now)
    | _ => none
  | .openVault opening, _ :: service :: authority :: _ :: vault :: _ =>
    some (.vaultOpened vault.key opening.kind authority.key service.key now)
  | .handOverVault _, _ :: current :: next :: _ :: vault :: _ =>
    match after vault.key with
    | some (.vault v) => some (.vaultHandedOver vault.key v.kind current.key next.key now)
    | _ => none
  | .createUser username, signer :: user :: _ =>
    match after user.key with
    | some (.user u) => some (.userCreated user.key signer.key username u.vault now)
    | _ => none
  | .updateProfile _ _, _ :: user :: _ =>
    match after user.key with
    | some (.user u) => some (.profileUpdated user.key u.profileEffect u.theme now)
    | _ => none
  | .createHandle text, _ :: user :: handle :: _ =>
    some (.handleCreated user.key handle.key text now)
  | .moveHandle, _ :: source :: target :: handle :: _ =>
    some (.handleMoved handle.key source.key target.key now)
  | .createServer name ticker, signer :: server :: _ =>
    some (.serverCreated server.key signer.key name ticker now)
  | .handOverServer next, signer :: server :: _ =>
    some (.serverHandedOver server.key signer.key next now)
  | .createMint terms, payer :: _ :: _ :: _ :: mint :: _ =>
    some (.mintCreated mint.key payer.key terms.name terms.symbol terms.decimals now)
  | .mintTokens recipients amounts, _ :: _ :: _ :: mint :: _ =>
    (batchTotal recipients amounts).toOption.map fun total =>
      .tokensMinted mint.key (UInt8.ofNat recipients.length) total now
  | _, _ => none

/-- The call reports one event, which is the one of the instruction. -/
def Reports (call : Call) (i : Instruction) (es : List Event) (l' : Ledger) : Prop :=
  ∃ e, es = [e] ∧ i.report? call.now l'.records call.accounts = some e

namespace Program
open Loader Outcome
open LawfulWire (Fits)

variable {call : Call} {l' : Ledger} {es : List Event}

theorem createRegistry_reports (h : (createRegistry call).Yields es l') :
    Reports call .createRegistry es l' := by
  simp only [createRegistry, yields_lift_bind, yields_emit_bind, yields_say_bind, yields_lift,
    run'_eq_ok, Prod.exists] at h
  obtain ⟨a, ⟨rest, load⟩, -, -, -, -, -, -, -, -, ⟨-, rfl⟩, rfl⟩ := h
  obtain ⟨system, accounts, -⟩ := CreateRegistry.load_eq_ok.mp load
  exact ⟨_, rfl, by rw [accounts]; rfl⟩

theorem handOverRegistry_reports (h : (handOverRegistry call).Yields es l') :
    Reports call .handOverRegistry es l' := by
  simp only [handOverRegistry, yields_lift_bind, yields_emit_bind, yields_say_bind, yields_lift,
    run'_eq_ok] at h
  obtain ⟨a, ⟨rest, load⟩, -, -, -, ⟨-, rfl⟩, rfl⟩ := h
  obtain ⟨accounts, -⟩ := HandOverRegistry.load_eq_ok.mp load
  exact ⟨_, rfl, by rw [accounts]; rfl⟩

theorem changeServiceSigner_reports {what : SignerChange}
    (h : (changeServiceSigner call what).Yields es l') :
    Reports call (.changeServiceSigner what) es l' := by
  simp only [changeServiceSigner, yields_lift_bind, yields_emit_bind, yields_say_bind,
    yields_lift, run'_eq_ok] at h
  obtain ⟨a, ⟨rest, load⟩, -, -, changed, -, -, ⟨stored, rfl⟩, rfl⟩ := h
  obtain ⟨accounts, held, -⟩ := ChangeServiceSigner.load_eq_ok.mp load
  have after : l'.records a.registry.ref.key =
      some (.registry (changed.touch call.now a.authority.key)) := by
    rw [records_of_update held stored (Registry.fits _)]
    exact Function.update_self _ _ _
  refine ⟨_, rfl, ?_⟩
  simp only [accounts, Instruction.report?, after]
  rfl

theorem openVault_reports {opening : VaultOpening} (h : (openVault call opening).Yields es l') :
    Reports call (.openVault opening) es l' := by
  simp only [openVault, yields_lift_bind, yields_emit_bind, yields_say_bind, yields_lift,
    run'_eq_ok, Prod.exists] at h
  obtain ⟨a, ⟨rest, load⟩, -, -, -, -, -, -, -, v, -, -, ⟨-, rfl⟩, rfl⟩ := h
  obtain ⟨system, accounts, -⟩ := OpenVault.load_eq_ok.mp load
  exact ⟨_, rfl, by rw [accounts]; rfl⟩

theorem handOverVault_reports {kind : VaultKind} (h : (handOverVault call kind).Yields es l') :
    Reports call (.handOverVault kind) es l' := by
  simp only [handOverVault, yields_lift_bind, yields_emit_bind, yields_say_bind, yields_lift,
    run'_eq_ok] at h
  obtain ⟨a, ⟨rest, load⟩, -, -, -, -, -, -, v, handOver, -, ⟨stored, rfl⟩, rfl⟩ := h
  obtain ⟨accounts, -, -, -, -, held⟩ := HandOverVault.load_eq_ok.mp load
  have fits := Vault.fits_of_handOver handOver (fits_of_held held)
  have after : l'.records a.vault.ref.key = some (.vault v) := by
    rw [records_of_update held stored fits]
    exact Function.update_self _ _ _
  refine ⟨_, rfl, ?_⟩
  simp only [accounts, Instruction.report?, after]
  rfl

theorem createUser_reports {username : String} (h : (createUser call username).Yields es l') :
    Reports call (.createUser username) es l' := by
  simp only [createUser, yields_lift_bind, yields_emit_bind, yields_say_bind, yields_lift,
    run'_eq_ok, Prod.exists] at h
  obtain ⟨a, ⟨rest, load⟩, l₁, bump, created, -, -, ⟨⟩, label, vault, -, -, ⟨stored, rfl⟩,
    rfl⟩ := h
  obtain ⟨system, accounts, -⟩ := CreateUser.load_eq_ok.mp load
  have fits : Fits (User.fresh a.signer.key username vault.address bump) :=
    User.fits_iff.mpr (Nat.lt_of_le_of_lt (validateLabel_eq_ok.mp label).2 (by decide))
  have after : l'.records a.user.key =
      some (.user (User.fresh a.signer.key username vault.address bump)) := by
    rw [records_of_creation created stored fits]
    exact Function.update_self _ _ _
  refine ⟨_, rfl, ?_⟩
  simp only [accounts, Instruction.report?, after]
  rfl

theorem updateProfile_reports {profileEffect theme : Option Key}
    (h : (updateProfile call profileEffect theme).Yields es l') :
    Reports call (.updateProfile profileEffect theme) es l' := by
  simp only [updateProfile, yields_lift_bind, yields_emit_bind, yields_lift, run'_eq_ok] at h
  obtain ⟨a, ⟨rest, load⟩, -, -, -, ⟨stored, rfl⟩, rfl⟩ := h
  obtain ⟨accounts, -, held⟩ := UpdateProfile.load_eq_ok.mp load
  have fits : Fits (a.user.value.decorate profileEffect theme) := fits_of_username held rfl
  have after : l'.records a.user.ref.key =
      some (.user (a.user.value.decorate profileEffect theme)) := by
    rw [records_of_update held stored fits]
    exact Function.update_self _ _ _
  refine ⟨_, rfl, ?_⟩
  simp only [accounts, Instruction.report?, after]
  rfl

theorem createHandle_reports {text : String} (h : (createHandle call text).Yields es l') :
    Reports call (.createHandle text) es l' := by
  simp only [createHandle, yields_lift_bind, yields_emit_bind, yields_lift, run'_eq_ok,
    Prod.exists] at h
  obtain ⟨a, ⟨rest, load⟩, -, -, -, -, -, -, -, -, -, -, -, -, ⟨-, -, -, rfl⟩, rfl⟩ := h
  obtain ⟨system, accounts, -⟩ := CreateHandle.load_eq_ok.mp load
  exact ⟨_, rfl, by rw [accounts]; rfl⟩

theorem moveHandle_reports (h : (moveHandle call).Yields es l') :
    Reports call .moveHandle es l' := by
  simp only [moveHandle, yields_lift_bind, yields_emit_bind, yields_say_bind, yields_lift,
    run'_eq_ok] at h
  obtain ⟨a, ⟨rest, load⟩, -, -, -, -, -, -, -, -, -, -, -, -, -, -, -, ⟨-, -, -, -, -, rfl⟩,
    rfl⟩ := h
  obtain ⟨accounts, -⟩ := MoveHandle.load_eq_ok.mp load
  exact ⟨_, rfl, by rw [accounts]; rfl⟩

theorem createServer_reports {name ticker : String}
    (h : (createServer call name ticker).Yields es l') :
    Reports call (.createServer name ticker) es l' := by
  simp only [createServer, yields_lift_bind, yields_emit_bind, yields_say_bind, yields_lift,
    run'_eq_ok, Prod.exists] at h
  obtain ⟨a, ⟨rest, load⟩, -, -, -, -, -, server, -, -, ⟨-, rfl⟩, rfl⟩ := h
  obtain ⟨system, accounts, -⟩ := CreateServer.load_eq_ok.mp load
  exact ⟨_, rfl, by rw [accounts]; rfl⟩

theorem handOverServer_reports {next : Key} (h : (handOverServer call next).Yields es l') :
    Reports call (.handOverServer next) es l' := by
  simp only [handOverServer, yields_lift_bind, yields_emit_bind, yields_say_bind, yields_lift,
    run'_eq_ok] at h
  obtain ⟨a, ⟨rest, load⟩, -, -, -, -, -, -, -, ⟨-, rfl⟩, rfl⟩ := h
  obtain ⟨accounts, -⟩ := HandOverServer.load_eq_ok.mp load
  exact ⟨_, rfl, by rw [accounts]; rfl⟩

theorem createMint_reports {terms : MintTerms} (h : (createMint call terms).Yields es l') :
    Reports call (.createMint terms) es l' := by
  simp only [createMint, yields_lift_bind, yields_emit_bind, yields_say_bind, yields_start_bind,
    yields_lift, run'_eq_ok, Prod.exists] at h
  obtain ⟨a, ⟨rest, load⟩, -, -, -, -, -, -, -, -, -, -, -, -, -, -, record, -, -, ⟨-, rfl⟩,
    rfl⟩ := h
  obtain ⟨token, system, accounts, -⟩ := CreateMint.load_eq_ok.mp load
  exact ⟨_, rfl, by rw [accounts]; rfl⟩

theorem pay_silent {mint authority : Key} {ps : List Payment} {l : Ledger}
    (h : (pay mint authority ps l).Yields es l') : es = [] := by
  induction ps generalizing l es with
  | nil => exact (yields_pure.mp h).2
  | cons p ps ih =>
    simp only [pay, yields_lift_bind, yields_start_bind] at h
    obtain ⟨-, -, l₁, -, rest⟩ := h
    exact ih rest

theorem mintTokens_reports {recipients : List Key} {amounts : List UInt64}
    (h : (mintTokens call recipients amounts).Yields es l') :
    Reports call (.mintTokens recipients amounts) es l' := by
  simp only [mintTokens, StateT.run, yields_lift_bind, Prod.exists] at h
  obtain ⟨a, targets, load, -, -, -, -, -, -, -, -, -, -, total, batch, -, -, done⟩ := h
  obtain ⟨l₁, first, last, paid, noted, rfl⟩ := yields_bind.mp done
  simp only [yields_emit_bind, yields_say_bind, yields_pure] at noted
  obtain ⟨-, ⟨-, rfl⟩, rfl⟩ := noted
  obtain ⟨token, accounts, -⟩ := MintTokens.load_eq_ok.mp load
  refine ⟨_, by rw [pay_silent paid]; rfl, ?_⟩
  simp only [accounts, Instruction.report?, batch]
  rfl

theorem perform_reports {i : Instruction} (h : (perform call i).Yields es l') :
    Reports call i es l' := by
  cases i with
  | createRegistry => exact createRegistry_reports h
  | handOverRegistry => exact handOverRegistry_reports h
  | changeServiceSigner what => exact changeServiceSigner_reports h
  | openVault opening => exact openVault_reports h
  | handOverVault kind => exact handOverVault_reports h
  | createUser username => exact createUser_reports h
  | updateProfile profileEffect theme => exact updateProfile_reports h
  | createHandle text => exact createHandle_reports h
  | moveHandle => exact moveHandle_reports h
  | createServer name ticker => exact createServer_reports h
  | handOverServer next => exact handOverServer_reports h
  | createMint terms => exact createMint_reports h
  | mintTokens recipients amounts => exact mintTokens_reports h

theorem execute_yields {key : Key} {data : Bytes} (h : (execute key data call).Yields es l') :
    ∃ i, instruction data = .ok i ∧ (perform call i).Yields es l' := by
  simp only [execute, yields_lift_bind, yields_start_bind] at h
  obtain ⟨-, -, operation, known, i, read, done⟩ := h
  exact ⟨i, Except.bind_eq_ok.mpr ⟨operation, known, read⟩, done⟩

end Program

namespace Answer

def Succeeds : Answer → Prop
  | done => False
  | called outcome _ => ∃ l, outcome.Gives l

/-- The events that the step reports. The log of a failed call counts for nothing. -/
def events : Answer → List Event
  | done => []
  | called outcome _ =>
    match outcome.result with
    | .ok _ => outcome.events
    | .error _ => []

end Answer

namespace World

def events (w : World) (steps : List Step) : List Event := (w.run steps).2.flatMap Answer.events

section Events

variable {w : World} {s : Step} {steps more : List Step}

/-- What one step reports: nothing, or the one event of its receipt. -/
inductive Told (after : Records) : Option Receipt → Answer → Prop where
  | silent {answer : Answer} (fails : ¬answer.Succeeds) (no_events : answer.events = []) :
      Told after none answer
  | call {c : Receipt} {answer : Answer} {e : Event} (succeeds : answer.Succeeds)
      (one_event : answer.events = [e])
      (report : c.instruction.report? c.now after c.accounts = some e) : Told after (some c) answer

theorem answerCall_told {key : Key} {data : Bytes} {accounts : List AccountRef} :
    Told (w.answerCall key data accounts).1.ledger.records (w.receiptOf key data accounts)
      (w.answerCall key data accounts).2 := by
  change Told (settle w.ledger (w.call key data accounts).result).records
    (w.receiptOf key data accounts) (.called (w.call key data accounts) _)
  unfold receiptOf
  cases outcome : (w.call key data accounts).result with
  | error failure =>
    refine .silent ?_ ?_
    · rintro ⟨l, done⟩
      cases outcome.symm.trans done
    · simp only [Answer.events, outcome]
  | ok l' =>
    have done : (w.call key data accounts).Yields (w.call key data accounts).events l' :=
      ⟨outcome, rfl⟩
    obtain ⟨i, asked, performed⟩ := Program.execute_yields done
    obtain ⟨e, one, report⟩ := Program.perform_reports performed
    rw [asked]
    refine .call ⟨l', outcome⟩ ?_ report
    simp only [Answer.events, outcome, one]

theorem step_told : Told (w.step s).1.ledger.records (w.receipt? s) (w.step s).2 := by
  cases s with
  | setClock now => exact .silent id rfl
  | setAccount key account => exact .silent id rfl
  | request key i accounts => exact answerCall_told
  | requestRaw key data accounts => exact answerCall_told

theorem report_of_call {c : Receipt} (called : w.receipt? s = some c) :
    ∃ e, (w.step s).2.events = [e] ∧
      c.instruction.report? c.now (w.step s).1.ledger.records c.accounts = some e := by
  have told := step_told (w := w) (s := s)
  rw [called] at told
  cases told with
  | call _ one_event report => exact ⟨_, one_event, report⟩

theorem no_events_of_silent (silent : w.receipt? s = none) : (w.step s).2.events = [] := by
  have told := step_told (w := w) (s := s)
  rw [silent] at told
  cases told with
  | silent _ no_events => exact no_events

/-- Each call that succeeds reports exactly one event. -/
theorem one_event_of_succeeds (h : (w.step s).2.Succeeds) : ∃ e, (w.step s).2.events = [e] := by
  have told := step_told (w := w) (s := s)
  generalize w.receipt? s = c? at told
  cases told with
  | silent fails => exact absurd h fails
  | call _ one_event => exact ⟨_, one_event⟩

theorem events_append :
    w.events (steps ++ more) = w.events steps ++ (w.run steps).1.events more := by
  induction steps generalizing w with
  | nil => rfl
  | cons s steps ih =>
    change (w.step s).2.events ++ (w.step s).1.events (steps ++ more) = _
    rw [ih, ← List.append_assoc]
    rfl

theorem events_concat :
    w.events (steps ++ [s]) = w.events steps ++ ((w.run steps).1.step s).2.events := by
  rw [events_append]
  exact congrArg _ (List.append_nil _)

end Events
end World
end VaultMarket
