import VaultMarket.Proofs.Issuance
import VaultMarket.Proofs.Reports
import VaultMarket.Proofs.ServiceGate
set_option autoImplicit false

namespace VaultMarket
open Function (update)

namespace Receipt

def madeMint? (c : Receipt) : Option Key :=
  match c.instruction with
  | .createMint _ => c.key? "mint"
  | _ => none

def paidMint? (c : Receipt) : Option Key :=
  match c.instruction with
  | .mintTokens _ _ => c.key? "mint"
  | _ => none

theorem madeMint?_of_other {c : Receipt} (other : c.instruction.operation ≠ .createMint) :
    c.madeMint? = none := by
  unfold madeMint?
  split
  · rename_i same
    rw [same] at other
    exact absurd rfl other
  · rfl

theorem paidMint?_of_other {c : Receipt} (other : c.instruction.operation ≠ .mintTokens) :
    c.paidMint? = none := by
  unfold paidMint?
  split
  · rename_i same
    rw [same] at other
    exact absurd rfl other
  · rfl

end Receipt

/-- A call of the history has made the mint. -/
def MintMade (history : List Receipt) (mint : Key) : Prop :=
  ∃ c ∈ history, c.madeMint? = some mint

theorem MintMade.concat_toList {history : List Receipt} {c? : Option Receipt} {mint : Key}
    (silent : c?.bind Receipt.madeMint? = none) :
    MintMade (history ++ c?.toList) mint ↔ MintMade history mint := by
  constructor
  · rintro ⟨d, known, made⟩
    rcases List.mem_append.mp known with known | last
    · exact ⟨d, known, made⟩
    · rw [Option.mem_toList.mp last, Option.bind_some, made] at silent
      cases silent
  · rintro ⟨d, known, made⟩
    exact ⟨d, List.mem_append_left _ known, made⟩

def Event.issued (mint : Key) : Event → Nat
  | tokensMinted m _ total _ => if m = mint then total.toNat else 0
  | _ => 0

theorem Event.issued_of_report {i : Instruction} {now : Int64} {after : Records}
    {accounts : List AccountRef} {e : Event} {mint : Key} (other : i.operation ≠ .mintTokens)
    (report : i.report? now after accounts = some e) : e.issued mint = 0 := by
  unfold Instruction.report? at report
  split at report
  all_goals first
    | exact absurd rfl other
    | (cases report <;> rfl)
    | (split at report <;> cases report; rfl)

theorem Effect.made_of_record {before after : Records} {history : List Receipt} {now : Int64}
    {i : Instruction} {accounts : List AccountRef} {hashed : List Bytes} {k : Key} {r : MintRecord}
    (trail : ∀ {k r}, before k = some (.mintRecord r) → MintMade history r.mint)
    (h : Effect now before i accounts after) (held : after k = some (.mintRecord r)) :
    MintMade (history ++ [⟨now, i, accounts, hashed⟩]) r.mint := by
  have old (known : before k = some (.mintRecord r)) :
      MintMade (history ++ [⟨now, i, accounts, hashed⟩]) r.mint := by
    obtain ⟨c, known, made⟩ := trail known
    exact ⟨c, List.mem_append_left _ known, made⟩
  by_cases other : i.operation = .createMint
  · cases h with
    | createMint _ _ _ _ _ fresh =>
      rcases update_eq_some.mp held with ⟨-, same⟩ | ⟨-, known⟩
      · obtain ⟨-, rfl⟩ := MintRecord.fresh_eq_ok.mp fresh
        cases same
        exact ⟨_, List.mem_append_right _ List.mem_cons_self, rfl⟩
      · exact old known
    | _ => cases other
  · have untouched : RecordKind.mintRecord ∉ i.touched := by
      cases i <;> first | exact absurd rfl other | simp [Instruction.touched]
    exact old ((h.untouched (s := .mintRecord r) untouched).mp held)

theorem Effect.pays {before after : Records} {now : Int64} {i : Instruction}
    {accounts : List AccountRef} (h : Effect now before i accounts after) (hashed : List Bytes)
    (issues : i.operation = .mintTokens) : ∃ k r,
      Receipt.paidMint? ⟨now, i, accounts, hashed⟩ = some r.mint ∧
        before k = some (.mintRecord r) := by
  cases h with
  | mintTokens _ _ placed same => exact ⟨_, _, congrArg some same.symm, placed.stored⟩
  | _ => cases issues

theorem World.made_of_record {steps : List Step} (honest : genesis.Honest steps) {k : Key}
    {r : MintRecord} (held : (reached steps).ledger.records k = some (.mintRecord r)) :
    MintMade (genesis.receipts steps) r.mint :=
  history_induction (P := fun records history => ∀ {k r}, records k = some (.mintRecord r) →
    MintMade history r.mint) nofun (fun trail h _ _ held => h.made_of_record trail held) steps
    honest held

/-- The host does not replace a mint that a call of the history has made. -/
def Step.SparesMints (history : List Receipt) : Step → Prop
  | .setAccount key _ => ∀ c ∈ history, c.madeMint? ≠ some key
  | _ => True

instance (history : List Receipt) : (s : Step) → Decidable (s.SparesMints history)
  | .setAccount key _ => inferInstanceAs (Decidable (∀ c ∈ history, c.madeMint? ≠ some key))
  | .setClock _ | .request _ _ _ | .requestRaw _ _ _ => instDecidableTrue

namespace World

def SparesMints (w : World) (history : List Receipt) : List Step → Prop
  | [] => True
  | s :: rest =>
    s.SparesMints history ∧ SparesMints (w.step s).1 (history ++ (w.receipt? s).toList) rest

instance decidableSparesMints (w : World) (history : List Receipt) :
    (steps : List Step) → Decidable (w.SparesMints history steps)
  | [] => instDecidableTrue
  | s :: rest =>
    have := decidableSparesMints (w.step s).1 (history ++ (w.receipt? s).toList) rest
    inferInstanceAs (Decidable (_ ∧ _))

variable {w : World} {history : List Receipt} {s : Step} {steps more first : List Step}

theorem sparesMints_append : w.SparesMints history (steps ++ more) ↔ w.SparesMints history steps ∧
    (w.run steps).1.SparesMints (history ++ w.receipts steps) more := by
  induction steps generalizing w history with
  | nil =>
    change w.SparesMints history more ↔ True ∧ w.SparesMints (history ++ []) more
    rw [List.append_nil, true_and]
  | cons s steps ih =>
    change s.SparesMints history ∧ (w.step s).1.SparesMints _ (steps ++ more) ↔ _
    rw [ih, ← and_assoc, List.append_assoc]
    rfl

theorem sparesMints_concat : w.SparesMints history (steps ++ [s]) ↔
    w.SparesMints history steps ∧ s.SparesMints (history ++ w.receipts steps) := by
  rw [sparesMints_append]
  exact and_congr_right fun _ => ⟨And.left, fun h => ⟨h, trivial⟩⟩

theorem sparesMints_of_part (part : first <+: steps) (spares : w.SparesMints history steps) :
    w.SparesMints history first := by
  obtain ⟨rest, rfl⟩ := part
  exact (sparesMints_append.mp spares).1

/-- How many tokens of the mint the events of the run report as issued. -/
def issued (mint : Key) (w : World) (steps : List Step) : Nat :=
  ((w.events steps).map (Event.issued mint)).sum

theorem issued_append {mint : Key} : w.issued mint (steps ++ more) =
    w.issued mint steps + (w.run steps).1.issued mint more := by
  rw [issued, events_append, List.map_append, List.sum_append]
  rfl

theorem issued_le_of_part {mint : Key} (part : first <+: steps) :
    w.issued mint first ≤ w.issued mint steps := by
  obtain ⟨rest, rfl⟩ := part
  rw [issued_append]
  exact Nat.le_add_right _ _

/-- By how much the calls that issue tokens of the mint have raised what its holdings hold. -/
def raised (mint : Key) (w : World) : List Step → Int
  | [] => 0
  | s :: rest =>
    (if (w.receipt? s).bind Receipt.paidMint? = some mint
      then ((w.step s).1.ledger.held mint : Int) - w.ledger.held mint else 0) +
      raised mint (w.step s).1 rest

end World

/-- What one step does to the mints: it leaves them alone, it is the host, or it is the call of the
receipt, whose event reports what it issues. -/
inductive MintStep (before after : Ledger) : Step → Option Receipt → List Event → Prop where
  | kept {s : Step} {c? : Option Receipt} {es : List Event}
      (made : c?.bind Receipt.madeMint? = none) (paid : c?.bind Receipt.paidMint? = none)
      (same : after.tokens = before.tokens)
      (silent : ∀ mint, (es.map (Event.issued mint)).sum = 0) : MintStep before after s c? es
  | host {key : Key} {account : Account} (replaced : after = before.set key account) :
      MintStep before after (.setAccount key account) none []
  | made {s : Step} {c : Receipt} {es : List Event} {mint authority : Key} {decimals : UInt8}
      (made : c.madeMint? = some mint) (paid : c.paidMint? = none)
      (free : before.tokens mint = none)
      (opened : after.tokens =
        update before.tokens mint (some (Wire.encode (Mint.fresh authority decimals))))
      (silent : ∀ mint, (es.map (Event.issued mint)).sum = 0) : MintStep before after s (some c) es
  | paid {s : Step} {c : Receipt} {es : List Event} {mint : Key} {n : Nat}
      (made : c.madeMint? = none) (paid : c.paidMint? = some mint)
      (issued : before.Issued after mint n)
      (reported : ∀ k, (es.map (Event.issued k)).sum = if mint = k then n else 0) :
      MintStep before after s (some c) es

namespace World

variable {w : World} {history : List Receipt} {s : Step} {steps : List Step}

theorem step_mints :
    MintStep w.ledger (w.step s).1.ledger s (w.receipt? s) (w.step s).2.events := by
  cases called : w.receipt? s with
  | none =>
    rw [no_events_of_silent called]
    rcases ledger_of_silent called with same | ⟨key, account, rfl⟩
    · exact .kept rfl rfl (congrArg Ledger.tokens same) fun _ => rfl
    · exact .host rfl
  | some c =>
    have tokens := tokens_of_call called
    obtain ⟨e, one_event, report⟩ := report_of_call called
    obtain ⟨now, i, accounts, hashed⟩ := c
    rw [one_event]
    cases tokens with
    | kept opens issues same =>
      refine .kept (Receipt.madeMint?_of_other opens) (Receipt.paidMint?_of_other issues) same ?_
      exact fun mint => Event.issued_of_report issues report
    | createMint free opened =>
      refine .made rfl rfl free opened fun mint => ?_
      exact Event.issued_of_report (i := .createMint _) nofun report
    | mintTokens batch issued =>
      refine .paid rfl rfl issued fun k => ?_
      simp only [Instruction.report?, batch] at report
      cases report
      rfl

/-- Events and balances tell the same: what the events report as issued is by how much the issues
have raised the holdings. -/
theorem raised_eq_issued (mint : Key) : w.raised mint steps = w.issued mint steps := by
  induction steps generalizing w with
  | nil => rfl
  | cons s steps ih =>
    change (if (w.receipt? s).bind Receipt.paidMint? = some mint
      then ((w.step s).1.ledger.held mint : Int) - w.ledger.held mint else 0) +
      (w.step s).1.raised mint steps = ((w.step s).2.events ++ (w.step s).1.events steps |>.map
        (Event.issued mint)).sum
    rw [ih, List.map_append, List.sum_append, Int.natCast_add]
    refine congrArg (· + ((w.step s).1.issued mint steps : Int)) ?_
    have step := step_mints (w := w) (s := s)
    generalize w.receipt? s = c? at step
    generalize (w.step s).2.events = es at step
    cases step with
    | kept _ paid _ silent =>
      rw [paid, if_neg nofun, silent]
      rfl
    | host => rfl
    | made _ paid _ _ silent =>
      rw [Option.bind_some, paid, if_neg nofun, silent]
      rfl
    | @paid _ _ _ m n _ paid issued reported =>
      rw [Option.bind_some, paid, reported]
      by_cases same : m = mint
      · subst same
        rw [if_pos rfl, if_pos rfl, issued.credited]
        omega
      · rw [if_neg fun e => same (Option.some.inj e), if_neg same]
        rfl

end World

/-- After a history with this number of issued tokens for each mint, the mints that have been made
have it as their supply, and nothing has been issued of others. -/
structure SupplyTrail (l : Ledger) (history : List Receipt) (issued : Key → Nat) : Prop where
  accounted : ∀ m, MintMade history m →
    ∃ mint, l.mint? m = some mint ∧ mint.supply.toNat = issued m
  unissued : ∀ m, ¬MintMade history m → issued m = 0

theorem MintStep.mint?_eq {l l' : Ledger} {history : List Receipt} {s : Step}
    {c? : Option Receipt} {es : List Event} {m : Key} {mint : Mint} (h : MintStep l l' s c? es)
    (spares : s.SparesMints history) (known : MintMade history m) (held : l.mint? m = some mint)
    (other : c?.bind Receipt.paidMint? ≠ some m) : l'.mint? m = some mint := by
  rw [← held]
  cases h with
  | kept _ _ same => exact congrFun (Ledger.mint?_congr same) m
  | @host key account replaced =>
    obtain ⟨c, earlier, said⟩ := known
    have apart : m ≠ key := by
      rintro rfl
      exact spares c earlier said
    rw [replaced, Ledger.mint?, Ledger.tokens, Ledger.get_set_other _ _ apart]
    rfl
  | @made _ _ _ new _ _ _ _ free opened =>
    have apart : m ≠ new := by
      rintro rfl
      rw [Ledger.mint?, free] at held
      cases held
    rw [Ledger.mint?_of_opened opened, Function.update_of_ne apart]
  | paid _ paid issued =>
    exact issued.other_mints m fun same => other (paid.trans (congrArg some same.symm))

namespace SupplyTrail

variable {l l' : Ledger} {history : List Receipt} {issued : Key → Nat} {s : Step}
  {c? : Option Receipt} {es : List Event}

theorem still (trail : SupplyTrail l history issued) (h : MintStep l l' s c? es)
    (spares : s.SparesMints history) {m : Key} (made : MintMade history m)
    (other : c?.bind Receipt.paidMint? ≠ some m) :
    ∃ mint, l'.mint? m = some mint ∧ mint.supply.toNat = issued m := by
  obtain ⟨mint, held, sum⟩ := trail.accounted m made
  exact ⟨mint, h.mint?_eq spares made held other, sum⟩

/-- A mint without supply joins those of the history. The key was free, so that no earlier call has
made it. -/
theorem open_mint (trail : SupplyTrail l history issued) {c : Receipt} {new authority : Key}
    {decimals : UInt8} (made : c.madeMint? = some new) (free : l.tokens new = none)
    (opened : l'.tokens = update l.tokens new (some (Wire.encode (Mint.fresh authority decimals))))
    (still : ∀ m, MintMade history m →
      ∃ mint, l'.mint? m = some mint ∧ mint.supply.toNat = issued m) :
    SupplyTrail l' (history ++ [c]) issued := by
  have first : ¬MintMade history new := by
    intro known
    obtain ⟨m, held, -⟩ := trail.accounted new known
    rw [Ledger.mint?, free] at held
    cases held
  have fresh : l'.mint? new = some (Mint.fresh authority decimals) := by
    rw [Ledger.mint?_of_opened opened, Function.update_self]
  refine ⟨fun m known => ?_, fun m unknown => trail.unissued m fun earlier => unknown ?_⟩
  · obtain ⟨d, known, said⟩ := known
    rcases List.mem_append.mp known with known | last
    · exact still m ⟨d, known, said⟩
    · rw [List.mem_singleton.mp last, made] at said
      cases said
      exact ⟨_, fresh, (trail.unissued new first).symm⟩
  · obtain ⟨d, earlier, said⟩ := earlier
    exact ⟨d, List.mem_append_left _ earlier, said⟩

theorem issue (trail : SupplyTrail l history issued) {mint : Key} {n : Nat}
    (known : MintMade history mint) (issues : l.Issued l' mint n)
    (still : ∀ m, MintMade history m → mint ≠ m →
      ∃ mint, l'.mint? m = some mint ∧ mint.supply.toNat = issued m) :
    SupplyTrail l' history fun m => issued m + if mint = m then n else 0 := by
  refine ⟨fun m made => ?_, fun m unknown => ?_⟩
  · by_cases same : mint = m
    · subst same
      obtain ⟨m, supply, before, after, grown⟩ := issues.minted
      obtain ⟨m', before', sum⟩ := trail.accounted mint made
      rw [before] at before'
      cases before'
      refine ⟨_, after, ?_⟩
      rw [if_pos rfl, ← sum]
      exact grown
    · rw [if_neg same]
      exact still m made same
  · have other : mint ≠ m := by
      rintro rfl
      exact unknown known
    rw [if_neg other]
    exact trail.unissued m unknown

theorem of_same_mints {history' : List Receipt} (trail : SupplyTrail l history issued)
    (same : ∀ m, MintMade history' m ↔ MintMade history m) : SupplyTrail l history' issued :=
  ⟨fun m made => trail.accounted m ((same m).mp made),
    fun m unknown => trail.unissued m fun made => unknown ((same m).mpr made)⟩

theorem step (trail : SupplyTrail l history issued) (h : MintStep l l' s c? es)
    (spares : s.SparesMints history)
    (known : ∀ m, c?.bind Receipt.paidMint? = some m → MintMade history m) :
    SupplyTrail l' (history ++ c?.toList) fun m => issued m + (es.map (Event.issued m)).sum := by
  have still {m : Key} := trail.still h spares (m := m)
  cases h with
  | kept made paid _ silent =>
    have quiet (m : Key) : c?.bind Receipt.paidMint? ≠ some m := by
      rw [paid]
      exact nofun
    have kept : SupplyTrail l' history issued :=
      ⟨fun m made => still made (quiet m), trail.unissued⟩
    simp only [silent, Nat.add_zero]
    exact kept.of_same_mints fun m => MintMade.concat_toList made
  | host =>
    rw [Option.toList_none, List.append_nil]
    exact ⟨fun m made => still made nofun, trail.unissued⟩
  | @made _ c _ new authority decimals made paid free opened silent =>
    simp only [silent, Nat.add_zero]
    refine trail.open_mint made free opened fun m earlier => still earlier ?_
    rw [Option.bind_some, paid]
    exact nofun
  | @paid _ c _ mint n made paid issues reported =>
    have grown := trail.issue (known mint paid) issues fun m earlier other => still earlier (by
      rw [Option.bind_some, paid]
      exact fun e => other (Option.some.inj e))
    simp only [reported]
    exact grown.of_same_mints fun m => MintMade.concat_toList made

end SupplyTrail

namespace World

variable {steps first : List Step} {s : Step} {c : Receipt} {m : Key}

theorem made_of_paid (honest : genesis.Honest (steps ++ [s]))
    (called : (reached steps).receipt? s = some c) (issues : c.instruction.operation = .mintTokens) :
    ∃ m, c.paidMint? = some m ∧ MintMade (genesis.receipts steps) m := by
  obtain ⟨earlier, -⟩ := honest_concat.mp honest
  obtain ⟨k, r, paid, held⟩ := (effect_of_call called).pays c.hashed issues
  exact ⟨r.mint, paid, made_of_record earlier held⟩

theorem operation_of_paid (paid : c.paidMint? = some m) :
    c.instruction.operation = .mintTokens := by
  by_contra other
  rw [Receipt.paidMint?_of_other other] at paid
  cases paid

theorem supplyTrail_of_honest (steps : List Step) (honest : genesis.Honest steps)
    (spares : genesis.SparesMints [] steps) :
    SupplyTrail (reached steps).ledger (genesis.receipts steps) (genesis.issued · steps) := by
  induction steps using List.reverseRecOn with
  | nil => exact ⟨nofun, fun _ _ => rfl⟩
  | append_singleton steps s ih =>
    obtain ⟨earlier, fair⟩ := honest_concat.mp honest
    obtain ⟨spared, spares⟩ := sparesMints_concat.mp spares
    have known (m : Key) (paid : ((reached steps).receipt? s).bind Receipt.paidMint? = some m) :
        MintMade (genesis.receipts steps) m := by
      obtain ⟨c, called, paid⟩ := Option.bind_eq_some_iff.mp paid
      obtain ⟨m', paid', made⟩ := made_of_paid honest called (operation_of_paid paid)
      rw [paid] at paid'
      cases paid'
      exact made
    have trail := (ih earlier spared).step step_mints spares known
    have counted (m : Key) : genesis.issued m (steps ++ [s]) = genesis.issued m steps +
        ((((reached steps).step s).2.events).map (Event.issued m)).sum := by
      rw [issued, events_concat, List.map_append, List.sum_append]
      rfl
    rw [reached, run_concat, receipts_concat]
    simp only [counted]
    exact trail

end World

/-- A registered service signer signs the call. -/
def Receipt.Served (c : Receipt) (before : Records) : Prop :=
  ∃ registry r service, before registry = some (.registry r) ∧
    c.account? "service_signer" = some service ∧ service.signer = true ∧ service.key ∈ r.active

structure SuppliesAccounted (steps : List Step) : Prop where
  /-- The supply of a mint is what the events report as issued. -/
  reported : ∀ first m, first <+: steps → MintMade (World.genesis.receipts first) m →
    ∃ mint, (World.reached first).ledger.mint? m = some mint ∧
      mint.supply.toNat = World.genesis.issued m first
  /-- It is also by how much the issues have raised the holdings. -/
  credited : ∀ first m mint, first <+: steps → MintMade (World.genesis.receipts first) m →
    (World.reached first).ledger.mint? m = some mint →
    (mint.supply.toNat : Int) = World.genesis.raised m first
  growing : ∀ first later m mint mint', first <+: later → later <+: steps →
    MintMade (World.genesis.receipts first) m →
    (World.reached first).ledger.mint? m = some mint →
    (World.reached later).ledger.mint? m = some mint' → mint.supply.toNat ≤ mint'.supply.toNat
  guarded : ∀ first s m mint mint', first ++ [s] <+: steps →
    MintMade (World.genesis.receipts first) m →
    (World.reached first).ledger.mint? m = some mint →
    (World.reached (first ++ [s])).ledger.mint? m = some mint' → mint'.supply ≠ mint.supply →
    ∃ c, (World.reached first).receipt? s = some c ∧ c.paidMint? = some m ∧
      c.Served (World.reached first).ledger.records

namespace World

variable {steps first : List Step} {s : Step} {c : Receipt} {m : Key} {mint mint' : Mint}

theorem served_of_paid (fair : s.Honest (reached first))
    (called : (reached first).receipt? s = some c) (paid : c.paidMint? = some m) :
    c.Served (reached first).ledger.records := by
  have gated : c.instruction.operation.Gated := by
    rw [operation_of_paid paid]
    trivial
  have advance := step_advance fair
  rw [called] at advance
  cases advance with
  | call effect _ =>
    obtain ⟨service, registry, r, place, gate⟩ := effect.gate gated
    exact ⟨registry.key, r, service, gate.stored, place, gate.signed,
      Registry.isSigner_iff.mp gate.registered⟩

end World

/-- Every successful issue is one of a mint that a call has made before, and as long as the host
does not replace such mints, their supplies are accounted for. -/
theorem supplies_accounted (steps : List Step) (honest : World.genesis.Honest steps) :
    (∀ first s c, first ++ [s] <+: steps → (World.reached first).receipt? s = some c →
      c.instruction.operation = .mintTokens →
      ∃ m, c.paidMint? = some m ∧ MintMade (World.genesis.receipts first) m) ∧
    (World.genesis.SparesMints [] steps → SuppliesAccounted steps) := by
  refine ⟨fun first s c part called issues => ?_, fun spares => ?_⟩
  · exact World.made_of_paid (World.honest_of_part part honest) called issues
  have trail {first : List Step} (part : first <+: steps) :=
    World.supplyTrail_of_honest first (World.honest_of_part part honest)
      (World.sparesMints_of_part part spares)
  have supply {first : List Step} (part : first <+: steps) {m : Key} {mint : Mint}
      (made : MintMade (World.genesis.receipts first) m)
      (held : (World.reached first).ledger.mint? m = some mint) :
      mint.supply.toNat = World.genesis.issued m first := by
    obtain ⟨mint', held', sum⟩ := (trail part).accounted m made
    rw [held] at held'
    cases held'
    exact sum
  have lasting {first later : List Step} (part : first <+: later) {m : Key}
      (made : MintMade (World.genesis.receipts first) m) :
      MintMade (World.genesis.receipts later) m := by
    obtain ⟨rest, rfl⟩ := part
    obtain ⟨c, known, said⟩ := made
    exact ⟨c, by rw [World.receipts_append]; exact List.mem_append_left _ known, said⟩
  refine ⟨?_, ?_, ?_, ?_⟩
  · intro first m part made
    exact (trail part).accounted m made
  · intro first m mint part made held
    rw [World.raised_eq_issued, supply part made held]
  · intro first later m mint mint' part whole made held held'
    rw [supply (part.trans whole) made held, supply whole (lasting part made) held']
    exact World.issued_le_of_part part
  · intro first s m mint mint' part made held held' changed
    have start : first <+: steps := (List.prefix_append _ _).trans part
    have fair := (World.honest_concat.mp (World.honest_of_part part honest)).2
    have spared := (World.sparesMints_concat.mp (World.sparesMints_of_part part spares)).2
    rw [World.reached, World.run_concat] at held'
    have issues : ((World.reached first).receipt? s).bind Receipt.paidMint? = some m := by
      by_contra other
      have same := World.step_mints.mint?_eq spared made held other
      rw [held'] at same
      cases same
      exact changed rfl
    obtain ⟨c, called, paid⟩ := Option.bind_eq_some_iff.mp issues
    exact ⟨c, called, paid, World.served_of_paid fair called paid⟩

section Samples
open AccountRef (signing written shown)

def Step.opensMint : Step :=
  ask (.createMint ⟨"Gold", "GLD", 6, "", 7⟩) [signing (Key.filled 1), signing (Key.filled 3),
    shown Program.registryAddress.home, shown Derivation.mintAuthority.home,
    written Derivation.sampleMint.home,
    written (Derivation.mintRecord Derivation.sampleMint.home).home,
    shown Identity.tokenProgram, shown Identity.systemProgram]

def Holding.empty (mint owner : Key) : Holding :=
  ⟨mint, owner, 0, ⟨false, Key.zero⟩, .initialized, ⟨false, 0⟩, 0, ⟨false, Key.zero⟩⟩

def Step.provideHolding (key owner : Key) : Step :=
  .setAccount key ⟨1, Identity.tokenProgram, false,
    Wire.encode (Holding.empty Derivation.sampleMint.home owner)⟩

def Step.paysTwice : Step :=
  ask (.mintTokens [Key.filled 4, Key.filled 5, Key.filled 4] [10, 20, 5])
    [signing (Key.filled 3), shown Program.registryAddress.home,
      shown Derivation.mintAuthority.home, written Derivation.sampleMint.home,
      shown (Derivation.mintRecord Derivation.sampleMint.home).home, shown Identity.tokenProgram,
      written (Key.filled 6), written (Key.filled 7), written (Key.filled 6)]

def Step.issuing : List Step := founding ++
  [fund (Key.filled 1), opensMint, provideHolding (Key.filled 6) (Key.filled 4),
    provideHolding (Key.filled 7) (Key.filled 5), paysTwice]

set_option maxRecDepth 100000 in
theorem supplies_accounted_of_issuing : World.genesis.Honest Step.issuing ∧
    World.genesis.SparesMints [] Step.issuing ∧
    (((World.reached Step.issuing).ledger.mint? Derivation.sampleMint.home).map
      (·.supply.toNat)) = some 35 ∧
    SuppliesAccounted Step.issuing := by
  have sample : World.genesis.Honest Step.issuing ∧ World.genesis.SparesMints [] Step.issuing ∧
      (((World.reached Step.issuing).ledger.mint? Derivation.sampleMint.home).map
        (·.supply.toNat)) = some 35 := by
    decide +kernel
  obtain ⟨honest, spares, supply⟩ := sample
  exact ⟨honest, spares, supply, (supplies_accounted Step.issuing honest).2 spares⟩

end Samples
end VaultMarket
