import VaultMarket.Proofs.Credits
import VaultMarket.Proofs.Dispatch
set_option autoImplicit false

/-!
# Where a batch stops

The destinations of a batch are looked at one after another, each after the payments before it. A
payment changes neither the owner of a destination nor the mint and the holder that it names, so a
destination is fit just if it was before the call, and the batch stops at the first unfit one. Most
unfit destinations are refused as such. Data that the token program cannot read is not: there the
call fails as the token program does.
-/

namespace VaultMarket

section Titles

variable {a : Account} {n : Nat} {m : Mint}

/-- What is checked of a destination: who owns it, and the mint and the holder that it names. -/
def Account.title (a : Account) : Key × Except HostFault (Key × Key) :=
  (a.owner, (Holding.unpack a.data).map fun h => (h.mint, h.owner))

theorem Holding.unpack_of_width {data : Bytes} (width : data.length ≠ Holding.width) :
    Holding.unpack data = .error .invalidAccountData := by
  rw [unpack, if_pos width]
  rfl

theorem Holding.unpack_of_decode {data rest : Bytes} {h : Holding}
    (width : data.length = Holding.width) (decoded : Wire.decode data = some (h, rest)) :
    Holding.unpack data =
      if h.state = .uninitialized then .error .uninitializedAccount else .ok h := by
  rw [unpack, if_neg (not_not_intro width), decoded]
  rfl

theorem Holding.unpack_of_undecoded {data : Bytes}
    (broken : (Wire.decode data : Option (Holding × Bytes)) = none) :
    Holding.unpack data = .error .invalidAccountData := by
  by_cases width : data.length = Holding.width
  · rw [unpack, if_neg (not_not_intro width), broken]
    rfl
  · exact unpack_of_width width

namespace Account

theorem title_credited : (a.credited n).title = a.title := by
  cases held : Holding.unpack a.data with
  | error fault => rw [credited, held]
  | ok h =>
    rw [title, title, unpack_credited held, held, credited_of_holding held]
    rfl

theorem title_raised (minted : Mint.unpack a.data = .ok m) : (a.raised n).title = a.title := by
  have narrow : Mint.width ≠ Holding.width := by decide
  have before : a.data.length ≠ Holding.width := (Mint.unpack_eq_ok.mp minted).1 ▸ narrow
  have after : (a.raised n).data.length ≠ Holding.width :=
    (Mint.unpack_eq_ok.mp (unpack_raised minted)).1 ▸ narrow
  rw [title, title, Holding.unpack_of_width before, Holding.unpack_of_width after,
    raised_of_mint minted]

end Account
end Titles

namespace Program

variable {l l₁ l' : Ledger} {mint authority : Key} {p : Payment} {ps : List Payment}

theorem Credits.title_eq (credits : Credits mint ps l l') (k : Key) :
    (l'.get k).title = (l.get k).title := by
  by_cases here : k = mint
  · obtain ⟨m, minted, -⟩ := credits.minted
    rw [here, credits.mint_eq, Account.title_raised minted]
  · rw [credits.get_eq k here, Account.title_credited]

section Check

variable {fault : HostFault} {h : Holding}

theorem requireHolding_of_foreign
    (owner : (l.get p.target.key).owner ≠ Identity.tokenProgram) :
    requireHolding mint p l = .error (.refused .invalidTokenAccount .raised
      (some ((l.get p.target.key).owner, Identity.tokenProgram))) := by
  simp only [requireHolding]
  rw [require_of_not owner]
  rfl

theorem requireHolding_of_unread
    (owner : (l.get p.target.key).owner = Identity.tokenProgram)
    (unread : Holding.unpack (l.get p.target.key).data = .error fault) :
    requireHolding mint p l = .error (.host fault .unattributed) := by
  simp only [requireHolding]
  rw [require_of owner, unread]
  rfl

theorem requireHolding_of_read
    (owner : (l.get p.target.key).owner = Identity.tokenProgram)
    (held : Holding.unpack (l.get p.target.key).data = .ok h) :
    requireHolding mint p l =
      require (h.mint = mint ∧ h.owner = p.recipient) (.raised .invalidTokenAccount) := by
  simp only [requireHolding]
  rw [require_of owner, held]
  rfl

def checkTitle (mint recipient : Key) (title : Key × Except HostFault (Key × Key)) :
    Except Failure Unit := do
  require (title.1 = Identity.tokenProgram)
    (.refused .invalidTokenAccount .raised (some (title.1, Identity.tokenProgram)))
  let named ← title.2.mapError Token.unpackFailed
  require (named.1 = mint ∧ named.2 = recipient) (.raised .invalidTokenAccount)

theorem requireHolding_eq_checkTitle : requireHolding mint p l =
    checkTitle mint p.recipient (l.get p.target.key).title := by
  simp only [requireHolding, checkTitle, Account.title]
  cases Holding.unpack (l.get p.target.key).data <;> rfl

end Check

theorem requireHolding_iff_holds :
    requireHolding mint p l = .ok () ↔ (l.get p.target.key).Holds mint p.recipient :=
  requireHolding_eq_ok

end Program

/-- Why an account that should hold the mint's token for the holder does not, and the failure that
a call stops with for it. -/
inductive Account.Unfit (a : Account) (mint holder : Key) : Failure → Prop where
  | foreign (owner : a.owner ≠ Identity.tokenProgram) : Unfit a mint holder
      (.refused .invalidTokenAccount .raised (some (a.owner, Identity.tokenProgram)))
  | malformed (owner : a.owner = Identity.tokenProgram)
      (broken : a.data.length ≠ Holding.width ∨
        (Wire.decode a.data : Option (Holding × Bytes)) = none) :
      Unfit a mint holder (.host .invalidAccountData .unattributed)
  | uninitialized (owner : a.owner = Identity.tokenProgram) {h : Holding} {rest : Bytes}
      (width : a.data.length = Holding.width) (decoded : Wire.decode a.data = some (h, rest))
      (blank : h.state = .uninitialized) :
      Unfit a mint holder (.host .uninitializedAccount .unattributed)
  | other (owner : a.owner = Identity.tokenProgram) {h : Holding}
      (held : Holding.unpack a.data = .ok h) (differs : h.mint ≠ mint ∨ h.owner ≠ holder) :
      Unfit a mint holder (.raised .invalidTokenAccount)

theorem Except.isOk_iff {ε α : Type} {x : Except ε α} : x.isOk = true ↔ ∃ a, x = .ok a := by
  cases x <;> simp [Except.isOk, Except.toBool]

theorem Account.holds_iff {a : Account} {mint holder : Key} : a.Holds mint holder ↔
    a.owner = Identity.tokenProgram ∧
      ∃ h ∈ (Holding.unpack a.data).toOption, h.mint = mint ∧ h.owner = holder := by
  unfold Holds
  cases Holding.unpack a.data <;> simp [Except.toOption]

instance (a : Account) (mint holder : Key) : Decidable (a.Holds mint holder) :=
  decidable_of_iff' _ Account.holds_iff

/-- The token program owns the account and does not read a holding there. -/
def Account.Unreadable (a : Account) : Prop :=
  a.owner = Identity.tokenProgram ∧ ∀ h, Holding.unpack a.data ≠ .ok h

namespace Account.Unfit

variable {a : Account} {mint holder : Key} {failure : Failure}

theorem code_eq_iff (unfit : a.Unfit mint holder failure) :
    failure.code? = some 6012 ↔ ¬a.Unreadable := by
  cases unfit with
  | foreign owner => exact iff_of_true rfl fun unreadable => owner unreadable.1
  | malformed owner broken =>
    refine iff_of_false nofun (not_not_intro ⟨owner, fun h held => ?_⟩)
    obtain ⟨width, ⟨rest, decoded⟩, -⟩ := Holding.unpack_eq_ok.mp held
    rcases broken with wide | undecoded
    · exact wide width
    · rw [undecoded] at decoded
      cases decoded
  | uninitialized owner width decoded blank =>
    refine iff_of_false nofun (not_not_intro ⟨owner, fun h held => ?_⟩)
    rw [Holding.unpack_of_decode width decoded, if_pos blank] at held
    cases held
  | other owner held differs => exact iff_of_true rfl fun unreadable => unreadable.2 _ held

end Account.Unfit

namespace Program

variable {l l₁ l' : Ledger} {mint authority : Key} {p : Payment} {ps : List Payment}
  {failure : Failure}

theorem requireHolding_of_unfit (unfit : ¬(l.get p.target.key).Holds mint p.recipient) :
    ∃ failure, (l.get p.target.key).Unfit mint p.recipient failure ∧
      requireHolding mint p l = .error failure := by
  by_cases owner : (l.get p.target.key).owner = Identity.tokenProgram
  · by_cases width : (l.get p.target.key).data.length = Holding.width
    · cases decoded : (Wire.decode (l.get p.target.key).data : Option (Holding × Bytes)) with
      | none =>
        have unread := Holding.unpack_of_undecoded decoded
        exact ⟨_, .malformed owner (.inr decoded), requireHolding_of_unread owner unread⟩
      | some found =>
        obtain ⟨h, rest⟩ := found
        have read := Holding.unpack_of_decode width decoded
        by_cases blank : h.state = .uninitialized
        · rw [if_pos blank] at read
          exact ⟨_, .uninitialized owner width decoded blank, requireHolding_of_unread owner read⟩
        · rw [if_neg blank] at read
          have differs : ¬(h.mint = mint ∧ h.owner = p.recipient) :=
            fun same => unfit ⟨owner, h, read, same.1, same.2⟩
          refine ⟨_, .other owner read (not_and_or.mp differs), ?_⟩
          rw [requireHolding_of_read owner read, require_of_not differs]
    · have unread := Holding.unpack_of_width width
      exact ⟨_, .malformed owner (.inl width), requireHolding_of_unread owner unread⟩
  · exact ⟨_, .foreign owner, requireHolding_of_foreign owner⟩

/-- What the token program makes of the payments alone, without a look at the destinations. -/
def issueAll (mint authority : Key) (ps : List Payment) (l : Ledger) : Except Failure Ledger :=
  ps.foldlM (fun l p => Token.issue mint p.target.key authority p.amount l) l

theorem pay_append (ps later : List Payment) (l : Ledger) :
    pay mint authority (ps ++ later) l = pay mint authority ps l >>= pay mint authority later := by
  induction ps generalizing l with
  | nil => rfl
  | cons p ps ih =>
    simp only [List.cons_append, pay, Outcome.bind_assoc, ih]

/-- Payments to fit destinations go through wherever the token program accepts them, and leave all
destinations as fit as they were. -/
theorem pay_of_accepted (fit : ∀ p ∈ ps, (l.get p.target.key).Holds mint p.recipient)
    (accepted : issueAll mint authority ps l = .ok l') :
    pay mint authority ps l = ⟨List.replicate ps.length (.started "MintTo"), .ok l'⟩ ∧
      ∀ k, (l'.get k).title = (l.get k).title := by
  induction ps generalizing l with
  | nil =>
    cases accepted
    exact ⟨rfl, fun _ => rfl⟩
  | cons p ps ih =>
    have checked : requireHolding mint p l = .ok () :=
      requireHolding_iff_holds.mpr (fit p List.mem_cons_self)
    rw [issueAll, List.foldlM_cons] at accepted
    obtain ⟨l₁, issued, accepted⟩ := Except.bind_eq_ok.mp accepted
    have titles := (Credits.issue checked issued).title_eq
    have still : ∀ q ∈ ps, (l₁.get q.target.key).Holds mint q.recipient := by
      intro q listed
      rw [← requireHolding_iff_holds, requireHolding_eq_checkTitle, titles,
        ← requireHolding_eq_checkTitle, requireHolding_iff_holds]
      exact fit q (List.mem_cons_of_mem _ listed)
    obtain ⟨rest, titles'⟩ := ih still accepted
    refine ⟨?_, fun k => (titles' k).trans (titles k)⟩
    rw [pay, checked, Outcome.lift_ok_bind, issued, Outcome.lift_ok_bind, rest]
    rfl

/-- The batch stops at the first unfit destination, for the reason it was unfit before the call. -/
theorem pay_of_unfit (later : List Payment)
    (fit : ∀ q ∈ ps, (l.get q.target.key).Holds mint q.recipient)
    (accepted : issueAll mint authority ps l = .ok l')
    (refused : requireHolding mint p l = .error failure) :
    pay mint authority (ps ++ p :: later) l =
      ⟨List.replicate ps.length (.started "MintTo"), .error failure⟩ := by
  obtain ⟨paid, titles⟩ := pay_of_accepted fit accepted
  have refused' : requireHolding mint p l' = .error failure := by
    rw [requireHolding_eq_checkTitle, titles, ← requireHolding_eq_checkTitle, refused]
  rw [pay_append, paid]
  change Outcome.andThen _ _ = _
  simp only [Outcome.andThen, pay, refused', Outcome.lift_error_bind, List.append_nil]

end Program

theorem Outcome.lift_bind_bind {α β γ : Type} (x : Except Failure α) (f : α → Except Failure β)
    (g : β → Outcome γ) :
    (liftM (x >>= f) : Outcome β) >>= g =
      (liftM x : Outcome α) >>= fun a => (liftM (f a) : Outcome β) >>= g := by
  cases x <;> rfl

namespace Program

variable {call : Call} {recipients : List Key} {amounts : List UInt64} {a : MintTokens}
  {targets : List AccountRef} {total : UInt64} {p : Payment} {failure : Failure} {l' : Ledger}

/-- What `mintTokens` checks before the first payment: the accounts, the batch, and that there is
one destination for each recipient. The value has the destinations and the total. -/
def examine (call : Call) (recipients : List Key) (amounts : List UInt64) :
    Except Failure (MintTokens × List AccountRef × UInt64) := do
  let (a, targets) ← (MintTokens.load call.ledger).run call.accounts
  requireService a.registry a.serviceSigner
  let _ ← requireFound "mint_authority" .mintAuthority a.mintAuthority.key
  requireWritable "mint" a.mint.ref
  let record := a.mintRecord.value
  requireStored "mint_record" (.mintRecord a.mint.key) record.bump a.mintRecord.key
  require (record.mint = a.mint.key)
    (.refused .invalidParameter (.field "mint_record") (some (record.mint, a.mint.key)))
  let total ← batchTotal recipients amounts
  require (targets.length = recipients.length) (.raised .invalidParameter)
  return (a, targets, total)

theorem mintTokens_eq_examine (call : Call) (recipients : List Key) (amounts : List UInt64) :
    mintTokens call recipients amounts = (do
      let (a, targets, total) ← examine call recipients amounts
      let l ← pay a.mint.key a.mintAuthority.key (payments targets recipients amounts) call.ledger
      Outcome.emit
        (.tokensMinted a.mint.key (UInt8.ofNat recipients.length) total call.now)
      Outcome.say s!"Minted {total.toNat} of {a.mint.key} to {recipients.length} recipients"
      return l) := by
  simp only [examine, Outcome.lift_bind_bind]
  rfl

theorem examine_eq_ok : examine call recipients amounts = .ok (a, targets, total) ↔
    MintTokens.load call.ledger call.accounts = .ok (a, targets) ∧
      requireService a.registry a.serviceSigner = .ok () ∧
      (∃ bump, Derivation.mintAuthority.find Identity.program = .ok ⟨a.mintAuthority.key, bump⟩) ∧
      a.mint.ref.writable = true ∧
      (Derivation.mintRecord a.mint.key).derive? Identity.program a.mintRecord.value.bump =
        some a.mintRecord.key ∧
      a.mintRecord.value.mint = a.mint.key ∧ batchTotal recipients amounts = .ok total ∧
      targets.length = recipients.length := by
  simp only [examine, StateT.run, Except.bind_eq_ok, Prod.exists, exists_unit, require_eq_ok,
    requireWritable_eq_ok, requireFound_eq_ok, requireStored_eq_ok, Except.pure_eq_ok]
  constructor
  · rintro ⟨a', targets', load, served, bump, found, writable, placed, own, total', batch, listed,
      same⟩
    cases same
    exact ⟨load, served, ⟨bump, found⟩, writable, placed, own, batch, listed⟩
  · rintro ⟨load, served, ⟨bump, found⟩, writable, placed, own, batch, listed⟩
    exact ⟨a, targets, load, served, bump, found, writable, placed, own, total, batch, listed, rfl⟩

theorem getElem?_payments {i : Nat} {p : Payment} :
    (payments targets recipients amounts)[i]? = some p ↔ targets[i]? = some p.target ∧
      recipients[i]? = some p.recipient ∧ amounts[i]? = some p.amount := by
  induction targets generalizing recipients amounts i with
  | nil => simp [payments]
  | cons target targets ih =>
    cases recipients with
    | nil => simp [payments]
    | cons recipient recipients =>
      cases amounts with
      | nil => simp [payments]
      | cons amount amounts =>
        cases i with
        | zero =>
          obtain ⟨t, r, n⟩ := p
          simp [payments]
        | succ i =>
          simp only [payments, List.getElem?_cons_succ]
          exact ih

/-- A batch that passes every check before its first payment. -/
structure Batch where
  checked : MintTokens
  targets : List AccountRef
  recipients : List Key
  amounts : List UInt64
  total : UInt64

namespace Batch

def mint (b : Batch) : Key := b.checked.mint.key
def authority (b : Batch) : Key := b.checked.mintAuthority.key
def payments (b : Batch) : List Payment := Program.payments b.targets b.recipients b.amounts

/-- Position `i` is the first whose account is not a holding of the mint's token for the recipient,
and the token program accepts the payments before it. -/
structure FirstUnfit (b : Batch) (l : Ledger) (i : Nat) (target recipient : Key) : Prop where
  target_eq : (b.targets.map (·.key))[i]? = some target
  recipient_eq : b.recipients[i]? = some recipient
  unfit : ¬(l.get target).Holds b.mint recipient
  fit : ∀ j < i, ∀ target ∈ (b.targets.map (·.key))[j]?, ∀ recipient ∈ b.recipients[j]?,
    (l.get target).Holds b.mint recipient
  accepted : ∃ l', issueAll b.mint b.authority (b.payments.take i) l = .ok l'

instance (b : Batch) (l : Ledger) (i : Nat) (target recipient : Key) :
    Decidable (b.FirstUnfit l i target recipient) :=
  decidable_of_iff ((b.targets.map (·.key))[i]? = some target ∧
      b.recipients[i]? = some recipient ∧ ¬(l.get target).Holds b.mint recipient ∧
      (∀ j < i, ∀ target ∈ (b.targets.map (·.key))[j]?, ∀ recipient ∈ b.recipients[j]?,
        (l.get target).Holds b.mint recipient) ∧
      (issueAll b.mint b.authority (b.payments.take i) l).isOk = true)
    ⟨fun ⟨target_eq, recipient_eq, unfit, fit, accepted⟩ =>
        ⟨target_eq, recipient_eq, unfit, fit, Except.isOk_iff.mp accepted⟩,
      fun first => ⟨first.target_eq, first.recipient_eq, first.unfit, first.fit,
        Except.isOk_iff.mpr first.accepted⟩⟩

namespace FirstUnfit

variable {b : Batch} {l : Ledger} {n : Nat} {target recipient : Key}

theorem exists_payment (first : b.FirstUnfit l n target recipient)
    (paired : b.recipients.length = b.amounts.length) :
    ∃ p : Payment, p.target.key = target ∧ p.recipient = recipient ∧
      b.payments = b.payments.take n ++ p :: b.payments.drop (n + 1) ∧
      (b.payments.take n).length = n := by
  have target_eq := first.target_eq
  rw [List.getElem?_map] at target_eq
  obtain ⟨t, listed, key_eq⟩ := Option.map_eq_some_iff.mp target_eq
  have small : n < b.amounts.length :=
    paired ▸ (List.getElem?_eq_some_iff.mp first.recipient_eq).1
  have here : b.payments[n]? = some ⟨t, recipient, b.amounts[n]⟩ :=
    getElem?_payments.mpr ⟨listed, first.recipient_eq, List.getElem?_eq_getElem small⟩
  obtain ⟨reached, at_n⟩ := List.getElem?_eq_some_iff.mp here
  refine ⟨⟨t, recipient, b.amounts[n]⟩, key_eq, rfl, ?_,
    List.length_take_of_le (Nat.le_of_lt reached)⟩
  rw [← at_n, List.getElem_cons_drop, List.take_append_drop]

theorem fit_before (first : b.FirstUnfit l n target recipient) :
    ∀ p ∈ b.payments.take n, (l.get p.target.key).Holds b.mint p.recipient := by
  intro p paid
  obtain ⟨j, before, rfl⟩ := List.mem_take_iff_getElem.mp paid
  obtain ⟨before, inside⟩ := Nat.lt_min.mp before
  obtain ⟨listed, recipient_eq, -⟩ := getElem?_payments.mp (List.getElem?_eq_getElem inside)
  refine first.fit j before _ ?_ _ (Option.mem_def.mpr recipient_eq)
  rw [List.getElem?_map, listed]
  rfl

end FirstUnfit
end Batch

def batch? (call : Call) : Instruction → Option Batch
  | .mintTokens recipients amounts =>
    match examine call recipients amounts with
    | .ok (checked, targets, total) => some ⟨checked, targets, recipients, amounts, total⟩
    | .error _ => none
  | _ => none

variable {i : Instruction} {b : Batch} {n : Nat} {target recipient : Key}

theorem batch?_eq_some : batch? call i = some b ↔ i = .mintTokens b.recipients b.amounts ∧
    examine call b.recipients b.amounts = .ok (b.checked, b.targets, b.total) := by
  obtain ⟨checked, targets, recipients, amounts, total⟩ := b
  constructor
  · intro found
    cases i with
    | mintTokens recipients amounts =>
      simp only [batch?] at found
      split at found
      · rename_i admitted
        cases found
        exact ⟨rfl, admitted⟩
      · cases found
    | _ => cases found
  · rintro ⟨rfl, admitted⟩
    simp only [batch?, admitted]

theorem perform_of_firstUnfit (admitted : batch? call i = some b)
    (first : b.FirstUnfit call.ledger n target recipient) :
    ∃ failure, (call.ledger.get target).Unfit b.mint recipient failure ∧
      perform call i = ⟨List.replicate n (.started "MintTo"), .error failure⟩ := by
  obtain ⟨rfl, checks⟩ := batch?_eq_some.mp admitted
  obtain ⟨-, -, -, -, -, -, batch, -⟩ := examine_eq_ok.mp checks
  obtain ⟨-, paired, -⟩ := batchTotal_eq_ok.mp batch
  obtain ⟨p, rfl, rfl, payments_eq, length_eq⟩ := first.exists_payment paired
  obtain ⟨l', accepted⟩ := first.accepted
  obtain ⟨failure, unfit, refused⟩ := requireHolding_of_unfit first.unfit
  have stopped := pay_of_unfit (b.payments.drop (n + 1)) first.fit_before accepted refused
  rw [← payments_eq, length_eq] at stopped
  refine ⟨failure, unfit, ?_⟩
  change mintTokens call b.recipients b.amounts = _
  rw [mintTokens_eq_examine, checks, Outcome.lift_ok_bind]
  change (pay b.mint b.authority b.payments call.ledger).andThen _ = _
  rw [stopped]
  rfl

end Program

namespace World

def askedBy (w : World) (key : Key) (data : Bytes) (accounts : List AccountRef) :
    Option (Call × Instruction) :=
  if key = Identity.program then
    (Program.instruction data).toOption.map (⟨w.ledger, w.now, AccountRef.merge accounts⟩, ·)
  else none

/-- The call that the step makes of the program, and the instruction that it asks for. -/
def asked? (w : World) : Step → Option (Call × Instruction)
  | .setClock _ | .setAccount _ _ => none
  | .request key i accounts => w.askedBy key i.encode accounts
  | .requestRaw key data accounts => w.askedBy key data accounts

def batch? (w : World) (s : Step) : Option Program.Batch :=
  (w.asked? s).bind fun (call, i) => Program.batch? call i

variable {w : World} {s : Step} {call : Call} {i : Instruction} {log : List LogEntry}
  {failure : Failure}

theorem exists_call (asked : w.asked? s = some (call, i)) : ∃ data accounts,
    Program.instruction data = .ok i ∧ call = ⟨w.ledger, w.now, AccountRef.merge accounts⟩ ∧
      w.step s = w.answerCall Identity.program data accounts := by
  have by_data {key : Key} {data : Bytes} {accounts : List AccountRef}
      (asked : w.askedBy key data accounts = some (call, i)) : key = Identity.program ∧
      Program.instruction data = .ok i ∧ call = ⟨w.ledger, w.now, AccountRef.merge accounts⟩ := by
    obtain ⟨named, asked⟩ := Option.ite_none_right_eq_some.mp asked
    cases read : Program.instruction data with
    | error failure =>
      rw [read] at asked
      cases asked
    | ok i' =>
      rw [read] at asked
      cases asked
      exact ⟨named, rfl, rfl⟩
  cases s with
  | setClock now => cases asked
  | setAccount key account => cases asked
  | request key i' accounts =>
    obtain ⟨rfl, read, rfl⟩ := by_data asked
    exact ⟨_, accounts, read, rfl, rfl⟩
  | requestRaw key data accounts =>
    obtain ⟨rfl, read, rfl⟩ := by_data asked
    exact ⟨_, accounts, read, rfl, rfl⟩

theorem ledger_of_asked (asked : w.asked? s = some (call, i)) : call.ledger = w.ledger := by
  obtain ⟨-, -, -, rfl, -⟩ := exists_call asked
  rfl

theorem step_of_failed (asked : w.asked? s = some (call, i))
    (failed : Program.perform call i = ⟨log, .error failure⟩) :
    w.step s = (w, .called ⟨.started i.operation.title :: log, .error failure⟩ []) := by
  obtain ⟨data, accounts, read, rfl, answered⟩ := exists_call asked
  obtain ⟨fits, rest, rfl⟩ := Program.eq_append_of_instruction read
  have outcome : w.call Identity.program (i.encode ++ rest) accounts =
      ⟨.started i.operation.title :: log, .error failure⟩ := by
    rw [World.call, Program.execute_eq_dispatch, Program.dispatch_encode fits]
    change Outcome.andThen _ _ = _
    simp only [Outcome.andThen, failed, List.singleton_append]
  rw [answered]
  simp only [answerCall, outcome, after, settle, Ledger.changes_self]

theorem batch?_eq_some {b : Program.Batch} : w.batch? s = some b ↔
    ∃ call i, w.asked? s = some (call, i) ∧ Program.batch? call i = some b := by
  simp only [batch?, Option.bind_eq_some_iff, Prod.exists]

theorem step_of_firstUnfit {b : Program.Batch} {n : Nat} {target recipient : Key}
    (admitted : w.batch? s = some b) (first : b.FirstUnfit w.ledger n target recipient) :
    ∃ failure, (w.ledger.get target).Unfit b.mint recipient failure ∧ w.step s =
      (w, .called ⟨.started Operation.mintTokens.title :: List.replicate n (.started "MintTo"),
        .error failure⟩ []) := by
  obtain ⟨call, i, asked, batch⟩ := batch?_eq_some.mp admitted
  have ledger_eq : call.ledger = w.ledger := ledger_of_asked asked
  rw [← ledger_eq] at first ⊢
  obtain ⟨failure, unfit, stopped⟩ := Program.perform_of_firstUnfit batch first
  obtain ⟨rfl, -⟩ := Program.batch?_eq_some.mp batch
  exact ⟨failure, unfit, step_of_failed asked stopped⟩

theorem failsWith_of_firstUnfit {b : Program.Batch} {n : Nat} {target recipient : Key}
    (admitted : w.batch? s = some b) (first : b.FirstUnfit w.ledger n target recipient) :
    (w.step s).2.FailsWith 6012 ↔ ¬(w.ledger.get target).Unreadable := by
  obtain ⟨failure, unfit, answered⟩ := step_of_firstUnfit admitted first
  rw [answered, ← unfit.code_eq_iff]
  constructor
  · rintro ⟨⟨failure', same, coded⟩, -⟩
    cases same
    exact coded
  · exact fun coded => ⟨⟨failure, rfl, coded⟩, rfl⟩

end World

/-- A batch that is admitted stops at its first unfit destination and mints nothing. The destination
is refused as an invalid token account unless the token program owns it and cannot read it. -/
theorem mint_stops_at_unfit (w : World) (s : Step) (b : Program.Batch) (n : Nat)
    (target recipient : Key) (admitted : w.batch? s = some b)
    (first : b.FirstUnfit w.ledger n target recipient) :
    ((w.step s).2.FailsWith 6012 ↔ ¬(w.ledger.get target).Unreadable) ∧
    ∃ failure, (w.ledger.get target).Unfit b.mint recipient failure ∧ w.step s =
      (w, .called ⟨.started Operation.mintTokens.title :: List.replicate n (.started "MintTo"),
        .error failure⟩ []) :=
  ⟨World.failsWith_of_firstUnfit admitted first, World.step_of_firstUnfit admitted first⟩

section Samples
open AccountRef (signing written shown)

def Step.paysSecond (second : Key) : Step :=
  ask (.mintTokens [Key.filled 4, Key.filled 5] [10, 20])
    [signing (Key.filled 3), shown Program.registryAddress.home,
      shown Derivation.mintAuthority.home, written Derivation.sampleMint.home,
      shown (Derivation.mintRecord Derivation.sampleMint.home).home, shown Identity.tokenProgram,
      written (Key.filled 6), written second]

/-- There is the mint, a holding, and an account of a holding's width that nobody initialized. -/
def World.issuing : World :=
  World.reached (Step.issuing.dropLast ++
    [.setAccount (Key.filled 8) ⟨1, Identity.tokenProgram, false, List.replicate Holding.width 0⟩])

theorem mint_stops_at_unfit_of_foreign : ∃ b,
    World.issuing.batch? (.paysSecond (Key.filled 1)) = some b ∧
    b.FirstUnfit World.issuing.ledger 1 (Key.filled 1) (Key.filled 5) ∧
    (World.issuing.step (.paysSecond (Key.filled 1))).2.FailsWith 6012 := by
  have sample : (∃ b ∈ World.issuing.batch? (.paysSecond (Key.filled 1)),
      b.FirstUnfit World.issuing.ledger 1 (Key.filled 1) (Key.filled 5)) ∧
      (World.issuing.ledger.get (Key.filled 1)).owner ≠ Identity.tokenProgram := by
    decide +kernel
  obtain ⟨⟨b, admitted, first⟩, foreign⟩ := sample
  refine ⟨b, admitted, first, ?_⟩
  exact (mint_stops_at_unfit _ _ b 1 _ _ admitted first).1.mpr fun unread => foreign unread.1

/-- Nobody initialized the second destination, and the call fails without a number. -/
theorem mint_stops_at_unfit_of_uninitialized : ∃ b,
    World.issuing.batch? (.paysSecond (Key.filled 8)) = some b ∧
    b.FirstUnfit World.issuing.ledger 1 (Key.filled 8) (Key.filled 5) ∧
    ¬(World.issuing.step (.paysSecond (Key.filled 8))).2.FailsWith 6012 := by
  have sample : (∃ b ∈ World.issuing.batch? (.paysSecond (Key.filled 8)),
      b.FirstUnfit World.issuing.ledger 1 (Key.filled 8) (Key.filled 5)) ∧
      (World.issuing.ledger.get (Key.filled 8)).owner = Identity.tokenProgram ∧
      (Holding.unpack (World.issuing.ledger.get (Key.filled 8)).data).isOk = false := by
    decide +kernel
  obtain ⟨⟨b, admitted, first⟩, owner, unread⟩ := sample
  refine ⟨b, admitted, first, fun failed => ?_⟩
  refine (World.failsWith_of_firstUnfit admitted first).mp failed ⟨owner, fun h held => ?_⟩
  rw [held] at unread
  cases unread

end Samples
end VaultMarket
