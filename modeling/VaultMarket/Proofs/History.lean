import Mathlib.Data.List.Induction
import VaultMarket.Proofs.Addresses
import VaultMarket.Proofs.Perform
import VaultMarket.Run
set_option autoImplicit false

/-!
# Histories of honest runs

A run is honest if the host leaves the accounts of the program alone. Its history is the list of the
calls that succeeded, oldest first. A step either leaves all records alone or adds one call to the
history and has the effect of its instruction; facts about runs follow by induction over that.
-/

namespace VaultMarket

/-- A call that succeeded: the clock, what was asked for, the accounts with the flags of all their
listings, and what was hashed for addresses. -/
structure Receipt where
  now : Int64
  instruction : Instruction
  accounts : List AccountRef
  hashed : List Bytes
deriving DecidableEq

namespace Receipt

def account? (r : Receipt) (field : String) : Option AccountRef :=
  ((r.instruction.operation.accountFields.map (·.name)).idxOf? field).bind (r.accounts[·]?)

def key? (r : Receipt) (field : String) : Option Key := (r.account? field).map (·.key)

def Signed (r : Receipt) (field : String) : Prop :=
  ∃ a, r.account? field = some a ∧ a.signer = true

/-- What the last receipt says for which `f` says something. -/
def latest {α : Type} (f : Receipt → Option α) (history : List Receipt) : Option α :=
  history.reverse.findSome? f

section Latest

variable {α : Type} {f : Receipt → Option α} {history more : List Receipt} {r : Receipt} {a : α}

theorem latest_concat : latest f (history ++ [r]) = (f r).or (latest f history) := by
  rw [latest, List.reverse_append, List.reverse_singleton, List.singleton_append,
    List.findSome?_cons]
  cases f r <;> rfl

theorem latest_concat_of_none (silent : f r = none) :
    latest f (history ++ [r]) = latest f history := by
  rw [latest_concat, silent, Option.none_or]

theorem latest_concat_of_some (said : f r = some a) : latest f (history ++ [r]) = some a := by
  rw [latest_concat, said, Option.some_or]

theorem latest_eq_none : latest f history = none ↔ ∀ r ∈ history, f r = none := by
  rw [latest, List.findSome?_eq_none_iff]
  simp only [List.mem_reverse]

/-- If the last receipt says `a` and an earlier one said something else, `a` was said since. -/
theorem latest_since {b : α} (last : latest f (history ++ r :: more) = some a)
    (said : f r = some b) (other : b ≠ a) : ∃ d ∈ more, f d = some a := by
  rw [latest, List.reverse_append, List.reverse_cons, List.append_assoc, List.findSome?_append]
    at last
  cases found : more.reverse.findSome? f with
  | none =>
    rw [found, Option.none_or, List.singleton_append, List.findSome?_cons, said] at last
    exact absurd (Option.some.inj last) other
  | some x =>
    rw [found, Option.some_or] at last
    obtain ⟨d, known, same⟩ := List.exists_of_findSome?_eq_some found
    exact ⟨d, List.mem_reverse.mp known, same.trans last⟩

theorem latest_ne_none (known : r ∈ history) (said : f r = some a) : latest f history ≠ none := by
  intro silent
  rw [latest_eq_none.mp silent r known] at said
  cases said

end Latest
end Receipt

section Hashed

/-- What the account claims to be derived for, with the bump that it stores. -/
def Records.claims (before : Records) (a : AccountRef) : List (Derivation × UInt8) :=
  (before a.key).toList.map fun s => (s.derivation, s.bump)

def Records.vaultClaims (before : Records) (kind : VaultKind) (a : AccountRef) :
    List (Derivation × UInt8) :=
  match before a.key with
  | some (.vault v) => [(.vault kind v.creator, v.bump)]
  | _ => []

namespace Instruction

def searched : Instruction → List AccountRef → List Derivation
  | createRegistry, _ :: authority :: _ => [.registry authority.key]
  | openVault opening, _ :: _ :: authority :: _ => [.vault opening.kind authority.key]
  | createUser username, signer :: _ => [.user username, .vault .user signer.key]
  | createHandle text, _ => [.handle text]
  | createServer name ticker, _ => [.server name ticker]
  | createMint terms, payer :: _ :: _ :: _ :: mint :: _ =>
    [.tokenMint payer.key terms.nonce, .mintRecord mint.key, .mintAuthority]
  | mintTokens _ _, _ => [.mintAuthority]
  | _, _ => []

/-- What the instruction derives once, for the bump that a record stores. -/
def checked (before : Records) : Instruction → List AccountRef → List (Derivation × UInt8)
  | handOverRegistry, registry :: _ | changeServiceSigner _, registry :: _
  | openVault _, _ :: _ :: _ :: registry :: _ | createMint _, _ :: _ :: registry :: _ =>
    before.claims registry
  | handOverVault kind, _ :: _ :: _ :: registry :: vault :: _ =>
    before.claims registry ++ before.vaultClaims kind vault
  | updateProfile _ _, _ :: user :: _ | createHandle _, _ :: user :: _ => before.claims user
  | moveHandle, _ :: source :: target :: handle :: _ =>
    before.claims source ++ before.claims target ++ before.claims handle
  | handOverServer _, _ :: server :: _ => before.claims server
  | mintTokens _ _, _ :: registry :: _ :: _ :: record :: _ =>
    before.claims registry ++ before.claims record
  | _, _ => []

def hashed (before : Records) (i : Instruction) (accounts : List AccountRef) : List Bytes :=
  (i.searched accounts).flatMap (·.tried Identity.program 255) ++
    (i.checked before accounts).map fun (d, bump) => d.preimage Identity.program bump

end Instruction
end Hashed

namespace Program

def instruction (data : Bytes) : Except Failure Instruction := do
  let operation ← operation data
  arguments operation data

theorem execute_gives {key : Key} {data : Bytes} {call : Call} {l' : Ledger} :
    (execute key data call).Gives l' ↔ key = Identity.program ∧ ∃ i,
      instruction data = .ok i ∧ (perform call i).Gives l' := by
  simp only [execute, instruction, Outcome.gives_bind, Outcome.gives_lift, Outcome.gives_start,
    Except.bind_eq_ok, exists_unit, require_eq_ok, true_and]
  constructor
  · rintro ⟨own, operation, known, i, read, done⟩
    exact ⟨own, i, ⟨operation, known, read⟩, done⟩
  · rintro ⟨own, i, ⟨operation, known, read⟩, done⟩
    exact ⟨own, operation, known, i, read, done⟩

end Program

/-- The host neither replaces an account of the program nor makes one. -/
def Step.Honest (w : World) : Step → Prop
  | .setAccount key account =>
    (w.ledger.get key).owner ≠ Identity.program ∧ account.owner ≠ Identity.program
  | _ => True

instance (w : World) (s : Step) : Decidable (s.Honest w) := by
  cases s <;> unfold Step.Honest <;> infer_instance

namespace World

def Honest (w : World) : List Step → Prop
  | [] => True
  | s :: rest => s.Honest w ∧ Honest (w.step s).1 rest

instance decidableHonest (w : World) : (steps : List Step) → Decidable (w.Honest steps)
  | [] => instDecidableTrue
  | s :: rest =>
    have := decidableHonest (w.step s).1 rest
    inferInstanceAs (Decidable (s.Honest w ∧ Honest (w.step s).1 rest))

def receiptOf (w : World) (key : Key) (data : Bytes) (accounts : List AccountRef) :
    Option Receipt :=
  match (w.call key data accounts).result, Program.instruction data with
  | .ok _, .ok i =>
    let accounts := AccountRef.merge accounts
    some ⟨w.now, i, accounts, i.hashed w.ledger.records accounts⟩
  | _, _ => none

def receipt? (w : World) : Step → Option Receipt
  | .setClock _ | .setAccount _ _ => none
  | .request key i accounts => w.receiptOf key i.encode accounts
  | .requestRaw key data accounts => w.receiptOf key data accounts

def receipts (w : World) : List Step → List Receipt
  | [] => []
  | s :: rest => (w.receipt? s).toList ++ receipts (w.step s).1 rest

abbrev reached (steps : List Step) : World := (genesis.run steps).1

def hashed (w : World) (steps : List Step) : List Bytes := (w.receipts steps).flatMap (·.hashed)

section Append

variable {w : World} {s : Step} {steps more : List Step}

theorem run_cons : (w.run (s :: steps)).1 = ((w.step s).1.run steps).1 := rfl

theorem run_append : (w.run (steps ++ more)).1 = ((w.run steps).1.run more).1 := by
  induction steps generalizing w with
  | nil => rfl
  | cons s steps ih =>
    rw [List.cons_append, run_cons, run_cons]
    exact ih

theorem run_concat : (w.run (steps ++ [s])).1 = ((w.run steps).1.step s).1 := run_append

theorem reached_append : reached (steps ++ more) = ((reached steps).run more).1 := run_append

theorem honest_append :
    w.Honest (steps ++ more) ↔ w.Honest steps ∧ (w.run steps).1.Honest more := by
  induction steps generalizing w with
  | nil => exact ⟨fun h => ⟨trivial, h⟩, And.right⟩
  | cons s steps ih =>
    change s.Honest w ∧ (w.step s).1.Honest (steps ++ more) ↔ _
    rw [ih, ← and_assoc]
    rfl

theorem honest_concat :
    w.Honest (steps ++ [s]) ↔ w.Honest steps ∧ s.Honest (w.run steps).1 := by
  rw [honest_append]
  exact and_congr_right fun _ => ⟨And.left, fun h => ⟨h, trivial⟩⟩

theorem receipts_append :
    w.receipts (steps ++ more) = w.receipts steps ++ (w.run steps).1.receipts more := by
  induction steps generalizing w with
  | nil => rfl
  | cons s steps ih =>
    change (w.receipt? s).toList ++ (w.step s).1.receipts (steps ++ more) = _
    rw [ih, ← List.append_assoc]
    rfl

theorem receipts_concat :
    w.receipts (steps ++ [s]) = w.receipts steps ++ ((w.run steps).1.receipt? s).toList := by
  rw [receipts_append]
  exact congrArg _ (List.append_nil _)

theorem honest_of_part {first : List Step} (part : first <+: steps) (honest : w.Honest steps) :
    w.Honest first := by
  obtain ⟨rest, rfl⟩ := part
  exact (honest_append.mp honest).1

theorem hashed_of_part {first : List Step} (part : first <+: steps) :
    ∀ x ∈ w.hashed first, x ∈ w.hashed steps := by
  obtain ⟨rest, rfl⟩ := part
  intro x known
  rw [hashed, receipts_append, List.flatMap_append]
  exact List.mem_append_left _ known

end Append

section Performed

variable {w : World} {s : Step} {c : Receipt}

theorem receiptOf_performed {key : Key} {data : Bytes} {accounts : List AccountRef}
    (called : w.receiptOf key data accounts = some c) :
    (Program.perform ⟨w.ledger, c.now, c.accounts⟩ c.instruction).Gives
      (w.answerCall key data accounts).1.ledger := by
  change Outcome.Gives _ (settle w.ledger (w.call key data accounts).result)
  unfold receiptOf at called
  cases outcome : (w.call key data accounts).result with
  | error failure =>
    rw [outcome] at called
    cases called
  | ok l' =>
    obtain ⟨-, i, asked, done⟩ := Program.execute_gives.mp (outcome : Outcome.Gives _ l')
    simp only [outcome, asked] at called
    cases called
    exact done

theorem performed_of_call (called : w.receipt? s = some c) :
    (Program.perform ⟨w.ledger, c.now, c.accounts⟩ c.instruction).Gives (w.step s).1.ledger := by
  cases s with
  | setClock now => cases called
  | setAccount key account => cases called
  | request key i accounts => exact receiptOf_performed called
  | requestRaw key data accounts => exact receiptOf_performed called

end Performed

/-- What one step does to the ledger: nothing to its records, or what its receipt says. -/
inductive Advance (before : Ledger) : Option Receipt → Ledger → Prop where
  | idle {after : Ledger} (same : after.records = before.records) (spares : before.Spares after) :
      Advance before none after
  | call {now : Int64} {i : Instruction} {accounts : List AccountRef} {after : Ledger}
      (effect : Effect now before.records i accounts after.records) (keeps : before.Keeps after) :
      Advance before (some ⟨now, i, accounts, i.hashed before.records accounts⟩) after

section Advances

variable {w : World} {s : Step}

theorem setAccount_advance {l : Ledger} {key : Key} {account : Account}
    (old : (l.get key).owner ≠ Identity.program) (new : account.owner ≠ Identity.program) :
    Advance l none (l.set key account) := by
  have vacant : l.records key = none := Ledger.records_of_foreign old
  refine .idle ?_ ?_
  · rw [Ledger.records_set, Account.record?_of_foreign new, ← vacant, Function.update_eq_self]
  · intro k s held
    have other : k ≠ key := by
      rintro rfl
      rw [vacant] at held
      cases held
    exact Ledger.get_set_other _ _ other

theorem answerCall_advance {key : Key} {data : Bytes} {accounts : List AccountRef} :
    Advance w.ledger (w.receiptOf key data accounts) (w.answerCall key data accounts).1.ledger := by
  change Advance w.ledger (w.receiptOf key data accounts)
    (settle w.ledger (w.call key data accounts).result)
  unfold receiptOf
  cases outcome : (w.call key data accounts).result with
  | error failure => exact .idle rfl (.refl _)
  | ok l' =>
    have gives : (w.call key data accounts).Gives l' := outcome
    obtain ⟨-, i, asked, done⟩ := Program.execute_gives.mp gives
    rw [asked]
    have performs := Program.perform_performs done
    exact .call performs.effect performs.keeps

theorem step_advance (honest : s.Honest w) :
    Advance w.ledger (w.receipt? s) (w.step s).1.ledger := by
  cases s with
  | setClock now => exact .idle rfl (.refl _)
  | setAccount key account => exact setAccount_advance honest.1 honest.2
  | request key i accounts => exact answerCall_advance
  | requestRaw key data accounts => exact answerCall_advance

theorem honest_of_call {c : Receipt} (called : w.receipt? s = some c) : s.Honest w := by
  cases s with
  | setAccount key account => cases called
  | _ => trivial

theorem effect_of_call {c : Receipt} (called : w.receipt? s = some c) :
    Effect c.now w.ledger.records c.instruction c.accounts (w.step s).1.ledger.records := by
  have advance := step_advance (honest_of_call called)
  rw [called] at advance
  cases advance with
  | call effect _ => exact effect

theorem keeps_of_call {c : Receipt} (called : w.receipt? s = some c) :
    w.ledger.Keeps (w.step s).1.ledger := by
  have advance := step_advance (honest_of_call called)
  rw [called] at advance
  cases advance with
  | call _ keeps => exact keeps

theorem records_of_silent (honest : s.Honest w) (silent : w.receipt? s = none) :
    (w.step s).1.ledger.records = w.ledger.records := by
  have advance := step_advance honest
  rw [silent] at advance
  cases advance with
  | idle same _ => exact same

theorem changed_by_call {k : Key} {stored : Stored} (honest : s.Honest w)
    (held : w.ledger.records k = some stored)
    (changed : (w.step s).1.ledger.get k ≠ w.ledger.get k) :
    ∃ c, w.receipt? s = some c ∧
      Effect c.now w.ledger.records c.instruction c.accounts (w.step s).1.ledger.records ∧
      (w.step s).1.ledger.records k ≠ w.ledger.records k := by
  have advance := step_advance honest
  generalize w.receipt? s = c? at advance
  cases advance with
  | idle _ spares => exact absurd (spares k _ held) changed
  | call effect keeps =>
    refine ⟨_, rfl, effect, fun same => ?_⟩
    exact changed (keeps k _ held (same.trans held))

theorem owner_genesis (k : Key) : (Ledger.genesis.get k).owner = Identity.systemProgram := by
  simp only [Ledger.get, Ledger.genesis, List.lookup_cons, List.lookup_nil]
  split
  · rfl
  · split <;> rfl

theorem records_genesis : Ledger.genesis.records = fun _ => none := by
  funext k
  apply Ledger.records_of_foreign
  rw [owner_genesis]
  decide

theorem records_start : (reached []).ledger.records = fun _ => none := records_genesis

/-- What every effect preserves holds after the rest of an honest run, with the history so far. -/
theorem later_induction {P : Records → List Receipt → Prop} (history : List Receipt)
    (start : P w.ledger.records history)
    (effect : ∀ {before after : Records} {history : List Receipt} {now : Int64} {i : Instruction}
      {accounts : List AccountRef}, P before history → Effect now before i accounts after →
      P after (history ++ [⟨now, i, accounts, i.hashed before accounts⟩]))
    (more : List Step) (honest : w.Honest more) :
    P (w.run more).1.ledger.records (history ++ w.receipts more) := by
  induction more using List.reverseRecOn with
  | nil =>
    change P w.ledger.records (history ++ [])
    rw [List.append_nil]
    exact start
  | append_singleton more s ih =>
    obtain ⟨earlier, last⟩ := honest_concat.mp honest
    have before := ih earlier
    rw [run_concat, receipts_concat, ← List.append_assoc]
    have advance := step_advance last
    generalize (w.run more).1.receipt? s = r? at advance
    cases advance with
    | idle same _ =>
      rw [same, Option.toList_none, List.append_nil]
      exact before
    | call done _ => exact effect before done

/-- What holds of no records and no history and stays with every effect holds after every run. -/
theorem history_induction {P : Records → List Receipt → Prop} (start : P (fun _ => none) [])
    (effect : ∀ {before after : Records} {history : List Receipt} {now : Int64} {i : Instruction}
      {accounts : List AccountRef}, P before history → Effect now before i accounts after →
      P after (history ++ [⟨now, i, accounts, i.hashed before accounts⟩]))
    (steps : List Step) (honest : genesis.Honest steps) :
    P (reached steps).ledger.records (genesis.receipts steps) := by
  have initial : P genesis.ledger.records [] := by
    change P Ledger.genesis.records []
    rw [records_genesis]
    exact start
  exact later_induction [] initial effect steps honest

end Advances
end World

section Samples

def Derivation.home (d : Derivation) : Key :=
  ((d.find? Identity.program).map (·.address)).getD Key.zero

theorem Derivation.exists_home {d : Derivation} (h : (d.find? Identity.program).isSome = true) :
    ∃ bump, d.find Identity.program = .ok ⟨d.home, bump⟩ := by
  obtain ⟨found, same⟩ := Option.isSome_iff_exists.mp h
  exact ⟨found.bump, by rw [find, home, same]; rfl⟩

def Key.filled (b : UInt8) : Key := ⟨List.replicate 32 b, List.length_replicate⟩

namespace AccountRef

def signing (key : Key) : AccountRef := ⟨key, true, true⟩
def written (key : Key) : AccountRef := ⟨key, false, true⟩
def shown (key : Key) : AccountRef := ⟨key, false, false⟩

end AccountRef

namespace Step
open AccountRef (signing written shown)

def fund (key : Key) : Step := .setAccount key ⟨1000000000, Identity.systemProgram, false, []⟩

def ask (i : Instruction) (accounts : List AccountRef) : Step :=
  .request Identity.program i accounts

/-- The registry is made, and a first service signer is registered. -/
def founding : List Step :=
  [fund Identity.configAuthority,
   ask .createRegistry [signing Identity.configAuthority, signing Identity.configAuthority,
     written Program.registryAddress.home, shown Identity.systemProgram],
   setClock 7,
   ask (.changeServiceSigner .add) [written Program.registryAddress.home,
     signing Identity.configAuthority, signing (Key.filled 3)]]

end Step
end Samples
end VaultMarket
