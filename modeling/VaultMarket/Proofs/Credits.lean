import VaultMarket.Proofs.Supply
set_option autoImplicit false

namespace VaultMarket
open LawfulWire (Fits)

namespace Bytes

theorem overwrite_middle {front old new tail : Bytes} (same : old.length = new.length) :
    (front ++ (old ++ tail)).overwrite front.length new = front ++ (new ++ tail) := by
  rw [overwrite, List.take_left, ← same, ← List.append_assoc, ← List.length_append, List.drop_left,
    List.append_assoc]

end Bytes

theorem LawfulWire.eq_encode_of_decode {α : Type} [Wire α] [LawfulWire α] {data rest : Bytes}
    {a : α} (decoded : Wire.decode data = some (a, rest))
    (width : data.length = (Wire.encode a).length) : data = Wire.encode a := by
  have written := LawfulWire.eq_append_of_decode data a rest decoded
  rw [written, List.length_append, Nat.add_eq_left] at width
  rw [written, List.eq_nil_of_length_eq_zero width, List.append_nil]

section Formats

variable {data : Bytes} {h : Holding} {m : Mint}

namespace Holding

def amountStart : Nat := 64

theorem eq_encode_of_unpack (held : unpack data = .ok h) : data = Wire.encode h := by
  obtain ⟨width, ⟨rest, decoded⟩, -⟩ := unpack_eq_ok.mp held
  exact LawfulWire.eq_encode_of_decode decoded (width.trans (Wire.length_encode_holding h).symm)

theorem not_mint (held : unpack data = .ok h) : Mint.unpack data ≠ .ok m := by
  rw [Ne, ← Token.mint?_eq_some, Token.mint?_of_holding held]
  nofun

theorem encode_amount (held : unpack data = .ok h) (amount : UInt64) :
    Wire.encode { h with amount } = data.overwrite amountStart (Wire.encode amount) := by
  have front : (Wire.encode h.mint ++ Wire.encode h.owner).length = amountStart := by
    rw [List.length_append, Wire.length_encode_key, Wire.length_encode_key]
    rfl
  have written (amount : UInt64) : Wire.encode { h with amount } =
      Wire.encode h.mint ++ Wire.encode h.owner ++ (Wire.encode amount ++
        Wire.encode (h.delegate, h.state, h.reserve, h.delegated, h.closeAuthority)) := by
    rw [List.append_assoc]
    rfl
  have before : data = _ := (eq_encode_of_unpack held).trans (written h.amount)
  rw [written, before, ← front, Bytes.overwrite_middle]
  rfl

end Holding

namespace Mint

def supplyStart : Nat := 36

theorem eq_encode_of_unpack (minted : unpack data = .ok m) : data = Wire.encode m := by
  obtain ⟨width, ⟨rest, decoded⟩, -⟩ := unpack_eq_ok.mp minted
  exact LawfulWire.eq_encode_of_decode decoded (width.trans (Wire.length_encode_mint m).symm)

theorem encode_supply (minted : unpack data = .ok m) (supply : UInt64) :
    Wire.encode { m with supply } = data.overwrite supplyStart (Wire.encode supply) := by
  have front : (Wire.encode m.authority).length = supplyStart := by
    rw [Wire.length_encode_padded, Wire.length_encode_key]
    rfl
  have written (supply : UInt64) : Wire.encode { m with supply } =
      Wire.encode m.authority ++ (Wire.encode supply ++
        Wire.encode (m.decimals, m.initialized, m.freezeAuthority)) := rfl
  have before : data = _ := (eq_encode_of_unpack minted).trans (written m.supply)
  rw [written, before, ← front, Bytes.overwrite_middle]
  rfl

end Mint
end Formats

theorem toNat_add_ofNat {a : UInt64} {n : Nat} (room : a.toNat + n < UInt64.size) :
    (a + UInt64.ofNat n).toNat = a.toNat + n := by
  have small : (UInt64.ofNat n).toNat = n :=
    UInt64.toNat_ofNat_of_lt' (Nat.lt_of_le_of_lt (Nat.le_add_left n _) room)
  rw [toNat_add_of_lt (small.symm ▸ room), small]

namespace Account

/-- The account with `n` more tokens, if it is a holding. -/
def credited (a : Account) (n : Nat) : Account :=
  match Holding.unpack a.data with
  | .ok h => { a with data := Wire.encode { h with amount := h.amount + UInt64.ofNat n } }
  | .error _ => a

/-- The account with a supply of `n` more, if it is a mint. -/
def raised (a : Account) (n : Nat) : Account :=
  match Mint.unpack a.data with
  | .ok m => { a with data := Wire.encode { m with supply := m.supply + UInt64.ofNat n } }
  | .error _ => a

variable {a : Account} {h : Holding} {m : Mint} {n n' : Nat}

theorem credited_of_holding (held : Holding.unpack a.data = .ok h) : a.credited n =
    { a with data := Wire.encode { h with amount := h.amount + UInt64.ofNat n } } := by
  rw [credited, held]

theorem raised_of_mint (minted : Mint.unpack a.data = .ok m) : a.raised n =
    { a with data := Wire.encode { m with supply := m.supply + UInt64.ofNat n } } := by
  rw [raised, minted]

theorem unpack_credited (held : Holding.unpack a.data = .ok h) :
    Holding.unpack (a.credited n).data =
      .ok { h with amount := h.amount + UInt64.ofNat n } := by
  rw [credited_of_holding held]
  exact Holding.unpack_encode (Holding.unpack_eq_ok.mp held).2.2

theorem unpack_raised (minted : Mint.unpack a.data = .ok m) :
    Mint.unpack (a.raised n).data = .ok { m with supply := m.supply + UInt64.ofNat n } := by
  rw [raised_of_mint minted]
  exact Mint.unpack_encode (Mint.unpack_eq_ok.mp minted).2.2

theorem credited_zero : a.credited 0 = a := by
  cases held : Holding.unpack a.data with
  | error fault => rw [credited, held]
  | ok h =>
    have same : h.amount + UInt64.ofNat 0 = h.amount := UInt64.add_zero _
    rw [credited_of_holding held, same, ← Holding.eq_encode_of_unpack held]

theorem raised_zero : a.raised 0 = a := by
  cases minted : Mint.unpack a.data with
  | error fault => rw [raised, minted]
  | ok m =>
    have same : m.supply + UInt64.ofNat 0 = m.supply := UInt64.add_zero _
    rw [raised_of_mint minted, same, ← Mint.eq_encode_of_unpack minted]

theorem credited_credited : (a.credited n).credited n' = a.credited (n + n') := by
  cases held : Holding.unpack a.data with
  | error fault => simp only [credited, held]
  | ok h =>
    rw [credited_of_holding (unpack_credited held), credited_of_holding held,
      credited_of_holding held, UInt64.ofNat_add, UInt64.add_assoc]

theorem raised_raised (minted : Mint.unpack a.data = .ok m) :
    (a.raised n).raised n' = a.raised (n + n') := by
  rw [raised_of_mint (unpack_raised minted), raised_of_mint minted, raised_of_mint minted,
    UInt64.ofNat_add, UInt64.add_assoc]

/-- The account is a holding of the mint's token for the owner. -/
def Holds (a : Account) (mint owner : Key) : Prop :=
  a.owner = Identity.tokenProgram ∧ ∃ h, Holding.unpack a.data = .ok h ∧ h.mint = mint ∧
    h.owner = owner

/-- A credit changes neither the owner of a holding nor its mint. -/
theorem Holds.of_credited {mint owner : Key} (holds : (a.credited n).Holds mint owner) :
    a.Holds mint owner := by
  cases held : Holding.unpack a.data with
  | error fault =>
    rw [credited, held] at holds
    exact holds
  | ok h =>
    obtain ⟨program, h', held', of_mint, of_owner⟩ := holds
    rw [unpack_credited held] at held'
    cases held'
    rw [credited_of_holding held] at program
    exact ⟨program, h, held, of_mint, of_owner⟩

end Account

section Tallies

variable {entries : List (Key × UInt64)} {e : Key × UInt64} {key : Key}

/-- What the entries for the key add up to. -/
def tally (entries : List (Key × UInt64)) (key : Key) : Nat :=
  ((entries.filter (·.1 = key)).map (·.2.toNat)).sum

theorem tally_single (e : Key × UInt64) : tally [e] key = if e.1 = key then e.2.toNat else 0 := by
  by_cases here : e.1 = key <;> simp [tally, here]

theorem tally_append (first later : List (Key × UInt64)) :
    tally (first ++ later) key = tally first key + tally later key := by
  rw [tally, List.filter_append, List.map_append, List.sum_append]
  rfl

theorem tally_of_unnamed (unnamed : ∀ e ∈ entries, e.1 ≠ key) : tally entries key = 0 := by
  have none_named : entries.filter (·.1 = key) = [] :=
    List.filter_eq_nil_iff.mpr fun e listed same => unnamed e listed (of_decide_eq_true same)
  rw [tally, none_named]
  rfl

end Tallies

namespace Program

variable {l l₁ l' : Ledger} {mint authority k : Key} {p : Payment} {ps qs : List Payment}

def Payment.entry (p : Payment) : Key × UInt64 := (p.target.key, p.amount)

structure Credits (mint : Key) (ps : List Payment) (l l' : Ledger) : Prop where
  held : ∀ p ∈ ps, (l.get p.target.key).Holds mint p.recipient
  room : ∀ k h, Holding.unpack (l.get k).data = .ok h →
    h.amount.toNat + tally (ps.map Payment.entry) k < UInt64.size
  minted : ∃ m, Mint.unpack (l.get mint).data = .ok m ∧
    m.supply.toNat + (ps.map (·.amount.toNat)).sum < UInt64.size
  mint_eq : l'.get mint = (l.get mint).raised (ps.map (·.amount.toNat)).sum
  get_eq : ∀ k, k ≠ mint → l'.get k = (l.get k).credited (tally (ps.map Payment.entry) k)

namespace Credits

theorem nothing {m : Mint} (minted : Mint.unpack (l.get mint).data = .ok m) :
    Credits mint [] l l where
  held := nofun
  room _ h _ := h.amount.toNat_lt
  minted := ⟨m, minted, m.supply.toNat_lt⟩
  mint_eq := Account.raised_zero.symm
  get_eq _ _ := Account.credited_zero.symm

/-- One payment. The two accounts that it writes are not one, since a mint is no holding. -/
theorem issue (checked : requireHolding mint p l = .ok ())
    (issued : Token.issue mint p.target.key authority p.amount l = .ok l') :
    Credits mint [p] l l' := by
  obtain ⟨program, h, held, of_mint, of_owner⟩ := requireHolding_eq_ok.mp checked
  obtain ⟨h', held', -, -, -, m, minted, -, -, -, room, room', rfl⟩ := Token.issue_eq_ok.mp issued
  cases held.symm.trans held'
  have apart : mint ≠ p.target.key := by
    rintro rfl
    exact Holding.not_mint held minted
  refine ⟨?_, ?_, ⟨m, minted, room'⟩, ?_, ?_⟩
  · intro q one
    cases List.mem_singleton.mp one
    exact ⟨program, h, held, of_mint, of_owner⟩
  · intro k g held_k
    rw [List.map_singleton, tally_single, Payment.entry]
    by_cases here : p.target.key = k
    · rw [← here, held] at held_k
      cases held_k
      rw [if_pos here]
      exact room
    · rw [if_neg here]
      exact g.amount.toNat_lt
  · rw [Account.raised_of_mint minted, Ledger.setData, Ledger.get_set_same, Ledger.setData,
      Ledger.get_set_other _ _ apart]
    simp
  · intro k other
    rw [List.map_singleton, tally_single, Payment.entry, Ledger.setData,
      Ledger.get_set_other _ _ other, Ledger.setData]
    by_cases here : p.target.key = k
    · rw [if_pos here, ← here, Ledger.get_set_same, Account.credited_of_holding held,
        UInt64.ofNat_toNat]
    · rw [if_neg here, Ledger.get_set_other _ _ (Ne.symm here), Account.credited_zero]

theorem trans (first : Credits mint ps l l₁) (later : Credits mint qs l₁ l') :
    Credits mint (ps ++ qs) l l' := by
  obtain ⟨m, minted, room⟩ := first.minted
  obtain ⟨m₁, minted₁, room₁⟩ := later.minted
  rw [first.mint_eq, Account.unpack_raised minted] at minted₁
  cases minted₁
  have apart {t : Key} {h : Holding} (held : Holding.unpack (l.get t).data = .ok h) : t ≠ mint := by
    rintro rfl
    exact Holding.not_mint held minted
  refine ⟨?_, ?_, ⟨m, minted, ?_⟩, ?_, ?_⟩
  · intro p listed
    rcases List.mem_append.mp listed with listed | listed
    · exact first.held p listed
    · have holds := later.held p listed
      have apart₁ : p.target.key ≠ mint := by
        intro same
        obtain ⟨-, h, held, -⟩ := holds
        rw [same, first.mint_eq] at held
        exact Holding.not_mint held (Account.unpack_raised minted)
      rw [first.get_eq _ apart₁] at holds
      exact holds.of_credited
  · intro t h held
    have held₁ := Account.unpack_credited (n := tally (ps.map Payment.entry) t) held
    rw [← first.get_eq t (apart held)] at held₁
    have room₁ := later.room t _ held₁
    rw [toNat_add_ofNat (first.room t h held), Nat.add_assoc, ← tally_append, ← List.map_append]
      at room₁
    exact room₁
  · rw [toNat_add_ofNat room, Nat.add_assoc, ← List.sum_append, ← List.map_append] at room₁
    exact room₁
  · rw [later.mint_eq, first.mint_eq, Account.raised_raised minted, List.map_append,
      List.sum_append]
  · intro k other
    rw [later.get_eq k other, first.get_eq k other, Account.credited_credited, List.map_append,
      tally_append]

end Credits

theorem pay_credits {m : Mint} (minted : Mint.unpack (l.get mint).data = .ok m)
    (h : (pay mint authority ps l).Gives l') : Credits mint ps l l' := by
  induction ps generalizing l m with
  | nil =>
    cases h
    exact .nothing minted
  | cons p ps ih =>
    obtain ⟨checked, l₁, issued, rest⟩ := pay_cons_gives.mp h
    have first := Credits.issue checked issued
    have raised := Account.unpack_raised (n := ([p].map (·.amount.toNat)).sum) minted
    rw [← first.mint_eq] at raised
    exact first.trans (ih raised rest)

section Entries

variable {targets : List AccountRef} {recipients : List Key} {amounts : List UInt64}

theorem payments_entries (listed : targets.length = recipients.length)
    (paired : recipients.length = amounts.length) :
    (payments targets recipients amounts).map (fun p => (p.target.key, p.recipient)) =
        (targets.map (·.key)).zip recipients ∧
      (payments targets recipients amounts).map Payment.entry =
        (targets.map (·.key)).zip amounts := by
  induction amounts generalizing targets recipients with
  | nil =>
    rw [List.eq_nil_of_length_eq_zero paired] at listed ⊢
    rw [List.eq_nil_of_length_eq_zero listed]
    exact ⟨rfl, rfl⟩
  | cons amount amounts ih =>
    obtain ⟨recipient, recipients, rfl⟩ := List.exists_cons_of_length_eq_add_one paired
    obtain ⟨target, targets, rfl⟩ := List.exists_cons_of_length_eq_add_one listed
    obtain ⟨held, paid⟩ := ih (Nat.succ.inj listed) (Nat.succ.inj paired)
    simp only [payments, List.map_cons, List.zip_cons_cons, held, paid, Payment.entry, and_self]

end Entries
end Program

/-- The account is a holding with `n` more tokens, and the bytes around the amount stay. -/
def Account.GainsTokens (before after : Account) (n : Nat) : Prop :=
  ∃ h amount, Holding.unpack before.data = .ok h ∧ amount.toNat = h.amount.toNat + n ∧
    Holding.unpack after.data = .ok { h with amount } ∧
    after = { before with data :=
      before.data.overwrite Holding.amountStart (Wire.encode amount) }

def Account.GainsSupply (before after : Account) (n : Nat) : Prop :=
  ∃ m supply, Mint.unpack before.data = .ok m ∧ supply.toNat = m.supply.toNat + n ∧
    Mint.unpack after.data = .ok { m with supply } ∧
    after = { before with data :=
      before.data.overwrite Mint.supplyStart (Wire.encode supply) }

/-- What a call does that issues the amounts to the targets, and what it reports. -/
structure BatchCredited (mint : Key) (targets recipients : List Key) (amounts : List UInt64)
    (now : Int64) (before after : Ledger) (events : List Event) : Prop where
  some_paid : 1 ≤ recipients.length
  few_paid : recipients.length ≤ 10
  amounts_length : amounts.length = recipients.length
  targets_length : targets.length = recipients.length
  held : ∀ e ∈ targets.zip recipients, (before.get e.1).Holds mint e.2
  credited : ∀ t ∈ targets,
    (before.get t).GainsTokens (after.get t) (tally (targets.zip amounts) t)
  minted : (before.get mint).GainsSupply (after.get mint) (amounts.map UInt64.toNat).sum
  others : ∀ k, k ≠ mint → k ∉ targets → after.get k = before.get k
  reported : ∃ count total, events = [.tokensMinted mint count total now] ∧
    count.toNat = recipients.length ∧ total.toNat = (amounts.map UInt64.toNat).sum

namespace Account

variable {a : Account} {h : Holding} {m : Mint} {n : Nat}

theorem gainsTokens_credited (held : Holding.unpack a.data = .ok h)
    (room : h.amount.toNat + n < UInt64.size) : a.GainsTokens (a.credited n) n := by
  refine ⟨h, h.amount + UInt64.ofNat n, held, toNat_add_ofNat room, unpack_credited held, ?_⟩
  rw [credited_of_holding held, Holding.encode_amount held]

theorem gainsSupply_raised (minted : Mint.unpack a.data = .ok m)
    (room : m.supply.toNat + n < UInt64.size) : a.GainsSupply (a.raised n) n := by
  refine ⟨m, m.supply + UInt64.ofNat n, minted, toNat_add_ofNat room, unpack_raised minted, ?_⟩
  rw [raised_of_mint minted, Mint.encode_supply minted]

end Account

namespace Program
namespace Credits

variable {mint t k : Key} {targets : List AccountRef} {recipients : List Key}
  {amounts : List UInt64} {l l' : Ledger} (listed : targets.length = recipients.length)
  (paired : recipients.length = amounts.length)
  (credits : Credits mint (payments targets recipients amounts) l l')

include listed paired credits

theorem batch_held {e : Key × Key} (entry : e ∈ (targets.map (·.key)).zip recipients) :
    (l.get e.1).Holds mint e.2 := by
  rw [← (payments_entries listed paired).1] at entry
  obtain ⟨p, paying, rfl⟩ := List.mem_map.mp entry
  exact credits.held p paying

theorem batch_gains (named : t ∈ targets.map (·.key)) :
    (l.get t).GainsTokens (l'.get t) (tally ((targets.map (·.key)).zip amounts) t) := by
  have width : (targets.map (·.key)).length ≤ recipients.length := by rw [List.length_map, listed]
  rw [← List.map_fst_zip width] at named
  obtain ⟨⟨_, recipient⟩, entry, rfl⟩ := List.mem_map.mp named
  obtain ⟨-, h, held, -⟩ := credits.batch_held listed paired entry
  obtain ⟨m, minted, -⟩ := credits.minted
  have apart : _ ≠ mint := fun same => Holding.not_mint held (same ▸ minted)
  have room := credits.room _ h held
  rw [(payments_entries listed paired).2] at room
  rw [credits.get_eq _ apart, (payments_entries listed paired).2]
  exact Account.gainsTokens_credited held room

theorem batch_minted :
    (l.get mint).GainsSupply (l'.get mint) (amounts.map UInt64.toNat).sum := by
  have total : ((payments targets recipients amounts).map (·.amount.toNat)).sum =
      (amounts.map UInt64.toNat).sum := by
    have column := congrArg (List.map UInt64.toNat) (amounts_payments listed paired)
    rw [List.map_map] at column
    exact congrArg List.sum column
  obtain ⟨m, minted, room⟩ := credits.minted
  rw [credits.mint_eq, total]
  exact Account.gainsSupply_raised minted (total ▸ room)

theorem batch_others (other : k ≠ mint) (unpaid : k ∉ targets.map (·.key)) :
    l'.get k = l.get k := by
  have unnamed : ∀ e ∈ (targets.map (·.key)).zip amounts, e.1 ≠ k := by
    rintro ⟨t, amount⟩ entry rfl
    exact unpaid (List.of_mem_zip entry).1
  rw [credits.get_eq k other, (payments_entries listed paired).2, tally_of_unnamed unnamed,
    Account.credited_zero]

end Credits
end Program

/-- Whoever is paid how often, each account that the batch names gets what stands next to it. -/
theorem batch_credited (w : World) (s : Step) (c : Receipt) (recipients : List Key)
    (amounts : List UInt64) (called : w.receipt? s = some c)
    (asked : c.instruction = .mintTokens recipients amounts) :
    ∃ service registry authority mint record token targets,
      c.accounts = service :: registry :: authority :: mint :: record :: token :: targets ∧
        BatchCredited mint.key (targets.map (·.key)) recipients amounts c.now w.ledger
          (w.step s).1.ledger (w.step s).2.events := by
  have performed := World.performed_of_call called
  rw [asked] at performed
  obtain ⟨a, targets, load, -, -, -, -, -, ⟨total, batch⟩, listed, paid⟩ :=
    Program.mintTokens_gives.mp performed
  obtain ⟨token, accounts, -, -, -, unpacked, -⟩ := Program.MintTokens.load_eq_ok.mp load
  change c.accounts = _ at accounts
  obtain ⟨nonempty, paired, few, -⟩ := batchTotal_eq_ok.mp batch
  have credits := Program.pay_credits unpacked paid
  refine ⟨_, _, _, a.mint.ref, _, token, targets, accounts, ?_⟩
  constructor
  case some_paid => exact List.length_pos_iff.mpr nonempty
  case few_paid => exact few
  case amounts_length => exact paired.symm
  case targets_length => rw [List.length_map, listed]
  case held => exact fun e entry => credits.batch_held listed paired entry
  case credited => exact fun t named => credits.batch_gains listed paired named
  case minted => exact credits.batch_minted listed paired
  case others => exact fun k other unpaid => credits.batch_others listed paired other unpaid
  case reported =>
    obtain ⟨e, events, report⟩ := World.report_of_call called
    rw [asked, accounts] at report
    simp only [Instruction.report?, batch, Except.toOption, Option.map_some] at report
    cases report
    refine ⟨_, total, events, ?_, toNat_batchTotal batch⟩
    exact UInt8.toNat_ofNat_of_lt' (Nat.lt_of_le_of_lt few (by decide))

section Samples

set_option maxRecDepth 100000 in
/-- The first and the last amount are for one holding, which gets both. -/
theorem batch_credited_of_pays_twice : ∃ w c, w = World.reached Step.issuing.dropLast ∧
    w.receipt? Step.paysTwice = some c ∧
    c.instruction = .mintTokens [Key.filled 4, Key.filled 5, Key.filled 4] [10, 20, 5] ∧
    (w.ledger.get (Key.filled 6)).GainsTokens
      ((w.step Step.paysTwice).1.ledger.get (Key.filled 6)) 15 := by
  have sample : ((World.reached Step.issuing.dropLast).receipt? Step.paysTwice).map
      (fun c => (c.instruction, (c.accounts.map (·.key)).drop 6)) =
      some (.mintTokens [Key.filled 4, Key.filled 5, Key.filled 4] [10, 20, 5],
        [Key.filled 6, Key.filled 7, Key.filled 6]) := by
    decide +kernel
  obtain ⟨c, called, found⟩ := Option.map_eq_some_iff.mp sample
  obtain ⟨asked, named⟩ := Prod.mk.inj found
  obtain ⟨_, _, _, _, _, _, targets, accounts, credited⟩ := batch_credited _ _ c _ _ called asked
  rw [accounts] at named
  change targets.map (·.key) = _ at named
  rw [named] at credited
  exact ⟨_, c, rfl, called, asked, credited.credited _ List.mem_cons_self⟩

end Samples
end VaultMarket
