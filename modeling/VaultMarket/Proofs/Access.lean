import VaultMarket.Access
import VaultMarket.Proofs.Records
set_option autoImplicit false

namespace VaultMarket
open Function (update)

theorem exists_unit {p : Unit → Prop} : (∃ u, p u) ↔ p () :=
  ⟨fun ⟨(), h⟩ => h, fun h => ⟨(), h⟩⟩

theorem Except.bind_eq_ok {α β ε : Type} {x : Except ε α} {f : α → Except ε β} {b : β} :
    (x >>= f) = .ok b ↔ ∃ a, x = .ok a ∧ f a = .ok b := by
  cases x <;> simp [bind, Except.bind]

theorem Except.pure_eq_ok {α ε : Type} {a b : α} :
    (pure a : Except ε α) = .ok b ↔ b = a := by
  change Except.ok a = Except.ok b ↔ b = a
  rw [Except.ok.injEq, eq_comm]

theorem Except.map_eq_ok {ε α β : Type} {f : α → β} {x : Except ε α} {b : β} :
    x.map f = .ok b ↔ ∃ a, x = .ok a ∧ f a = b := by
  cases x <;> simp [Except.map]

theorem Except.mapError_eq_ok {α ε δ : Type} {x : Except ε α} {f : ε → δ} {a : α} :
    x.mapError f = .ok a ↔ x = .ok a := by
  cases x with
  | error e =>
    change (Except.error (f e) : Except δ α) = .ok a ↔ _
    exact ⟨nofun, nofun⟩
  | ok b =>
    change (Except.ok b : Except δ α) = .ok a ↔ _
    rw [Except.ok.injEq, Except.ok.injEq]

def Ledger.IsHost (l : Ledger) (key : Key) (a : AccountRef) : Prop :=
  a.key = key ∧ (l.get key).executable = true

namespace Loader

variable {α β : Type} {as rest : List AccountRef}

theorem bind_eq_ok {x : Loader α} {f : α → Loader β} {b : β} :
    (x >>= f) as = .ok (b, rest) ↔ ∃ a mid, x as = .ok (a, mid) ∧ f a mid = .ok (b, rest) := by
  change (x as >>= fun p => f p.1 p.2) = .ok (b, rest) ↔ _
  rw [Except.bind_eq_ok]
  simp only [Prod.exists]

theorem pure_eq_ok {a b : α} : (pure a : Loader α) as = .ok (b, rest) ↔ a = b ∧ as = rest := by
  change (Except.ok (a, as) : Except Failure (α × List AccountRef)) = .ok (b, rest) ↔ _
  simp only [Except.ok.injEq, Prod.mk.injEq]

theorem lift_eq_ok {x : Except Failure α} {a : α} :
    (liftM x : Loader α) as = .ok (a, rest) ↔ x = .ok a ∧ as = rest := by
  change (x >>= fun a => .ok (a, as)) = .ok (a, rest) ↔ _
  rw [Except.bind_eq_ok]
  constructor
  · rintro ⟨b, read, same⟩
    cases same
    exact ⟨read, rfl⟩
  · rintro ⟨read, rfl⟩
    exact ⟨a, read, rfl⟩

theorem run'_eq_ok {x : Loader α} {a : α} : x.run' as = .ok a ↔ ∃ rest, x as = .ok (a, rest) := by
  change (Prod.fst <$> x as) = .ok a ↔ _
  cases x as <;> simp [Functor.map, Except.map, Prod.ext_iff]

theorem next_eq_ok {missing : Failure} {a : AccountRef} :
    next missing as = .ok (a, rest) ↔ as = a :: rest := by
  cases as <;> simp [next]

theorem unchecked_eq_ok {field : String} {a : AccountRef} :
    unchecked field as = .ok (a, rest) ↔ as = a :: rest := next_eq_ok

theorem fresh_eq_ok {a : AccountRef} : fresh as = .ok (a, rest) ↔ as = a :: rest := next_eq_ok

theorem signer_eq_ok {field : String} {a : AccountRef} :
    signer field as = .ok (a, rest) ↔ as = a :: rest ∧ a.signer = true := by
  simp only [signer, bind_eq_ok, unchecked_eq_ok, lift_eq_ok, pure_eq_ok, require_eq_ok]
  constructor
  · rintro ⟨b, mid, rfl, -, -, ⟨signed, rfl⟩, rfl, rfl⟩
    exact ⟨rfl, signed⟩
  · rintro ⟨rfl, signed⟩
    exact ⟨a, rest, rfl, (), rest, ⟨signed, rfl⟩, rfl, rfl⟩

theorem program_eq_ok {field : String} {key : Key} {l : Ledger} {u : Unit} :
    program field key l as = .ok (u, rest) ↔ ∃ a, as = a :: rest ∧ l.IsHost key a := by
  simp only [program, bind_eq_ok, unchecked_eq_ok, lift_eq_ok, require_eq_ok]
  constructor
  · rintro ⟨a, mid, rfl, -, -, ⟨same, rfl⟩, runs, rfl⟩
    exact ⟨a, rfl, same, runs⟩
  · rintro ⟨a, rfl, same, runs⟩
    exact ⟨a, rest, rfl, (), rest, ⟨same, rfl⟩, runs, rfl⟩

theorem owned_eq_ok {field : String} {owner : Key} {l : Ledger} {a : AccountRef} :
    owned field owner l as = .ok (a, rest) ↔
      as = a :: rest ∧ ¬(l.get a.key).IsVacant ∧ (l.get a.key).owner = owner := by
  simp only [owned, bind_eq_ok, unchecked_eq_ok, lift_eq_ok, pure_eq_ok, require_eq_ok]
  constructor
  · rintro ⟨b, mid, rfl, -, -, ⟨used, rfl⟩, -, -, ⟨own, rfl⟩, rfl, rfl⟩
    exact ⟨rfl, used, own⟩
  · rintro ⟨rfl, used, own⟩
    exact ⟨a, rest, rfl, (), rest, ⟨used, rfl⟩, (), rest, ⟨own, rfl⟩, rfl, rfl⟩

theorem not_vacant {a : Account} {owner : Key} (own : a.owner = owner)
    (other : owner ≠ Identity.systemProgram) : ¬a.IsVacant :=
  fun vacant => other (own.symm.trans vacant.1)

theorem record_eq_ok [Record α] [Kind α] {field : String} {l : Ledger} {h : Held α} :
    record α field l as = .ok (h, rest) ↔
      as = h.ref :: rest ∧ l.records h.key = some (Kind.wrap h.value) := by
  simp only [record, bind_eq_ok, owned_eq_ok, lift_eq_ok, pure_eq_ok, Except.mapError_eq_ok,
    Ledger.records_eq_wrap]
  constructor
  · rintro ⟨a, mid, ⟨rfl, -, own⟩, value, -, ⟨read, rfl⟩, rfl, rfl⟩
    exact ⟨rfl, own, read⟩
  · rintro ⟨rfl, own, read⟩
    have used := not_vacant own (by decide)
    exact ⟨h.ref, rest, ⟨rfl, used, own⟩, h.value, rest, ⟨read, rfl⟩, rfl, rfl⟩

theorem mint_eq_ok {field : String} {l : Ledger} {h : Held Mint} :
    mint field l as = .ok (h, rest) ↔ as = h.ref :: rest ∧
      (l.get h.key).owner = Identity.tokenProgram ∧
      Mint.unpack (l.get h.key).data = .ok h.value := by
  simp only [mint, bind_eq_ok, owned_eq_ok, lift_eq_ok, pure_eq_ok, Except.mapError_eq_ok]
  constructor
  · rintro ⟨a, mid, ⟨rfl, -, own⟩, value, -, ⟨read, rfl⟩, rfl, rfl⟩
    exact ⟨rfl, own, read⟩
  · rintro ⟨rfl, own, read⟩
    have used := not_vacant own (by decide)
    exact ⟨h.ref, rest, ⟨rfl, used, own⟩, h.value, rest, ⟨read, rfl⟩, rfl, rfl⟩

end Loader

section Addresses

variable {field : String} {d : Derivation} {bump : UInt8} {key : Key}

theorem requireWritable_eq_ok {a : AccountRef} {u : Unit} :
    requireWritable field a = .ok u ↔ a.writable = true := require_eq_ok

theorem requireStored_eq_ok {u : Unit} :
    requireStored field d bump key = .ok u ↔ d.derive? Identity.program bump = some key := by
  unfold requireStored
  cases d.derive? Identity.program bump with
  | none => simp
  | some address =>
    change requireAddress field key address = .ok u ↔ _
    rw [requireAddress, require_eq_ok, Option.some.injEq]
    exact eq_comm

theorem requireFound_eq_ok :
    requireFound field d key = .ok bump ↔ d.find Identity.program = .ok ⟨key, bump⟩ := by
  simp only [requireFound, Except.bind_eq_ok, requireAddress, require_eq_ok]
  constructor
  · rintro ⟨⟨address, b⟩, found, -, same, e⟩
    cases e
    rw [found, same]
  · intro found
    exact ⟨⟨key, bump⟩, found, (), rfl, rfl⟩

end Addresses

namespace Ledger

/-- A new account at `key` for `owner`: the key was free, and nothing with data changes but it. -/
structure Creates (l l' : Ledger) (key owner : Key) (space : Nat) : Prop where
  free : (l.get key).owner = Identity.systemProgram
  empty : (l.get key).data = []
  owner_eq : (l'.get key).owner = owner
  data_eq : (l'.get key).data = Bytes.zeros space
  content : ∀ k, k ≠ key →
    (l'.get k).owner = (l.get k).owner ∧ (l'.get k).data = (l.get k).data
  spared : ∀ k, k ≠ key → (l.get k).data ≠ [] → l'.get k = l.get k

/-- Nothing changes but data of accounts of the token program. -/
structure TokensOnly (l l' : Ledger) : Prop where
  owner_eq : ∀ k, (l'.get k).owner = (l.get k).owner
  spared : ∀ k, (l.get k).owner ≠ Identity.tokenProgram → l'.get k = l.get k

/-- Every account with a record stays as it is. -/
def Spares (l l' : Ledger) : Prop := ∀ k s, l.records k = some s → l'.get k = l.get k

/-- An account whose record stays keeps every byte, its lamports and its owner. -/
def Keeps (l l' : Ledger) : Prop :=
  ∀ k s, l.records k = some s → l'.records k = some s → l'.get k = l.get k

end Ledger

namespace System

variable {source target payer key owner k : Key} {amount : UInt64} {space : Nat} {l l' : Ledger}

theorem transfer_eq_ok : transfer source target amount l = .ok l' ↔
    (l.get source).data = [] ∧ amount ≤ (l.get source).lamports ∧
      l' =
        let paid := l.set source
          { l.get source with lamports := (l.get source).lamports - amount }
        paid.set target
          { paid.get target with lamports := (paid.get target).lamports + amount } := by
  simp only [transfer, Except.bind_eq_ok, require_eq_ok]
  constructor
  · rintro ⟨-, empty, -, enough, e⟩
    cases e
    exact ⟨empty, enough, rfl⟩
  · rintro ⟨empty, enough, rfl⟩
    exact ⟨(), empty, (), enough, rfl⟩

theorem content_transfer (h : transfer source target amount l = .ok l') (k : Key) :
    (l'.get k).owner = (l.get k).owner ∧ (l'.get k).data = (l.get k).data := by
  obtain ⟨-, -, rfl⟩ := transfer_eq_ok.mp h
  simp only [Ledger.get_set]
  by_cases hs : k = source <;> by_cases ht : k = target <;> simp [*] <;> split <;> simp [*]

theorem transfer_spares (h : transfer source target amount l = .ok l') (other : k ≠ target)
    (full : (l.get k).data ≠ []) : l'.get k = l.get k := by
  obtain ⟨empty, -, rfl⟩ := transfer_eq_ok.mp h
  have third : k ≠ source := fun e => full (e ▸ empty)
  rw [Ledger.get_set_other _ _ other, Ledger.get_set_other _ _ third]

theorem allocate_eq_ok : allocate key space l = .ok l' ↔
    (l.get key).data = [] ∧ (l.get key).owner = Identity.systemProgram ∧
      l' = l.setData key (Bytes.zeros space) := by
  simp only [allocate, Except.bind_eq_ok, require_eq_ok]
  constructor
  · rintro ⟨-, ⟨empty, free⟩, e⟩
    cases e
    exact ⟨empty, free, rfl⟩
  · rintro ⟨empty, free, rfl⟩
    exact ⟨(), ⟨empty, free⟩, rfl⟩

theorem creates_of_allocate {paid : Ledger}
    (content : ∀ k, (paid.get k).owner = (l.get k).owner ∧ (paid.get k).data = (l.get k).data)
    (spared : ∀ k, k ≠ key → (l.get k).data ≠ [] → paid.get k = l.get k)
    (h : (allocate key space paid >>= fun l => pure (assign key owner l)) = .ok l') :
    l.Creates l' key owner space := by
  obtain ⟨l₁, allocated, e⟩ := Except.bind_eq_ok.mp h
  cases e
  obtain ⟨empty, free, rfl⟩ := allocate_eq_ok.mp allocated
  refine ⟨(content key).1 ▸ free, (content key).2 ▸ empty, ?_, ?_, ?_, ?_⟩
  · simp [assign]
  · simp [assign, Ledger.setData]
  · intro k other
    simpa [assign, Ledger.setData, Ledger.get_set, other] using content k
  · intro k other full
    simpa [assign, Ledger.setData, Ledger.get_set, other] using spared k other full

theorem createAccount_creates (h : createAccount payer key space owner l = .ok l') :
    l.Creates l' key owner space := by
  simp only [createAccount, Except.bind_eq_ok, allocate_eq_ok] at h
  obtain ⟨l₁, ⟨empty, free, rfl⟩, paid⟩ := h
  have content := content_transfer paid
  have spared := fun k (other : k ≠ key) => transfer_spares (k := k) paid other
  simp only [assign, Ledger.setData, Ledger.get_set] at content spared
  refine ⟨free, empty, ?_, ?_, ?_, ?_⟩
  · simpa using (content key).1
  · simpa using (content key).2
  · intro k other
    simpa [other] using content k
  · intro k other
    simpa [other] using spared k other

theorem provide_creates (h : provide payer key space owner l = .ok l') :
    l.Creates l' key owner space := by
  unfold provide at h
  dsimp only at h
  split at h
  · exact createAccount_creates h
  · obtain ⟨-, -, h⟩ := Except.bind_eq_ok.mp h
    split at h
    · obtain ⟨l₁, paid, h⟩ := Except.bind_eq_ok.mp h
      exact creates_of_allocate (content_transfer paid)
        (fun k other => transfer_spares paid other) h
    · exact creates_of_allocate (fun k => ⟨rfl, rfl⟩) (fun k other full => rfl) h

end System

theorem Token.issue_eq_ok {mint target authority : Key} {amount : UInt64} {l l' : Ledger} :
    Token.issue mint target authority amount l = .ok l' ↔ ∃ holding,
      Holding.unpack (l.get target).data = .ok holding ∧ holding.state ≠ .frozen ∧
      holding.reserve.present = false ∧ holding.mint = mint ∧ ∃ m,
      Mint.unpack (l.get mint).data = .ok m ∧
      (m.authority.present = true → m.authority.value = authority) ∧
      m.authority.present = true ∧ Token.requireSole (l.get authority) = .ok () ∧
      holding.amount.toNat + amount.toNat < UInt64.size ∧
      m.supply.toNat + amount.toNat < UInt64.size ∧
      l' = (l.setData target
          (Wire.encode { holding with amount := holding.amount + amount })).setData mint
        (Wire.encode { m with supply := m.supply + amount }) := by
  simp only [Token.issue, Except.bind_eq_ok, exists_unit, require_eq_ok, Except.mapError_eq_ok,
    Except.pure_eq_ok]

theorem create_eq_ok {field : String} {d : Derivation} {payer a : AccountRef} {space : Nat}
    {owner : Key} {l l' : Ledger} {bump : UInt8} :
    create field d payer a space owner l = .ok (l', bump) ↔
      d.find Identity.program = .ok ⟨a.key, bump⟩ ∧
        System.provide payer.key a.key space owner l = .ok l' := by
  simp only [create, Except.bind_eq_ok, requireFound_eq_ok]
  constructor
  · rintro ⟨b, found, l₁, provided, e⟩
    cases e
    exact ⟨found, provided⟩
  · rintro ⟨found, provided⟩
    exact ⟨bump, found, l', provided, rfl⟩

theorem createRecord_eq_ok {α : Type} [Record α] {field : String} {d : Derivation}
    {payer a : AccountRef} {l l' : Ledger} {bump : UInt8} :
    createRecord α field d payer a l = .ok (l', bump) ↔
      d.find Identity.program = .ok ⟨a.key, bump⟩ ∧
        System.provide payer.key a.key (Record.space α) Identity.program l = .ok l' ∧
          a.writable = true := by
  simp only [createRecord, Except.bind_eq_ok, Prod.exists, create_eq_ok, requireWritable_eq_ok]
  constructor
  · rintro ⟨l₁, b, ⟨found, provided⟩, -, writable, e⟩
    cases e
    exact ⟨found, provided, writable⟩
  · rintro ⟨found, provided, writable⟩
    exact ⟨l', bump, ⟨found, provided⟩, (), writable, rfl⟩

namespace Ledger

variable {l l₁ l' : Ledger} {key owner k : Key} {space : Nat}

theorem Creates.records_self (h : l.Creates l' key owner space) : l.records key = none :=
  records_of_foreign (by rw [h.free]; decide)

theorem Creates.records_other (h : l.Creates l' key owner space) (other : k ≠ key) :
    l'.records k = l.records k := by
  obtain ⟨owner_eq, data_eq⟩ := h.content k other
  simp only [records, Account.record?, owner_eq, data_eq]

theorem Creates.records_eq (h : l.Creates l' key owner space) (foreign : owner ≠ Identity.program) :
    l'.records = l.records := by
  funext k
  by_cases same : k = key
  · rw [same, h.records_self]
    exact records_of_foreign (h.owner_eq ▸ foreign)
  · exact h.records_other same

theorem Creates.records_update (h : l.Creates l' key owner space) :
    l'.records = update l.records key (l'.records key) := by
  funext k
  by_cases same : k = key
  · rw [same, Function.update_self]
  · rw [Function.update_of_ne same, h.records_other same]

theorem Creates.spares (h : l.Creates l' key owner space) : l.Spares l' := by
  intro k s before
  have other : k ≠ key := by
    rintro rfl
    rw [h.records_self] at before
    cases before
  exact h.spared k other (data_ne_nil_of_records before)

theorem TokensOnly.refl (l : Ledger) : l.TokensOnly l := ⟨fun _ => rfl, fun _ _ => rfl⟩

theorem TokensOnly.trans (first : l.TokensOnly l₁) (second : l₁.TokensOnly l') :
    l.TokensOnly l' := by
  refine ⟨fun k => (second.owner_eq k).trans (first.owner_eq k), fun k foreign => ?_⟩
  rw [second.spared k (first.owner_eq k ▸ foreign), first.spared k foreign]

theorem tokensOnly_setData {data : Bytes} (own : (l.get key).owner = Identity.tokenProgram) :
    l.TokensOnly (l.setData key data) := by
  refine ⟨fun k => ?_, fun k foreign => ?_⟩
  · by_cases same : k = key <;> simp [setData, get_set, same]
  · have other : k ≠ key := fun e => foreign (e ▸ own)
    exact get_set_other _ _ other

theorem TokensOnly.spares (h : l.TokensOnly l') : l.Spares l' :=
  fun k _ held => h.spared k (by rw [owner_of_records held]; decide)

theorem TokensOnly.records_eq (h : l.TokensOnly l') : l'.records = l.records := by
  funext k
  by_cases own : (l.get k).owner = Identity.program
  · rw [records, h.spared k (by rw [own]; decide), records]
  · rw [records_of_foreign own]
    exact records_of_foreign (h.owner_eq k ▸ own)

theorem Spares.refl (l : Ledger) : l.Spares l := fun _ _ _ => rfl

theorem Spares.records_eq {s : Stored} (h : l.Spares l') (held : l.records k = some s) :
    l'.records k = some s := by
  rw [records, h k s held]
  exact held

theorem Spares.trans (first : l.Spares l₁) (second : l₁.Spares l') : l.Spares l' := by
  intro k s held
  rw [second k s (first.records_eq held), first k s held]

theorem Spares.keeps (h : l.Spares l') : l.Keeps l' := fun k s before _ => h k s before

end Ledger

section Store

variable {α : Type} [Record α] [LawfulWire α] [Kind α] {field : String} {key k : Key} {value : α}
  {l l₁ l' : Ledger}

omit [LawfulWire α] [Kind α] in
theorem store_eq_ok : store field key value l = .ok l' ↔
    (Record.write value).length ≤ (l.get key).data.length ∧
      l' = l.setData key ((l.get key).data.overwrite 0 (Record.write value)) := by
  simp only [store, Except.bind_eq_ok, require_eq_ok]
  constructor
  · rintro ⟨-, short, e⟩
    cases e
    exact ⟨short, rfl⟩
  · rintro ⟨short, rfl⟩
    exact ⟨(), short, rfl⟩

omit [LawfulWire α] [Kind α] in
theorem store_other (h : store field key value l = .ok l') (other : k ≠ key) :
    l'.get k = l.get k := by
  obtain ⟨-, rfl⟩ := store_eq_ok.mp h
  exact Ledger.get_set_other _ _ other

theorem store_records (h : store field key value l = .ok l')
    (own : (l.get key).owner = Identity.program) (fits : LawfulWire.Fits value) :
    l'.records = update l.records key (some (Kind.wrap value)) := by
  obtain ⟨-, rfl⟩ := store_eq_ok.mp h
  rw [Ledger.setData, Ledger.records_set]
  congr 1
  rw [Account.record?_eq_some, Kind.readsAs_wrap, Record.overwrite_zero]
  exact ⟨own, Record.read_write_append _ _ fits⟩

theorem store_same (h : store field key value l = .ok l')
    (held : l.records key = some (Kind.wrap value)) : l'.get key = l.get key := by
  obtain ⟨-, rfl⟩ := store_eq_ok.mp h
  have reads := (Ledger.records_eq_wrap.mp held).2
  rw [Ledger.setData, Ledger.get_set_same, Record.overwrite_write reads]

theorem Ledger.Keeps.store (keeps : l.Keeps l₁) (h : store field key value l₁ = .ok l')
    (own : (l₁.get key).owner = Identity.program) (fits : LawfulWire.Fits value)
    (first : l₁.get key = l.get key ∨ l.records key = none) : l.Keeps l' := by
  intro k s before after
  by_cases same : k = key
  · subst same
    rcases first with as_before | fresh
    · have held : l₁.records k = some s := by rw [records, as_before, ← before, records]
      rw [store_records h own fits, Function.update_self] at after
      rw [store_same h (held.trans after.symm), as_before]
    · rw [fresh] at before
      cases before
  · have as_before := store_other h same
    rw [as_before]
    apply keeps k s before
    rw [records, ← as_before]
    exact after

end Store
end VaultMarket
