import VaultMarket.Proofs.Access
set_option autoImplicit false

namespace VaultMarket

namespace Ledger

variable {l l₁ l' : Ledger} {key : Key}

/-- No account becomes a program that the host can run, or stops being one. -/
def SameHosts (l l' : Ledger) : Prop := ∀ k, (l'.get k).executable = (l.get k).executable

theorem SameHosts.trans (first : l.SameHosts l₁) (second : l₁.SameHosts l') : l.SameHosts l' :=
  fun k => (second k).trans (first k)

theorem sameHosts_set {a : Account} (same : a.executable = (l.get key).executable) :
    l.SameHosts (l.set key a) := by
  intro k
  by_cases here : k = key
  · rw [here, Ledger.get_set_same, same]
  · rw [Ledger.get_set_other _ _ here]

end Ledger

namespace System

variable {source target payer key owner : Key} {amount : UInt64} {space : Nat} {l l' : Ledger}

structure Ready (l : Ledger) (payer key : Key) (space : Nat) : Prop where
  free : (l.get key).owner = Identity.systemProgram
  empty : (l.get key).data = []
  apart : key ≠ payer
  paid : (l.get key).lamports < rent space → (l.get payer).data = [] ∧
    rent space - (l.get key).lamports ≤ (l.get payer).lamports

structure Funded (l : Ledger) (payer : Key) (space : Nat) : Prop where
  empty : (l.get payer).data = []
  enough : rent space ≤ (l.get payer).lamports

theorem Ready.of_funded (free : (l.get key).owner = Identity.systemProgram)
    (empty : (l.get key).data = []) (apart : key ≠ payer) (funded : Funded l payer space) :
    Ready l payer key space := by
  refine ⟨free, empty, apart, fun lacking => ⟨funded.empty, ?_⟩⟩
  exact UInt64.le_trans (UInt64.sub_le (UInt64.le_of_lt lacking)) funded.enough

theorem exists_transfer_iff : (∃ l', transfer source target amount l = .ok l') ↔
    (l.get source).data = [] ∧ amount ≤ (l.get source).lamports := by
  simp only [transfer_eq_ok, exists_and_left, exists_eq, and_true]

theorem createAccount_eq_ok : createAccount payer key space owner l = .ok l' ↔
    (l.get key).data = [] ∧ (l.get key).owner = Identity.systemProgram ∧
      transfer payer key (rent space)
        (assign key owner (l.setData key (Bytes.zeros space))) = .ok l' := by
  simp only [createAccount, Except.bind_eq_ok, allocate_eq_ok]
  constructor
  · rintro ⟨l₁, ⟨empty, free, rfl⟩, paid⟩
    exact ⟨empty, free, paid⟩
  · rintro ⟨empty, free, paid⟩
    exact ⟨_, ⟨empty, free, rfl⟩, paid⟩

theorem get_allocated_other (other : payer ≠ key) :
    (assign key owner (l.setData key (Bytes.zeros space))).get payer = l.get payer := by
  rw [assign, Ledger.get_set_other _ _ other, Ledger.setData, Ledger.get_set_other _ _ other]

theorem exists_createAccount_iff (width : space ≠ 0) :
    (∃ l', createAccount payer key space owner l = .ok l') ↔
      (l.get key).owner = Identity.systemProgram ∧ (l.get key).data = [] ∧ key ≠ payer ∧
        Funded l payer space := by
  simp only [createAccount_eq_ok, exists_and_left, exists_transfer_iff]
  constructor
  · rintro ⟨empty, free, unused, enough⟩
    have apart : payer ≠ key := by
      rintro rfl
      simp [assign, Ledger.setData, Bytes.zeros, width] at unused
    rw [get_allocated_other apart] at unused enough
    exact ⟨free, empty, apart.symm, unused, enough⟩
  · rintro ⟨free, empty, apart, unused, enough⟩
    rw [get_allocated_other apart.symm]
    exact ⟨empty, free, unused, enough⟩

theorem exists_fill_iff :
    (∃ l', (allocate key space l >>= fun l => pure (assign key owner l)) = .ok l') ↔
      (l.get key).data = [] ∧ (l.get key).owner = Identity.systemProgram := by
  simp only [Except.bind_eq_ok, Except.pure_eq_ok, allocate_eq_ok]
  constructor
  · rintro ⟨-, -, ⟨empty, free, -⟩, -⟩
    exact ⟨empty, free⟩
  · rintro ⟨empty, free⟩
    exact ⟨_, _, ⟨empty, free, rfl⟩, rfl⟩

/-- An account with some lamports can be made after the payer has added what is missing. -/
theorem exists_topUp_iff :
    (∃ l', (transfer payer key amount l >>= fun l =>
      allocate key space l >>= fun l => pure (assign key owner l)) = .ok l') ↔
      (l.get key).owner = Identity.systemProgram ∧ (l.get key).data = [] ∧
        (l.get payer).data = [] ∧ amount ≤ (l.get payer).lamports := by
  constructor
  · rintro ⟨l', done⟩
    obtain ⟨l₁, paid, filled⟩ := Except.bind_eq_ok.mp done
    obtain ⟨empty, free⟩ := exists_fill_iff.mp ⟨l', filled⟩
    obtain ⟨owner_eq, data_eq⟩ := content_transfer paid key
    exact ⟨owner_eq ▸ free, data_eq ▸ empty, exists_transfer_iff.mp ⟨l₁, paid⟩⟩
  · rintro ⟨free, empty, can⟩
    obtain ⟨l₁, paid⟩ := exists_transfer_iff.mpr can
    obtain ⟨owner_eq, data_eq⟩ := content_transfer paid key
    obtain ⟨l', filled⟩ := exists_fill_iff.mpr ⟨data_eq.trans empty, owner_eq.trans free⟩
    exact ⟨l', Except.bind_eq_ok.mpr ⟨l₁, paid, filled⟩⟩

theorem exists_provide_iff (width : space ≠ 0) (due : 0 < rent space) :
    (∃ l', provide payer key space owner l = .ok l') ↔ Ready l payer key space := by
  unfold provide
  dsimp only
  split
  · rename_i broke
    rw [exists_createAccount_iff width]
    constructor
    · rintro ⟨free, empty, apart, funded⟩
      exact .of_funded free empty apart funded
    · intro ready
      obtain ⟨unused, enough⟩ := ready.paid (broke ▸ due)
      rw [broke, UInt64.sub_zero] at enough
      exact ⟨ready.free, ready.empty, ready.apart, unused, enough⟩
  · simp only [Except.bind_eq_ok (x := require _ _), exists_unit, require_eq_ok, exists_and_left]
    split
    · rename_i lacking
      rw [exists_topUp_iff]
      constructor
      · rintro ⟨apart, free, empty, can⟩
        exact ⟨free, empty, apart, fun _ => can⟩
      · intro ready
        exact ⟨ready.apart, ready.free, ready.empty, ready.paid lacking⟩
    · rename_i rich
      change (_ ∧ ∃ l', (allocate key space l >>= fun l => pure (assign key owner l)) = .ok l') ↔ _
      rw [exists_fill_iff]
      constructor
      · rintro ⟨apart, empty, free⟩
        exact ⟨free, empty, apart, fun lacking => absurd lacking rich⟩
      · intro ready
        exact ⟨ready.apart, ready.empty, ready.free⟩

theorem sameHosts_of_transfer (h : transfer source target amount l = .ok l') : l.SameHosts l' := by
  obtain ⟨-, -, rfl⟩ := transfer_eq_ok.mp h
  refine Ledger.SameHosts.trans (Ledger.sameHosts_set ?_) (Ledger.sameHosts_set ?_) <;> rfl

theorem sameHosts_allocated :
    l.SameHosts (assign key owner (l.setData key (Bytes.zeros space))) := by
  refine Ledger.SameHosts.trans (Ledger.sameHosts_set ?_) (Ledger.sameHosts_set ?_) <;> rfl

theorem sameHosts_of_fill
    (h : (allocate key space l >>= fun l => pure (assign key owner l)) = .ok l') :
    l.SameHosts l' := by
  obtain ⟨l₁, allocated, e⟩ := Except.bind_eq_ok.mp h
  obtain ⟨-, -, rfl⟩ := allocate_eq_ok.mp allocated
  cases e
  exact sameHosts_allocated

theorem sameHosts_of_provide (h : provide payer key space owner l = .ok l') : l.SameHosts l' := by
  unfold provide at h
  dsimp only at h
  split at h
  · obtain ⟨-, -, paid⟩ := createAccount_eq_ok.mp h
    exact sameHosts_allocated.trans (sameHosts_of_transfer paid)
  · obtain ⟨-, -, h⟩ := Except.bind_eq_ok.mp h
    split at h
    · obtain ⟨l₁, paid, h⟩ := Except.bind_eq_ok.mp h
      exact (sameHosts_of_transfer paid).trans (sameHosts_of_fill h)
    · exact sameHosts_of_fill h

end System
end VaultMarket
