import VaultMarket.Proofs.Tokens
set_option autoImplicit false

namespace VaultMarket

section Sums

variable {start : Nat} {amount : UInt64} {rest amounts : List UInt64} {i n : Nat}

def sumAfter (start : Nat) (amounts : List UInt64) (n : Nat) : Nat :=
  start + ((amounts.take n).map UInt64.toNat).sum

theorem sumAfter_zero : sumAfter start amounts 0 = start := rfl

theorem sumAfter_cons :
    sumAfter start (amount :: rest) (n + 1) = sumAfter (start + amount.toNat) rest n := by
  rw [sumAfter, List.take_succ_cons, List.map_cons, List.sum_cons, ← Nat.add_assoc, sumAfter]

/-- The amounts up to the one at `i` are positive, and that one is the first with which the sum no
longer fits. -/
structure OverflowsAt (start : Nat) (amounts : List UInt64) (i : Nat) : Prop where
  listed : i < amounts.length
  positive : ∀ a ∈ amounts.take (i + 1), 0 < a
  before : ∀ j ≤ i, sumAfter start amounts j < UInt64.size
  reached : UInt64.size ≤ sumAfter start amounts (i + 1)

namespace OverflowsAt

theorem head_iff (small : start < UInt64.size) : OverflowsAt start (amount :: rest) 0 ↔
    0 < amount ∧ UInt64.size ≤ start + amount.toNat := by
  constructor
  · rintro ⟨-, positive, -, reached⟩
    rw [sumAfter_cons, sumAfter_zero] at reached
    exact ⟨positive amount List.mem_cons_self, reached⟩
  · rintro ⟨positive, reached⟩
    refine ⟨Nat.succ_pos _, ?_, ?_, ?_⟩
    · intro a known
      cases List.mem_singleton.mp known
      exact positive
    · intro j none
      cases Nat.le_zero.mp none
      exact small
    · rw [sumAfter_cons, sumAfter_zero]
      exact reached

theorem tail_iff (small : start < UInt64.size) : OverflowsAt start (amount :: rest) (i + 1) ↔
    0 < amount ∧ OverflowsAt (start + amount.toNat) rest i := by
  constructor
  · rintro ⟨listed, positive, before, reached⟩
    rw [sumAfter_cons] at reached
    rw [List.take_succ_cons, List.forall_mem_cons] at positive
    refine ⟨positive.1, Nat.lt_of_succ_lt_succ listed, positive.2, fun j early => ?_, reached⟩
    rw [← sumAfter_cons]
    exact before (j + 1) (Nat.succ_le_succ early)
  · rintro ⟨first, listed, positive, before, reached⟩
    refine ⟨Nat.succ_lt_succ listed, ?_, ?_, ?_⟩
    · rw [List.take_succ_cons, List.forall_mem_cons]
      exact ⟨first, positive⟩
    · intro j early
      cases j with
      | zero => exact small
      | succ j =>
        rw [sumAfter_cons]
        exact before j (Nat.le_of_succ_le_succ early)
    · rw [sumAfter_cons]
      exact reached

theorem exists_cons_iff (small : start < UInt64.size) :
    (∃ i, OverflowsAt start (amount :: rest) i) ↔
      0 < amount ∧ (UInt64.size ≤ start + amount.toNat ∨
        ∃ i, OverflowsAt (start + amount.toNat) rest i) := by
  constructor
  · rintro ⟨i, passed⟩
    cases i with
    | zero => exact ((head_iff small).mp passed).imp_right .inl
    | succ i => exact ((tail_iff small).mp passed).imp_right fun later => .inr ⟨i, later⟩
  · rintro ⟨positive, large | ⟨i, later⟩⟩
    · exact ⟨0, (head_iff small).mpr ⟨positive, large⟩⟩
    · exact ⟨i + 1, (tail_iff small).mpr ⟨positive, later⟩⟩

end OverflowsAt
end Sums

section Pass

variable {total total' : UInt64} {amounts rest : List UInt64} {amount : UInt64}

theorem addAmounts_of_zero (unpaid : ¬0 < amount) :
    addAmounts total (amount :: rest) = .error (.raised .invalidParameter) := by
  unfold addAmounts
  rw [require_of_not unpaid]
  rfl

theorem addAmounts_of_large (positive : 0 < amount)
    (large : ¬total.toNat + amount.toNat < UInt64.size) :
    addAmounts total (amount :: rest) = .error (.raised .mathOverflow) := by
  unfold addAmounts
  rw [require_of positive, require_of_not large]
  rfl

theorem addAmounts_of_room (positive : 0 < amount)
    (room : total.toNat + amount.toNat < UInt64.size) :
    addAmounts total (amount :: rest) = addAmounts (total + amount) rest := by
  conv_lhs => unfold addAmounts
  rw [require_of positive, require_of room]
  rfl

theorem addAmounts_eq_ok : addAmounts total amounts = .ok total' ↔
    (∀ a ∈ amounts, 0 < a) ∧
      total'.toNat = total.toNat + (amounts.map UInt64.toNat).sum := by
  induction amounts generalizing total with
  | nil =>
    constructor
    · rintro ⟨⟩
      exact ⟨nofun, rfl⟩
    · rintro ⟨-, same⟩
      exact congrArg Except.ok (UInt64.toNat_inj.mp same).symm
  | cons amount rest ih =>
    rw [List.forall_mem_cons, List.map_cons, List.sum_cons, ← Nat.add_assoc]
    by_cases positive : 0 < amount
    · by_cases room : total.toNat + amount.toNat < UInt64.size
      · rw [addAmounts_of_room positive room, ih, toNat_add_of_lt room]
        simp only [positive, true_and]
      · rw [addAmounts_of_large positive room]
        refine ⟨nofun, ?_⟩
        rintro ⟨-, same⟩
        have bound := total'.toNat_lt
        exact absurd (Nat.lt_of_le_of_lt (Nat.le_add_right _ _) (same ▸ bound)) room
    · rw [addAmounts_of_zero positive]
      exact ⟨nofun, fun h => absurd h.1.1 positive⟩

/-- The running total is the exact sum so far, so the pass overflows where that sum does, unless a
zero comes first. -/
theorem addAmounts_eq_overflow : addAmounts total amounts = .error (.raised .mathOverflow) ↔
    ∃ i, OverflowsAt total.toNat amounts i := by
  induction amounts generalizing total with
  | nil =>
    refine ⟨nofun, ?_⟩
    rintro ⟨i, passed⟩
    exact absurd passed.listed (Nat.not_lt_zero i)
  | cons amount rest ih =>
    rw [OverflowsAt.exists_cons_iff total.toNat_lt]
    by_cases positive : 0 < amount
    · by_cases room : total.toNat + amount.toNat < UInt64.size
      · rw [addAmounts_of_room positive room, ih, toNat_add_of_lt room]
        simp only [positive, Nat.not_le.mpr room, false_or, true_and]
      · rw [addAmounts_of_large positive room]
        exact ⟨fun _ => ⟨positive, .inl (Nat.not_lt.mp room)⟩, fun _ => rfl⟩
    · rw [addAmounts_of_zero positive]
      exact ⟨nofun, fun h => absurd h.1 positive⟩

theorem addAmounts_failures {failure : Failure} (h : addAmounts total amounts = .error failure) :
    failure = .raised .invalidParameter ∨ failure = .raised .mathOverflow := by
  induction amounts generalizing total with
  | nil => cases h
  | cons amount rest ih =>
    by_cases positive : 0 < amount
    · by_cases room : total.toNat + amount.toNat < UInt64.size
      · rw [addAmounts_of_room positive room] at h
        exact ih h
      · rw [addAmounts_of_large positive room] at h
        cases h
        exact .inr rfl
    · rw [addAmounts_of_zero positive] at h
      cases h
      exact .inl rfl

end Pass

structure BatchSized (recipients : List Key) (amounts : List UInt64) : Prop where
  paired : recipients.length = amounts.length
  some_paid : 1 ≤ recipients.length
  few_paid : recipients.length ≤ 10

/-- The batch has the right size, positive amounts and a sum below 2⁶⁴. -/
structure BatchValid (recipients : List Key) (amounts : List UInt64) : Prop
    extends BatchSized recipients amounts where
  positive : ∀ a ∈ amounts, 0 < a
  fits : (amounts.map UInt64.toNat).sum < UInt64.size

/-- How a batch is decided, by the exact sums of its amounts. -/
structure BatchDecided (recipients : List Key) (amounts : List UInt64) : Prop where
  accepted_iff : (∃ total, batchTotal recipients amounts = .ok total) ↔
    BatchValid recipients amounts
  total_eq : ∀ total, batchTotal recipients amounts = .ok total →
    total.toNat = (amounts.map UInt64.toNat).sum
  overflows_iff : batchTotal recipients amounts = .error (.raised .mathOverflow) ↔
    BatchSized recipients amounts ∧ ∃ i, OverflowsAt 0 amounts i
  invalid_iff : batchTotal recipients amounts = .error (.raised .invalidParameter) ↔
    ¬BatchValid recipients amounts ∧
      ¬(BatchSized recipients amounts ∧ ∃ i, OverflowsAt 0 amounts i)

section Batches

variable {recipients : List Key} {amounts : List UInt64} {total : UInt64}

theorem batchTotal_of_sized (sized : BatchSized recipients amounts) :
    batchTotal recipients amounts = addAmounts 0 amounts := by
  have nonempty : recipients ≠ [] := List.length_pos_iff.mp sized.some_paid
  have few : recipients.length ≤ Limits.mintRecipients := sized.few_paid
  unfold batchTotal
  rw [require_of ⟨nonempty, sized.paired⟩, require_of few]
  rfl

theorem batchTotal_of_unsized (unsized : ¬BatchSized recipients amounts) :
    batchTotal recipients amounts = .error (.raised .invalidParameter) := by
  unfold batchTotal
  by_cases paired : recipients ≠ [] ∧ recipients.length = amounts.length
  · have many : ¬recipients.length ≤ Limits.mintRecipients := fun few =>
      unsized ⟨paired.2, List.length_pos_iff.mpr paired.1, few⟩
    rw [require_of paired, require_of_not many]
    rfl
  · rw [require_of_not paired]
    rfl

theorem batchTotal_eq_ok : batchTotal recipients amounts = .ok total ↔
    recipients ≠ [] ∧ recipients.length = amounts.length ∧
      recipients.length ≤ Limits.mintRecipients ∧ addAmounts 0 amounts = .ok total := by
  simp only [batchTotal, Except.bind_eq_ok, exists_unit, require_eq_ok, and_assoc]

/-- The total of a batch is the sum of its amounts, which has not wrapped. -/
theorem toNat_batchTotal (h : batchTotal recipients amounts = .ok total) :
    total.toNat = (amounts.map UInt64.toNat).sum := by
  rw [(addAmounts_eq_ok.mp (batchTotal_eq_ok.mp h).2.2.2).2]
  exact Nat.zero_add _

theorem exists_batchTotal_iff : (∃ total, batchTotal recipients amounts = .ok total) ↔
    BatchValid recipients amounts := by
  by_cases sized : BatchSized recipients amounts
  · rw [batchTotal_of_sized sized]
    simp only [addAmounts_eq_ok, UInt64.toNat_zero, Nat.zero_add]
    constructor
    · rintro ⟨total, positive, sum⟩
      exact ⟨sized, positive, sum ▸ total.toNat_lt⟩
    · intro valid
      exact ⟨UInt64.ofNat _, valid.positive, UInt64.toNat_ofNat_of_lt' valid.fits⟩
  · rw [batchTotal_of_unsized sized]
    exact ⟨nofun, fun valid => absurd valid.toBatchSized sized⟩

theorem batchTotal_eq_overflow :
    batchTotal recipients amounts = .error (.raised .mathOverflow) ↔
      BatchSized recipients amounts ∧ ∃ i, OverflowsAt 0 amounts i := by
  by_cases sized : BatchSized recipients amounts
  · rw [batchTotal_of_sized sized, addAmounts_eq_overflow, UInt64.toNat_zero]
    simp only [sized, true_and]
  · rw [batchTotal_of_unsized sized]
    exact ⟨nofun, fun passed => absurd passed.1 sized⟩

theorem batchTotal_failures {failure : Failure}
    (h : batchTotal recipients amounts = .error failure) :
    failure = .raised .invalidParameter ∨ failure = .raised .mathOverflow := by
  by_cases sized : BatchSized recipients amounts
  · rw [batchTotal_of_sized sized] at h
    exact addAmounts_failures h
  · rw [batchTotal_of_unsized sized] at h
    cases h
    exact .inl rfl

end Batches

theorem batch_decided (recipients : List Key) (amounts : List UInt64) :
    BatchDecided recipients amounts where
  accepted_iff := exists_batchTotal_iff
  total_eq _ accepted := toNat_batchTotal accepted
  overflows_iff := batchTotal_eq_overflow
  invalid_iff := by
    constructor
    · intro invalid
      refine ⟨fun valid => ?_, fun passed => ?_⟩
      · obtain ⟨total, accepted⟩ := exists_batchTotal_iff.mpr valid
        rw [invalid] at accepted
        cases accepted
      · rw [batchTotal_eq_overflow.mpr passed] at invalid
        cases invalid
    · rintro ⟨unaccepted, unexceeded⟩
      cases decided : batchTotal recipients amounts with
      | ok total => exact absurd (exists_batchTotal_iff.mp ⟨total, decided⟩) unaccepted
      | error failure =>
        rcases batchTotal_failures decided with rfl | rfl
        · rfl
        · exact absurd (batchTotal_eq_overflow.mp decided) unexceeded

example : batchTotal (List.replicate 3 Key.zero) [18446744073709551615, 1, 0] =
      .error (.raised .mathOverflow) ∧
    batchTotal (List.replicate 3 Key.zero) [18446744073709551615, 0, 1] =
      .error (.raised .invalidParameter) := by
  decide

end VaultMarket
