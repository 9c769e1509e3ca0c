import VaultMarket.Fault
set_option autoImplicit false

/-!
# Changes made in place

A change of a record is a function here, and a change that fails gives no record. Where the fields
are written one after another, a failure could leave a record that is half changed. `InPlace` is
the language of such writes: whatever was written before a failure stays written. A change that
performs its function never shows that.
-/

namespace VaultMarket

/-- Writes to a record, one after another, until one of them fails. -/
abbrev InPlace (σ : Type) := ExceptT Failure (StateM σ)

namespace InPlace

variable {σ α β : Type} {s s' : σ} {a : α} {failure : Failure}

def ending (before : σ) : Except Failure σ → Except Failure Unit × σ
  | .ok after => (.ok (), after)
  | .error failure => (.error failure, before)

/-- Whatever record it is written to, the writes end as the function does; where that fails, the
record is as it was. -/
def Performs (writes : InPlace σ Unit) (change : σ → Except Failure σ) : Prop :=
  ∀ s, writes s = ending s (change s)

section Performs

variable {result : Except Failure σ} {writes : InPlace σ Unit} {change : σ → Except Failure σ}

theorem ending_eq_ok : ending s result = (.ok (), s') ↔ result = .ok s' := by
  cases result <;> simp [ending]

theorem ending_eq_error : ending s result = (.error failure, s') ↔
    result = .error failure ∧ s' = s := by
  cases result <;> simp [ending, eq_comm]

theorem Performs.ok_iff (performs : Performs writes change) :
    writes s = (.ok (), s') ↔ change s = .ok s' := by
  rw [performs s]
  exact ending_eq_ok

theorem Performs.error_iff (performs : Performs writes change) :
    writes s = (.error failure, s') ↔ change s = .error failure ∧ s' = s := by
  rw [performs s]
  exact ending_eq_error

end Performs

theorem get_bind (f : σ → InPlace σ α) : (get >>= f : InPlace σ α) s = f s s := rfl

theorem bind_done {x : InPlace σ α} {f : α → InPlace σ β} (done : x s = (.ok a, s')) :
    (x >>= f) s = f a s' := by
  change (ExceptT.bindCont f (x s).1 : StateM σ _) (x s).2 = f a s'
  rw [done]
  rfl

theorem bind_failed {x : InPlace σ α} {f : α → InPlace σ β}
    (failed : x s = (.error failure, s')) : (x >>= f) s = (.error failure, s') := by
  change (ExceptT.bindCont f (x s).1 : StateM σ _) (x s).2 = (.error failure, s')
  rw [failed]
  rfl

theorem lift_done {x : Except Failure α} (h : x = .ok a) :
    (liftM x : InPlace σ α) s = (.ok a, s) := by
  rw [h]
  rfl

theorem lift_failed {x : Except Failure α} (h : x = .error failure) :
    (liftM x : InPlace σ α) s = (.error failure, s) := by
  rw [h]
  rfl

end InPlace
end VaultMarket
