import VaultMarket.Identity
set_option autoImplicit false

/-!
# The ledger

A ledger maps keys to accounts. A key without an entry reads as a vacant account: no lamports, no
data, owned by the system program. Every key has at most one entry, so sums over the entries count
each account once.
-/

namespace VaultMarket

structure Account where
  lamports : UInt64
  owner : Key
  executable : Bool
  data : Bytes
deriving DecidableEq

namespace Account

def vacant : Account := ⟨0, Identity.systemProgram, false, []⟩

instance : Inhabited Account := ⟨vacant⟩

/-- Whether nobody has put anything at the key: the system program owns it and it is empty. -/
def IsVacant (a : Account) : Prop := a.owner = Identity.systemProgram ∧ a.lamports = 0

instance (a : Account) : Decidable a.IsVacant := by unfold IsVacant; infer_instance

def hostProgram : Account := ⟨1, Identity.systemProgram, true, []⟩

end Account

structure Ledger where
  entries : List (Key × Account)
  nodup : (entries.map Prod.fst).Nodup
deriving DecidableEq

namespace Ledger

def get (l : Ledger) (key : Key) : Account := (l.entries.lookup key).getD .vacant

def setEntry (key : Key) (a : Account) : List (Key × Account) → List (Key × Account)
  | [] => [(key, a)]
  | (k, b) :: rest => if k = key then (key, a) :: rest else (k, b) :: setEntry key a rest

theorem mem_keys_setEntry {key k : Key} {a : Account} {entries : List (Key × Account)} :
    k ∈ (setEntry key a entries).map Prod.fst ↔ k = key ∨ k ∈ entries.map Prod.fst := by
  induction entries with
  | nil => simp [setEntry]
  | cons e rest ih =>
    obtain ⟨k', b⟩ := e
    by_cases h : k' = key
    · simp [setEntry, h]
    · simp only [setEntry, if_neg h, List.map_cons, List.mem_cons, ih]
      constructor
      · rintro (h | h | h) <;> simp [h]
      · rintro (h | h | h) <;> simp [h]

theorem nodup_keys_setEntry {key : Key} {a : Account} {entries : List (Key × Account)}
    (h : (entries.map Prod.fst).Nodup) : ((setEntry key a entries).map Prod.fst).Nodup := by
  induction entries with
  | nil => simp [setEntry]
  | cons e rest ih =>
    obtain ⟨k, b⟩ := e
    simp only [List.map_cons, List.nodup_cons] at h
    by_cases same : k = key
    · subst same
      simp only [setEntry, if_true, List.map_cons, List.nodup_cons]
      exact h
    · simp only [setEntry, if_neg same, List.map_cons, List.nodup_cons]
      refine ⟨fun known => ?_, ih h.2⟩
      rcases mem_keys_setEntry.mp known with eq | known
      · exact same eq
      · exact h.1 known

def set (l : Ledger) (key : Key) (a : Account) : Ledger :=
  ⟨setEntry key a l.entries, nodup_keys_setEntry l.nodup⟩

theorem lookup_setEntry (key k : Key) (a : Account) (entries : List (Key × Account)) :
    (setEntry key a entries).lookup k = if k = key then some a else entries.lookup k := by
  induction entries with
  | nil => by_cases h : k = key <;> simp [setEntry, List.lookup_cons, h, beq_eq_false_iff_ne.mpr]
  | cons e rest ih =>
    obtain ⟨k', b⟩ := e
    by_cases same : k' = key
    · subst same
      by_cases h : k = k' <;> simp [setEntry, List.lookup_cons, h, beq_eq_false_iff_ne.mpr]
    · by_cases h : k = key
      · subst h
        have other : (k == k') = false := beq_eq_false_iff_ne.mpr fun e => same e.symm
        simp [setEntry, same, List.lookup_cons, other, ih]
      · simp [setEntry, same, List.lookup_cons, ih, h]

theorem get_set (l : Ledger) (key k : Key) (a : Account) :
    (l.set key a).get k = if k = key then a else l.get k := by
  simp only [get, set, lookup_setEntry]
  split <;> rfl

@[simp] theorem get_set_same (l : Ledger) (key : Key) (a : Account) : (l.set key a).get key = a := by
  simp [get_set]

theorem get_set_other (l : Ledger) {key k : Key} (a : Account) (h : k ≠ key) :
    (l.set key a).get k = l.get k := by
  simp [get_set, h]

def setData (l : Ledger) (key : Key) (data : Bytes) : Ledger :=
  l.set key { l.get key with data }

def genesis : Ledger where
  entries :=
    [(Identity.systemProgram, .hostProgram), (Identity.tokenProgram, .hostProgram)]
  nodup := by decide

end Ledger

end VaultMarket
