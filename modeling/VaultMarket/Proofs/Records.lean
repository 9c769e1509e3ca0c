import Mathlib.Logic.Function.Basic
import VaultMarket.Ledger
import VaultMarket.Record.Lawful
set_option autoImplicit false

namespace VaultMarket
open Function (update)

inductive Stored where
  | registry (r : Registry)
  | vault (v : Vault)
  | user (u : User)
  | asset (a : Asset)
  | server (s : Server)
  | mintRecord (m : MintRecord)
deriving DecidableEq

namespace Stored

variable {α : Type} [Record α] {wrap : α → Stored} {data : Bytes}

def readAs (wrap : α → Stored) (data : Bytes) : Option Stored :=
  (Record.read data).toOption.map wrap

/-- The record that the data starts with, of whichever kind its tag names. -/
def read (data : Bytes) : Option Stored :=
  readAs registry data <|> readAs vault data <|> readAs user data <|> readAs asset data <|>
    readAs server data <|> readAs mintRecord data

def ReadsAs (data : Bytes) : Stored → Prop
  | registry r => Record.read data = .ok r
  | vault v => Record.read data = .ok v
  | user u => Record.read data = .ok u
  | asset a => Record.read data = .ok a
  | server s => Record.read data = .ok s
  | mintRecord m => Record.read data = .ok m

theorem tag_of_read {a : α} (h : Record.read data = .ok a) :
    data.take tagWidth = Record.tag α := by
  unfold Record.read at h
  split at h
  · cases h
  · split at h
    · cases h
    · rename_i same
      exact not_not.mp same

theorem readAs_eq_some {s : Stored} :
    readAs wrap data = some s ↔ ∃ a : α, Record.read data = .ok a ∧ wrap a = s := by
  unfold readAs
  cases h : (Record.read data : Except Fault α) <;> simp [Except.toOption]

theorem readAs_eq_none (other : Record.tag α ≠ data.take tagWidth) :
    readAs wrap data = none := by
  cases h : readAs wrap data with
  | none => rfl
  | some s =>
    obtain ⟨a, read, _⟩ := readAs_eq_some.mp h
    exact absurd (tag_of_read read).symm other

theorem tags_nodup : [Record.tag Registry, Record.tag Vault, Record.tag User, Record.tag Asset,
    Record.tag Server, Record.tag MintRecord].Nodup := by
  decide +kernel

theorem readsAs_of_read {s : Stored} (h : read data = some s) : ReadsAs data s := by
  simp only [read, Option.orElse_eq_orElse, Option.orElse_eq_or, Option.or_eq_some_iff,
    readAs_eq_some] at h
  rcases h with ⟨_, h, rfl⟩ | ⟨-, ⟨_, h, rfl⟩ | ⟨-, ⟨_, h, rfl⟩ | ⟨-, ⟨_, h, rfl⟩ | ⟨-,
    ⟨_, h, rfl⟩ | ⟨-, ⟨_, h, rfl⟩⟩⟩⟩⟩⟩ <;> exact h

theorem read_of_readsAs {s : Stored} (h : ReadsAs data s) : read data = some s := by
  have distinct := tags_nodup
  simp only [List.nodup_cons, List.mem_cons, List.not_mem_nil, or_false, not_or] at distinct
  cases s <;>
    simp [read, readAs_eq_none, readAs_eq_some.mpr ⟨_, h, rfl⟩, tag_of_read h, distinct]

theorem read_eq_some {s : Stored} : read data = some s ↔ ReadsAs data s :=
  ⟨readsAs_of_read, read_of_readsAs⟩

end Stored

class Kind (α : Type) [Record α] where
  wrap : α → Stored
  readsAs_wrap : ∀ (data : Bytes) (a : α), Stored.ReadsAs data (wrap a) ↔ Record.read data = .ok a

instance : Kind Registry := ⟨.registry, fun _ _ => Iff.rfl⟩
instance : Kind Vault := ⟨.vault, fun _ _ => Iff.rfl⟩
instance : Kind User := ⟨.user, fun _ _ => Iff.rfl⟩
instance : Kind Asset := ⟨.asset, fun _ _ => Iff.rfl⟩
instance : Kind Server := ⟨.server, fun _ _ => Iff.rfl⟩
instance : Kind MintRecord := ⟨.mintRecord, fun _ _ => Iff.rfl⟩

namespace Record

variable {α : Type} [Record α] [LawfulWire α] {data : Bytes} {a : α}

theorem eq_write_append_of_read (h : Record.read data = .ok a) :
    LawfulWire.Fits a ∧ ∃ rest, data = Record.write a ++ rest := by
  have tag := Stored.tag_of_read h
  unfold Record.read at h
  rw [tag] at h
  simp only [ne_eq, not_true_eq_false, if_false] at h
  split at h
  · cases h
  · unfold readFields at h
    split at h
    · rename_i b rest decoded
      cases h
      refine ⟨LawfulWire.fits_of_decode _ _ _ decoded, rest, ?_⟩
      have fields : data.drop tagWidth = Wire.encode a ++ rest :=
        LawfulWire.eq_append_of_decode _ _ _ decoded
      rw [Record.write, List.append_assoc, ← fields, ← tag, List.take_append_drop]
    · cases h

theorem fits_of_read (h : Record.read data = .ok a) : LawfulWire.Fits a :=
  (eq_write_append_of_read h).1

theorem overwrite_zero (data new : Bytes) : data.overwrite 0 new = new ++ data.drop new.length := by
  rw [Bytes.overwrite, List.take_zero, List.nil_append, Nat.zero_add]

theorem overwrite_write (h : Record.read data = .ok a) :
    data.overwrite 0 (Record.write a) = data := by
  obtain ⟨-, rest, rfl⟩ := eq_write_append_of_read h
  rw [overwrite_zero, List.drop_left]

end Record

abbrev Records := Key → Option Stored

namespace Account

def record? (a : Account) : Option Stored :=
  if a.owner = Identity.program then Stored.read a.data else none

theorem record?_eq_some {a : Account} {s : Stored} :
    a.record? = some s ↔ a.owner = Identity.program ∧ Stored.ReadsAs a.data s := by
  unfold record?
  split <;> simp_all [Stored.read_eq_some]

theorem record?_of_foreign {a : Account} (h : a.owner ≠ Identity.program) : a.record? = none :=
  if_neg h

end Account

namespace Ledger

variable {α : Type} [Record α] [Kind α] {l : Ledger} {key : Key}

def records (l : Ledger) : Records := fun key => (l.get key).record?

theorem records_eq_wrap {a : α} : l.records key = some (Kind.wrap a) ↔
    (l.get key).owner = Identity.program ∧ Record.read (l.get key).data = .ok a := by
  rw [records, Account.record?_eq_some, Kind.readsAs_wrap]

theorem owner_of_records {s : Stored} (h : l.records key = some s) :
    (l.get key).owner = Identity.program :=
  (Account.record?_eq_some.mp h).1

theorem records_of_foreign (h : (l.get key).owner ≠ Identity.program) : l.records key = none :=
  Account.record?_of_foreign h

theorem data_ne_nil_of_records {s : Stored} (h : l.records key = some s) :
    (l.get key).data ≠ [] := by
  intro empty
  have reads := (Account.record?_eq_some.mp h).2
  rw [empty] at reads
  cases s <;> cases reads

theorem records_set (l : Ledger) (key : Key) (a : Account) :
    (l.set key a).records = update l.records key a.record? := by
  funext k
  rw [records, get_set]
  by_cases same : k = key
  · rw [if_pos same, same, Function.update_self]
  · rw [if_neg same, Function.update_of_ne same, records]

end Ledger
end VaultMarket
