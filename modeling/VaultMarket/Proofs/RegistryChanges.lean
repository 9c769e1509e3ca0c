import Mathlib.Data.List.Basic
import VaultMarket.Proofs.History
import VaultMarket.Proofs.InPlace
set_option autoImplicit false

namespace VaultMarket

namespace SignerSlots

variable {s : SignerSlots} {key : Key} {n : Nat}

/-- What is in the slots from `start` up to `stop` is also in the slots from `target` on. -/
def copy (s : SignerSlots) (start stop target : Nat) (ordered : start ≤ stop)
    (bound : stop ≤ Limits.serviceSigners)
    (room : target + (stop - start) ≤ Limits.serviceSigners) : SignerSlots :=
  ⟨s.keys.take target ++ (s.keys.take stop).drop start ++ s.keys.drop (target + (stop - start)), by
    simp only [List.length_append, List.length_take, List.length_drop, s.length_eq]
    omega⟩

theorem exists_first (used : n ≤ Limits.serviceSigners) (known : key ∈ s.front n) :
    ∃ before after, key ∉ before ∧ s.front n = before ++ key :: after ∧
      (s.front n).idxOf key = before.length ∧ n = before.length + after.length + 1 ∧
      (s.erase n key used known).keys = before ++ after ++ Key.zero :: s.keys.drop n := by
  obtain ⟨before, after, fresh, split, erased⟩ := List.exists_erase_eq known
  have first : (s.front n).idxOf key = before.length := by
    rw [split, List.idxOf_append_of_notMem fresh, List.idxOf_cons_self, Nat.add_zero]
  have width : n = before.length + after.length + 1 := by
    rw [← length_front (s := s) used, split, List.length_append, List.length_cons]
    omega
  refine ⟨before, after, fresh, split, first, width, ?_⟩
  change (s.front n).erase key ++ Key.zero :: s.keys.drop n = _
  rw [erased]

/-- Closing up over the first occurrence of a key and freeing the last slot takes the key out. -/
theorem copy_set_eq_erase (used : n ≤ Limits.serviceSigners) (known : key ∈ s.front n)
    (ordered : (s.front n).idxOf key + 1 ≤ n)
    (room : (s.front n).idxOf key + (n - ((s.front n).idxOf key + 1)) ≤ Limits.serviceSigners) :
    (s.copy ((s.front n).idxOf key + 1) n ((s.front n).idxOf key) ordered used room).set (n - 1)
      Key.zero = s.erase n key used known := by
  obtain ⟨before, after, -, split, first, width, erased⟩ := exists_first used known
  have keys : before ++ key :: after ++ s.keys.drop n = s.keys := by
    rw [← split, front, List.take_append_drop]
  have start : s.keys.take before.length = before := by
    rw [← keys, List.append_assoc, List.take_left]
  have moved : (s.keys.take n).drop (before.length + 1) = after := by
    rw [← front, split, ← List.drop_drop, List.drop_left, List.drop_one, List.tail_cons]
  obtain ⟨last, stays⟩ : ∃ last, s.keys.drop (n - 1) = last :: s.keys.drop n := by
    have bound : n - 1 < s.keys.length := by
      rw [s.length_eq]
      omega
    refine ⟨s.keys[n - 1], ?_⟩
    rw [List.drop_eq_getElem_cons bound, Nat.sub_add_cancel (by omega)]
  have stop : before.length + (n - (before.length + 1)) = n - 1 := by omega
  have behind : n - 1 = (before ++ after).length := by
    rw [List.length_append]
    omega
  rw [mk.injEq, erased]
  simp only [copy, first, start, moved, stop, stays]
  change (before ++ after ++ last :: s.keys.drop n).set (n - 1) Key.zero = _
  rw [behind, List.set_append_right _ _ (Nat.le_refl _), Nat.sub_self, List.set_cons_zero]

end SignerSlots

namespace Registry

variable {r r' : Registry} {key : Key} {what : SignerChange} {i start stop target : Nat}

section Writes

def writeSlot (i : Nat) (key : Key) : InPlace Registry Unit := do
  require (i < Limits.serviceSigners) .aborted
  modify fun r => { r with slots := r.slots.set i key }

def copySlots (start stop target : Nat) : InPlace Registry Unit := do
  let r ← get
  if h : start ≤ stop ∧ stop ≤ Limits.serviceSigners ∧
      target + (stop - start) ≤ Limits.serviceSigners then
    set { r with slots := r.slots.copy start stop target h.1 h.2.1 h.2.2 }
  else throw .aborted

def raiseCount : InPlace Registry Unit := do
  let r ← get
  require (r.count.toNat + 1 < UInt8.size) .aborted
  set { r with count := r.count + 1 }

def lowerCount : InPlace Registry Unit := do
  let r ← get
  require (0 < r.count.toNat) .aborted
  set { r with count := r.count - 1 }

def addInPlace (key : Key) : InPlace Registry Unit := do
  let r ← get
  require (r.count.toNat < Limits.serviceSigners) (.raised .tooManyServiceSigners)
  require (key ∉ r.active) (.raised .duplicateServiceSigner)
  writeSlot r.count.toNat key
  raiseCount

def removeInPlace (key : Key) : InPlace Registry Unit := do
  let r ← get
  let first := r.active.idxOf key
  require (first < r.active.length) (.unattributed .unknownServiceSigner)
  copySlots (first + 1) r.count.toNat first
  require (0 < r.count.toNat) .aborted
  writeSlot (r.count.toNat - 1) Key.zero
  lowerCount

def changeInPlace : SignerChange → Key → InPlace Registry Unit
  | .add, key => addInPlace key
  | .remove, key => removeInPlace key

theorem writeSlot_done (bound : i < Limits.serviceSigners) :
    writeSlot i key r = (.ok (), { r with slots := r.slots.set i key }) := by
  unfold writeSlot
  rw [InPlace.bind_done (InPlace.lift_done (require_of bound))]
  rfl

theorem copySlots_done (ordered : start ≤ stop) (bound : stop ≤ Limits.serviceSigners)
    (room : target + (stop - start) ≤ Limits.serviceSigners) :
    copySlots start stop target r =
      (.ok (), { r with slots := r.slots.copy start stop target ordered bound room }) := by
  unfold copySlots
  rw [InPlace.get_bind, dif_pos ⟨ordered, bound, room⟩]
  rfl

theorem copySlots_failed (outside : Limits.serviceSigners < stop) :
    copySlots start stop target r = (.error .aborted, r) := by
  unfold copySlots
  rw [InPlace.get_bind, dif_neg (by omega)]
  rfl

theorem raiseCount_done (room : r.count.toNat + 1 < UInt8.size) :
    raiseCount r = (.ok (), { r with count := r.count + 1 }) := by
  unfold raiseCount
  rw [InPlace.get_bind, InPlace.bind_done (InPlace.lift_done (require_of room))]
  rfl

theorem lowerCount_done (used : 0 < r.count.toNat) :
    lowerCount r = (.ok (), { r with count := r.count - 1 }) := by
  unfold lowerCount
  rw [InPlace.get_bind, InPlace.bind_done (InPlace.lift_done (require_of used))]
  rfl

end Writes

theorem addInPlace_performs (key : Key) : InPlace.Performs (addInPlace key) (·.add key) := by
  intro r
  change addInPlace key r = InPlace.ending r (r.add key)
  unfold addInPlace add
  rw [InPlace.get_bind]
  by_cases room : r.count.toNat < Limits.serviceSigners
  · rw [InPlace.bind_done (InPlace.lift_done (require_of room)), require_of room]
    by_cases fresh : key ∉ r.active
    · have byte : r.count.toNat + 1 < UInt8.size := Nat.lt_of_le_of_lt room (by decide)
      rw [InPlace.bind_done (InPlace.lift_done (require_of fresh)), require_of fresh,
        InPlace.bind_done (writeSlot_done room)]
      exact raiseCount_done byte
    · rw [InPlace.bind_failed (InPlace.lift_failed (require_of_not fresh)), require_of_not fresh]
      rfl
  · rw [InPlace.bind_failed (InPlace.lift_failed (require_of_not room)), require_of_not room]
    rfl

theorem removeInPlace_performs (key : Key) :
    InPlace.Performs (removeInPlace key) (·.remove key) := by
  intro r
  change removeInPlace key r = InPlace.ending r (r.remove key)
  unfold removeInPlace remove
  rw [InPlace.get_bind]
  split
  · rename_i known
    have found : r.active.idxOf key < r.active.length := List.idxOf_lt_length_iff.mpr known
    rw [InPlace.bind_done (InPlace.lift_done (require_of found))]
    split
    · rename_i used
      have width := length_active used
      have some_used : 0 < r.count.toNat := by omega
      have last : r.count.toNat - 1 < Limits.serviceSigners := by omega
      have ordered : r.active.idxOf key + 1 ≤ r.count.toNat := by omega
      have room : r.active.idxOf key + (r.count.toNat - (r.active.idxOf key + 1)) ≤
          Limits.serviceSigners := by omega
      have closed : (r.slots.copy (r.active.idxOf key + 1) r.count.toNat (r.active.idxOf key)
          ordered used room).set (r.count.toNat - 1) Key.zero =
          r.slots.erase r.count.toNat key used known :=
        SignerSlots.copy_set_eq_erase used known ordered room
      rw [InPlace.bind_done (copySlots_done ordered used room),
        InPlace.bind_done (InPlace.lift_done (require_of some_used)),
        InPlace.bind_done (writeSlot_done last), closed]
      exact lowerCount_done some_used
    · rename_i beyond
      rw [InPlace.bind_failed (copySlots_failed (by omega))]
      rfl
  · rename_i unknown
    have lost : ¬r.active.idxOf key < r.active.length := by
      rwa [List.idxOf_lt_length_iff]
    rw [InPlace.bind_failed (InPlace.lift_failed (require_of_not lost))]
    rfl

theorem changeInPlace_performs (what : SignerChange) (key : Key) :
    InPlace.Performs (changeInPlace what key) (·.change what key) := by
  cases what with
  | add => exact addInPlace_performs key
  | remove => exact removeInPlace_performs key

/-- What the changes by `key` do to a registry, whatever it stores: none is left half done, which
of them aborts, and what a successful one leaves. -/
structure ChangesExact (r : Registry) (key : Key) : Prop where
  written : ∀ what r', changeInPlace what key r = (.ok (), r') ↔ r.change what key = .ok r'
  unwritten : ∀ what failure r', changeInPlace what key r = (.error failure, r') ↔
    r.change what key = .error failure ∧ r' = r
  add_answers : r.change .add key ≠ .error .aborted
  remove_aborts_iff : r.change .remove key = .error .aborted ↔
    3 < r.count.toNat ∧ key ∈ r.slots.keys
  others_kept : ∀ what r', r.change what key = .ok r' →
    r' = { r with slots := r'.slots, count := r'.count }
  add_count : ∀ r', r.change .add key = .ok r' → r'.count.toNat = r.count.toNat + 1
  add_slots : ∀ r', r.change .add key = .ok r' → ∀ i,
    r'.slots.keys[i]? = if i = r.count.toNat then some key else r.slots.keys[i]?
  remove_count : ∀ r', r.change .remove key = .ok r' → r'.count.toNat + 1 = r.count.toNat
  remove_active : ∀ r', r.change .remove key = .ok r' → ∃ before after, key ∉ before ∧
    r.active = before ++ key :: after ∧ r'.active = before ++ after
  remove_last : ∀ r', r.change .remove key = .ok r' →
    r'.slots.keys[r.count.toNat - 1]? = some Key.zero
  remove_behind : ∀ r', r.change .remove key = .ok r' → ∀ i, r.count.toNat ≤ i →
    r'.slots.keys[i]? = r.slots.keys[i]?

theorem add_answers : r.add key ≠ .error .aborted := by
  unfold add
  by_cases room : r.count.toNat < Limits.serviceSigners
  · rw [require_of room]
    by_cases fresh : key ∉ r.active
    · rw [require_of fresh]
      nofun
    · rw [require_of_not fresh]
      nofun
  · rw [require_of_not room]
    nofun

theorem remove_aborts_iff : r.remove key = .error .aborted ↔
    Limits.serviceSigners < r.count.toNat ∧ key ∈ r.slots.keys := by
  unfold remove
  split
  · rename_i known
    split
    · rename_i used
      constructor
      · intro aborted
        cases aborted
      · rintro ⟨beyond, -⟩
        exact absurd used (Nat.not_le.mpr beyond)
    · rename_i beyond
      exact ⟨fun _ => ⟨Nat.not_le.mp beyond, List.mem_of_mem_take known⟩, fun _ => rfl⟩
  · rename_i unknown
    constructor
    · intro aborted
      cases aborted
    · rintro ⟨beyond, stored⟩
      have all : r.active = r.slots.keys :=
        List.take_of_length_le (by rw [r.slots.length_eq]; omega)
      exact absurd (all ▸ stored) unknown

theorem others_of_change (h : r.change what key = .ok r') :
    r' = { r with slots := r'.slots, count := r'.count } := by
  cases what with
  | add =>
    obtain ⟨-, -, rfl⟩ := add_eq_ok.mp h
    rfl
  | remove =>
    obtain ⟨-, -, rfl⟩ := remove_eq_ok.mp h
    rfl

theorem exists_first_of_remove (h : r.remove key = .ok r') :
    ∃ before after, key ∉ before ∧ r.active = before ++ key :: after ∧
      r.count.toNat = before.length + after.length + 1 ∧
      r'.slots.keys = before ++ after ++ Key.zero :: r.slots.keys.drop r.count.toNat := by
  obtain ⟨known, used, rfl⟩ := remove_eq_ok.mp h
  obtain ⟨before, after, fresh, split, -, width, erased⟩ := SignerSlots.exists_first used known
  exact ⟨before, after, fresh, split, width, erased⟩

theorem changes_exact (r : Registry) (key : Key) : r.ChangesExact key where
  written what r' := (changeInPlace_performs what key).ok_iff
  unwritten what failure r' := (changeInPlace_performs what key).error_iff
  add_answers := add_answers
  remove_aborts_iff := remove_aborts_iff
  others_kept what r' h := others_of_change h
  add_count r' h := count_of_add h
  add_slots r' h i := by
    obtain ⟨room, -, rfl⟩ := add_eq_ok.mp h
    change (r.slots.keys.set r.count.toNat key)[i]? = _
    rw [List.getElem?_set, r.slots.length_eq, if_pos room]
    simp only [eq_comm]
  remove_count r' h := count_of_remove h
  remove_active r' h := by
    obtain ⟨before, after, fresh, split, -, keys⟩ := exists_first_of_remove h
    refine ⟨before, after, fresh, split, ?_⟩
    rw [active_remove h, split, List.erase_append_right _ fresh, List.erase_cons_head]
  remove_last r' h := by
    obtain ⟨before, after, -, -, width, keys⟩ := exists_first_of_remove h
    have place : r.count.toNat - 1 = (before ++ after).length := by
      rw [List.length_append]
      omega
    rw [keys, place, List.getElem?_append_right (Nat.le_refl _), Nat.sub_self]
    rfl
  remove_behind r' h i behind := by
    obtain ⟨before, after, -, -, width, keys⟩ := exists_first_of_remove h
    have place : i - (before ++ after).length = i - r.count.toNat + 1 := by
      rw [List.length_append]
      omega
    rw [keys, List.getElem?_append_right (by rw [List.length_append]; omega), place,
      List.getElem?_cons_succ, List.getElem?_drop, Nat.add_sub_cancel' behind]

end Registry
end VaultMarket
