import VaultMarket.Proofs.Access
set_option autoImplicit false

namespace VaultMarket
open LawfulWire (Fits)

theorem validateLabel_eq_ok {label : String} {most : Nat} :
    validateLabel label most = .ok () ↔ label ≠ "" ∧ label.utf8ByteSize ≤ most := by
  simp only [validateLabel, Except.bind_eq_ok, exists_unit, require_eq_ok]

namespace SignerChange

def apply (signers : List Key) (service : Key) : SignerChange → List Key
  | add => signers ++ [service]
  | remove => signers.erase service

end SignerChange

theorem SignerSlots.length_front {s : SignerSlots} {n : Nat} (used : n ≤ Limits.serviceSigners) :
    (s.front n).length = n := by
  rw [front, List.length_take, s.length_eq]
  omega

namespace Registry

variable {r r' : Registry} {key : Key}

theorem fits (r : Registry) : Fits r := by simp [Fits]

theorem isSigner_iff : r.isSigner key = true ↔ key ∈ r.active := by
  rw [isSigner, decide_eq_true_eq]

theorem add_eq_ok : r.add key = .ok r' ↔
    r.count.toNat < Limits.serviceSigners ∧ key ∉ r.active ∧
      r' = { r with slots := r.slots.set r.count.toNat key, count := r.count + 1 } := by
  simp only [add, Except.bind_eq_ok, exists_unit, require_eq_ok, Except.pure_eq_ok]

theorem remove_eq_ok : r.remove key = .ok r' ↔
    ∃ (known : key ∈ r.active) (used : r.count.toNat ≤ Limits.serviceSigners),
      r' = { r with
        slots := r.slots.erase r.count.toNat key used known
        count := r.count - 1 } := by
  unfold remove
  split
  · split
    · rename_i known used
      rw [Except.ok.injEq, eq_comm]
      exact ⟨fun e => ⟨known, used, e⟩, fun ⟨_, _, e⟩ => e⟩
    · rename_i known full
      exact ⟨nofun, fun ⟨_, used, _⟩ => absurd used full⟩
  · rename_i unknown
    exact ⟨nofun, fun ⟨known, _, _⟩ => absurd known unknown⟩

theorem length_active (used : r.count.toNat ≤ Limits.serviceSigners) :
    r.active.length = r.count.toNat := SignerSlots.length_front used

theorem count_of_add (h : r.add key = .ok r') : r'.count.toNat = r.count.toNat + 1 := by
  obtain ⟨room, -, rfl⟩ := add_eq_ok.mp h
  change (r.count + 1).toNat = _
  rw [UInt8.toNat_add, UInt8.toNat_one]
  exact Nat.mod_eq_of_lt (Nat.lt_of_le_of_lt room (by decide))

theorem count_of_remove (h : r.remove key = .ok r') : r'.count.toNat + 1 = r.count.toNat := by
  obtain ⟨known, used, rfl⟩ := remove_eq_ok.mp h
  have filled := List.length_pos_of_mem known
  rw [length_active used] at filled
  have one : (1 : UInt8) ≤ r.count := UInt8.le_iff_toNat_le.mpr filled
  change (r.count - 1).toNat + 1 = _
  rw [UInt8.toNat_sub_of_le _ _ one, UInt8.toNat_one]
  omega

theorem active_fresh {payer authority : Key} {now : Int64} {bump : UInt8} :
    (fresh payer authority now bump).active = [] := rfl

theorem active_add (h : r.add key = .ok r') : r'.active = r.active ++ [key] := by
  obtain ⟨room, -, rfl⟩ := add_eq_ok.mp h
  have slot : r.count.toNat < r.slots.keys.length := by rw [r.slots.length_eq]; exact room
  have next : (r.count + 1).toNat = r.count.toNat + 1 := count_of_add h
  change (r.slots.keys.set r.count.toNat key).take (r.count + 1).toNat =
    r.slots.keys.take r.count.toNat ++ [key]
  rw [next, List.take_succ_eq_append_getElem (by rw [List.length_set]; exact slot),
    List.getElem_set_self, List.take_set_of_le (Nat.le_refl _)]

theorem active_remove (h : r.remove key = .ok r') : r'.active = r.active.erase key := by
  obtain ⟨known, used, rfl⟩ := remove_eq_ok.mp h
  have fewer : (r.count - 1).toNat + 1 = r.count.toNat := count_of_remove h
  have next : (r.count - 1).toNat = (r.active.erase key).length := by
    rw [List.length_erase_of_mem known, length_active used]
    omega
  change (r.active.erase key ++ Key.zero :: r.slots.keys.drop r.count.toNat).take
    (r.count - 1).toNat = r.active.erase key
  rw [next, List.take_left]

theorem active_change {what : SignerChange} (h : r.change what key = .ok r') :
    r'.active = what.apply r.active key := by
  cases what with
  | add => exact active_add h
  | remove => exact active_remove h

end Registry

namespace Vault

variable {v v' : Vault} {t : VaultTerms} {kind : VaultKind} {creator signer next : Key}
  {terms : Option VaultTerms} {now : Int64} {bump : UInt8}

theorem fits_iff : Fits v ↔
    v.serverId.utf8ByteSize < UInt32.size ∧ v.serverName.utf8ByteSize < UInt32.size := by
  simp [Fits]

theorem validate_eq_ok : t.validate = .ok () ↔
    t.serverId ≠ "" ∧ t.serverName ≠ "" ∧ t.serverId.utf8ByteSize ≤ Limits.serverId ∧
      t.serverName.utf8ByteSize ≤ Limits.serverName := by
  simp only [VaultTerms.validate, Except.bind_eq_ok, exists_unit, require_eq_ok]

theorem settledTerms_eq_ok : settledTerms kind terms = .ok t ↔
    kind = .user ∧ t = default ∨ kind ≠ .user ∧ terms = some t ∧ t.validate = .ok () := by
  have stated (o : VaultTerms) : (do o.validate; pure o : Except Failure VaultTerms) = .ok t ↔
      o = t ∧ t.validate = .ok () := by
    rw [Except.bind_eq_ok, exists_unit, Except.pure_eq_ok]
    constructor
    · rintro ⟨valid, rfl⟩
      exact ⟨rfl, valid⟩
    · rintro ⟨rfl, valid⟩
      exact ⟨valid, rfl⟩
  cases kind <;> cases terms <;> simp [settledTerms, stated, eq_comm, -bind_pure_comp]

theorem fresh_eq_ok : fresh kind creator terms now bump = .ok v ↔
    ∃ t, settledTerms kind terms = .ok t ∧
      v = ⟨kind, creator, creator, t.serverId, t.serverName, now, now, bump⟩ := by
  simp only [fresh, Except.bind_eq_ok, Except.pure_eq_ok]

theorem handOver_eq_ok : v.handOver signer next now = .ok v' ↔
    signer = v.authority ∧ v' = { v with authority := next, modifiedAt := now } := by
  simp only [handOver, Except.bind_eq_ok, exists_unit, require_eq_ok, Except.pure_eq_ok]

theorem fits_of_fresh (h : fresh kind creator terms now bump = .ok v) : Fits v := by
  obtain ⟨t, settled, rfl⟩ := fresh_eq_ok.mp h
  rw [fits_iff]
  rcases settledTerms_eq_ok.mp settled with ⟨-, rfl⟩ | ⟨-, -, valid⟩
  · have empty : "".utf8ByteSize < UInt32.size := by decide
    exact ⟨empty, empty⟩
  · obtain ⟨-, -, id, name⟩ := validate_eq_ok.mp valid
    exact ⟨Nat.lt_of_le_of_lt id (by decide), Nat.lt_of_le_of_lt name (by decide)⟩

theorem fits_of_handOver (h : v.handOver signer next now = .ok v') (fits : Fits v) : Fits v' := by
  obtain ⟨-, rfl⟩ := handOver_eq_ok.mp h
  rw [fits_iff] at fits ⊢
  exact fits

end Vault

namespace User

variable {u u' : User} {key : Key}

theorem fits_iff : Fits u ↔ u.username.utf8ByteSize < UInt32.size := by simp [Fits]

theorem attach_eq_ok : u.attach key = .ok u' ↔
    u.handle = none ∧ u' = { u with handle := some key } := by
  simp only [attach, Except.bind_eq_ok, exists_unit, require_eq_ok, Except.pure_eq_ok]

end User

theorem Asset.fits_iff {a : Asset} : Fits a ↔ a.text.utf8ByteSize < UInt32.size := by simp [Fits]

theorem HandleMove.run_eq_ok {m m' : HandleMove} {key : Key} : m.run key = .ok m' ↔
    (m.source.handle = some key ∧ m.asset.owner = m.source.authority) ∧ m.target.handle = none ∧
      m' = ⟨{ m.asset with owner := m.target.authority }, { m.source with handle := none },
        { m.target with handle := some key }⟩ := by
  simp only [run, Except.bind_eq_ok, exists_unit, require_eq_ok, Except.pure_eq_ok]

namespace Server

variable {s : Server} {authority : Key} {name ticker : String} {bump : UInt8}

theorem fits_iff : Fits s ↔
    s.name.utf8ByteSize < UInt32.size ∧ s.ticker.utf8ByteSize < UInt32.size := by
  simp [Fits]

theorem fresh_eq_ok : fresh authority name ticker bump = .ok s ↔
    validateLabel name Limits.serverLabel = .ok () ∧ validateLabel ticker Limits.ticker = .ok () ∧
      s = ⟨authority, name, ticker, none, bump⟩ := by
  simp only [fresh, Except.bind_eq_ok, exists_unit, Except.pure_eq_ok]

theorem fits_of_fresh (h : fresh authority name ticker bump = .ok s) : Fits s := by
  obtain ⟨label, short, rfl⟩ := fresh_eq_ok.mp h
  have label := (validateLabel_eq_ok.mp label).2
  have short := (validateLabel_eq_ok.mp short).2
  exact fits_iff.mpr ⟨Nat.lt_of_le_of_lt label (by decide), Nat.lt_of_le_of_lt short (by decide)⟩

end Server

namespace MintRecord

variable {m : MintRecord} {mint creator : Key} {terms : MintTerms} {now : Int64} {bump : UInt8}

theorem fits_iff : Fits m ↔ m.name.utf8ByteSize < UInt32.size ∧
    m.symbol.utf8ByteSize < UInt32.size ∧ m.uri.utf8ByteSize < UInt32.size := by
  simp [Fits]

theorem validate_eq_ok : terms.validate = .ok () ↔
    validateLabel terms.name Limits.tokenName = .ok () ∧
      validateLabel terms.symbol Limits.tokenSymbol = .ok () ∧
      terms.uri.utf8ByteSize ≤ Limits.tokenUri := by
  simp only [MintTerms.validate, Except.bind_eq_ok, exists_unit, require_eq_ok]

theorem fresh_eq_ok : fresh mint creator terms now bump = .ok m ↔ terms.validate = .ok () ∧
    m = ⟨mint, creator, terms.name, terms.symbol, terms.uri, terms.decimals, terms.nonce, now,
      bump⟩ := by
  simp only [fresh, Except.bind_eq_ok, exists_unit, Except.pure_eq_ok]

theorem fits_of_fresh (h : fresh mint creator terms now bump = .ok m) : Fits m := by
  obtain ⟨valid, rfl⟩ := fresh_eq_ok.mp h
  obtain ⟨name, symbol, uri⟩ := validate_eq_ok.mp valid
  have name := (validateLabel_eq_ok.mp name).2
  have symbol := (validateLabel_eq_ok.mp symbol).2
  exact fits_iff.mpr
    ⟨Nat.lt_of_le_of_lt name (by decide), Nat.lt_of_le_of_lt symbol (by decide),
      Nat.lt_of_le_of_lt uri (by decide)⟩

end MintRecord
end VaultMarket
