import Mathlib.Algebra.GroupWithZero.Nat
import VaultMarket.Proofs.Accounts
set_option autoImplicit false

namespace VaultMarket

namespace Wire

theorem length_encode_prod {α β : Type} [Wire α] [Wire β] (p : α × β) :
    (encode p).length = (encode p.1).length + (encode p.2).length := List.length_append

theorem length_encode_key (k : Key) : (encode k).length = 32 := k.length_eq

theorem length_encode_string (s : String) : (encode s).length = 4 + s.utf8ByteSize := by
  change (encode (UInt32.ofNat (Bytes.ofString s).length) ++ Bytes.ofString s).length = _
  rw [List.length_append, Bytes.length_ofString]
  rfl

theorem length_encode_byte (b : UInt8) : (encode b).length = 1 := rfl

theorem length_encode_nonce (n : UInt16) : (encode n).length = 2 := rfl

theorem length_encode_amount (n : UInt64) : (encode n).length = 8 := rfl

theorem length_encode_time (t : Int64) : (encode t).length = 8 := rfl

theorem length_encode_optionalKey (k : Option Key) :
    (encode k).length = 1 + 32 * if k.isSome then 1 else 0 := by
  cases k with
  | none => rfl
  | some k =>
    change (1 :: encode k).length = 33
    rw [List.length_cons, length_encode_key]

theorem length_encode_padded {α : Type} [Wire α] (p : Padded α) :
    (encode p).length = 4 + (encode p.value).length := by
  change (Padded.encodePresence p.present ++ encode p.value).length = _
  rw [List.length_append]
  rfl

theorem length_flatMap_encode (keys : List Key) :
    (keys.flatMap encode).length = 32 * keys.length := by
  induction keys with
  | nil => rfl
  | cons k keys ih =>
    rw [List.flatMap_cons, List.length_append, ih, length_encode_key, List.length_cons]
    omega

theorem length_encode_slots (s : SignerSlots) : (encode s).length = 96 := by
  change (s.keys.flatMap encode).length = _
  rw [length_flatMap_encode, s.length_eq]
  rfl

theorem length_encode_mint (m : Mint) : (encode m).length = Mint.width := by
  change (encode (m.authority, m.supply, m.decimals, m.initialized, m.freezeAuthority)).length = _
  simp only [length_encode_prod, length_encode_padded, length_encode_key, length_encode_amount,
    length_encode_byte]
  rfl

theorem length_encode_holding (h : Holding) : (encode h).length = Holding.width := by
  change (encode (h.mint, h.owner, h.amount, h.delegate, h.state, h.reserve, h.delegated,
    h.closeAuthority)).length = _
  simp only [length_encode_prod, length_encode_padded, length_encode_key, length_encode_amount]
  rfl

end Wire

section Records
open Wire

variable {α : Type} [Record α]

theorem Record.length_write (a : α) : (Record.write a).length = 8 + (encode a).length := by
  rw [Record.write, List.length_append, Record.tag, length_tag, tagWidth]

theorem Registry.length_encode (r : Registry) : (encode r).length = 210 := by
  change (encode (r.slots, r.count, r.createdAt, r.createdBy, r.modifiedAt, r.modifiedBy,
    r.updateAuthority, r.bump)).length = _
  simp only [length_encode_prod, length_encode_slots, length_encode_byte, length_encode_time,
    length_encode_key]

theorem Vault.length_encode (v : Vault) :
    (encode v).length = 90 + v.serverId.utf8ByteSize + v.serverName.utf8ByteSize := by
  have kind : (encode v.kind).length = 1 := rfl
  change (encode (v.kind, v.creator, v.authority, v.serverId, v.serverName, v.createdAt,
    v.modifiedAt, v.bump)).length = _
  simp only [length_encode_prod, kind, length_encode_key, length_encode_string,
    length_encode_time, length_encode_byte]
  omega

theorem User.length_encode (u : User) : (encode u).length = 72 + u.username.utf8ByteSize +
    32 * [u.handle, u.profileEffect, u.theme].countP Option.isSome := by
  change (encode (u.authority, u.username, u.handle, u.profileEffect, u.theme, u.vault,
    u.bump)).length = _
  simp only [length_encode_prod, length_encode_key, length_encode_string, length_encode_byte,
    length_encode_optionalKey, List.countP_cons, List.countP_nil]
  omega

theorem Asset.length_encode (a : Asset) : (encode a).length = 38 + a.text.utf8ByteSize := by
  have kind : (encode a.kind).length = 1 := rfl
  change (encode (a.owner, a.kind, a.text, a.bump)).length = _
  simp only [length_encode_prod, kind, length_encode_key, length_encode_string, length_encode_byte]
  omega

theorem Server.length_encode (s : Server) : (encode s).length =
    42 + s.name.utf8ByteSize + s.ticker.utf8ByteSize + 32 * [s.theme].countP Option.isSome := by
  change (encode (s.authority, s.name, s.ticker, s.theme, s.bump)).length = _
  simp only [length_encode_prod, length_encode_key, length_encode_string, length_encode_byte,
    length_encode_optionalKey, List.countP_cons, List.countP_nil]
  omega

theorem MintRecord.length_encode (m : MintRecord) : (encode m).length =
    88 + m.name.utf8ByteSize + m.symbol.utf8ByteSize + m.uri.utf8ByteSize := by
  change (encode (m.mint, m.creator, m.name, m.symbol, m.uri, m.decimals, m.nonce, m.createdAt,
    m.bump)).length = _
  simp only [length_encode_prod, length_encode_key, length_encode_string, length_encode_byte,
    length_encode_nonce, length_encode_time]
  omega

def Stored.write : Stored → Bytes
  | registry r => Record.write r
  | vault v => Record.write v
  | user u => Record.write u
  | asset a => Record.write a
  | server s => Record.write s
  | mintRecord m => Record.write m

/-- The bytes of a record of the kind with empty texts and without its optional keys. -/
def RecordKind.leastWidth : RecordKind → Nat
  | registry => 218
  | vault => 98
  | user => 80
  | asset => 46
  | server => 50
  | mintRecord => 96

end Records

namespace Stored

def texts : Stored → List String
  | registry _ => []
  | vault v => [v.serverId, v.serverName]
  | user u => [u.username]
  | asset a => [a.text]
  | server s => [s.name, s.ticker]
  | mintRecord m => [m.name, m.symbol, m.uri]

def textLimits : Stored → List Nat
  | registry _ => []
  | vault _ => [Limits.serverId, Limits.serverName]
  | user _ => [Limits.username]
  | asset _ => [Limits.handle]
  | server _ => [Limits.serverLabel, Limits.ticker]
  | mintRecord _ => [Limits.tokenName, Limits.tokenSymbol, Limits.tokenUri]

def optionalKeys : Stored → List (Option Key)
  | user u => [u.handle, u.profileEffect, u.theme]
  | server s => [s.theme]
  | _ => []

def TextsWithin (s : Stored) : Prop := ∀ p ∈ s.texts.zip s.textLimits, p.1.utf8ByteSize ≤ p.2

instance (s : Stored) : Decidable s.TextsWithin :=
  inferInstanceAs (Decidable (∀ p ∈ s.texts.zip s.textLimits, p.1.utf8ByteSize ≤ p.2))

/-- Every text has all the bytes it may have, and no optional key is missing. -/
def Full (s : Stored) : Prop :=
  (∀ p ∈ s.texts.zip s.textLimits, p.1.utf8ByteSize = p.2) ∧ ∀ k ∈ s.optionalKeys, k.isSome

variable {s : Stored}

theorem length_write (s : Stored) : s.write.length = s.kind.leastWidth +
    (s.texts.map String.utf8ByteSize).sum + 32 * s.optionalKeys.countP Option.isSome := by
  cases s <;>
    simp only [write, kind, RecordKind.leastWidth, texts, optionalKeys, Record.length_write,
      Registry.length_encode, Vault.length_encode, User.length_encode, Asset.length_encode,
      Server.length_encode, MintRecord.length_encode, List.map_cons, List.map_nil, List.sum_cons,
      List.sum_nil, List.countP_nil] <;>
    omega

theorem space_eq (s : Stored) :
    s.space = s.kind.leastWidth + s.textLimits.sum + 32 * s.optionalKeys.length := by
  cases s <;> rfl

theorem length_texts (s : Stored) : s.texts.length = s.textLimits.length := by
  cases s <;> rfl

theorem sum_le_of_zip {texts : List String} {limits : List Nat}
    (same : texts.length = limits.length)
    (within : ∀ p ∈ texts.zip limits, p.1.utf8ByteSize ≤ p.2) :
    (texts.map String.utf8ByteSize).sum ≤ limits.sum ∧
      ((texts.map String.utf8ByteSize).sum = limits.sum ↔
        ∀ p ∈ texts.zip limits, p.1.utf8ByteSize = p.2) := by
  induction texts generalizing limits with
  | nil =>
    cases limits with
    | nil => exact ⟨Nat.le_refl _, fun _ => nofun, fun _ => rfl⟩
    | cons most limits => cases same
  | cons t texts ih =>
    cases limits with
    | nil => cases same
    | cons most limits =>
      simp only [List.zip_cons_cons, List.forall_mem_cons] at within ⊢
      obtain ⟨le, iff⟩ := ih (Nat.succ.inj same) within.2
      rw [← iff, List.map_cons, List.sum_cons, List.sum_cons]
      omega

/-- A record with texts within their limits fits the account of its kind, and takes all of it just
when nothing can be added. -/
theorem length_write_of_textsWithin (texts : s.TextsWithin) :
    s.write.length ≤ s.space ∧ (s.write.length = s.space ↔ s.Full) := by
  obtain ⟨le, iff⟩ := sum_le_of_zip s.length_texts texts
  have keys : s.optionalKeys.countP Option.isSome ≤ s.optionalKeys.length := List.countP_le_length
  have all := List.countP_eq_length (p := Option.isSome) (l := s.optionalKeys)
  rw [Full, ← iff, ← all, length_write, space_eq]
  omega

theorem textsWithin_of_labelsFit (labels : s.LabelsFit) : s.TextsWithin := by
  cases s with
  | registry r => nofun
  | vault v =>
    simp only [TextsWithin, texts, textLimits, List.zip_cons_cons, List.zip_nil_right,
      List.forall_mem_cons]
    by_cases user : v.kind = .user
    · obtain ⟨id, name⟩ := (if_pos user).mp labels
      rw [id, name]
      exact ⟨Nat.zero_le _, Nat.zero_le _, nofun⟩
    · obtain ⟨id, name⟩ := (if_neg user).mp labels
      exact ⟨id.2, name.2, nofun⟩
  | user u => exact List.forall_mem_singleton.mpr labels.2
  | asset a => exact List.forall_mem_singleton.mpr labels.2
  | server s =>
    exact List.forall_mem_cons.mpr ⟨labels.1.2, List.forall_mem_singleton.mpr labels.2.2⟩
  | mintRecord m =>
    exact List.forall_mem_cons.mpr ⟨labels.1.2, List.forall_mem_cons.mpr
      ⟨labels.2.1.2, List.forall_mem_singleton.mpr labels.2.2⟩⟩

theorem length_write_le (labels : s.LabelsFit) : s.write.length ≤ s.space :=
  (length_write_of_textsWithin (textsWithin_of_labelsFit labels)).1

end Stored
end VaultMarket
