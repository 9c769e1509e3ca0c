import Mathlib.Algebra.BigOperators.Group.Finset.Basic
import Mathlib.Algebra.GroupWithZero.Nat
import Mathlib.Algebra.Ring.Int.Defs
import VaultMarket.Proofs.Widths
set_option autoImplicit false

namespace VaultMarket
open Function (update)
open LawfulWire (Fits)

section Formats

variable {data : Bytes} {m : Mint} {h : Holding}

theorem Mint.unpack_eq_ok : Mint.unpack data = .ok m ↔
    data.length = Mint.width ∧ (∃ rest, Wire.decode data = some (m, rest)) ∧
      m.initialized = true := by
  by_cases width : data.length = Mint.width
  · cases decoded : (Wire.decode data : Option (Mint × Bytes)) with
    | none => simp [unpack, width, decoded]
    | some p =>
      obtain ⟨n, rest⟩ := p
      by_cases on : n.initialized = true
      · simp only [unpack, width, decoded, on, ne_eq, not_true_eq_false, if_false, if_true,
          Option.some.injEq, Prod.mk.injEq, exists_and_left, true_and]
        change Except.pure n = .ok m ↔ _
        constructor
        · rintro ⟨⟩
          exact ⟨⟨rfl, rest, rfl⟩, on⟩
        · rintro ⟨⟨rfl, -⟩, -⟩
          rfl
      · simp [unpack, width, decoded, on]
        rintro rfl
        exact Bool.eq_false_iff.mpr on
  · simp only [unpack, width, ne_eq, not_false_eq_true, if_true, false_and, iff_false]
    exact nofun

theorem Holding.unpack_eq_ok : Holding.unpack data = .ok h ↔
    data.length = Holding.width ∧ (∃ rest, Wire.decode data = some (h, rest)) ∧
      h.state ≠ .uninitialized := by
  by_cases width : data.length = Holding.width
  · cases decoded : (Wire.decode data : Option (Holding × Bytes)) with
    | none => simp [unpack, width, decoded]
    | some p =>
      obtain ⟨n, rest⟩ := p
      by_cases off : n.state = .uninitialized
      · simp [unpack, width, decoded, off]
        rintro rfl
        exact off
      · simp only [unpack, width, decoded, off, ne_eq, not_true_eq_false, if_false,
          Option.some.injEq, Prod.mk.injEq, exists_and_left, true_and]
        change Except.pure n = .ok h ↔ _
        constructor
        · rintro ⟨⟩
          exact ⟨⟨rfl, rest, rfl⟩, off⟩
        · rintro ⟨⟨rfl, -⟩, -⟩
          rfl
  · simp only [unpack, width, ne_eq, not_false_eq_true, if_true, false_and, iff_false]
    exact nofun

theorem Mint.unpack_encode (on : m.initialized = true) :
    Mint.unpack (Wire.encode m) = .ok m := by
  have fits : Fits m := by simp [Fits]
  have read := LawfulWire.decode_encode_append m [] fits
  rw [List.append_nil] at read
  exact Mint.unpack_eq_ok.mpr ⟨Wire.length_encode_mint m, ⟨[], read⟩, on⟩

theorem Holding.unpack_encode (on : h.state ≠ .uninitialized) :
    Holding.unpack (Wire.encode h) = .ok h := by
  have fits : Fits h := by simp [Fits]
  have read := LawfulWire.decode_encode_append h [] fits
  rw [List.append_nil] at read
  exact Holding.unpack_eq_ok.mpr ⟨Wire.length_encode_holding h, ⟨[], read⟩, on⟩

end Formats

namespace Ledger

section Totals

variable {l l' : Ledger} {f : Account → Nat} {key : Key}

def total (f : Account → Nat) (l : Ledger) : Nat := (l.entries.map fun e => f e.2).sum

theorem lookup_of_mem {entries : List (Key × Account)} {a : Account}
    (once : (entries.map Prod.fst).Nodup) (known : (key, a) ∈ entries) :
    entries.lookup key = some a := by
  induction entries with
  | nil => cases known
  | cons e rest ih =>
    obtain ⟨k, b⟩ := e
    obtain ⟨new, once⟩ := List.nodup_cons.mp once
    rcases List.mem_cons.mp known with same | later
    · cases same
      exact List.lookup_cons_self
    · have other : (key == k) = false := by
        rw [beq_eq_false_iff_ne]
        rintro rfl
        exact new (List.mem_map.mpr ⟨_, later, rfl⟩)
      rw [List.lookup_cons, other]
      exact ih once later

theorem get_of_unknown (unknown : key ∉ l.entries.map Prod.fst) : l.get key = .vacant := by
  have missing : l.entries.lookup key = none := by
    rw [List.lookup_eq_none_iff]
    intro e known
    rw [bne_iff_ne]
    rintro rfl
    exact unknown (List.mem_map_of_mem known)
  rw [get, missing]
  rfl

theorem total_eq_sum (blank : f .vacant = 0) {keys : Finset Key}
    (cover : ∀ k ∈ l.entries.map Prod.fst, k ∈ keys) : l.total f = ∑ k ∈ keys, f (l.get k) := by
  have listed : (l.entries.map Prod.fst).toFinset ⊆ keys :=
    fun k known => cover k (List.mem_toFinset.mp known)
  have unlisted (k : Key) (_ : k ∈ keys) (unknown : k ∉ (l.entries.map Prod.fst).toFinset) :
      f (l.get k) = 0 := by
    rw [get_of_unknown fun known => unknown (List.mem_toFinset.mpr known), blank]
  rw [← Finset.sum_subset listed unlisted, List.sum_toFinset _ l.nodup, List.map_map, total]
  refine congrArg List.sum (List.map_congr_left fun e known => ?_)
  change f e.2 = f (l.get e.1)
  rw [get, lookup_of_mem l.nodup known]
  rfl

theorem total_change (blank : f .vacant = 0)
    (other : ∀ k, k ≠ key → f (l'.get k) = f (l.get k)) :
    l'.total f + f (l.get key) = l.total f + f (l'.get key) := by
  let keys := (key :: (l.entries.map Prod.fst ++ l'.entries.map Prod.fst)).toFinset
  have covered (k : Key) (known : k ∈ l.entries.map Prod.fst) : k ∈ keys :=
    List.mem_toFinset.mpr (List.mem_cons_of_mem _ (List.mem_append_left _ known))
  have covered' (k : Key) (known : k ∈ l'.entries.map Prod.fst) : k ∈ keys :=
    List.mem_toFinset.mpr (List.mem_cons_of_mem _ (List.mem_append_right _ known))
  have here : key ∈ keys := List.mem_toFinset.mpr List.mem_cons_self
  have rest : ∑ k ∈ keys.erase key, f (l'.get k) = ∑ k ∈ keys.erase key, f (l.get k) :=
    Finset.sum_congr rfl fun k known => other k (Finset.ne_of_mem_erase known)
  rw [total_eq_sum blank covered, total_eq_sum blank covered', ← Finset.add_sum_erase _ _ here,
    ← Finset.add_sum_erase _ (fun k => f (l.get k)) here, rest]
  omega

end Totals
end Ledger

/-- What the token program keeps at the account. -/
def Account.token? (a : Account) : Option Bytes :=
  if a.owner = Identity.tokenProgram then some a.data else none

abbrev Tokens := Key → Option Bytes

namespace Token

def mint? (data : Option Bytes) : Option Mint := data.bind fun bytes => (Mint.unpack bytes).toOption

def amount (mint : Key) (data : Option Bytes) : Nat :=
  match data.bind fun bytes => (Holding.unpack bytes).toOption with
  | some holding => if holding.mint = mint then holding.amount.toNat else 0
  | none => 0

variable {mint : Key} {data : Bytes} {m : Mint} {holding : Holding}

theorem mint?_eq_some : mint? (some data) = some m ↔ Mint.unpack data = .ok m := by
  change (Mint.unpack data).toOption = some m ↔ _
  cases Mint.unpack data <;> simp [Except.toOption]

theorem mint?_of_holding (held : Holding.unpack data = .ok holding) : mint? (some data) = none := by
  cases found : mint? (some data) with
  | none => rfl
  | some m =>
    have width := (Mint.unpack_eq_ok.mp (mint?_eq_some.mp found)).1
    rw [(Holding.unpack_eq_ok.mp held).1] at width
    exact absurd width (by decide)

theorem amount_of_holding (held : Holding.unpack data = .ok holding) :
    amount mint (some data) = if holding.mint = mint then holding.amount.toNat else 0 := by
  simp only [amount, Option.bind_some, held, Except.toOption]

theorem amount_of_mint (minted : Mint.unpack data = .ok m) : amount mint (some data) = 0 := by
  cases held : Holding.unpack data with
  | error fault => simp only [amount, Option.bind_some, held, Except.toOption]
  | ok holding =>
    rw [← mint?_eq_some, mint?_of_holding held] at minted
    cases minted

end Token

namespace Ledger

variable {l l₁ l' : Ledger} {key owner k : Key} {space : Nat} {data : Bytes}

def tokens (l : Ledger) : Tokens := fun key => (l.get key).token?

def mint? (l : Ledger) (key : Key) : Option Mint := Token.mint? (l.tokens key)

/-- What all holdings together hold of the mint's token. -/
def held (mint : Key) (l : Ledger) : Nat := l.total fun a => Token.amount mint a.token?

theorem tokens_of_foreign (h : (l.get key).owner ≠ Identity.tokenProgram) :
    l.tokens key = none := if_neg h

theorem tokens_of_owned (h : (l.get key).owner = Identity.tokenProgram) :
    l.tokens key = some (l.get key).data := if_pos h

theorem tokens_set (l : Ledger) (key : Key) (a : Account) :
    (l.set key a).tokens = update l.tokens key a.token? := by
  funext k
  rw [tokens, get_set]
  by_cases same : k = key
  · rw [if_pos same, same, Function.update_self]
  · rw [if_neg same, Function.update_of_ne same, tokens]

theorem tokens_setData (own : (l.get key).owner = Identity.tokenProgram) :
    (l.setData key data).tokens = update l.tokens key (some data) := by
  rw [setData, tokens_set, Account.token?, if_pos own]

theorem owner_setData : ((l.setData key data).get k).owner = (l.get k).owner := by
  by_cases same : k = key
  · rw [same, setData, get_set_same]
  · rw [setData, get_set_other _ _ same]

theorem Creates.tokens_self (h : l.Creates l' key owner space) : l.tokens key = none :=
  tokens_of_foreign (by rw [h.free]; decide)

theorem Creates.tokens_update (h : l.Creates l' key owner space) :
    l'.tokens = update l.tokens key (l'.tokens key) := by
  funext k
  by_cases same : k = key
  · rw [same, Function.update_self]
  · obtain ⟨owner_eq, data_eq⟩ := h.content k same
    rw [Function.update_of_ne same, tokens, tokens, Account.token?, Account.token?, owner_eq,
      data_eq]

theorem Creates.tokens_eq (h : l.Creates l' key owner space)
    (foreign : owner ≠ Identity.tokenProgram) : l'.tokens = l.tokens := by
  rw [h.tokens_update, tokens_of_foreign (h.owner_eq ▸ foreign), ← h.tokens_self,
    Function.update_eq_self]

theorem tokens_of_store {α : Type} [Record α] {field : String} {value : α}
    (h : store field key value l = .ok l') (own : (l.get key).owner = Identity.program) :
    l'.tokens = l.tokens := by
  obtain ⟨-, rfl⟩ := store_eq_ok.mp h
  have foreign : l.tokens key = none := tokens_of_foreign (by rw [own]; decide)
  rw [setData, tokens_set, Account.token?, if_neg (by rw [own]; decide), ← foreign,
    Function.update_eq_self]

theorem owner_of_store {α : Type} [Record α] {field : String} {value : α}
    (h : store field key value l = .ok l') : (l'.get k).owner = (l.get k).owner := by
  obtain ⟨-, rfl⟩ := store_eq_ok.mp h
  exact owner_setData

theorem mint?_congr (same : l'.tokens = l.tokens) : l'.mint? = l.mint? := by
  unfold mint?
  rw [same]

theorem held_update (mint : Key) {data : Option Bytes}
    (changed : l'.tokens = update l.tokens key data) :
    l'.held mint + Token.amount mint (l.tokens key) = l.held mint + Token.amount mint data := by
  have here : (l'.get key).token? = data := by
    change l'.tokens key = data
    rw [changed, Function.update_self]
  rw [← here]
  refine total_change rfl fun k other => congrArg (Token.amount mint) ?_
  change l'.tokens k = l.tokens k
  rw [changed, Function.update_of_ne other]

theorem mint?_of_opened {mint authority : Key} {decimals : UInt8}
    (opened : l'.tokens =
      update l.tokens mint (some (Wire.encode (Mint.fresh authority decimals)))) :
    l'.mint? = update l.mint? mint (some (Mint.fresh authority decimals)) := by
  funext k
  rw [mint?, opened]
  by_cases here : k = mint
  · rw [here, Function.update_self, Function.update_self]
    exact Token.mint?_eq_some.mpr (Mint.unpack_encode rfl)
  · rw [Function.update_of_ne here, Function.update_of_ne here, mint?]

/-- `n` tokens of the mint are issued: its supply and what its holdings hold grow by `n`, and no
other mint and no holding of another mint changes. -/
structure Issued (l l' : Ledger) (mint : Key) (n : Nat) : Prop where
  minted : ∃ m supply, l.mint? mint = some m ∧ l'.mint? mint = some { m with supply } ∧
    supply.toNat = m.supply.toNat + n
  other_mints : ∀ k, k ≠ mint → l'.mint? k = l.mint? k
  credited : l'.held mint = l.held mint + n
  other_holdings : ∀ k, k ≠ mint → l'.held k = l.held k

namespace Issued

variable {mint : Key} {n n' : Nat} {m : Mint}

theorem nothing (minted : l.mint? mint = some m) : l.Issued l mint 0 :=
  ⟨⟨m, m.supply, minted, minted, rfl⟩, fun _ _ => rfl, rfl, fun _ _ => rfl⟩

theorem trans (first : l.Issued l₁ mint n) (second : l₁.Issued l' mint n') :
    l.Issued l' mint (n + n') := by
  obtain ⟨m, supply, before, middle, grown⟩ := first.minted
  obtain ⟨m₁, supply', middle', after, grown'⟩ := second.minted
  rw [middle] at middle'
  cases middle'
  refine ⟨⟨m, supply', before, after, ?_⟩, fun k other => ?_, ?_, fun k other => ?_⟩
  · rw [grown', grown, Nat.add_assoc]
  · rw [second.other_mints k other, first.other_mints k other]
  · rw [second.credited, first.credited, Nat.add_assoc]
  · rw [second.other_holdings k other, first.other_holdings k other]

end Issued
end Ledger

section Issue

theorem toNat_add_of_lt {a b : UInt64} (room : a.toNat + b.toNat < UInt64.size) :
    (a + b).toNat = a.toNat + b.toNat := by
  rw [UInt64.toNat_add, Nat.mod_eq_of_lt room]

variable {l l' : Ledger} {mint target authority k : Key} {amount : UInt64} {m m' : Mint}
  {holding paid : Holding}

namespace Ledger

theorem mint?_setHolding (own : (l.get target).owner = Identity.tokenProgram)
    (held : Holding.unpack (l.get target).data = .ok holding)
    (held' : Holding.unpack (Wire.encode paid) = .ok paid) :
    (l.setData target (Wire.encode paid)).mint? = l.mint? := by
  funext k
  rw [mint?, mint?, tokens_setData own]
  by_cases here : k = target
  · rw [here, Function.update_self, tokens_of_owned own, Token.mint?_of_holding held,
      Token.mint?_of_holding held']
  · rw [Function.update_of_ne here]

theorem held_setHolding (own : (l.get target).owner = Identity.tokenProgram)
    (held : Holding.unpack (l.get target).data = .ok holding)
    (held' : Holding.unpack (Wire.encode paid) = .ok paid) (same : paid.mint = holding.mint) :
    (l.setData target (Wire.encode paid)).held k +
        (if holding.mint = k then holding.amount.toNat else 0) =
      l.held k + (if holding.mint = k then paid.amount.toNat else 0) := by
  have written : (l.setData target (Wire.encode paid)).tokens = _ := tokens_setData own
  have change := held_update k written
  rw [tokens_of_owned own, Token.amount_of_holding held, Token.amount_of_holding held', same]
    at change
  exact change

theorem mint?_setMint (own : (l.get mint).owner = Identity.tokenProgram)
    (minted : Mint.unpack (Wire.encode m') = .ok m') :
    (l.setData mint (Wire.encode m')).mint? = update l.mint? mint (some m') := by
  funext k
  rw [mint?, tokens_setData own]
  by_cases here : k = mint
  · rw [here, Function.update_self, Function.update_self]
    exact Token.mint?_eq_some.mpr minted
  · rw [Function.update_of_ne here, Function.update_of_ne here, mint?]

theorem held_setMint (own : (l.get mint).owner = Identity.tokenProgram)
    (before : Mint.unpack (l.get mint).data = .ok m)
    (minted : Mint.unpack (Wire.encode m') = .ok m') :
    (l.setData mint (Wire.encode m')).held k = l.held k := by
  have written : (l.setData mint (Wire.encode m')).tokens = _ := tokens_setData own
  have change := held_update k written
  rw [tokens_of_owned own, Token.amount_of_mint before, Token.amount_of_mint minted] at change
  exact change

end Ledger

theorem Token.issue_issued (own : (l.get target).owner = Identity.tokenProgram)
    (minted : (l.get mint).owner = Identity.tokenProgram)
    (h : Token.issue mint target authority amount l = .ok l') :
    l.Issued l' mint amount.toNat := by
  obtain ⟨holding, held, -, -, same, m, unpacked, -, -, -, room, room', done⟩ :=
    Token.issue_eq_ok.mp h
  let paid : Holding := { holding with amount := holding.amount + amount }
  let grown : Mint := { m with supply := m.supply + amount }
  have held' : Holding.unpack (Wire.encode paid) = .ok paid :=
    Holding.unpack_encode (Holding.unpack_eq_ok.mp held).2.2
  have unpacked' : Mint.unpack (Wire.encode grown) = .ok grown :=
    Mint.unpack_encode (Mint.unpack_eq_ok.mp unpacked).2.2
  let middle : Ledger := l.setData target (Wire.encode paid)
  change l' = middle.setData mint (Wire.encode grown) at done
  have minted' : (middle.get mint).owner = Identity.tokenProgram :=
    Ledger.owner_setData.trans minted
  have before : l.mint? mint = some m := by
    rw [Ledger.mint?, Ledger.tokens_of_owned minted]
    exact Token.mint?_eq_some.mpr unpacked
  have between : Mint.unpack (middle.get mint).data = .ok m := by
    have still : middle.mint? mint = some m := by
      rw [Ledger.mint?_setHolding own held held', before]
    rw [Ledger.mint?, Ledger.tokens_of_owned minted'] at still
    exact Token.mint?_eq_some.mp still
  have mints : l'.mint? = update l.mint? mint (some grown) := by
    rw [done, Ledger.mint?_setMint minted' unpacked', Ledger.mint?_setHolding own held held']
  have credit (k : Key) : l'.held k + (if mint = k then holding.amount.toNat else 0) =
      l.held k + (if mint = k then paid.amount.toNat else 0) := by
    rw [done, Ledger.held_setMint minted' between unpacked', ← same]
    exact Ledger.held_setHolding own held held' rfl
  refine ⟨⟨m, grown.supply, before, ?_, toNat_add_of_lt room'⟩, fun k other => ?_, ?_,
    fun k other => ?_⟩
  · rw [mints, Function.update_self]
  · rw [mints, Function.update_of_ne other]
  · have raised := credit mint
    have sum : paid.amount.toNat = holding.amount.toNat + amount.toNat := toNat_add_of_lt room
    rw [if_pos rfl, if_pos rfl, sum] at raised
    omega
  · have kept := credit k
    rw [if_neg (Ne.symm other), if_neg (Ne.symm other)] at kept
    exact kept

end Issue
end VaultMarket
