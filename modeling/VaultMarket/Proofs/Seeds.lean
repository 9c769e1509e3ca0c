import VaultMarket.Identity
import VaultMarket.Proofs.Addresses
set_option autoImplicit false

/-!
# What the seeds of an address tell apart

The seeds of an address are hashed as one text, with nothing between them. The first seed names the
family, and most families can be told apart by it. Two first seeds start another one: `user` and
`server` start the names of two kinds of vaults. A user name is too short to go on to a vault, but
the two labels of a server are not, and the labels of two servers can meet in one text.
-/

namespace VaultMarket

namespace Bytes

theorem ofString_append (s t : String) : ofString (s ++ t) = ofString s ++ ofString t := by
  simp [ofString]

theorem ofString_injective {s t : String} (h : ofString s = ofString t) : s = t := by
  have text := congrArg toString? h
  rw [toString?_ofString, toString?_ofString] at text
  exact Option.some.inj text

theorem littleEndian_injective {width n m : Nat} (hn : n < capacity width)
    (hm : m < capacity width) (h : littleEndian width n = littleEndian width m) : n = m := by
  rw [← toNat_littleEndian width n hn, h, toNat_littleEndian width m hm]

end Bytes

inductive Family where
  | registry
  | vault (kind : VaultKind)
  | mintAuthority
  | tokenMint
  | mintRecord
  | user
  | handle
  | server
deriving DecidableEq

namespace Family

def all : List Family :=
  [registry] ++ VaultKind.all.map vault ++
    [mintAuthority, tokenMint, mintRecord, user, handle, server]

theorem mem_all (f : Family) : f ∈ all := by
  cases f with
  | vault kind => cases kind <;> decide
  | _ => decide

def label : Family → String
  | registry => "vault-config"
  | vault kind => kind.seed
  | mintAuthority => "mint-authority"
  | tokenMint => "token-mint"
  | mintRecord => "mint-record"
  | user => "user"
  | handle => "handle"
  | server => "server"

/-- Two first seeds start another one, and no others do. -/
theorem label_starts : ∀ f ∈ all, ∀ f' ∈ all,
    Bytes.ofString f.label <+: Bytes.ofString f'.label →
      f = f' ∨ f = user ∧ f' = vault .user ∨ f = server ∧ f' = vault .server := by
  decide +kernel

theorem label_short : ∀ f ∈ all, (Bytes.ofString f.label).length ≤ Limits.seed := by
  decide +kernel

end Family

namespace Derivation

variable {d d' : Derivation} {program : Key} {bump bump' : UInt8}

def family : Derivation → Family
  | registry _ => .registry
  | vault kind _ => .vault kind
  | mintAuthority => .mintAuthority
  | tokenMint _ _ => .tokenMint
  | mintRecord _ => .mintRecord
  | user _ => .user
  | handle _ => .handle
  | server _ _ => .server

theorem label_eq_label_family (d : Derivation) : d.label = d.family.label := by
  cases d <;> rfl

theorem flatten_seeds (d : Derivation) :
    d.seeds.flatten = Bytes.ofString d.family.label ++ d.arguments.flatten := by
  rw [seeds, List.flatten_cons, label_eq_label_family]

theorem fits_iff : d.Fits ↔ ∀ s ∈ d.arguments, s.length ≤ Limits.seed := by
  have short := Family.label_short d.family d.family.mem_all
  simp [Fits, seeds, label_eq_label_family, short]

theorem fits_user {username : String} :
    (user username).Fits ↔ username.utf8ByteSize ≤ Limits.seed := by
  simp [fits_iff, arguments, Bytes.length_ofString]

/-- Derivations whose seeds are the same text although their arguments may differ. -/
inductive Clash : Derivation → Derivation → Prop where
  /-- The labels of two servers, cut at different places. -/
  | servers {name ticker name' ticker' : String} (joined : name ++ ticker = name' ++ ticker') :
      Clash (server name ticker) (server name' ticker')
  /-- The labels of a server go on to the name of a vault and a key. -/
  | vaultServer {creator : Key} {name ticker : String}
      (joined : Bytes.ofString (name ++ ticker) = Bytes.ofString "-vault" ++ creator.bytes) :
      Clash (vault .server creator) (server name ticker)
  | serverVault {name ticker : String} {creator : Key}
      (joined : Bytes.ofString (name ++ ticker) = Bytes.ofString "-vault" ++ creator.bytes) :
      Clash (server name ticker) (vault .server creator)

theorem Clash.symm (h : d.Clash d') : d'.Clash d := by
  cases h with
  | servers joined => exact .servers joined.symm
  | vaultServer joined => exact .serverVault joined
  | serverVault joined => exact .vaultServer joined

theorem vaultSeed_eq : Bytes.ofString VaultKind.server.seed =
    Bytes.ofString "server" ++ Bytes.ofString "-vault" := by
  decide +kernel

theorem Clash.flatten_seeds_eq (h : d.Clash d') : d.seeds.flatten = d'.seeds.flatten := by
  cases h with
  | servers joined =>
    simp [flatten_seeds, family, arguments, ← Bytes.ofString_append, joined]
  | vaultServer joined =>
    simp [flatten_seeds, family, arguments, Family.label, vaultSeed_eq, ← joined,
      Bytes.ofString_append]
  | serverVault joined =>
    simp [flatten_seeds, family, arguments, Family.label, vaultSeed_eq, ← joined,
      Bytes.ofString_append]

/-- Within a family the arguments are one text, which only for servers can be cut in two ways. -/
theorem eq_or_clash_of_family (same : d.family = d'.family)
    (h : d.arguments.flatten = d'.arguments.flatten) : d = d' ∨ d.Clash d' := by
  cases d <;> cases d' <;> cases same <;>
    simp only [arguments, List.flatten_cons, List.flatten_nil, List.append_nil] at h
  case registry.registry.refl a a' => exact .inl (congrArg registry (Key.ext h))
  case vault.vault.refl kind c c' => exact .inl (congrArg (vault kind) (Key.ext h))
  case mintAuthority.mintAuthority.refl => exact .inl rfl
  case tokenMint.tokenMint.refl p n p' n' =>
    obtain ⟨payer, nonce⟩ := List.append_inj h (by rw [p.length_eq, p'.length_eq])
    have nonce := Bytes.littleEndian_injective n.toNat_lt n'.toNat_lt (List.reverse_inj.mp nonce)
    rw [Key.ext payer, UInt16.toNat_inj.mp nonce]
    exact .inl rfl
  case mintRecord.mintRecord.refl m m' => exact .inl (congrArg mintRecord (Key.ext h))
  case user.user.refl u u' => exact .inl (congrArg user (Bytes.ofString_injective h))
  case handle.handle.refl t t' => exact .inl (congrArg handle (Bytes.ofString_injective h))
  case server.server.refl n t n' t' =>
    rw [← Bytes.ofString_append, ← Bytes.ofString_append] at h
    exact .inr (.servers (Bytes.ofString_injective h))

/-- A user name is too short for the rest of the name of a vault and a key. -/
theorem user_vault_apart {username : String} {creator : Key} (fits : (user username).Fits) :
    (user username).seeds.flatten ≠ (vault .user creator).seeds.flatten := by
  intro h
  have short : username.utf8ByteSize ≤ 32 := fits_user.mp fits
  have widths := congrArg List.length h
  have first : (Bytes.ofString (Family.label .user)).length = 4 := by decide
  have second : (Bytes.ofString (Family.label (.vault .user))).length = 10 := by decide
  simp only [flatten_seeds, family, arguments, List.length_append, List.flatten_cons,
    List.flatten_nil, List.append_nil, Bytes.length_ofString username, creator.length_eq, first,
    second] at widths
  omega

theorem eq_or_clash_of_start (fits : d.Fits) (h : d.seeds.flatten = d'.seeds.flatten)
    (first : Bytes.ofString d.family.label <+: Bytes.ofString d'.family.label) :
    d = d' ∨ d.Clash d' := by
  rcases Family.label_starts _ d.family.mem_all _ d'.family.mem_all first with
    same | ⟨short, long⟩ | ⟨short, long⟩
  · rw [flatten_seeds, flatten_seeds, same] at h
    exact eq_or_clash_of_family same (List.append_cancel_left h)
  · cases d <;> cases short
    cases d' <;> cases long
    exact absurd h (user_vault_apart fits)
  · cases d <;> cases short
    cases d' <;> cases long
    rename_i name ticker creator
    refine .inr (.serverVault ?_)
    simp only [flatten_seeds, family, arguments, Family.label, vaultSeed_eq, List.append_assoc,
      List.flatten_cons, List.flatten_nil, List.append_nil] at h
    rw [Bytes.ofString_append]
    exact List.append_cancel_left h

theorem flatten_seeds_eq_iff (fits : d.Fits) (fits' : d'.Fits) :
    d.seeds.flatten = d'.seeds.flatten ↔ d = d' ∨ d.Clash d' := by
  constructor
  · intro h
    have left : Bytes.ofString d.family.label <+: d.seeds.flatten := by
      rw [flatten_seeds]
      exact List.prefix_append _ _
    have right : Bytes.ofString d'.family.label <+: d.seeds.flatten := by
      rw [h, flatten_seeds]
      exact List.prefix_append _ _
    rcases List.prefix_or_prefix_of_prefix left right with first | first
    · exact eq_or_clash_of_start fits h first
    · exact (eq_or_clash_of_start fits' h.symm first).imp Eq.symm Clash.symm
  · rintro (rfl | clash)
    · rfl
    · exact clash.flatten_seeds_eq

/-- The complete list of equal hash inputs: equal bumps, and equal derivations or a clash. -/
theorem same_preimage_iff (d d' : Derivation) (program : Key) (bump bump' : UInt8) (fits : d.Fits)
    (fits' : d'.Fits) : d.preimage program bump = d'.preimage program bump' ↔
      bump = bump' ∧ (d = d' ∨ d.Clash d') := by
  rw [preimage_eq_iff, flatten_seeds_eq_iff fits fits']
  exact and_comm

section Samples

def sampleKey : Key := ⟨List.replicate 32 97, List.length_replicate⟩

theorem same_preimage_of_spelled_vault :
    (vault .server sampleKey).Fits ∧
      (server "-vaultaaaaaaaaaaaaaaaaaaaaaaaaaa" "aaaaaa").Fits ∧
      (vault .server sampleKey).preimage Identity.program 255 =
        (server "-vaultaaaaaaaaaaaaaaaaaaaaaaaaaa" "aaaaaa").preimage Identity.program 255 := by
  have fits : (vault .server sampleKey).Fits := by decide
  have fits' : (server "-vaultaaaaaaaaaaaaaaaaaaaaaaaaaa" "aaaaaa").Fits := by decide
  have joined : Bytes.ofString ("-vaultaaaaaaaaaaaaaaaaaaaaaaaaaa" ++ "aaaaaa") =
      Bytes.ofString "-vault" ++ sampleKey.bytes := by decide
  exact ⟨fits, fits', (same_preimage_iff _ _ Identity.program 255 255 fits fits').mpr
    ⟨rfl, .inr (.vaultServer joined)⟩⟩

end Samples
end Derivation
end VaultMarket
