import VaultMarket.Proofs.Provision
import VaultMarket.Proofs.Seeds
import VaultMarket.Proofs.Widths
set_option autoImplicit false

namespace VaultMarket

def Server.Accepts (name ticker : String) : Prop :=
  LabelWithin name Limits.serverLabel ∧ LabelWithin ticker Limits.ticker

instance (name ticker : String) : Decidable (Server.Accepts name ticker) := by
  unfold Server.Accepts; infer_instance

theorem Server.exists_fresh_iff {authority : Key} {name ticker : String} {bump : UInt8} :
    (∃ s, Server.fresh authority name ticker bump = .ok s) ↔ Server.Accepts name ticker := by
  simp only [Server.fresh_eq_ok]
  constructor
  · rintro ⟨-, name, ticker, -⟩
    exact ⟨labelWithin_of_valid name, labelWithin_of_valid ticker⟩
  · rintro ⟨name, ticker⟩
    exact ⟨_, name.valid, ticker.valid, rfl⟩

/-- An accepted server leaves room in its account for the theme that it does not have yet. -/
theorem Server.length_write_le {authority : Key} {name ticker : String} {bump : UInt8} {s : Server}
    (h : Server.fresh authority name ticker bump = .ok s) :
    (Record.write s).length ≤ Record.space Server := by
  obtain ⟨named, listed, rfl⟩ := Server.fresh_eq_ok.mp h
  exact Stored.length_write_le (s := .server _)
    ⟨labelWithin_of_valid named, labelWithin_of_valid listed⟩

namespace Derivation

variable {d d' : Derivation} {program : Key} {bump : UInt8} {n : Nat}

theorem derive?_congr (fits : d.Fits) (fits' : d'.Fits)
    (same : d.seeds.flatten = d'.seeds.flatten) :
    d.derive? program bump = d'.derive? program bump := by
  have candidate : d.candidate program bump = d'.candidate program bump :=
    Key.ext (congrArg Sha256.hash (preimage_eq_iff.mpr ⟨same, rfl⟩))
  rw [derive?, derive?, if_pos fits, if_pos fits', candidate]

theorem search_congr (fits : d.Fits) (fits' : d'.Fits)
    (same : d.seeds.flatten = d'.seeds.flatten) : d.search program n = d'.search program n := by
  induction n with
  | zero => rfl
  | succ n ih => rw [search, search, derive?_congr fits fits' same, ih]

theorem find_congr (fits : d.Fits) (fits' : d'.Fits)
    (same : d.seeds.flatten = d'.seeds.flatten) : d.find program = d'.find program := by
  rw [find, find, find?, find?, search_congr fits fits' same]

theorem fits_server {name ticker : String} (named : Server.Accepts name ticker) :
    (server name ticker).Fits := by
  have short : name.utf8ByteSize ≤ Limits.seed := named.1.2
  have short' : ticker.utf8ByteSize ≤ Limits.seed := Nat.le_trans named.2.2 (by decide)
  simp [fits_iff, arguments, Bytes.length_ofString, short, short']

theorem flatten_seeds_server_iff {name ticker name' ticker' : String} :
    (server name ticker).seeds.flatten = (server name' ticker').seeds.flatten ↔
      name ++ ticker = name' ++ ticker' := by
  simp only [flatten_seeds, family, arguments, List.flatten_cons, List.flatten_nil, List.append_nil,
    List.append_right_inj]
  rw [← Bytes.ofString_append, ← Bytes.ofString_append]
  exact ⟨Bytes.ofString_injective, congrArg _⟩

/-- Where no hash inputs of the two searches collide, only the joined labels make an address. -/
theorem server_address_eq_iff {name ticker name' ticker' : String} {home home' : DerivedAddress}
    (named : Server.Accepts name ticker) (named' : Server.Accepts name' ticker')
    (free : CollisionFree
      ((server name ticker).tried program 255 ++ (server name' ticker').tried program 255))
    (found : (server name ticker).find program = .ok home)
    (found' : (server name' ticker').find program = .ok home') :
    home.address = home'.address ↔ name ++ ticker = name' ++ ticker' := by
  rw [← flatten_seeds_server_iff]
  constructor
  · intro same
    have derived' := derive?_of_find found'
    rw [← same] at derived'
    exact (free.seeds_eq (List.mem_append_left _ (mem_tried_of_find found))
      (List.mem_append_right _ (mem_tried_of_find found')) (derive?_of_find found) derived').1
  · intro same
    rw [find_congr (fits_server named) (fits_server named') same, found'] at found
    cases found
    rfl

end Derivation

namespace Program

variable {call : Call} {l l' : Ledger} {name ticker name' ticker' : String} {a : CreateServer}

/-- The call lists the accounts for a server that can be created. -/
structure Claimable (call : Call) (name ticker : String) (a : CreateServer) : Prop where
  listed : ∃ rest, CreateServer.load call.ledger call.accounts = .ok (a, rest)
  paying : a.signer.writable = true
  kept : a.server.writable = true
  found : ∃ bump, (Derivation.server name ticker).find Identity.program = .ok ⟨a.server.key, bump⟩
  ready : System.Ready call.ledger a.signer.key a.server.key (Record.space Server)
  named : Server.Accepts name ticker

structure Claimed (call : Call) (name ticker : String) (a : CreateServer) (l' : Ledger) : Prop
    extends Claimable call name ticker a where
  taken : (l'.get a.server.key).owner = Identity.program
  spared : ∀ k, k ≠ a.server.key →
    (l'.get k).owner = (call.ledger.get k).owner ∧ (l'.get k).data = (call.ledger.get k).data
  hosts : call.ledger.SameHosts l'

theorem provide_server_iff {payer key : Key} (owner : Key) :
    (∃ l', System.provide payer key (Record.space Server) owner l = .ok l') ↔
      System.Ready l payer key (Record.space Server) :=
  System.exists_provide_iff (by decide) (by decide)

theorem exists_claimed (h : (createServer call name ticker).Gives l') :
    ∃ a, Claimed call name ticker a l' := by
  obtain ⟨a, rest, listed, l₁, bump, created, paying, s, fresh, stored⟩ := createServer_gives.mp h
  obtain ⟨found, provided, kept⟩ := createRecord_eq_ok.mp created
  have ready := (provide_server_iff _).mp ⟨l₁, provided⟩
  have named := Server.exists_fresh_iff.mp ⟨s, fresh⟩
  have creates := System.provide_creates provided
  obtain ⟨-, same⟩ := store_eq_ok.mp stored
  refine ⟨a, ⟨⟨rest, listed⟩, paying, kept, ⟨bump, found⟩, ready, named⟩, ?_, ?_, ?_⟩
  · rw [same, Ledger.setData, Ledger.get_set_same]
    exact creates.owner_eq
  · intro k other
    rw [store_other stored other]
    exact creates.content k other
  · rw [same]
    exact (System.sameHosts_of_provide provided).trans (Ledger.sameHosts_set rfl)

/-- Everything that a server needs to be created. -/
theorem createServer_succeeds_iff :
    (∃ l', (createServer call name ticker).Gives l') ↔ ∃ a, Claimable call name ticker a := by
  constructor
  · rintro ⟨l', h⟩
    obtain ⟨a, claimed⟩ := exists_claimed h
    exact ⟨a, claimed.toClaimable⟩
  · rintro ⟨a, ⟨rest, listed⟩, paying, kept, ⟨bump, found⟩, ready, named⟩
    obtain ⟨l₁, provided⟩ := (provide_server_iff Identity.program).mpr ready
    obtain ⟨s, fresh⟩ : ∃ s, Server.fresh a.signer.key name ticker bump = .ok s :=
      Server.exists_fresh_iff.mpr named
    have room : (Record.write s).length ≤ (l₁.get a.server.key).data.length := by
      rw [(System.provide_creates provided).data_eq]
      rw [Bytes.zeros, List.length_replicate]
      exact Server.length_write_le fresh
    have created : createRecord Server "server_account" (.server name ticker) a.signer a.server
        call.ledger = .ok (l₁, bump) := createRecord_eq_ok.mpr ⟨found, provided, kept⟩
    exact ⟨_, createServer_gives.mpr
      ⟨a, rest, listed, l₁, bump, created, paying, s, fresh, store_eq_ok.mpr ⟨room, rfl⟩⟩⟩

theorem CreateServer.load_sameHosts {as rest : List AccountRef} (hosts : l.SameHosts l')
    (h : load l as = .ok (a, rest)) : load l' as = .ok (a, rest) := by
  obtain ⟨system, listed, signs, same, runs⟩ := load_eq_ok.mp h
  exact load_eq_ok.mpr ⟨system, listed, signs, same, (hosts _).trans runs⟩

/-- After one server has been created, another one that could have been created as well still can,
unless the joined labels are the same. -/
theorem createServer_after_iff {now now' : Int64} {accounts accounts' : List AccountRef}
    {l₁ : Ledger}
    (free : CollisionFree ((Derivation.server name ticker).tried Identity.program 255 ++
      (Derivation.server name' ticker').tried Identity.program 255))
    (first : (createServer ⟨l, now, accounts⟩ name ticker).Gives l₁)
    (alone : ∃ l', (createServer ⟨l, now', accounts'⟩ name' ticker').Gives l')
    (funded : ∀ payer ∈ accounts'.head?, System.Funded l₁ payer.key (Record.space Server)) :
    (∃ l₂, (createServer ⟨l₁, now', accounts'⟩ name' ticker').Gives l₂) ↔
      name ++ ticker ≠ name' ++ ticker' := by
  obtain ⟨a, claimed⟩ := exists_claimed first
  obtain ⟨a', can⟩ := createServer_succeeds_iff.mp alone
  obtain ⟨bump, found⟩ := claimed.found
  obtain ⟨bump', found'⟩ := can.found
  have home_iff : a.server.key = a'.server.key ↔ name ++ ticker = name' ++ ticker' :=
    Derivation.server_address_eq_iff claimed.named can.named free found found'
  rw [createServer_succeeds_iff]
  constructor
  · rintro ⟨a₂, again⟩ joined
    obtain ⟨bump₂, found₂⟩ := again.found
    have same : a'.server.key = a₂.server.key :=
      congrArg DerivedAddress.address (Except.ok.inj (found'.symm.trans found₂))
    have taken := claimed.taken
    rw [home_iff.mpr joined, same, again.ready.free] at taken
    exact absurd taken (by decide)
  · intro joined
    have other : a'.server.key ≠ a.server.key := fun same => joined (home_iff.mp same.symm)
    obtain ⟨owner_eq, data_eq⟩ := claimed.spared _ other
    obtain ⟨rest, listed⟩ := can.listed
    obtain ⟨system, shape, -⟩ := CreateServer.load_eq_ok.mp listed
    have payer : a'.signer ∈ accounts'.head? := by
      rw [show accounts' = _ from shape]
      rfl
    refine ⟨a', ⟨rest, CreateServer.load_sameHosts claimed.hosts listed⟩, can.paying, can.kept,
      can.found, ?_, can.named⟩
    exact .of_funded (owner_eq.trans can.ready.free) (data_eq.trans can.ready.empty)
      can.ready.apart (funded _ payer)

end Program

/-- Two accepted servers share an address exactly if their joined labels are the same, and just then
the creation of the first keeps the second, which could have been created, from being created. -/
theorem server_labels_clash_iff {name ticker name' ticker' : String}
    (named : Server.Accepts name ticker) (named' : Server.Accepts name' ticker')
    (free : CollisionFree ((Derivation.server name ticker).tried Identity.program 255 ++
      (Derivation.server name' ticker').tried Identity.program 255)) :
    (∀ {home home' : DerivedAddress},
      (Derivation.server name ticker).find Identity.program = .ok home →
      (Derivation.server name' ticker').find Identity.program = .ok home' →
        (home.address = home'.address ↔ name ++ ticker = name' ++ ticker')) ∧
    ∀ {l l₁ : Ledger} {now now' : Int64} {accounts accounts' : List AccountRef},
      (Program.createServer ⟨l, now, accounts⟩ name ticker).Gives l₁ →
      (∃ l', (Program.createServer ⟨l, now', accounts'⟩ name' ticker').Gives l') →
      (∀ payer ∈ accounts'.head?, System.Funded l₁ payer.key (Record.space Server)) →
        ((∃ l₂, (Program.createServer ⟨l₁, now', accounts'⟩ name' ticker').Gives l₂) ↔
          name ++ ticker ≠ name' ++ ticker') := by
  refine ⟨fun found found' => ?_, fun first alone funded => ?_⟩
  · exact Derivation.server_address_eq_iff named named' free found found'
  · exact Program.createServer_after_iff free first alone funded

section Samples
open AccountRef (signing written shown)

theorem Outcome.exists_gives_iff {α : Type} {o : Outcome α} :
    (∃ a, o.Gives a) ↔ o.result.isOk = true := by
  unfold Gives
  cases o.result <;> simp [Except.isOk, Except.toBool]

def Ledger.twoPayers : Ledger :=
  (World.reached [Step.fund (Key.filled 1), Step.fund (Key.filled 2)]).ledger

def Ledger.claim (l : Ledger) (payer : Key) (name ticker : String) : Outcome Ledger :=
  Program.createServer ⟨l, 0, [signing payer, written (Derivation.server name ticker).home,
    shown Identity.systemProgram]⟩ name ticker

def Ledger.oneClaim : Ledger :=
  settle .twoPayers (Ledger.twoPayers.claim (Key.filled 1) "ab" "c").result

theorem Ledger.oneClaim_gives :
    (Ledger.twoPayers.claim (Key.filled 1) "ab" "c").Gives Ledger.oneClaim := by
  have done : (Ledger.twoPayers.claim (Key.filled 1) "ab" "c").result.isOk = true := by
    decide +kernel
  obtain ⟨l', gives⟩ := Outcome.exists_gives_iff.mpr done
  rw [Ledger.oneClaim, Outcome.Gives, show _ = Except.ok l' from gives]
  rfl

theorem System.funded_iff {l : Ledger} {payer : Key} {space : Nat} : Funded l payer space ↔
    (l.get payer).data = [] ∧ rent space ≤ (l.get payer).lamports :=
  ⟨fun h => ⟨h.empty, h.enough⟩, fun h => ⟨h.1, h.2⟩⟩

theorem Ledger.oneClaim_funds :
    System.Funded Ledger.oneClaim (Key.filled 2) (Record.space Server) := by
  rw [System.funded_iff]
  decide +kernel

set_option maxRecDepth 100000 in
theorem server_labels_clash_of_longer_ticker :
    Server.Accepts "ab" "c" ∧ Server.Accepts "a" "bcd" ∧
      CollisionFree ((Derivation.server "ab" "c").tried Identity.program 255 ++
        (Derivation.server "a" "bcd").tried Identity.program 255) ∧
      (Derivation.server "ab" "c").home ≠ (Derivation.server "a" "bcd").home ∧
      (∃ l', (Ledger.twoPayers.claim (Key.filled 2) "a" "bcd").Gives l') ∧
      ∃ l₁, (Ledger.twoPayers.claim (Key.filled 1) "ab" "c").Gives l₁ ∧
        ∃ l₂, (l₁.claim (Key.filled 2) "a" "bcd").Gives l₂ := by
  have named : Server.Accepts "ab" "c" := by decide
  have named' : Server.Accepts "a" "bcd" := by decide
  have free : CollisionFree ((Derivation.server "ab" "c").tried Identity.program 255 ++
      (Derivation.server "a" "bcd").tried Identity.program 255) := by
    decide +kernel
  have clash := server_labels_clash_iff named named' free
  obtain ⟨bump, found⟩ := Derivation.exists_home (d := .server "ab" "c") (by decide +kernel)
  obtain ⟨bump', found'⟩ := Derivation.exists_home (d := .server "a" "bcd") (by decide +kernel)
  have apart : "ab" ++ "c" ≠ "a" ++ "bcd" := by decide
  have alone : ∃ l', (Ledger.twoPayers.claim (Key.filled 2) "a" "bcd").Gives l' := by
    rw [Outcome.exists_gives_iff]
    decide +kernel
  refine ⟨named, named', free, fun same => apart ((clash.1 found found').mp same), alone,
    Ledger.oneClaim, Ledger.oneClaim_gives, ?_⟩
  refine (clash.2 Ledger.oneClaim_gives alone fun payer first => ?_).mpr apart
  cases Option.mem_some_iff.mp first
  exact Ledger.oneClaim_funds

/-- The labels of two servers, cut from one text: either can be created, but not both. -/
theorem server_labels_clash_of_one_text :
    ("ab", "c") ≠ ("a", "bc") ∧ Server.Accepts "ab" "c" ∧ Server.Accepts "a" "bc" ∧
      CollisionFree ((Derivation.server "ab" "c").tried Identity.program 255 ++
        (Derivation.server "a" "bc").tried Identity.program 255) ∧
      (∃ home, (Derivation.server "ab" "c").find Identity.program = .ok home ∧
        (Derivation.server "a" "bc").find Identity.program = .ok home) ∧
      (∃ l', (Ledger.twoPayers.claim (Key.filled 2) "a" "bc").Gives l') ∧
      ∃ l₁, (Ledger.twoPayers.claim (Key.filled 1) "ab" "c").Gives l₁ ∧
        ¬∃ l₂, (l₁.claim (Key.filled 2) "a" "bc").Gives l₂ := by
  refine ⟨by decide, by decide, by decide, by decide +kernel, ?_, ?_, Ledger.oneClaim,
    Ledger.oneClaim_gives, ?_⟩
  · have same : (Derivation.server "ab" "c").find Identity.program =
        (Derivation.server "a" "bc").find Identity.program :=
      Derivation.find_congr (by decide) (by decide)
        (Derivation.flatten_seeds_server_iff.mpr (by decide))
    obtain ⟨bump, found⟩ := Derivation.exists_home (d := .server "ab" "c") (by decide +kernel)
    exact ⟨_, found, same ▸ found⟩
  · rw [Outcome.exists_gives_iff]
    decide +kernel
  · rw [Outcome.exists_gives_iff]
    decide +kernel

end Samples
end VaultMarket
