import VaultMarket.Proofs.RegistryControl
set_option autoImplicit false

namespace VaultMarket
open Function (update)

def LabelWithin (label : String) (most : Nat) : Prop :=
  1 ≤ label.utf8ByteSize ∧ label.utf8ByteSize ≤ most

instance (label : String) (most : Nat) : Decidable (LabelWithin label most) := by
  unfold LabelWithin; infer_instance

theorem LabelWithin.of_ne_empty {label : String} {most : Nat} (filled : label ≠ "")
    (short : label.utf8ByteSize ≤ most) : LabelWithin label most := by
  refine ⟨Nat.pos_of_ne_zero fun zero => filled ?_, short⟩
  exact String.utf8ByteSize_eq_zero_iff.mp zero

theorem labelWithin_of_valid {label : String} {most : Nat}
    (h : validateLabel label most = .ok ()) : LabelWithin label most := by
  obtain ⟨filled, short⟩ := validateLabel_eq_ok.mp h
  exact .of_ne_empty filled short

theorem LabelWithin.valid {label : String} {most : Nat} (h : LabelWithin label most) :
    validateLabel label most = .ok () := by
  refine validateLabel_eq_ok.mpr ⟨?_, h.2⟩
  rintro rfl
  exact absurd h.1 (by decide)

namespace Stored

def LabelsFit : Stored → Prop
  | registry _ => True
  | vault v =>
    if v.kind = .user then v.serverId = "" ∧ v.serverName = ""
    else LabelWithin v.serverId Limits.serverId ∧ LabelWithin v.serverName Limits.serverName
  | user u => LabelWithin u.username Limits.username
  | asset a => LabelWithin a.text Limits.handle
  | server s => LabelWithin s.name Limits.serverLabel ∧ LabelWithin s.ticker Limits.ticker
  | mintRecord m => LabelWithin m.name Limits.tokenName ∧ LabelWithin m.symbol Limits.tokenSymbol ∧
      m.uri.utf8ByteSize ≤ Limits.tokenUri

/-- Assets are handles, and the other addresses that a record names were found for its owner. -/
def Refers : Stored → Prop
  | user u => ∃ bump,
      (Derivation.vault .user u.authority).find Identity.program = .ok ⟨u.vault, bump⟩
  | asset a => a.kind = .userHandle
  | mintRecord m => ∃ bump,
      (Derivation.tokenMint m.creator m.nonce).find Identity.program = .ok ⟨m.mint, bump⟩
  | _ => True

/-- The record at `key` is what it says that it is. -/
structure Sound (key : Key) (s : Stored) : Prop where
  found : s.derivation.find Identity.program = .ok ⟨key, s.bump⟩
  labels : s.LabelsFit
  refers : s.Refers

/-- `s'` is `s` with other fields changed than those that its address comes from. -/
structure Follows (s s' : Stored) : Prop where
  derivation : s'.derivation = s.derivation
  bump : s'.bump = s.bump
  labels : s.LabelsFit → s'.LabelsFit
  refers : s.Refers → s'.Refers

theorem Follows.refl (s : Stored) : s.Follows s := ⟨rfl, rfl, id, id⟩

theorem Follows.trans {s s' s'' : Stored} (first : s.Follows s') (second : s'.Follows s'') :
    s.Follows s'' where
  derivation := second.derivation.trans first.derivation
  bump := second.bump.trans first.bump
  labels := second.labels ∘ first.labels
  refers := second.refers ∘ first.refers

theorem Follows.sound {key : Key} {s s' : Stored} (h : s.Follows s') (sound : s.Sound key) :
    s'.Sound key := by
  refine ⟨?_, h.labels sound.labels, h.refers sound.refers⟩
  rw [h.derivation, h.bump]
  exact sound.found

structure Made (before : Records) (i : Instruction) (accounts : List AccountRef) (key : Key)
    (s : Stored) : Prop extends s.Sound key where
  free : before key = none
  searched : s.derivation ∈ i.searched accounts

end Stored

namespace Records

variable {before middle : Records} {i : Instruction} {accounts : List AccountRef} {key k : Key}
  {s s' : Stored}

/-- The record `s` at `key` was there before, with the same address, or it is new. -/
def Origin (before : Records) (i : Instruction) (accounts : List AccountRef) (key : Key)
    (s : Stored) : Prop :=
  (∃ old, before key = some old ∧ old.Follows s) ∨ s.Made before i accounts key

theorem Origin.old (k : Key) (s : Stored) (held : before k = some s) :
    before.Origin i accounts k s :=
  .inl ⟨s, held, .refl s⟩

theorem Origin.update (held : update middle key (some s') k = some s)
    (earlier : ∀ k s, middle k = some s → before.Origin i accounts k s)
    (new : before.Origin i accounts key s') : before.Origin i accounts k s := by
  rcases update_eq_some.mp held with ⟨rfl, rfl⟩ | ⟨-, old⟩
  · exact new
  · exact earlier _ _ old

end Records

open Records (Origin)

section Effects

variable {before after : Records} {now : Int64} {i : Instruction} {accounts : List AccountRef}
  {k : Key} {s : Stored}

theorem Vault.labelsFit_of_fresh {kind : VaultKind} {creator : Key} {terms : Option VaultTerms}
    {now : Int64} {bump : UInt8} {v : Vault} (h : Vault.fresh kind creator terms now bump = .ok v) :
    (Stored.vault v).LabelsFit := by
  obtain ⟨t, settled, rfl⟩ := Vault.fresh_eq_ok.mp h
  rcases Vault.settledTerms_eq_ok.mp settled with ⟨user, rfl⟩ | ⟨other, -, valid⟩
  · exact (if_pos user).mpr ⟨rfl, rfl⟩
  · obtain ⟨id, name, shortId, shortName⟩ := Vault.validate_eq_ok.mp valid
    exact (if_neg other).mpr ⟨.of_ne_empty id shortId, .of_ne_empty name shortName⟩

theorem Effect.record_origin (h : Effect now before i accounts after) (held : after k = some s) :
    before.Origin i accounts k s := by
  have first {d : Derivation} {ds : List Derivation} : d ∈ d :: ds := List.mem_cons_self
  cases h with
  | @createRegistry payer authority registry rest bump _ _ authorised vacancy =>
    refine .update held .old (.inr ⟨⟨?_, trivial, trivial⟩, vacancy.free, ?_⟩)
    · change (Derivation.registry Identity.configAuthority).find Identity.program = _
      rw [← authorised]
      exact vacancy.found
    · change Derivation.registry Identity.configAuthority ∈ [Derivation.registry authority.key]
      rw [authorised]
      exact first
  | handOverRegistry governs =>
    exact .update held .old (.inl ⟨_, governs.stored, rfl, rfl, id, id⟩)
  | changeServiceSigner governs _ change =>
    have bump := (Registry.change_entries change).1
    exact .update held .old (.inl ⟨_, governs.stored, rfl, bump, id, id⟩)
  | openVault _ _ _ vacancy fresh =>
    have labels := Vault.labelsFit_of_fresh fresh
    obtain ⟨terms, -, rfl⟩ := Vault.fresh_eq_ok.mp fresh
    exact .update held .old (.inr ⟨⟨vacancy.found, labels, trivial⟩, vacancy.free, first⟩)
  | handOverVault _ _ _ stored _ handOver =>
    obtain ⟨-, rfl⟩ := Vault.handOver_eq_ok.mp handOver
    exact .update held .old (.inl ⟨_, stored, rfl, rfl, id, id⟩)
  | createUser _ vacancy label found =>
    have label := labelWithin_of_valid label
    exact .update held .old (.inr ⟨⟨vacancy.found, label, ⟨_, found⟩⟩, vacancy.free, first⟩)
  | updateProfile owns => exact .update held .old (.inl ⟨_, owns.stored, rfl, rfl, id, id⟩)
  | createHandle owns vacancy label =>
    refine .update held (fun k s held => ?_) (.inr ⟨⟨vacancy.found, ?_, rfl⟩, vacancy.free, first⟩)
    · exact .update held .old (.inl ⟨_, owns.stored, rfl, rfl, id, id⟩)
    · exact labelWithin_of_valid label
  | moveHandle owns other _ asset =>
    refine .update held (fun k s held => ?_) (.inl ⟨_, asset.stored, rfl, rfl, id, id⟩)
    refine .update held (fun k s held => ?_) (.inl ⟨_, other.stored, rfl, rfl, id, id⟩)
    exact .update held .old (.inl ⟨_, owns.stored, rfl, rfl, id, id⟩)
  | createServer _ vacancy fresh =>
    obtain ⟨name, ticker, rfl⟩ := Server.fresh_eq_ok.mp fresh
    have labels := And.intro (labelWithin_of_valid name) (labelWithin_of_valid ticker)
    exact .update held .old (.inr ⟨⟨vacancy.found, labels, trivial⟩, vacancy.free, first⟩)
  | handOverServer placed => exact .update held .old (.inl ⟨_, placed.stored, rfl, rfl, id, id⟩)
  | createMint _ _ foundMint _ vacancy fresh =>
    obtain ⟨valid, rfl⟩ := MintRecord.fresh_eq_ok.mp fresh
    obtain ⟨name, symbol, uri⟩ := MintRecord.validate_eq_ok.mp valid
    have labels := And.intro (labelWithin_of_valid name)
      (And.intro (labelWithin_of_valid symbol) uri)
    exact .update held .old (.inr ⟨⟨vacancy.found, labels, ⟨_, foundMint⟩⟩, vacancy.free,
      List.mem_cons_of_mem _ first⟩)
  | mintTokens => exact .old k s held

end Effects

/-- Every record is sound, and the input that its address comes from has been hashed. -/
structure RecordTrail (records : Records) (history : List Receipt) : Prop where
  sound : ∀ {k s}, records k = some s → s.Sound k
  met : ∀ {k s}, records k = some s →
    s.derivation.preimage Identity.program s.bump ∈ history.flatMap (·.hashed)

namespace RecordTrail

variable {before after : Records} {history : List Receipt} {now : Int64} {i : Instruction}
  {accounts : List AccountRef}

theorem empty : RecordTrail (fun _ => none) [] := ⟨nofun, nofun⟩

theorem effect (trail : RecordTrail before history) (h : Effect now before i accounts after) :
    RecordTrail after (history ++ [⟨now, i, accounts, i.hashed before accounts⟩]) := by
  refine ⟨fun {k s} held => ?_, fun {k s} held => ?_⟩
  · rcases h.record_origin held with ⟨old, before, follows⟩ | made
    · exact follows.sound (trail.sound before)
    · exact made.toSound
  · rw [List.flatMap_append, List.mem_append, List.flatMap_singleton]
    rcases h.record_origin held with ⟨old, before, follows⟩ | made
    · rw [follows.derivation, follows.bump]
      exact .inl (trail.met before)
    · have tried := Derivation.mem_tried_of_find made.found
      exact .inr (List.mem_append_left _ (List.mem_flatMap.mpr ⟨_, made.searched, tried⟩))

theorem of_honest (steps : List Step) (honest : World.genesis.Honest steps) :
    RecordTrail (World.reached steps).ledger.records (World.genesis.receipts steps) :=
  World.history_induction (P := RecordTrail) empty (fun trail h => trail.effect h) steps honest

end RecordTrail

namespace World

structure Makes (first : List Step) (step : Step) (c : Receipt) (key : Key) (s : Stored) : Prop
    extends s.Made (reached first).ledger.records c.instruction c.accounts key where
  called : (reached first).receipt? step = some c
  effect : Effect c.now (reached first).ledger.records c.instruction c.accounts
    (reached (first ++ [step])).ledger.records
  held : (reached (first ++ [step])).ledger.records key = some s

theorem origin_of_step {first : List Step} {step : Step} {k : Key} {s : Stored}
    (fair : step.Honest (reached first))
    (held : (reached (first ++ [step])).ledger.records k = some s) :
    (∃ old, (reached first).ledger.records k = some old ∧ old.Follows s) ∨
      ∃ c, Makes first step c k s := by
  have whole : (reached (first ++ [step])).ledger = ((reached first).step step).1.ledger :=
    congrArg World.ledger run_concat
  cases called : (reached first).receipt? step with
  | none =>
    have same := records_of_silent fair called
    exact .inl ⟨s, by rw [← same, ← whole, held], .refl s⟩
  | some c =>
    have effect := effect_of_call called
    rw [← whole] at effect
    exact (effect.record_origin held).imp_right fun made => ⟨c, made, called, effect, held⟩

/-- Every record has been made by a step of the run, and only followed since. -/
theorem made_in_run {steps : List Step} {k : Key} {s : Stored} (honest : genesis.Honest steps)
    (held : (reached steps).ledger.records k = some s) : ∃ first step c old,
      first ++ [step] <+: steps ∧ Makes first step c k old ∧ old.Follows s := by
  induction steps using List.reverseRecOn generalizing s with
  | nil =>
    rw [records_start] at held
    cases held
  | append_singleton steps last ih =>
    obtain ⟨earlier, fair⟩ := honest_concat.mp honest
    rcases origin_of_step fair held with ⟨before, held', follows⟩ | ⟨c, makes⟩
    · obtain ⟨first, step, c, old, part, makes, since⟩ := ih earlier held'
      exact ⟨first, step, c, old, part.trans (List.prefix_append _ _), makes, since.trans follows⟩
    · exact ⟨steps, last, c, s, List.prefix_refl _, makes, .refl s⟩

end World
end VaultMarket
