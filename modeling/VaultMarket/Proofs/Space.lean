import VaultMarket.Proofs.RecordCodec
set_option autoImplicit false

namespace VaultMarket

structure Save where
  field : String
  key : Key
  value : Stored

namespace Save

variable {u : Save} {saves : List Save} {l l' : Ledger} {key : Key} {s : Stored}

def run (l : Ledger) (u : Save) : Except Failure Ledger :=
  match u.value with
  | .registry r => store u.field u.key r l
  | .vault v => store u.field u.key v l
  | .user p => store u.field u.key p l
  | .asset a => store u.field u.key a l
  | .server s => store u.field u.key s l
  | .mintRecord m => store u.field u.key m l

def runAll (l : Ledger) (saves : List Save) : Except Failure Ledger := saves.foldlM run l

/-- The record that was saved last at `key`. -/
def last (saves : List Save) (key : Key) : Option Stored :=
  saves.reverse.findSome? fun u => if u.key = key then some u.value else none

theorem run_eq_ok : run l u = .ok l' ↔ u.value.write.length ≤ (l.get u.key).data.length ∧
    l' = l.setData u.key ((l.get u.key).data.overwrite 0 u.value.write) := by
  obtain ⟨field, key, value⟩ := u
  cases value <;> exact store_eq_ok

theorem last_cons : last (u :: saves) key =
    (last saves key).or (if u.key = key then some u.value else none) := by
  rw [last, List.reverse_cons, List.findSome?_append, List.findSome?_singleton, last]

end Save

section Overwriting

variable {s : Stored} {data : Bytes}

theorem Stored.textLimits_small (s : Stored) : ∀ most ∈ s.textLimits, most < UInt32.size := by
  cases s <;> simp only [textLimits] <;> decide

theorem Stored.TextsWithin.fits (texts : s.TextsWithin) : s.Fits := by
  refine Stored.fits_iff_textsFit.mpr fun t listed => ?_
  obtain ⟨i, bound, rfl⟩ := List.mem_iff_getElem.mp listed
  have bound' : i < s.textLimits.length := s.length_texts ▸ bound
  have short := texts (s.texts[i], s.textLimits[i])
    (List.mem_iff_getElem.mpr ⟨i, by rw [List.length_zip]; omega, List.getElem_zip⟩)
  exact Nat.lt_of_le_of_lt short (s.textLimits_small _ (List.getElem_mem bound'))

theorem Stored.length_overwrite (texts : s.TextsWithin) (room : data.length = s.space) :
    (data.overwrite 0 s.write).length = s.space := by
  have short := (Stored.length_write_of_textsWithin texts).1
  rw [Ledger.length_overwrite_zero (room ▸ short), room]

theorem Stored.read_overwrite (texts : s.TextsWithin) (data : Bytes) :
    s.kind.read (data.overwrite 0 s.write) = .ok s := by
  rw [Record.overwrite_zero]
  exact Stored.read_write_append texts.fits _

end Overwriting

/-- The account at `key` has the space of the record's kind and reads as the record. -/
structure Ledger.Shows (l : Ledger) (key : Key) (s : Stored) : Prop where
  room : (l.get key).data.length = s.space
  reads : s.kind.read (l.get key).data = .ok s

theorem Ledger.Shows.congr {l l' : Ledger} {key : Key} {s : Stored} (shows : l.Shows key s)
    (same : l'.get key = l.get key) : l'.Shows key s :=
  ⟨by rw [same, shows.room], by rw [same, shows.reads]⟩

namespace Save

variable {u : Save} {saves : List Save} {l l' : Ledger} {key : Key} {s : Stored}

/-- The record can be saved: its texts are within their limits and the account is of its kind. -/
structure Ready (l : Ledger) (u : Save) : Prop where
  texts : u.value.TextsWithin
  room : (l.get u.key).data.length = u.value.space

theorem Ready.exists_run (ready : u.Ready l) : ∃ l', run l u = .ok l' ∧ l'.Shows u.key u.value ∧
    ∀ k, k ≠ u.key → l'.get k = l.get k := by
  have short := (Stored.length_write_of_textsWithin ready.texts).1
  refine ⟨_, run_eq_ok.mpr ⟨ready.room ▸ short, rfl⟩, ?_, fun k other => ?_⟩
  · have data : ((l.setData u.key ((l.get u.key).data.overwrite 0 u.value.write)).get u.key).data =
        (l.get u.key).data.overwrite 0 u.value.write := by
      rw [Ledger.setData, Ledger.get_set_same]
    constructor
    · rw [data]
      exact Stored.length_overwrite ready.texts ready.room
    · rw [data]
      exact Stored.read_overwrite ready.texts _
  · exact Ledger.get_set_other _ _ other

theorem Ready.exists_runAll (ready : ∀ u ∈ saves, u.Ready l) :
    ∃ l', runAll l saves = .ok l' ∧
      (∀ key s, last saves key = some s → l'.Shows key s) ∧
      ∀ key, last saves key = none → l'.get key = l.get key := by
  induction saves generalizing l with
  | nil => exact ⟨l, rfl, nofun, fun _ _ => rfl⟩
  | cons u saves ih =>
    obtain ⟨first, rest⟩ := List.forall_mem_cons.mp ready
    obtain ⟨l₁, done, shows, others⟩ := first.exists_run
    have length (k : Key) : (l₁.get k).data.length = (l.get k).data.length := by
      by_cases same : k = u.key
      · rw [same, shows.room, first.room]
      · rw [others k same]
    have ready₁ : ∀ v ∈ saves, v.Ready l₁ := fun v listed =>
      ⟨(rest v listed).texts, (length v.key).trans (rest v listed).room⟩
    obtain ⟨l', finished, lasting, untouched⟩ := ih ready₁
    refine ⟨l', ?_, fun key s h => ?_, fun key h => ?_⟩
    · rw [runAll, List.foldlM_cons, done]
      exact finished
    · rw [last_cons] at h
      cases later : last saves key with
      | some s' =>
        rw [later] at h
        cases h
        exact lasting key _ later
      | none =>
        rw [later, Option.none_or] at h
        split at h
        · rename_i same
          cases h
          subst same
          exact shows.congr (untouched u.key later)
        · cases h
    · rw [last_cons, Option.or_eq_none_iff] at h
      have other : key ≠ u.key := by
        rintro rfl
        rw [if_pos rfl] at h
        exact nomatch h.2
      rw [untouched key h.1, others key other]

end Save

section Full

theorem exists_text (n : Nat) : ∃ t : String, t.utf8ByteSize = n := by
  induction n with
  | zero => exact ⟨"", rfl⟩
  | succ n ih =>
    obtain ⟨t, size⟩ := ih
    refine ⟨t.push 'a', ?_⟩
    rw [String.utf8ByteSize_push, size]
    rfl

theorem Stored.Full.textsWithin {s : Stored} (full : s.Full) : s.TextsWithin :=
  fun p listed => Nat.le_of_eq (full.1 p listed)

theorem RecordKind.exists_full (kind : RecordKind) : ∃ s : Stored, s.kind = kind ∧ s.Full := by
  obtain ⟨ten, size₁⟩ := exists_text 10
  obtain ⟨label, size₂⟩ := exists_text 32
  obtain ⟨name, size₃⟩ := exists_text 64
  obtain ⟨uri, size₄⟩ := exists_text 200
  cases kind with
  | registry => exact ⟨.registry default, rfl, nofun, nofun⟩
  | vault =>
    refine ⟨.vault { (default : Vault) with serverId := label, serverName := name }, rfl, ?_⟩
    simp [Stored.Full, Stored.texts, Stored.textLimits, Stored.optionalKeys, Limits.serverId,
      Limits.serverName, size₂, size₃]
  | user =>
    refine ⟨.user { (default : User) with
      username := label, handle := some Key.zero, profileEffect := some Key.zero
      theme := some Key.zero }, rfl, ?_⟩
    simp [Stored.Full, Stored.texts, Stored.textLimits, Stored.optionalKeys, Limits.username, size₂]
  | asset =>
    refine ⟨.asset { (default : Asset) with text := label }, rfl, ?_⟩
    simp [Stored.Full, Stored.texts, Stored.textLimits, Stored.optionalKeys, Limits.handle, size₂]
  | server =>
    refine ⟨.server { (default : Server) with name := label, ticker := ten, theme := some Key.zero },
      rfl, ?_⟩
    simp [Stored.Full, Stored.texts, Stored.textLimits, Stored.optionalKeys, Limits.serverLabel,
      Limits.ticker, size₁, size₂]
  | mintRecord =>
    refine ⟨.mintRecord { (default : MintRecord) with name := label, symbol := ten, uri }, rfl, ?_⟩
    simp [Stored.Full, Stored.texts, Stored.textLimits, Stored.optionalKeys, Limits.tokenName,
      Limits.tokenSymbol, Limits.tokenUri, size₁, size₂, size₄]

end Full

/-- How the records of all kinds fit their accounts, and what an account shows after any number of
saves. -/
structure SpaceSuffices : Prop where
  bounded : ∀ s : Stored, s.TextsWithin → s.write.length ≤ s.space
  reached_iff : ∀ s : Stored, s.TextsWithin → (s.write.length = s.space ↔ s.Full)
  reached : ∀ kind : RecordKind, ∃ s : Stored, s.kind = kind ∧ s.TextsWithin ∧
    s.write.length = s.space
  overwritten : ∀ (s : Stored) (data : Bytes), s.TextsWithin → data.length = s.space →
    (data.overwrite 0 s.write).length = s.space ∧ s.kind.read (data.overwrite 0 s.write) = .ok s
  saved : ∀ (l : Ledger) (saves : List Save),
    (∀ u ∈ saves, u.value.TextsWithin ∧ (l.get u.key).data.length = u.value.space) →
    ∃ l', Save.runAll l saves = .ok l' ∧
      (∀ key s, Save.last saves key = some s → l'.Shows key s) ∧
      ∀ key, Save.last saves key = none → l'.get key = l.get key

theorem space_suffices : SpaceSuffices where
  bounded s texts := (Stored.length_write_of_textsWithin texts).1
  reached_iff s texts := (Stored.length_write_of_textsWithin texts).2
  reached kind := by
    obtain ⟨s, same, full⟩ := kind.exists_full
    exact ⟨s, same, full.textsWithin,
      (Stored.length_write_of_textsWithin full.textsWithin).2.mpr full⟩
  overwritten s data texts room :=
    ⟨Stored.length_overwrite texts room, Stored.read_overwrite texts data⟩
  saved l saves ready :=
    Save.Ready.exists_runAll fun u listed => ⟨(ready u listed).1, (ready u listed).2⟩

section Samples

/-- A profile account with leftovers in every byte. -/
def Ledger.usedProfile : Ledger :=
  Ledger.genesis.set (Key.filled 9) ⟨1, Identity.program, false, List.replicate 208 255⟩

def Save.offHandle : List Save :=
  [⟨"user_account", Key.filled 9, .user User.sample⟩,
   ⟨"from_user_account", Key.filled 9, .user { User.sample with handle := none }⟩]

theorem space_suffices_of_offHandle :
    ∃ l', Save.runAll Ledger.usedProfile Save.offHandle = .ok l' ∧
      l'.Shows (Key.filled 9) (.user { User.sample with handle := none }) := by
  obtain ⟨l', done, shows, -⟩ :=
    space_suffices.saved Ledger.usedProfile Save.offHandle (by decide +kernel)
  exact ⟨l', done, shows _ _ (by decide +kernel)⟩

end Samples
end VaultMarket
