import VaultMarket.Proofs.Widths
set_option autoImplicit false

namespace VaultMarket

namespace LawfulWire

variable {α : Type} [Wire α] [LawfulWire α] {a b : α} {part rest more : Bytes}

theorem eq_of_append_eq (fits : Fits a) (fits' : Fits b)
    (same : Wire.encode a ++ rest = Wire.encode b ++ more) : a = b ∧ rest = more := by
  have read := decode_encode_append a rest fits
  rw [same, decode_encode_append b more fits'] at read
  cases read
  exact ⟨rfl, rfl⟩

/-- A written value with its end cut off does not read as any value: what it read as would be
written at the front of the whole, and end before it. -/
theorem decode_of_cut (fits : Fits a) (start : part <+: Wire.encode a)
    (cut : part ≠ Wire.encode a) : (Wire.decode part : Option (α × Bytes)) = none := by
  obtain ⟨more, whole⟩ := start
  cases read : (Wire.decode part : Option (α × Bytes)) with
  | none => rfl
  | some p =>
    obtain ⟨b, rest⟩ := p
    have front : part = Wire.encode b ++ rest := eq_append_of_decode part b rest read
    have same : Wire.encode a ++ [] = Wire.encode b ++ (rest ++ more) := by
      rw [List.append_nil, ← whole, front, List.append_assoc]
    obtain ⟨-, nothing⟩ := eq_of_append_eq fits (fits_of_decode part b rest read) same
    have more_nil : more = [] := (List.append_eq_nil_iff.mp nothing.symm).2
    rw [more_nil, List.append_nil] at whole
    exact absurd whole cut

end LawfulWire

namespace Record

variable {α : Type} [Record α] [LawfulWire α] {a : α} {part data : Bytes}

/-- The fault of a record whose end is missing. -/
def cutFault (part : Bytes) : Fault :=
  if part.length < tagWidth then .missingTag else .malformedRecord

theorem read_of_cut (fits : LawfulWire.Fits a) (start : part <+: write a) (cut : part ≠ write a) :
    (read part : Except Fault α) = .error (cutFault part) := by
  unfold read cutFault
  split
  · rfl
  · rename_i long
    have width : (tag α).length = tagWidth := length_tag _ _
    have tagged : tag α <+: part :=
      List.prefix_of_prefix_length_le (List.prefix_append _ _) start (by omega)
    obtain ⟨fields, rfl⟩ := tagged
    have start' : fields <+: Wire.encode a := (List.prefix_append_right_inj (tag α)).mp start
    have cut' : fields ≠ Wire.encode a := fun same => cut (by rw [same, write])
    rw [List.take_left' width, if_neg (fun other => other rfl), readFields,
      List.drop_left' width, LawfulWire.decode_of_cut fits start' cut']

theorem write_isPrefix_of_read (h : read data = .ok a) : write a <+: data := by
  obtain ⟨-, rest, rfl⟩ := eq_write_append_of_read h
  exact List.prefix_append _ _

end Record

def RecordKind.read (data : Bytes) : RecordKind → Except Fault Stored
  | registry => (Record.read data).map .registry
  | vault => (Record.read data).map .vault
  | user => (Record.read data).map .user
  | asset => (Record.read data).map .asset
  | server => (Record.read data).map .server
  | mintRecord => (Record.read data).map .mintRecord

namespace Stored

/-- The length of every text, in bytes, fits in four bytes. -/
def TextsFit (s : Stored) : Prop := ∀ t ∈ s.texts, t.utf8ByteSize < UInt32.size

instance (s : Stored) : Decidable s.TextsFit :=
  inferInstanceAs (Decidable (∀ t ∈ s.texts, t.utf8ByteSize < UInt32.size))

variable {s : Stored} {part data : Bytes}

def Fits : Stored → Prop
  | registry r => LawfulWire.Fits r
  | vault v => LawfulWire.Fits v
  | user u => LawfulWire.Fits u
  | asset a => LawfulWire.Fits a
  | server s => LawfulWire.Fits s
  | mintRecord m => LawfulWire.Fits m

/-- Of all the fields only the texts have values that the format cannot write. -/
theorem fits_iff_textsFit : s.Fits ↔ s.TextsFit := by
  cases s <;> simp [Fits, TextsFit, texts, LawfulWire.Fits]

theorem read_write_append (fits : s.Fits) (rest : Bytes) :
    s.kind.read (s.write ++ rest) = .ok s := by
  cases s <;> exact congrArg (Except.map _) (Record.read_write_append _ rest fits)

theorem read_of_cut (fits : s.Fits) (start : part <+: s.write) (cut : part ≠ s.write) :
    s.kind.read part = .error (Record.cutFault part) := by
  cases s <;> exact congrArg (Except.map _) (Record.read_of_cut fits start cut)

theorem fits_of_readsAs (h : ReadsAs data s) : s.Fits := by
  cases s <;> exact Record.fits_of_read h

theorem write_isPrefix_of_readsAs (h : ReadsAs data s) : s.write <+: data := by
  cases s <;> exact Record.write_isPrefix_of_read h

end Stored

theorem RecordKind.read_eq_ok {kind : RecordKind} {data : Bytes} {s : Stored} :
    kind.read data = .ok s ↔ s.kind = kind ∧ Stored.ReadsAs data s := by
  cases kind <;> cases s <;>
    simp [read, Except.map_eq_ok, Stored.kind, Stored.ReadsAs]

section Code

variable {kind kind' : RecordKind} {s s' : Stored} {data part : Bytes}

theorem RecordKind.eq_of_read (h : kind.read data = .ok s) (h' : kind'.read data = .ok s') :
    kind = kind' ∧ s = s' := by
  obtain ⟨rfl, reads⟩ := RecordKind.read_eq_ok.mp h
  obtain ⟨rfl, reads'⟩ := RecordKind.read_eq_ok.mp h'
  have same : some s = some s' := by
    rw [← Stored.read_of_readsAs reads, Stored.read_of_readsAs reads']
  cases same
  exact ⟨rfl, rfl⟩

theorem Stored.eq_of_write_isPrefix (fits : s.Fits) (fits' : s'.Fits) (front : s.write <+: data)
    (front' : s'.write <+: data) : s = s' := by
  obtain ⟨rest, whole⟩ := front
  obtain ⟨rest', whole'⟩ := front'
  have reads := Stored.read_write_append fits rest
  have reads' := Stored.read_write_append fits' rest'
  rw [whole] at reads
  rw [whole'] at reads'
  exact (RecordKind.eq_of_read reads reads').2

theorem Record.code_cutFault (part : Bytes) :
    (Record.cutFault part).code = if part.length < 8 then 3001 else 3003 := by
  change (if part.length < 8 then Fault.missingTag else Fault.malformedRecord).code = _
  split <;> rfl

/-- What the codec does with the records of all kinds. -/
structure CodecExact : Prop where
  reads_back : ∀ (s : Stored) (rest : Bytes), s.TextsFit → s.kind.read (s.write ++ rest) = .ok s
  refuses_cut : ∀ (s : Stored) (part : Bytes), s.TextsFit → part <+: s.write → part ≠ s.write →
    ∃ fault, s.kind.read part = .error fault ∧
      fault.code = if part.length < 8 then 3001 else 3003
  canonical : ∀ (kind : RecordKind) (data : Bytes) (s : Stored), kind.read data = .ok s →
    s.kind = kind ∧ s.TextsFit ∧ s.write <+: data
  injective : ∀ s s' : Stored, s.TextsFit → s'.TextsFit → s.write = s'.write → s = s'
  prefix_free : ∀ s s' : Stored, s.TextsFit → s'.TextsFit → s.write <+: s'.write → s = s'
  one_reading : ∀ (kind kind' : RecordKind) (data : Bytes) (s s' : Stored),
    kind.read data = .ok s → kind'.read data = .ok s' → kind = kind' ∧ s = s'

theorem codec_exact : CodecExact where
  reads_back s rest texts := Stored.read_write_append (Stored.fits_iff_textsFit.mpr texts) rest
  refuses_cut s part texts start cut :=
    ⟨_, Stored.read_of_cut (Stored.fits_iff_textsFit.mpr texts) start cut,
      Record.code_cutFault part⟩
  canonical kind data s h := by
    obtain ⟨same, reads⟩ := RecordKind.read_eq_ok.mp h
    exact ⟨same, Stored.fits_iff_textsFit.mp (Stored.fits_of_readsAs reads),
      Stored.write_isPrefix_of_readsAs reads⟩
  injective s s' texts texts' same :=
    Stored.eq_of_write_isPrefix (Stored.fits_iff_textsFit.mpr texts)
      (Stored.fits_iff_textsFit.mpr texts') (same ▸ List.prefix_rfl) List.prefix_rfl
  prefix_free s s' texts texts' front :=
    Stored.eq_of_write_isPrefix (Stored.fits_iff_textsFit.mpr texts)
      (Stored.fits_iff_textsFit.mpr texts') front List.prefix_rfl
  one_reading _ _ _ _ _ h h' := RecordKind.eq_of_read h h'

end Code

section Samples

/-- A user with a name of two characters in three bytes, and with a handle. -/
def User.sample : User where
  authority := Key.filled 1
  username := "né"
  handle := some (Key.filled 2)
  profileEffect := none
  theme := none
  vault := Key.filled 3
  bump := 255

theorem sampleUser_cut : ∃ fault,
    RecordKind.user.read ((Stored.user User.sample).write.take 46) = .error fault ∧
      fault.code = 3003 := by
  have texts : (Stored.user User.sample).TextsFit := by decide
  have length : (Stored.user User.sample).write.length = 115 := by decide +kernel
  have width : ((Stored.user User.sample).write.take 46).length = 46 := by
    rw [List.length_take, length]
    rfl
  have cut : (Stored.user User.sample).write.take 46 ≠ (Stored.user User.sample).write := by
    intro whole
    rw [whole, length] at width
    exact absurd width (by decide)
  obtain ⟨fault, refused, code⟩ := codec_exact.refuses_cut _ _ texts (List.take_prefix _ _) cut
  rw [width] at code
  exact ⟨fault, refused, code⟩

end Samples

end VaultMarket
