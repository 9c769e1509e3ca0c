import VaultMarket.Instruction
import VaultMarket.Record
import VaultMarket.Token
import VaultMarket.Wire.Lawful
set_option autoImplicit false

namespace VaultMarket

instance : LawfulWire SignerSlots where
  Fits _ := True
  decode_encode_append s rest _ := by
    have many := LawfulWire.decodeMany_flatMap s.keys rest fun _ _ => trivial
    rw [s.length_eq] at many
    change ((Wire.decodeMany Limits.serviceSigners (s.keys.flatMap Wire.encode ++ rest)).bind
      fun p => (SignerSlots.ofKeys? p.1).bind _) = _
    rw [many]
    simp [SignerSlots.ofKeys?, s.length_eq]
  fits_of_decode _ _ _ _ := trivial
  eq_append_of_decode bs s rest h := by
    simp only [Wire.decode, Option.bind_eq_bind, Option.bind_eq_some_iff] at h
    obtain ⟨⟨keys, r⟩, many, s', slots, e⟩ := h
    cases e
    obtain ⟨length, _, rest_eq⟩ := LawfulWire.decodeMany_eq_some many
    simp only [SignerSlots.ofKeys?, dif_pos length, Option.some.injEq] at slots
    rw [← slots]
    exact rest_eq

instance : LawfulWire SignerChange :=
  LawfulWire.narrow (by intro c; cases c <;> rfl) (by
    intro b c h
    unfold SignerChange.ofIndex? at h
    split at h <;> cases h <;> rfl)

instance : LawfulWire VaultKind :=
  LawfulWire.narrow (by intro k; cases k <;> rfl) (by
    intro b k h
    unfold VaultKind.ofIndex? at h
    split at h <;> cases h <;> rfl)

instance : LawfulWire AssetKind :=
  LawfulWire.narrow (by intro k; cases k <;> rfl) (by
    intro b k h
    unfold AssetKind.ofIndex? at h
    split at h <;> cases h <;> rfl)

instance : LawfulWire HoldingState :=
  LawfulWire.narrow (by intro s; cases s <;> rfl) (by
    intro b s h
    unfold HoldingState.ofIndex? at h
    split at h <;> cases h <;> rfl)

instance : LawfulWire Bool :=
  LawfulWire.narrow (by intro b; cases b <;> rfl) (by
    intro n b h
    unfold flagOfIndex? at h
    split at h <;> cases h <;> rfl)

instance : LawfulWire VaultTerms := LawfulWire.via (fun _ => rfl) (fun _ => rfl)
instance : LawfulWire MintTerms := LawfulWire.via (fun _ => rfl) (fun _ => rfl)
instance : LawfulWire Registry := LawfulWire.via (fun _ => rfl) (fun _ => rfl)
instance : LawfulWire Vault := LawfulWire.via (fun _ => rfl) (fun _ => rfl)
instance : LawfulWire User := LawfulWire.via (fun _ => rfl) (fun _ => rfl)
instance : LawfulWire Asset := LawfulWire.via (fun _ => rfl) (fun _ => rfl)
instance : LawfulWire Server := LawfulWire.via (fun _ => rfl) (fun _ => rfl)
instance : LawfulWire MintRecord := LawfulWire.via (fun _ => rfl) (fun _ => rfl)

instance {α : Type} [Wire α] [LawfulWire α] : LawfulWire (Padded α) where
  Fits s := LawfulWire.Fits s.value
  decode_encode_append s rest h := by
    obtain ⟨present, value⟩ := s
    have read := LawfulWire.decode_encode_append value rest h
    cases present <;> simp [Wire.encode, Wire.decode, Padded.encodePresence, Padded.decodePresence, read]
  fits_of_decode bs s rest h := by
    simp only [Wire.decode, Option.bind_eq_bind, Option.bind_eq_some_iff] at h
    obtain ⟨⟨present, bs₁⟩, _, ⟨value, r⟩, hv, e⟩ := h
    cases e
    exact LawfulWire.fits_of_decode bs₁ value r hv
  eq_append_of_decode bs s rest h := by
    simp only [Wire.decode, Option.bind_eq_bind, Option.bind_eq_some_iff] at h
    obtain ⟨⟨present, bs₁⟩, hp, ⟨value, r⟩, hv, e⟩ := h
    cases e
    have tail : bs₁ = Wire.encode value ++ r := LawfulWire.eq_append_of_decode bs₁ value r hv
    unfold Padded.decodePresence at hp
    split at hp <;> cases hp <;> simp [Wire.encode, Padded.encodePresence, tail]

instance : LawfulWire Mint := LawfulWire.via (fun _ => rfl) (fun _ => rfl)
instance : LawfulWire Holding := LawfulWire.via (fun _ => rfl) (fun _ => rfl)

theorem Record.read_write_append {α : Type} [Record α] [LawfulWire α] (a : α) (rest : Bytes)
    (h : LawfulWire.Fits a) : Record.read (Record.write a ++ rest) = .ok a := by
  have width : (Record.tag α).length = tagWidth := length_tag _ _
  have head : (Record.write a ++ rest).take tagWidth = Record.tag α := by
    rw [Record.write, List.append_assoc, List.take_left' width]
  have tail : (Record.write a ++ rest).drop tagWidth = Wire.encode a ++ rest := by
    rw [Record.write, List.append_assoc, List.drop_left' width]
  have long : ¬(Record.write a ++ rest).length < tagWidth := by
    simp only [Record.write, List.length_append, width]
    omega
  simp only [Record.read, Record.readFields, if_neg long, head, tail, ne_eq, not_true_eq_false,
    if_false, LawfulWire.decode_encode_append a rest h]

end VaultMarket
