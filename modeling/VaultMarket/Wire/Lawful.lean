import VaultMarket.Wire
set_option autoImplicit false

namespace VaultMarket

/-- A format in which each value that fits has one written form, and reads back. -/
class LawfulWire (α : Type) [Wire α] where
  Fits : α → Prop
  decode_encode_append : ∀ (a : α) (rest : Bytes), Fits a →
    Wire.decode (Wire.encode a ++ rest) = some (a, rest)
  fits_of_decode : ∀ (bs : Bytes) (a : α) (rest : Bytes),
    Wire.decode bs = some (a, rest) → Fits a
  eq_append_of_decode : ∀ (bs : Bytes) (a : α) (rest : Bytes),
    Wire.decode bs = some (a, rest) → bs = Wire.encode a ++ rest

namespace Wire

variable {α β : Type}

theorem takeBytes_append {n : Nat} {b : Bytes} (rest : Bytes) (h : b.length = n) :
    takeBytes n (b ++ rest) = some (b, rest) := by
  subst h
  simp [takeBytes]

theorem takeBytes_eq_some {n : Nat} {bs b rest : Bytes} (h : takeBytes n bs = some (b, rest)) :
    b.length = n ∧ bs = b ++ rest := by
  unfold takeBytes at h
  split at h
  · rename_i enough
    simp only [Option.some.injEq, Prod.mk.injEq] at h
    obtain ⟨rfl, rfl⟩ := h
    exact ⟨List.length_take_of_le enough, (List.take_append_drop n bs).symm⟩
  · cases h

end Wire

namespace Bytes

theorem toString?_ofString (s : String) : (ofString s).toString? = some s := by
  have data : (⟨⟨ofString s⟩⟩ : ByteArray) = s.toByteArray := rfl
  unfold toString? String.fromUTF8?
  rw [data, dif_pos s.isValidUTF8]
  rfl

theorem eq_ofString_of_toString? {bs : Bytes} {s : String} (h : bs.toString? = some s) :
    bs = ofString s := by
  unfold toString? String.fromUTF8? at h
  split at h
  · cases h; rfl
  · cases h

theorem length_ofString (s : String) : (ofString s).length = s.utf8ByteSize := rfl

end Bytes

namespace LawfulWire

variable {α β : Type}

@[reducible] def narrow [Wire β] [LawfulWire β] {view : α → β} {unview? : β → Option α}
    (unview?_view : ∀ a, unview? (view a) = some a)
    (view_of_unview? : ∀ b a, unview? b = some a → view a = b) :
    @LawfulWire α (Wire.narrow view unview?) :=
  let _ := Wire.narrow view unview?
  { Fits := fun a => Fits (view a)
    decode_encode_append := fun a rest h => by
      simp [Wire.encode, Wire.decode, decode_encode_append (view a) rest h, unview?_view]
    fits_of_decode := fun bs a rest h => by
      simp only [Wire.decode, Option.bind_eq_some_iff, Option.map_eq_some_iff] at h
      obtain ⟨⟨b, r⟩, hb, a', ha, e⟩ := h
      cases e
      rw [view_of_unview? b a ha]
      exact fits_of_decode bs b r hb
    eq_append_of_decode := fun bs a rest h => by
      simp only [Wire.decode, Option.bind_eq_some_iff, Option.map_eq_some_iff] at h
      obtain ⟨⟨b, r⟩, hb, a', ha, e⟩ := h
      cases e
      change bs = Wire.encode (view a) ++ r
      rw [view_of_unview? b a ha]
      exact eq_append_of_decode bs b r hb }

@[reducible] def via [Wire β] [LawfulWire β] {view : α → β} {unview : β → α}
    (unview_view : ∀ a, unview (view a) = a) (view_unview : ∀ b, view (unview b) = b) :
    @LawfulWire α (Wire.via view unview) :=
  narrow (fun a => congrArg some (unview_view a))
    (fun b a h => by cases h; exact view_unview b)

instance : LawfulWire Unit where
  Fits _ := True
  decode_encode_append _ _ _ := rfl
  fits_of_decode _ _ _ _ := trivial
  eq_append_of_decode bs _ rest h := by cases h; rfl

instance : LawfulWire UInt8 where
  Fits _ := True
  decode_encode_append _ _ _ := rfl
  fits_of_decode _ _ _ _ := trivial
  eq_append_of_decode bs b rest h := by
    cases bs with
    | nil => cases h
    | cons c cs => cases h; rfl

@[reducible] def unsigned {width : Nat} {toNat : α → Nat} {ofNat : Nat → α}
    (ofNat_toNat : ∀ a, ofNat (toNat a) = a) (toNat_lt : ∀ a, toNat a < Bytes.capacity width)
    (toNat_ofNat : ∀ n, n < Bytes.capacity width → toNat (ofNat n) = n) :
    @LawfulWire α (Wire.unsigned width toNat ofNat) :=
  let _ := Wire.unsigned width toNat ofNat
  { Fits := fun _ => True
    decode_encode_append := fun a rest _ => by
      simp only [Wire.encode, Wire.decode,
        Wire.takeBytes_append rest (Bytes.length_littleEndian width (toNat a)), Option.map_some,
        Bytes.toNat_littleEndian width _ (toNat_lt a), ofNat_toNat]
    fits_of_decode := fun _ _ _ _ => trivial
    eq_append_of_decode := fun bs a rest h => by
      simp only [Wire.decode, Option.map_eq_some_iff] at h
      obtain ⟨⟨b, r⟩, hb, e⟩ := h
      obtain ⟨width_eq, rfl⟩ := Wire.takeBytes_eq_some hb
      cases e
      change b ++ r = Bytes.littleEndian width (toNat (ofNat b.toNat)) ++ r
      have small : b.toNat < Bytes.capacity width := width_eq ▸ Bytes.toNat_lt b
      rw [toNat_ofNat _ small, ← width_eq, Bytes.littleEndian_toNat] }

instance : LawfulWire UInt16 :=
  unsigned (fun _ => UInt16.ofNat_toNat) UInt16.toNat_lt
    (fun _ h => UInt16.toNat_ofNat_of_lt' h)

instance : LawfulWire UInt32 :=
  unsigned (fun _ => UInt32.ofNat_toNat) UInt32.toNat_lt
    (fun _ h => UInt32.toNat_ofNat_of_lt' h)

instance : LawfulWire UInt64 :=
  unsigned (fun _ => UInt64.ofNat_toNat) UInt64.toNat_lt
    (fun _ h => UInt64.toNat_ofNat_of_lt' h)

instance : LawfulWire Int64 := via (fun _ => rfl) (fun _ => rfl)

instance : LawfulWire Key where
  Fits _ := True
  decode_encode_append k rest _ := by
    simp [Wire.encode, Wire.decode, Wire.takeBytes_append rest k.length_eq]
  fits_of_decode _ _ _ _ := trivial
  eq_append_of_decode bs k rest h := by
    simp only [Wire.decode, Option.bind_eq_some_iff, Option.map_eq_some_iff] at h
    obtain ⟨⟨b, r⟩, hb, k', hk, e⟩ := h
    cases e
    obtain ⟨width, rfl⟩ := Wire.takeBytes_eq_some hb
    have same : k = ⟨b, width⟩ := by simpa [Key.ofBytes?, width] using hk.symm
    rw [same]
    rfl

theorem toNat_ofNat_length {n : Nat} (h : n < UInt32.size) : (UInt32.ofNat n).toNat = n :=
  UInt32.toNat_ofNat_of_lt' h

instance : LawfulWire String where
  Fits s := s.utf8ByteSize < UInt32.size
  decode_encode_append s rest h := by
    have length := decode_encode_append (UInt32.ofNat (Bytes.ofString s).length)
      (Bytes.ofString s ++ rest) trivial
    have width : (Bytes.ofString s).length =
        (UInt32.ofNat (Bytes.ofString s).length).toNat := (toNat_ofNat_length h).symm
    change ((Wire.decode (α := UInt32) (_ ++ _ ++ rest)).bind fun p =>
      (Wire.takeBytes p.1.toNat p.2).bind _) = _
    rw [List.append_assoc, length, Option.bind_some, Wire.takeBytes_append rest width]
    simp [Bytes.toString?_ofString]
  fits_of_decode bs s rest h := by
    simp only [Wire.decode, Option.bind_eq_bind, Option.bind_eq_some_iff] at h
    obtain ⟨⟨n, bs₁⟩, _, ⟨b, r⟩, hb, s', hs, e⟩ := h
    cases e
    have text := Bytes.eq_ofString_of_toString? hs
    rw [← Bytes.length_ofString, ← text, (Wire.takeBytes_eq_some hb).1]
    exact n.toNat_lt
  eq_append_of_decode bs s rest h := by
    simp only [Wire.decode, Option.bind_eq_bind, Option.bind_eq_some_iff] at h
    obtain ⟨⟨n, bs₁⟩, hn, ⟨b, r⟩, hb, s', hs, e⟩ := h
    cases e
    obtain ⟨width, rfl⟩ := Wire.takeBytes_eq_some hb
    have text := Bytes.eq_ofString_of_toString? hs
    subst text
    have length : UInt32.ofNat (Bytes.ofString s).length = n := by rw [width, UInt32.ofNat_toNat]
    change bs = Wire.encode (UInt32.ofNat (Bytes.ofString s).length) ++ Bytes.ofString s ++ r
    rw [length, List.append_assoc]
    exact eq_append_of_decode bs n _ hn

instance [Wire α] [LawfulWire α] : LawfulWire (Option α) where
  Fits o := ∀ a, o = some a → Fits a
  decode_encode_append o rest h := by
    cases o with
    | none => rfl
    | some a =>
      change (Wire.decode (Wire.encode a ++ rest)).map _ = _
      rw [decode_encode_append a rest (h a rfl)]
      rfl
  fits_of_decode bs o rest h := by
    simp only [Wire.decode] at h
    split at h
    · cases h; simp
    · rename_i tail
      simp only [Option.map_eq_some_iff] at h
      obtain ⟨⟨a, r⟩, ha, e⟩ := h
      cases e
      intro b same
      cases same
      exact fits_of_decode tail a r ha
    · cases h
  eq_append_of_decode bs o rest h := by
    simp only [Wire.decode] at h
    split at h
    · cases h; rfl
    · rename_i tail
      simp only [Option.map_eq_some_iff] at h
      obtain ⟨⟨a, r⟩, ha, e⟩ := h
      cases e
      rw [eq_append_of_decode tail a r ha]
      rfl
    · cases h

instance [Wire α] [Wire β] [LawfulWire α] [LawfulWire β] : LawfulWire (α × β) where
  Fits p := Fits p.1 ∧ Fits p.2
  decode_encode_append p rest h := by
    simp [Wire.encode, Wire.decode, decode_encode_append _ _ h.1, decode_encode_append _ _ h.2]
  fits_of_decode bs p rest h := by
    simp only [Wire.decode, Option.bind_eq_bind, Option.bind_eq_some_iff] at h
    obtain ⟨⟨a, bs₁⟩, ha, ⟨b, r⟩, hb, e⟩ := h
    cases e
    exact ⟨fits_of_decode _ _ _ ha, fits_of_decode _ _ _ hb⟩
  eq_append_of_decode bs p rest h := by
    simp only [Wire.decode, Option.bind_eq_bind, Option.bind_eq_some_iff] at h
    obtain ⟨⟨a, bs₁⟩, ha, ⟨b, r⟩, hb, e⟩ := h
    cases e
    have first : bs = Wire.encode a ++ bs₁ := eq_append_of_decode bs a bs₁ ha
    have second : bs₁ = Wire.encode b ++ r := eq_append_of_decode bs₁ b r hb
    rw [first, second]
    exact (List.append_assoc _ _ _).symm

section Many

variable [Wire α] [LawfulWire α]

theorem decodeMany_flatMap (as : List α) (rest : Bytes) (h : ∀ a ∈ as, Fits a) :
    Wire.decodeMany as.length (as.flatMap Wire.encode ++ rest) = some (as, rest) := by
  induction as with
  | nil => rfl
  | cons a as ih =>
    have tail := ih fun b hb => h b (List.mem_cons_of_mem a hb)
    have head := decode_encode_append a (as.flatMap Wire.encode ++ rest) (h a List.mem_cons_self)
    simp [Wire.decodeMany, List.append_assoc, head, tail]

theorem decodeMany_eq_some {n : Nat} {bs rest : Bytes} {as : List α}
    (h : Wire.decodeMany n bs = some (as, rest)) :
    as.length = n ∧ (∀ a ∈ as, Fits a) ∧ bs = as.flatMap Wire.encode ++ rest := by
  induction n generalizing bs as with
  | zero => cases h; simp
  | succ n ih =>
    simp only [Wire.decodeMany, Option.bind_eq_bind, Option.bind_eq_some_iff] at h
    obtain ⟨⟨a, bs₁⟩, ha, ⟨tail, r⟩, htail, e⟩ := h
    cases e
    obtain ⟨length, fits, rest_eq⟩ := ih htail
    have first : bs = Wire.encode a ++ bs₁ := eq_append_of_decode bs a bs₁ ha
    have second : bs₁ = tail.flatMap Wire.encode ++ r := rest_eq
    refine ⟨by rw [List.length_cons, length], ?_, ?_⟩
    · intro b hb
      rcases List.mem_cons.mp hb with rfl | hb
      · exact fits_of_decode _ _ _ ha
      · exact fits b hb
    · rw [first, second, List.flatMap_cons, List.append_assoc]

end Many

instance [Wire α] [LawfulWire α] : LawfulWire (List α) where
  Fits as := as.length < UInt32.size ∧ ∀ a ∈ as, Fits a
  decode_encode_append as rest h := by
    have length := decode_encode_append (UInt32.ofNat as.length)
      (as.flatMap Wire.encode ++ rest) trivial
    change ((Wire.decode (α := UInt32) (_ ++ _ ++ rest)).bind fun p =>
      Wire.decodeMany p.1.toNat p.2) = _
    rw [List.append_assoc, length, Option.bind_some, toNat_ofNat_length h.1]
    exact decodeMany_flatMap as rest h.2
  fits_of_decode bs as rest h := by
    simp only [Wire.decode, Option.bind_eq_bind, Option.bind_eq_some_iff] at h
    obtain ⟨⟨n, bs₁⟩, _, many⟩ := h
    obtain ⟨length, fits, _⟩ := decodeMany_eq_some many
    exact ⟨length ▸ n.toNat_lt, fits⟩
  eq_append_of_decode bs as rest h := by
    simp only [Wire.decode, Option.bind_eq_bind, Option.bind_eq_some_iff] at h
    obtain ⟨⟨n, bs₁⟩, hn, many⟩ := h
    obtain ⟨length, _, rest_eq⟩ := decodeMany_eq_some many
    have count : UInt32.ofNat as.length = n := by rw [length, UInt32.ofNat_toNat]
    change bs = Wire.encode (UInt32.ofNat as.length) ++ as.flatMap Wire.encode ++ rest
    rw [count, List.append_assoc, ← rest_eq]
    exact eq_append_of_decode bs n _ hn

end LawfulWire

end VaultMarket
