import VaultMarket.Proofs.Reports
set_option autoImplicit false

namespace VaultMarket

namespace Operation

theorem mem_all (o : Operation) : o ∈ all := by
  cases o with
  | openVault kind => cases kind <;> decide
  | handOverVault kind => cases kind <;> decide
  | _ => decide

set_option maxRecDepth 100000 in
theorem ofTag?_tag (o : Operation) : ofTag? o.tag = some o := by
  have found : ∀ o ∈ all, ofTag? o.tag = some o := by decide +kernel
  exact found o o.mem_all

theorem operation_of_decodeArguments {o : Operation} {bs rest : Bytes} {i : Instruction}
    (read : o.decodeArguments bs = some (i, rest)) : i.operation = o := by
  cases o with
  | openVault kind =>
    cases kind with
    | user =>
      cases read
      rfl
    | _ =>
      obtain ⟨q, -, e⟩ := Option.map_eq_some_iff.mp read
      cases e
      rfl
  | createRegistry | handOverRegistry | handOverVault kind | moveHandle =>
    cases read
    rfl
  | _ =>
    obtain ⟨q, -, e⟩ := Option.map_eq_some_iff.mp read
    cases e
    rfl

end Operation

namespace Instruction

/-- Every text and list of the arguments is short enough for its length to be written. -/
def Fits : Instruction → Prop
  | changeServiceSigner what => LawfulWire.Fits what
  | openVault (.server terms) | openVault (.escrow terms) | openVault (.airdrop terms) =>
    LawfulWire.Fits terms
  | createUser username => LawfulWire.Fits username
  | updateProfile profileEffect theme => LawfulWire.Fits (profileEffect, theme)
  | createHandle text => LawfulWire.Fits text
  | createServer name ticker => LawfulWire.Fits (name, ticker)
  | handOverServer next => LawfulWire.Fits next
  | createMint terms => LawfulWire.Fits terms
  | mintTokens recipients amounts => LawfulWire.Fits (recipients, amounts)
  | _ => True

theorem decodeArguments_encodeArguments {i : Instruction} (fits : i.Fits) (rest : Bytes) :
    i.operation.decodeArguments (i.encodeArguments ++ rest) = some (i, rest) := by
  have read {α : Type} [Wire α] [LawfulWire α] {a : α} (fits : LawfulWire.Fits a)
      (f : α → Instruction) :
      (Wire.decode (Wire.encode a ++ rest)).map (fun p => (f p.1, p.2)) = some (f a, rest) := by
    rw [LawfulWire.decode_encode_append a rest fits]
    rfl
  cases i with
  | openVault opening =>
    cases opening with
    | user => rfl
    | server terms => exact read fits fun terms => .openVault (.server terms)
    | escrow terms => exact read fits fun terms => .openVault (.escrow terms)
    | airdrop terms => exact read fits fun terms => .openVault (.airdrop terms)
  | changeServiceSigner what => exact read fits .changeServiceSigner
  | createUser username => exact read fits .createUser
  | updateProfile profileEffect theme => exact read fits fun p => .updateProfile p.1 p.2
  | createHandle text => exact read fits .createHandle
  | createServer name ticker => exact read fits fun p => .createServer p.1 p.2
  | handOverServer next => exact read fits .handOverServer
  | createMint terms => exact read fits .createMint
  | mintTokens recipients amounts => exact read fits fun p => .mintTokens p.1 p.2
  | _ => rfl

end Instruction

namespace Program

theorem operation_encode (i : Instruction) (rest : Bytes) :
    operation (i.encode ++ rest) = .ok i.operation := by
  have tagged : i.operation.tag.length = tagWidth := length_tag _ _
  have head : (i.encode ++ rest).take tagWidth = i.operation.tag := by
    rw [Instruction.encode, List.append_assoc, List.take_left' tagged]
  rw [operation, head, Operation.ofTag?_tag]

/-- What is written for an instruction is read as that instruction, whatever follows. -/
theorem instruction_encode {i : Instruction} (fits : i.Fits) (rest : Bytes) :
    instruction (i.encode ++ rest) = .ok i := by
  have tagged : i.operation.tag.length = tagWidth := length_tag _ _
  have tail : (i.encode ++ rest).drop tagWidth = i.encodeArguments ++ rest := by
    rw [Instruction.encode, List.append_assoc, List.drop_left' tagged]
  refine Except.bind_eq_ok.mpr ⟨i.operation, operation_encode i rest, ?_⟩
  rw [arguments, tail, Instruction.decodeArguments_encodeArguments fits]

theorem operation_of_instruction {data : Bytes} {i : Instruction}
    (h : instruction data = .ok i) : operation data = .ok i.operation := by
  obtain ⟨o, named, read⟩ := Except.bind_eq_ok.mp h
  unfold arguments at read
  split at read
  · rename_i decoded
    cases read
    rw [Operation.operation_of_decodeArguments decoded, named]
  · cases read

end Program

structure AccountField.Filled (field : AccountField) (a : AccountRef) : Prop where
  signed : field.signer = true → a.signer = true
  writable : field.writable = true → a.writable = true

/-- The accounts with these keys come first, in the order of the fields and with the flags that
the fields ask for. -/
def Listed : List AccountField → List Key → List AccountRef → Prop
  | [], [], _ => True
  | field :: fields, key :: keys, a :: accounts =>
    a.key = key ∧ field.Filled a ∧ Listed fields keys accounts
  | _, _, _ => False

section Listings

variable {field : AccountField} {fields : List AccountField} {key : Key} {keys : List Key}
  {accounts : List AccountRef}

theorem listed_cons : Listed (field :: fields) (key :: keys) accounts ↔
    ∃ a rest, accounts = a :: rest ∧ a.key = key ∧ field.Filled a ∧ Listed fields keys rest := by
  cases accounts with
  | nil => exact ⟨nofun, nofun⟩
  | cons a rest =>
    constructor
    · intro listed
      exact ⟨a, rest, rfl, listed⟩
    · rintro ⟨a, rest, same, listed⟩
      cases same
      exact listed

theorem Listed.map {f : AccountRef → AccountRef} (listed : Listed fields keys accounts)
    (keeps : ∀ a ∈ accounts, (f a).key = a.key ∧ (a.signer = true → (f a).signer = true) ∧
      (a.writable = true → (f a).writable = true)) : Listed fields keys (accounts.map f) := by
  induction fields generalizing keys accounts with
  | nil =>
    cases keys with
    | nil => trivial
    | cons key keys => exact listed.elim
  | cons field fields ih =>
    cases keys with
    | nil => cases accounts <;> exact listed.elim
    | cons key keys =>
      obtain ⟨a, rest, rfl, named, filled, listed⟩ := listed_cons.mp listed
      obtain ⟨same, signer, writable⟩ := keeps a List.mem_cons_self
      refine ⟨same.trans named, ?_, ih listed fun b known => keeps b (List.mem_cons_of_mem _ known)⟩
      exact ⟨signer ∘ filled.signed, writable ∘ filled.writable⟩

theorem Listed.merge (listed : Listed fields keys accounts) :
    Listed fields keys (AccountRef.merge accounts) := by
  refine listed.map fun a known => ⟨rfl, fun signed => ?_, fun writable => ?_⟩
  · refine List.any_eq_true.mpr ⟨a, ?_, signed⟩
    exact List.mem_filter.mpr ⟨known, decide_eq_true rfl⟩
  · refine List.any_eq_true.mpr ⟨a, ?_, writable⟩
    exact List.mem_filter.mpr ⟨known, decide_eq_true rfl⟩

end Listings

namespace World

end World
end VaultMarket
