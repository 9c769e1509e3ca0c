import VaultMarket.Proofs.RecordCodec
import VaultMarket.Proofs.Requests
set_option autoImplicit false

namespace VaultMarket
open LawfulWire (Fits)

namespace Operation

variable {o : Operation} {bs rest : Bytes} {i : Instruction}

theorem tag_of_ofTag? (found : ofTag? bs = some o) : o.tag = bs := by
  obtain ⟨before, after, listed, -⟩ := List.lookup_eq_some_iff.mp found
  have known : (bs, o) ∈ byTag := by
    rw [listed]
    exact List.mem_append_right _ List.mem_cons_self
  obtain ⟨o', -, same⟩ := List.mem_map.mp known
  cases same
  rfl

theorem eq_append_of_decodeArguments (read : o.decodeArguments bs = some (i, rest)) :
    i.Fits ∧ bs = i.encodeArguments ++ rest := by
  have back {α : Type} [Wire α] [LawfulWire α] {f : α × Bytes → Instruction × Bytes}
      (read : (Wire.decode bs).map f = some (i, rest)) :
      ∃ a tail, f (a, tail) = (i, rest) ∧ Fits a ∧ bs = Wire.encode a ++ tail := by
    obtain ⟨⟨a, tail⟩, decoded, same⟩ := Option.map_eq_some_iff.mp read
    exact ⟨a, tail, same, LawfulWire.fits_of_decode bs a tail decoded,
      LawfulWire.eq_append_of_decode bs a tail decoded⟩
  cases o with
  | openVault kind =>
    cases kind with
    | user =>
      cases read
      exact ⟨trivial, rfl⟩
    | _ =>
      obtain ⟨terms, tail, same, written⟩ := back read
      cases same
      exact written
  | createRegistry | handOverRegistry | handOverVault kind | moveHandle =>
    cases read
    exact ⟨trivial, rfl⟩
  | _ =>
    obtain ⟨a, tail, same, written⟩ := back read
    cases same
    exact written

end Operation

namespace Instruction

variable {i : Instruction} {part : Bytes}

theorem decodeArguments_of_cut (fits : i.Fits) (start : part <+: i.encodeArguments)
    (cut : part ≠ i.encodeArguments) : i.operation.decodeArguments part = none := by
  have missing {α : Type} [Wire α] [LawfulWire α] {a : α} (fits : LawfulWire.Fits a)
      (start : part <+: Wire.encode a) (cut : part ≠ Wire.encode a)
      (f : α × Bytes → Instruction × Bytes) : (Wire.decode part).map f = none := by
    rw [LawfulWire.decode_of_cut fits start cut]
    rfl
  cases i with
  | openVault opening =>
    cases opening with
    | user => exact absurd (List.prefix_nil.mp start) cut
    | _ => exact missing fits start cut _
  | createRegistry | handOverRegistry | handOverVault kind | moveHandle =>
    exact absurd (List.prefix_nil.mp start) cut
  | _ => exact missing fits start cut _

end Instruction

namespace Outcome

variable {α β γ : Type}

theorem bind_assoc (o : Outcome α) (f : α → Outcome β) (g : β → Outcome γ) :
    o >>= f >>= g = o >>= fun a => f a >>= g := by
  change (o.andThen f).andThen g = o.andThen fun a => (f a).andThen g
  obtain ⟨log, result⟩ := o
  cases result with
  | error failure => rfl
  | ok a =>
    simp only [andThen]
    cases (f a).result <;> simp only [List.append_assoc]

theorem lift_ok_bind (a : α) (f : α → Outcome β) :
    (liftM (.ok a : Except Failure α) : Outcome α) >>= f = f a := rfl

theorem lift_error_bind (failure : Failure) (f : α → Outcome β) :
    (liftM (.error failure : Except Failure α) : Outcome α) >>= f = ⟨[], .error failure⟩ := rfl

end Outcome

namespace Program

variable {key : Key} {data part : Bytes} {call : Call} {i : Instruction}

/-- What the program does before it looks at any account. -/
def dispatch (key : Key) (data : Bytes) : Outcome Instruction := do
  require (key = Identity.program) (.unattributed .foreignProgram)
  let operation ← operation data
  Outcome.start operation.title
  arguments operation data

theorem execute_eq_dispatch (key : Key) (data : Bytes) (call : Call) :
    execute key data call = dispatch key data >>= perform call := by
  simp only [dispatch, Outcome.bind_assoc]
  rfl

theorem dispatch_gives : (dispatch key data).Gives i ↔
    key = Identity.program ∧ instruction data = .ok i := by
  simp only [dispatch, instruction, Outcome.gives_bind, Outcome.gives_lift, Outcome.gives_start,
    Except.bind_eq_ok, exists_unit, require_eq_ok, true_and]

theorem dispatch_of_named {o : Operation} (named : operation data = .ok o) :
    dispatch Identity.program data = ⟨[.started o.title], arguments o data⟩ := by
  rw [dispatch, require_of rfl, Outcome.lift_ok_bind, named, Outcome.lift_ok_bind]
  rfl

theorem dispatch_of_unnamed {failure : Failure} (unnamed : operation data = .error failure) :
    dispatch Identity.program data = ⟨[], .error failure⟩ := by
  rw [dispatch, require_of rfl, Outcome.lift_ok_bind, unnamed, Outcome.lift_error_bind]

theorem dispatch_encode (fits : i.Fits) (rest : Bytes) :
    dispatch Identity.program (i.encode ++ rest) = ⟨[.started i.operation.title], .ok i⟩ := by
  have named := operation_encode i rest
  obtain ⟨o, named', read⟩ := Except.bind_eq_ok.mp (instruction_encode fits rest)
  rw [named] at named'
  cases named'
  rw [dispatch_of_named named, read]

theorem operation_of_short (short : data.length < tagWidth) :
    operation data = .error (.unattributed .unknownInstruction) := by
  have whole : data.take tagWidth = data := List.take_of_length_le (Nat.le_of_lt short)
  have untagged : Operation.ofTag? data = none := by
    cases found : Operation.ofTag? data with
    | none => rfl
    | some o =>
      have width : o.tag.length = tagWidth := length_tag _ _
      rw [Operation.tag_of_ofTag? found] at width
      exact absurd width (Nat.ne_of_lt short)
  have unmarked : data ≠ eventMarker := by
    rintro rfl
    exact absurd short (by decide)
  rw [operation, whole, untagged]
  exact if_neg unmarked

/-- Data that is read as an instruction starts with its written form. -/
theorem eq_append_of_instruction (read : instruction data = .ok i) :
    i.Fits ∧ ∃ rest, data = i.encode ++ rest := by
  obtain ⟨o, named, read⟩ := Except.bind_eq_ok.mp read
  have tagged : o.tag = data.take tagWidth := by
    unfold operation at named
    split at named
    · rename_i found
      cases named
      exact Operation.tag_of_ofTag? found
    · split at named <;> cases named
  unfold arguments at read
  split at read
  · rename_i rest decoded
    cases read
    obtain ⟨fits, tail⟩ := Operation.eq_append_of_decodeArguments decoded
    refine ⟨fits, rest, ?_⟩
    rw [Instruction.encode, Operation.operation_of_decodeArguments decoded, List.append_assoc,
      ← tail, tagged, List.take_append_drop]
  · cases read

/-- Data that ends within the arguments still names its operation. -/
theorem dispatch_of_cut (fits : i.Fits) (start : part <+: i.encode) (cut : part ≠ i.encode)
    (tagged : tagWidth ≤ part.length) : dispatch Identity.program part =
      ⟨[.started i.operation.title], .error (.unattributed .malformedArguments)⟩ := by
  have width : i.operation.tag.length = tagWidth := length_tag _ _
  have front : i.operation.tag <+: part :=
    List.prefix_of_prefix_length_le (List.prefix_append _ _) start (width ▸ tagged)
  obtain ⟨tail, rfl⟩ := front
  have start' : tail <+: i.encodeArguments := (List.prefix_append_right_inj _).mp start
  have cut' : tail ≠ i.encodeArguments := fun same => cut (by rw [same, Instruction.encode])
  have named : operation (i.operation.tag ++ tail) = .ok i.operation := by
    rw [operation, List.take_left' width, Operation.ofTag?_tag]
  rw [dispatch_of_named named, arguments, List.drop_left' width,
    Instruction.decodeArguments_of_cut fits start' cut']

theorem dispatch_of_short (short : data.length < tagWidth) : dispatch Identity.program data =
    ⟨[], .error (.unattributed .unknownInstruction)⟩ :=
  dispatch_of_unnamed (operation_of_short short)

end Program

theorem Ledger.changes_self (accounts : List AccountRef) (l : Ledger) :
    Ledger.changes accounts l l = [] := by
  simp [changes]

namespace Failure

def code? : Failure → Option Nat
  | refused fault _ _ => some fault.code
  | host (.custom code) _ => some code
  | _ => none

end Failure

def Answer.FailsWith (code : Nat) : Answer → Prop
  | done => False
  | called outcome changed =>
    (∃ failure, outcome.result = .error failure ∧ failure.code? = some code) ∧ changed = []

namespace World

variable {w : World} {key : Key} {data : Bytes}

theorem answerCall_of_undispatched {log : List LogEntry} {failure : Failure}
    (undispatched : Program.dispatch key data = ⟨log, .error failure⟩)
    (accounts : List AccountRef) :
    w.answerCall key data accounts = (w, .called ⟨log, .error failure⟩ []) := by
  have outcome : w.call key data accounts = ⟨log, .error failure⟩ := by
    rw [call, Program.execute_eq_dispatch, undispatched]
    rfl
  simp only [answerCall, outcome, after, settle, Ledger.changes_self]

theorem failsWith_of_undispatched {log : List LogEntry} {failure : Failure} {code : Nat}
    (undispatched : Program.dispatch key data = ⟨log, .error failure⟩)
    (coded : failure.code? = some code) (accounts : List AccountRef) :
    (w.answerCall key data accounts).1 = w ∧
      (w.answerCall key data accounts).2.FailsWith code := by
  rw [answerCall_of_undispatched undispatched accounts]
  exact ⟨rfl, ⟨failure, rfl, coded⟩, rfl⟩

theorem call_encode {i : Instruction} (fits : i.Fits) (rest : Bytes)
    (accounts : List AccountRef) : w.call Identity.program (i.encode ++ rest) accounts =
      Outcome.start i.operation.title >>= fun _ =>
        Program.perform ⟨w.ledger, w.now, AccountRef.merge accounts⟩ i := by
  rw [call, Program.execute_eq_dispatch, Program.dispatch_encode fits rest]
  rfl

theorem answerCall_encode {i : Instruction} (fits : i.Fits) (rest : Bytes)
    (accounts : List AccountRef) : w.answerCall Identity.program (i.encode ++ rest) accounts =
      w.answerCall Identity.program i.encode accounts := by
  have whole := call_encode (w := w) fits [] accounts
  rw [List.append_nil] at whole
  simp only [answerCall, call_encode fits rest, whole]

end World

/-- How calls with any data relate to requests of instructions. -/
structure RequestsExact (w : World) : Prop where
  read : ∀ (i : Instruction) (rest : Bytes), i.Fits →
    Program.dispatch Identity.program (i.encode ++ rest) = ⟨[.started i.operation.title], .ok i⟩
  performed : ∀ (i : Instruction) (rest : Bytes) (accounts : List AccountRef), i.Fits →
    w.call Identity.program (i.encode ++ rest) accounts =
      Outcome.start i.operation.title >>= fun _ =>
        Program.perform ⟨w.ledger, w.now, AccountRef.merge accounts⟩ i
  trailing : ∀ (i : Instruction) (rest : Bytes) (accounts : List AccountRef), i.Fits →
    w.step (.requestRaw Identity.program (i.encode ++ rest) accounts) =
      w.step (.request Identity.program i accounts)
  cut_arguments : ∀ (i : Instruction) (part : Bytes) (accounts : List AccountRef), i.Fits →
    part <+: i.encode → part ≠ i.encode → 8 ≤ part.length →
    (w.step (.requestRaw Identity.program part accounts)).1 = w ∧
      (w.step (.requestRaw Identity.program part accounts)).2.FailsWith 102
  cut_tag : ∀ (i : Instruction) (part : Bytes) (accounts : List AccountRef),
    part <+: i.encode → part.length < 8 →
    (w.step (.requestRaw Identity.program part accounts)).1 = w ∧
      (w.step (.requestRaw Identity.program part accounts)).2.FailsWith 101
  /-- Data that gets as far as the accounts is that of one instruction, followed by one rest. -/
  one_reading : ∀ (data : Bytes) (i : Instruction),
    (Program.dispatch Identity.program data).Gives i →
    ∃ rest, i.Fits ∧ data = i.encode ++ rest ∧
      ∀ (i' : Instruction) (rest' : Bytes), i'.Fits → data = i'.encode ++ rest' →
        i' = i ∧ rest' = rest
  /-- The accounts are looked at after that, and only then. -/
  staged : ∀ (key : Key) (data : Bytes) (call : Call),
    Program.execute key data call = Program.dispatch key data >>= Program.perform call

theorem requests_exact (w : World) : RequestsExact w := by
  constructor
  case read =>
    intro i rest fits
    exact Program.dispatch_encode fits rest
  case performed =>
    intro i rest accounts fits
    exact World.call_encode fits rest accounts
  case trailing =>
    intro i rest accounts fits
    exact World.answerCall_encode fits rest accounts
  case cut_arguments =>
    intro i part accounts fits start cut tagged
    have undispatched := Program.dispatch_of_cut fits start cut tagged
    exact World.failsWith_of_undispatched undispatched rfl accounts
  case cut_tag =>
    intro i part accounts start short
    have undispatched := Program.dispatch_of_short short
    exact World.failsWith_of_undispatched undispatched rfl accounts
  case one_reading =>
    intro data i read
    obtain ⟨-, read⟩ := Program.dispatch_gives.mp read
    obtain ⟨fits, rest, written⟩ := Program.eq_append_of_instruction read
    refine ⟨rest, fits, written, fun i' rest' fits' written' => ?_⟩
    have read' := Program.instruction_encode fits' rest'
    rw [← written', read] at read'
    cases read'
    exact ⟨rfl, List.append_cancel_left (written'.symm.trans written)⟩
  case staged => exact Program.execute_eq_dispatch

section Samples

def Instruction.sampleBatch : Instruction :=
  .mintTokens [Key.filled 4, Key.filled 5] [10, 20]

theorem Instruction.fits_sampleBatch : sampleBatch.Fits := by
  simp [sampleBatch, Fits, LawfulWire.Fits]
  decide

/-- The batch is read where more bytes follow, and refused where it is cut within its second
amount. -/
theorem requests_exact_of_sampleBatch :
    Instruction.sampleBatch.Fits ∧
    Program.dispatch Identity.program (Instruction.sampleBatch.encode ++ [7, 7]) =
      ⟨[.started "MintTokens"], .ok Instruction.sampleBatch⟩ ∧
    World.genesis.step (.requestRaw Identity.program (Instruction.sampleBatch.encode ++ [7, 7])
      [.signing (Key.filled 3)]) =
      World.genesis.step (.request Identity.program Instruction.sampleBatch
        [.signing (Key.filled 3)]) ∧
    (World.genesis.step (.requestRaw Identity.program
      (Instruction.sampleBatch.encode.take 90) [])).2.FailsWith 102 := by
  have fits := Instruction.fits_sampleBatch
  have title : Instruction.sampleBatch.operation.title = "MintTokens" := by decide +kernel
  have length : Instruction.sampleBatch.encode.length = 96 := by decide +kernel
  have width : (Instruction.sampleBatch.encode.take 90).length = 90 := by
    rw [List.length_take, length]
    rfl
  have cut : Instruction.sampleBatch.encode.take 90 ≠ Instruction.sampleBatch.encode := by
    intro whole
    rw [whole, length] at width
    exact absurd width (by decide)
  have exact_requests := requests_exact World.genesis
  refine ⟨fits, ?_, exact_requests.trailing _ _ _ fits, ?_⟩
  · rw [← title]
    exact exact_requests.read _ _ fits
  · exact (exact_requests.cut_arguments _ _ [] fits (List.take_prefix _ _) cut
      (by rw [width]; decide)).2

end Samples
end VaultMarket
