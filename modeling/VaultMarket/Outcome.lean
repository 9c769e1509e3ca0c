import VaultMarket.Event
set_option autoImplicit false

namespace VaultMarket

inductive LogEntry where
  | started (title : String)
  | event (e : Event)
  | message (text : String)
deriving DecidableEq

structure Outcome (α : Type) where
  log : List LogEntry
  result : Except Failure α

namespace Outcome

variable {α β : Type}

def ofExcept (r : Except Failure α) : Outcome α := ⟨[], r⟩

/-- Runs `f` on the value, with its log after the log so far. -/
def andThen (o : Outcome α) (f : α → Outcome β) : Outcome β :=
  match o.result with
  | .ok a => ⟨o.log ++ (f a).log, (f a).result⟩
  | .error failure => ⟨o.log, .error failure⟩

instance : Monad Outcome where
  pure a := ⟨[], .ok a⟩
  bind := andThen

instance : MonadLift (Except Failure) Outcome := ⟨ofExcept⟩

def write (entry : LogEntry) : Outcome Unit := ⟨[entry], .ok ()⟩

def start (title : String) : Outcome Unit := write (.started title)
def emit (e : Event) : Outcome Unit := write (.event e)
def say (text : String) : Outcome Unit := write (.message text)

end Outcome

namespace Outcome

variable {α β : Type}

theorem result_bind_eq_ok {o : Outcome α} {f : α → Outcome β} {b : β} :
    (o >>= f).result = .ok b ↔ ∃ a, o.result = .ok a ∧ (f a).result = .ok b := by
  change (o.andThen f).result = .ok b ↔ _
  unfold andThen
  cases h : o.result <;> simp

theorem log_bind_of_ok {o : Outcome α} {f : α → Outcome β} {a : α} (h : o.result = .ok a) :
    (o >>= f).log = o.log ++ (f a).log := by
  change (o.andThen f).log = _
  simp only [andThen, h]

@[simp] theorem result_pure (a : α) : (pure a : Outcome α).result = .ok a := rfl
@[simp] theorem log_pure (a : α) : (pure a : Outcome α).log = [] := rfl
@[simp] theorem result_lift (r : Except Failure α) : (liftM r : Outcome α).result = r := rfl
@[simp] theorem log_lift (r : Except Failure α) : (liftM r : Outcome α).log = [] := rfl
@[simp] theorem result_write (entry : LogEntry) : (write entry).result = .ok () := rfl
@[simp] theorem log_write (entry : LogEntry) : (write entry).log = [entry] := rfl

end Outcome

namespace LogEntry

def text : LogEntry → String
  | started title => "Instruction: " ++ title
  | event e => "Program data: " ++ e.encode.toHex
  | message text => text

end LogEntry

namespace Failure

def sentence (family : String) (origin : Origin) (name : String) (number : Nat)
    (message : String) : String :=
  let manner := match origin with
    | .raised => "thrown"
    | .field field => "caused by account: " ++ field
    | .unattributed => "occurred"
  s!"{family} {manner}. Error Code: {name}. Error Number: {number}. Error Message: {message}."

/-- What a failure adds to the log. An abort adds nothing. -/
def texts : Failure → List String
  | refused fault origin compared =>
    sentence "AnchorError" origin fault.name fault.code fault.message ::
      match compared with
      | none => []
      | some (left, right) => ["Left:", left.toBase58, "Right:", right.toBase58]
  | host fault origin => [sentence "ProgramError" origin fault.name fault.number fault.message]
  | aborted => []

end Failure

namespace Outcome

variable {α : Type}

/-- The lines of the log and of the failure, if there is one. A text with line breaks gives a line
for each part. -/
def lines (o : Outcome α) : List String :=
  let ending := match o.result with
    | .ok _ => []
    | .error failure => failure.texts
  (o.log.map LogEntry.text ++ ending).flatMap (·.splitOn "\n")

end Outcome

end VaultMarket
