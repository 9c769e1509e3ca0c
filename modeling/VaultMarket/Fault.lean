import VaultMarket.Key
set_option autoImplicit false

/-!
# Why a step fails

A refusal is a check that did not hold; it has a name, a number and a sentence. Checks that the
market makes on its own behalf are numbered from 6000, checks on the accounts and the data of an
instruction have smaller numbers. Besides refusals there are the failures of the host (the system
and token programs) and the abort of a step that has no answer at all.
-/

namespace VaultMarket

inductive Fault where
  | unknownInstruction
  | malformedArguments
  | eventAsInstruction
  | notWritable
  | wrongAddress
  | missingTag
  | wrongTag
  | malformedRecord
  | recordTooLong
  | missingAccount
  | foreignOwner
  | wrongProgram
  | notExecutable
  | missingSignature
  | missingRecord
  | foreignProgram
  | payerAsRecord
  | invalidParameter
  | invalidAuthority
  | invalidSigner
  | unknownServiceSigner
  | tooManyServiceSigners
  | unauthorized
  | duplicateServiceSigner
  | invalidServerId
  | invalidServerName
  | nameTooLong
  | handleAlreadyAssigned
  | handleMismatch
  | invalidTokenAccount
  | mathOverflow
deriving DecidableEq

structure FaultText where
  code : Nat
  name : String
  message : String

namespace Fault

def text : Fault → FaultText
  | unknownInstruction =>
    ⟨101, "InstructionFallbackNotFound", "Fallback functions are not supported"⟩
  | malformedArguments =>
    ⟨102, "InstructionDidNotDeserialize",
      "The program could not deserialize the given instruction"⟩
  | eventAsInstruction =>
    ⟨1500, "EventInstructionStub", "The program was compiled without `event-cpi` feature"⟩
  | notWritable => ⟨2000, "ConstraintMut", "A mut constraint was violated"⟩
  | wrongAddress => ⟨2006, "ConstraintSeeds", "A seeds constraint was violated"⟩
  | missingTag =>
    ⟨3001, "AccountDiscriminatorNotFound", "No discriminator was found on the account"⟩
  | wrongTag =>
    ⟨3002, "AccountDiscriminatorMismatch",
      "Account discriminator did not match what was expected"⟩
  | malformedRecord => ⟨3003, "AccountDidNotDeserialize", "Failed to deserialize the account"⟩
  | recordTooLong => ⟨3004, "AccountDidNotSerialize", "Failed to serialize the account"⟩
  | missingAccount =>
    ⟨3005, "AccountNotEnoughKeys", "Not enough account keys given to the instruction"⟩
  | foreignOwner =>
    ⟨3007, "AccountOwnedByWrongProgram",
      "The given account is owned by a different program than expected"⟩
  | wrongProgram => ⟨3008, "InvalidProgramId", "Program ID was not as expected"⟩
  | notExecutable => ⟨3009, "InvalidProgramExecutable", "Program account is not executable"⟩
  | missingSignature => ⟨3010, "AccountNotSigner", "The given account did not sign"⟩
  | missingRecord =>
    ⟨3012, "AccountNotInitialized",
      "The program expected this account to be already initialized"⟩
  | foreignProgram =>
    ⟨4100, "DeclaredProgramIdMismatch",
      "The declared program id does not match the actual program id"⟩
  | payerAsRecord =>
    ⟨4101, "TryingToInitPayerAsProgramAccount",
      "You cannot/should not initialize the payer account as a program account"⟩
  | invalidParameter => ⟨6000, "InvalidParameter", "Incorrect parameter provided"⟩
  | invalidAuthority => ⟨6001, "InvalidAuthority", "Invalid authority"⟩
  | invalidSigner => ⟨6002, "InvalidSigner", "Account not authorized"⟩
  | unknownServiceSigner => ⟨6003, "InvalidSignerExist", "Signer doesn't exist"⟩
  | tooManyServiceSigners => ⟨6004, "TooManyServiceSigners", "Too many service signers"⟩
  | unauthorized => ⟨6005, "Unauthorized", "No authority to perform this action"⟩
  | duplicateServiceSigner => ⟨6006, "DuplicateServiceSigner", "Service signer already exists"⟩
  | invalidServerId => ⟨6007, "InvalidServerId", "Invalid server id"⟩
  | invalidServerName => ⟨6008, "InvalidServerName", "Invalid server name"⟩
  | nameTooLong => ⟨6009, "NameTooLong", "Value exceeds its maximum length"⟩
  | handleAlreadyAssigned => ⟨6010, "HandleAlreadyAssigned", "User already holds a handle"⟩
  | handleMismatch => ⟨6011, "HandleMismatch", "Handle is not held by the source user"⟩
  | invalidTokenAccount =>
    ⟨6012, "InvalidTokenAccount", "Token account does not match the mint or recipient"⟩
  | mathOverflow => ⟨6013, "MathOverflow", "Math overflow occurred during calculation"⟩

def code (f : Fault) : Nat := f.text.code
def name (f : Fault) : String := f.text.name
def message (f : Fault) : String := f.text.message

/-- The faults of the market itself, in the order of their numbers from 6000 on. -/
def own : List Fault :=
  [invalidParameter, invalidAuthority, invalidSigner, unknownServiceSigner, tooManyServiceSigners,
   unauthorized, duplicateServiceSigner, invalidServerId, invalidServerName, nameTooLong,
   handleAlreadyAssigned, handleMismatch, invalidTokenAccount, mathOverflow]

end Fault

inductive HostFault where
  | custom (code : Nat)
  | invalidArgument
  | invalidAccountData
  | missingRequiredSignature
  | uninitializedAccount
deriving DecidableEq

namespace HostFault

def name : HostFault → String
  | custom code => s!"Custom({code})"
  | invalidArgument => "InvalidArgument"
  | invalidAccountData => "InvalidAccountData"
  | missingRequiredSignature => "MissingRequiredSignature"
  | uninitializedAccount => "UninitializedAccount"

/-- Builtin failures are multiples of 2³²; the first of them stands for the custom number 0. -/
def number : HostFault → Nat
  | custom code => if code = 0 then UInt32.size else code
  | invalidArgument => 2 * UInt32.size
  | invalidAccountData => 4 * UInt32.size
  | missingRequiredSignature => 8 * UInt32.size
  | uninitializedAccount => 10 * UInt32.size

def message : HostFault → String
  | custom code => "Custom program error: 0x" ++ String.ofList (Nat.toDigits 16 code)
  | invalidArgument => "The arguments provided to a program instruction were invalid"
  | invalidAccountData => "An account's data contents was invalid"
  | missingRequiredSignature => "A signature was required but not found"
  | uninitializedAccount => "An attempt to operate on an account that hasn't been initialized"

end HostFault

/-- How a report attributes a refusal: to the rule that raised it, to a field of the instruction's
account list, or to neither. -/
inductive Origin where
  | raised
  | field (name : String)
  | unattributed
deriving DecidableEq

/-- Why a step stopped. A refusal that compared two keys shows both. -/
inductive Failure where
  | refused (fault : Fault) (origin : Origin) (compared : Option (Key × Key))
  | host (fault : HostFault) (origin : Origin)
  | aborted
deriving DecidableEq

namespace Failure

def raised (fault : Fault) : Failure := .refused fault .raised none

def onField (field : String) (fault : Fault) : Failure := .refused fault (.field field) none

def unattributed (fault : Fault) : Failure := .refused fault .unattributed none

end Failure

def require (condition : Prop) [Decidable condition] (failure : Failure) : Except Failure Unit :=
  if condition then .ok () else .error failure

theorem require_eq_ok {condition : Prop} [Decidable condition] {failure : Failure} {u : Unit} :
    require condition failure = .ok u ↔ condition := by
  unfold require; split <;> simp_all

theorem require_of {condition : Prop} [Decidable condition] {failure : Failure}
    (h : condition) : require condition failure = .ok () := if_pos h

theorem require_of_not {condition : Prop} [Decidable condition] {failure : Failure}
    (h : ¬condition) : require condition failure = .error failure := if_neg h

/-- The state after an action: what the action made, or the state before it if it failed. -/
def settle {σ : Type} (before : σ) : Except Failure σ → σ
  | .ok after => after
  | .error _ => before

def settleAll {σ α : Type} (act : σ → α → Except Failure σ) (start : σ) (actions : List α) : σ :=
  actions.foldl (fun s a => settle s (act s a)) start

end VaultMarket
