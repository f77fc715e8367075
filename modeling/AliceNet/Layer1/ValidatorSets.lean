import AliceNet.Bridge.Ethdkg

/-! The part of the monitor that assembles validator sets from events. -/

namespace AliceNet.Layer1.ValidatorSets

open Outcome (require)
open Crypto (Point Twist)
open Crypto.CryptoLibrary (encodeWords)
open Bridge.Ethdkg (Address Event)

inductive Failure
  /-- the state of the key generation cannot be loaded -/
  | keyNotFound
  /-- validator is not present in the potential validators -/
  | notPresent
  /-- my own GPKj doesn't match event! -/
  | ownGPKjMismatch (mine event : Twist)
  /-- invalid state -/
  | ErrInvalidData
  /-- A nil pointer is followed or an index is out of range. -/
  | panic
  deriving DecidableEq, Repr

structure Validator where
  account : Address := 0
  index : ℕ := 0
  sharedKey : Option Twist := none
  deriving DecidableEq, Repr

structure ValidatorSet where
  validatorCount : ℕ
  groupKey : Twist
  notBeforeAliceNetHeight : ℕ
  deriving DecidableEq, Repr

structure DkgState where
  numberOfValidators : ℕ
  nonce : ℕ
  participants : Address → Option (Option Twist)

/-- The objects that the consensus works with -/
structure ConsensusValidator where
  vAddr : Bytes
  groupShare : Bytes
  deriving DecidableEq, Repr

structure ConsensusValidatorSet where
  groupKey : Bytes
  validators : List ConsensusValidator
  notBefore : ℕ
  deriving DecidableEq, Repr

structure Node where
  account : Address
  potentialValidators : Finset Address := ∅
  dkgState : Option DkgState := none
  validatorSets : ℕ → Option ValidatorSet := fun _ => none
  validators : ℕ → Option (List Validator) := fun _ => none
  /-- The calls of `AddValidatorSet` so far -/
  added : List ConsensusValidatorSet := []

def encodeTwist (words : Twist) : Bytes :=
    encodeWords [words.1, words.2.1, words.2.2.1, words.2.2.2]

def marshalG2Big : Option Twist → Except Failure Bytes
  | none => .error .ErrInvalidData
  | some words => if words.1 = 0 then .ok (List.replicate 128 0) else .ok (encodeTwist words)

def getDkgState (node : Node) : Except Failure DkgState :=
  match node.dkgState with
  | some dkgState => .ok dkgState
  | none => .error .keyNotFound

def deletePotentialValidator (node : Node) (account : Address) : Except Failure Node := do
  require (account ∈ node.potentialValidators) .notPresent
  pure { node with potentialValidators := node.potentialValidators.erase account }

def processRegistrationOpened (node : Node) (nonce : ℕ) : Node :=
  { node with dkgState := some ⟨node.potentialValidators.card, nonce, fun _ => none⟩ }

def processAddressRegistered (node : Node) (account : Address) : Except Failure Node := do
  let dkgState ← getDkgState node
  pure { node with dkgState := some { dkgState with
    participants := Function.update dkgState.participants account (some none) } }

def sanityCheck (generated : ℕ → Option Twist) (node : Node) (dkgState : DkgState)
    (account : Address) (share : Twist) : Except Failure Unit :=
  if account = node.account then
    match dkgState.participants account with
    | none => .error .panic
    | some known =>
      match known <|> generated dkgState.nonce with
      | none => .ok ()
      | some mine => require (mine = share) (.ownGPKjMismatch mine share)
  else .ok ()

def onGPKjSubmitted (dkgState : DkgState) (account : Address) (gpkj : Twist) :
    Except Failure DkgState := do
  require (dkgState.participants account ≠ none) .panic
  pure { dkgState with
    participants := Function.update dkgState.participants account (some (some gpkj)) }

def placeMember (members : List Validator) (participantIndex : ℕ) (v : Validator) :
    Except Failure (List Validator) := do
  let members := members ++ List.replicate (participantIndex - members.length) ⟨0, 0, none⟩
  let arrayIndex := (participantIndex + (2 ^ 32 - 1)) % 2 ^ 32
  require (arrayIndex < members.length) .panic
  pure (members.set arrayIndex v)

def processValidatorMemberAdded (generated : ℕ → Option Twist) (node : Node) (account : Address)
    (index epoch : ℕ) (share : Twist) : Except Failure Node := do
  let key := epoch % 2 ^ 32
  let participantIndex := index % 2 ^ 32
  let v : Validator := ⟨account, participantIndex % 2 ^ 8, some share⟩
  let dkgState ← getDkgState node
  sanityCheck generated node dkgState account share
  let dkgState ← onGPKjSubmitted dkgState account share
  let members ← placeMember ((node.validators key).getD []) participantIndex v
  let _ ← marshalG2Big v.sharedKey
  pure { node with
    dkgState := some dkgState
    validators := Function.update node.validators key (some members) }

/-- Puts each member in the slot of its index. -/
def fillSlots : List Validator → List (Option ConsensusValidator) →
    Except Failure (List (Option ConsensusValidator))
  | [], slots => pure slots
  | validator :: rest, slots => do
    let groupShare ← marshalG2Big validator.sharedKey
    let slot := (validator.index + (2 ^ 8 - 1)) % 2 ^ 8
    require (slot < slots.length) .panic
    fillSlots rest (slots.set slot (some ⟨Bytes.bigEndian 20 validator.account, groupShare⟩))

/-- The slots are read for the log, which follows their pointers. -/
def readSlots : List (Option ConsensusValidator) → Except Failure (List ConsensusValidator)
  | [] => pure []
  | none :: _ => .error .panic
  | some validator :: rest => do pure (validator :: (← readSlots rest))

def checkValidatorSet (node : Node) (key : ℕ) (validatorSet : ValidatorSet) :
    Except Failure Node := do
  let validators := (node.validators key).getD []
  let dkgState ← getDkgState node
  let receivedCount := validators.length
  if receivedCount = dkgState.numberOfValidators ∨ receivedCount = 0 then
    let groupKey ← marshalG2Big (some validatorSet.groupKey)
    let slots ← fillSlots validators (List.replicate validatorSet.validatorCount none)
    let members ← readSlots slots
    pure { node with
      added := node.added ++ [⟨groupKey, members, validatorSet.notBeforeAliceNetHeight⟩] }
  else pure node

def processValidatorSetCompleted (node : Node) (validatorCount epoch aliceNetHeight : ℕ)
    (groupKey : Twist) : Except Failure Node :=
  let key := epoch % 2 ^ 32
  let vs : ValidatorSet := ⟨validatorCount % 2 ^ 8, groupKey, aliceNetHeight % 2 ^ 32⟩
  checkValidatorSet { node with validatorSets := Function.update node.validatorSets key (some vs) }
    key vs

def process (generated : ℕ → Option Twist) (node : Node) : Event → Except Failure Node
  | .RegistrationOpened _ _ nonce _ _ => pure (processRegistrationOpened node nonce)
  | .AddressRegistered account _ _ _ => processAddressRegistered node account
  | .ValidatorMemberAdded account index _ epoch share =>
    processValidatorMemberAdded generated node account index epoch share
  | .ValidatorSetCompleted validatorCount _ epoch _ aliceNetHeight groupKey =>
    processValidatorSetCompleted node validatorCount epoch aliceNetHeight groupKey
  | .ValidatorJoined account =>
    pure { node with potentialValidators := insert account node.potentialValidators }
  | .ValidatorLeft account => deletePotentialValidator node account
  | .ValidatorMajorSlashed account => deletePotentialValidator node account
  | .ValidatorMinorSlashed account => deletePotentialValidator node account
  | _ => pure node

def processAll (generated : ℕ → Option Twist) (node : Node) (events : List Event) :
    Except Failure Node :=
  events.foldlM (process generated) node

end AliceNet.Layer1.ValidatorSets
