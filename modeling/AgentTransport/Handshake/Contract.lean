import AgentTransport.Handshake.Offer

/-! Phase 3 of the handshake: the contract, and the state machine of the whole handshake. -/

namespace ATP
open F64
variable {F : Type} [F64 F]

/-- The states of the handshake state machine. -/
inductive HandshakeState where | idle | probeSent | offersReceived | contracted | failed
  deriving DecidableEq

def HandshakeState.display : HandshakeState → String
  | .idle => "Idle"
  | .probeSent => "ProbeSent"
  | .offersReceived => "OffersReceived"
  | .contracted => "Contracted"
  | .failed => "Failed"

/-- State machine that enforces valid handshake transitions. -/
structure HandshakeStateMachine where
  state : HandshakeState
  contractId : Option Uuid
  selectedAgent : Option AgentId

namespace HandshakeStateMachine

/-- Create a new state machine in the Idle state. -/
def new : HandshakeStateMachine := ⟨.idle, none, none⟩

/-- The error of a transition that the current state does not have. -/
def invalid (sm : HandshakeStateMachine) (dst : String) : HandshakeError :=
  .invalidTransition sm.state.display dst

def onProbeSent (sm : HandshakeStateMachine) : Except HandshakeError HandshakeStateMachine :=
  match sm.state with
  | .idle => .ok { sm with state := .probeSent }
  | _ => .error (sm.invalid "ProbeSent")

def onOffersReceived (sm : HandshakeStateMachine) : Except HandshakeError HandshakeStateMachine :=
  match sm.state with
  | .probeSent => .ok { sm with state := .offersReceived }
  | _ => .error (sm.invalid "OffersReceived")

def onContractAccepted (sm : HandshakeStateMachine) (contractId : Uuid) (agent : AgentId) :
    Except HandshakeError HandshakeStateMachine :=
  match sm.state with
  | .offersReceived => .ok ⟨.contracted, some contractId, some agent⟩
  | _ => .error (sm.invalid "Contracted")

def onFailure (sm : HandshakeStateMachine) : Except HandshakeError HandshakeStateMachine :=
  match sm.state with
  | .contracted | .failed => .error (sm.invalid "Failed")
  | _ => .ok { sm with state := .failed }

/-- Reset back to Idle for a retry attempt. -/
def resetForRetry (sm : HandshakeStateMachine) : Except HandshakeError HandshakeStateMachine :=
  match sm.state with
  | .probeSent | .offersReceived => .ok ⟨.idle, none, none⟩
  | _ => .error (sm.invalid "Idle")

end HandshakeStateMachine

/-- Create a CONTRACT_ACCEPT message from the best ranked offer. -/
def createContract (src : AgentId) (bestOffer : RankedOffer F) (originalQos : QoSConstraints F)
    (contractDuration : Duration) (contractId : Uuid) (now : DateTime) : ContractAcceptMsg F :=
  let cap := bestOffer.offer.capability
  { src := src
    dst := bestOffer.offer.src
    agreedQos :=
      { minQuality := F64.min cap.estimatedQuality originalQos.minQuality
        maxLatency := Max.max cap.estimatedLatency originalQos.maxLatency
        maxCost := F64.max cap.costPerTask originalQos.maxCost
        minTrust := F64.min bestOffer.offer.trustScore originalQos.minTrust }
    contextPlan := "direct-" ++ bestOffer.offer.src.display
    contractId := contractId
    expiresAt := now + (chronoFromStd contractDuration).getD (Duration.secs 30)
    timestamp := now
    signature := [] }

end ATP
