import TurnRelay.Wire.Frame

/-!
# Faults of the gateway connection

Why a call to the gateway fails.

## Main definitions

* `Gateway.Fault`: the causes, with `code`, `message`, `isRetryable` and `isTimeout`.
-/

namespace TurnRelay.Gateway

/-- Why a call fails. -/
inductive Fault where
  /-- The handshake took too long. -/
  | connectTimeout
  /-- The gateway did not accept the connection. -/
  | connectRejected (reason : String)
  /-- No response came in time. -/
  | requestTimeout (method : String) (millis : Nat)
  /-- The connection ended while the request was under way. -/
  | connectionLost
  /-- There is no connection. -/
  | notConnected
  /-- The gateway answered with a failure. -/
  | remote (code message : String) (retryable : Bool)
  /-- The client was shut down. -/
  | destroyed
  /-- The socket failed. -/
  | transport (reason : String)
  /-- A payload is not of the type asked for. -/
  | invalidPayload (reason : String)
  deriving DecidableEq, Repr

namespace Fault

/-- A short name of the cause. -/
def code : Fault → String
  | .connectTimeout => "connect_timeout"
  | .connectRejected _ => "connect_rejected"
  | .requestTimeout _ _ => "request_timeout"
  | .connectionLost => "connection_lost"
  | .notConnected => "not_connected"
  | .remote _ _ _ => "remote_error"
  | .destroyed => "destroyed"
  | .transport _ => "transport_error"
  | .invalidPayload _ => "invalid_payload"

/-- The wording of a fault. -/
def message : Fault → String
  | .connectTimeout => "timed out connecting to gateway"
  | .connectRejected reason => "gateway rejected connect: " ++ reason
  | .requestTimeout method millis => "request " ++ method ++ s!" timed out after {millis}ms"
  | .connectionLost => "connection to gateway lost"
  | .notConnected => "not connected to gateway"
  | .remote code message _ => "gateway error " ++ code ++ ": " ++ message
  | .destroyed => "gateway client destroyed"
  | .transport reason => "transport error: " ++ reason
  | .invalidPayload reason => "invalid payload: " ++ reason

/-- Whether the same call could succeed later. -/
def isRetryable : Fault → Bool
  | .connectTimeout => true
  | .connectRejected _ => false
  | .requestTimeout _ _ => true
  | .connectionLost => true
  | .notConnected => true
  | .remote _ _ retryable => retryable
  | .destroyed => false
  | .transport _ => true
  | .invalidPayload _ => false

/-- Whether something took too long. -/
def isTimeout : Fault → Bool
  | .connectTimeout => true
  | .requestTimeout _ _ => true
  | _ => false

/-- The fault that a failure in a response stands for. -/
def ofFailure (f : Wire.Failure) : Fault := .remote f.code f.message (f.retryable.getD false)

/-- The fault of a payload that cannot be read. -/
def ofDecodeError (e : DecodeError) : Fault := .invalidPayload e.message

end Fault

end TurnRelay.Gateway
