import TurnRelay.Gateway.Fault

/-!
# Refusals

Why a request of a browser is answered with an error, and with which status and body.

## Main definitions

* `Web.Refusal`: the causes, with `status`, `code` and `message`.
-/

namespace TurnRelay.Web

/-- Why a request is answered with an error. -/
inductive Refusal where
  /-- The request itself is wrong. -/
  | badRequest (reason : String)
  /-- The gateway could not be asked, or failed. -/
  | gateway (fault : Gateway.Fault)
  deriving DecidableEq, Repr

namespace Refusal

/-- The status of the response. -/
def status : Refusal → Nat
  | .badRequest _ => 400
  | .gateway fault => if fault.isTimeout then 504 else 502

/-- A short name of the cause. -/
def code : Refusal → String
  | .badRequest _ => "bad_request"
  | .gateway fault => fault.code

/-- The wording of the cause. -/
def message : Refusal → String
  | .badRequest reason => reason
  | .gateway fault => "gateway request failed: " ++ fault.message

/-- The body of the response. -/
def body (r : Refusal) : Json :=
  .ofMembers [("error", .string r.message), ("code", .string r.code)]

end Refusal

end TurnRelay.Web
