import TurnRelay.Gateway.Client
import TurnRelay.Web.Refusal

/-!
# Inquiries

A question of a browser to the gateway. The relay asks to be connected, asks the question, and answers
the browser with what it hears, or with a refusal.

## Main definitions

* `Web.Inquiry`: a question under way.
* `Inquiry.begin`, `Inquiry.advance`, `Inquiry.abandon`: its steps.
* `Web.reply`: the answer.
-/

namespace TurnRelay.Web

open Gateway (Client Query Fault)

/-- A question of a browser to the gateway, with the call that it waits for. -/
inductive Inquiry where
  /-- The client is to be connected. -/
  | connecting (q : Query) (call : Nat)
  /-- The gateway is to answer. -/
  | asking (call : Nat)
  deriving DecidableEq

/-- What a step of a question leads to. -/
inductive Inquiry.Next where
  /-- The question goes on. -/
  | goesOn (x : Inquiry)
  /-- It is answered. -/
  | answered (r : Except Fault Json)
  deriving DecidableEq

namespace Inquiry

/-- A question begins. -/
def begin (c : Client) (now : Nat) (q : Query) : Inquiry × Client :=
  let (n, c) := c.connect now
  (.connecting q n, c)

/-- The call that a question waits for. -/
def call : Inquiry → Nat
  | .connecting _ n => n
  | .asking n => n

/-- The next step of a question at a time, with a name that nobody has used for its request; none if it
has to wait. -/
def advance (c : Client) (now : Nat) (id : String) (x : Inquiry) : Option (Next × Client) :=
  match x, c.poll now x.call with
  | _, (none, _) => none
  | .connecting q _, (some (.ok _), c) =>
    let (n, c) := c.query now id q c.profile.requestTimeout
    some (.goesOn (.asking n), c)
  | .asking _, (some (.ok (.value v)), c) => some (.answered (.ok v), c)
  | .asking _, (some (.ok _), c) => some (.answered (.ok .null), c)
  | _, (some (.error f), c) => some (.answered (.error f), c)

/-- The browser goes away. -/
def abandon (c : Client) (x : Inquiry) : Client := c.abandon x.call

end Inquiry

/-- The status and the body of the response. -/
def reply : Except Fault Json → Nat × Json
  | .ok v => (200, v)
  | .error f => ((Refusal.gateway f).status, (Refusal.gateway f).body)

end TurnRelay.Web
