import TurnRelay.Time.Span
import TurnRelay.Wire.Handshake

/-!
# The client's profile

Where the gateway is, how the client presents itself there, and how long it waits for things.

## Main definitions

* `Gateway.Profile`: the profile.
* `Profile.connectParams`: what the client says in the handshake.
-/

namespace TurnRelay.Gateway

/-- All that a client needs to know. -/
structure Profile where
  /-- The gateway's address. -/
  url : String
  /-- A shared secret. -/
  token : Option String
  /-- Who the client is. -/
  client : Wire.Identity
  /-- The role it takes. -/
  role : String
  /-- What it wants to be allowed. -/
  scopes : List String
  /-- The lowest protocol revision it speaks. -/
  minProtocol : UInt32
  /-- The highest protocol revision it speaks. -/
  maxProtocol : UInt32
  /-- How long a handshake may take, from dialing on. -/
  connectTimeout : Span
  /-- How long a request may take. -/
  requestTimeout : Span
  /-- The first delay between attempts. -/
  backoffBase : Span
  /-- The longest delay between attempts. -/
  backoffCap : Span
  /-- How long a run may be silent. -/
  runIdleTimeout : Span
  deriving DecidableEq, Repr

/-- What the client says in its `connect` request. -/
def Profile.connectParams (p : Profile) : Wire.ConnectParams where
  minProtocol := p.minProtocol
  maxProtocol := p.maxProtocol
  client := p.client
  auth := ⟨p.token⟩
  role := p.role
  scopes := p.scopes

end TurnRelay.Gateway
