import TurnRelay.Json.Decode

/-!
# Handshake payloads

When a socket opens, the gateway sends a challenge. The client answers with a `connect` request that
says which protocol revisions it speaks, who it is, how it is authorised and what it wants to do. The
gateway accepts it with a hello, which names the connection and may set limits.

## Main definitions

* `Wire.ConnectParams`: what the client says.
* `Wire.Hello`: what the gateway answers.
* `Wire.Hello.ofPayload?`: the hello that a response's payload holds, if it is one.
-/

namespace TurnRelay.Wire

/-! ### The client's side -/

/-- Who the client is. -/
structure Identity where
  /-- The client's name. -/
  id : String
  /-- Its version. -/
  version : String
  /-- The operating system it runs on. -/
  platform : String
  /-- What it is used as. -/
  mode : String
  deriving DecidableEq, Repr

namespace Identity

/-- The fields of an identity. -/
def record : Record Identity :=
  ((((Record.unit Identity.mk).field (.required "id" .string)).field
    (.required "version" .string)).field (.required "platform" .string)).field
    (.required "mode" .string)

/-- Reads an identity. -/
def decode : Decoder Identity := record.decode "struct ClientInfo"

/-- Writes an identity. -/
def encode (x : Identity) : Json :=
  .ofMembers [("id", .string x.id), ("version", .string x.version),
    ("platform", .string x.platform), ("mode", .string x.mode)]

end Identity

/-- How the client is authorised. -/
structure Authorization where
  /-- A shared secret. -/
  token : Option String
  deriving DecidableEq, Repr

namespace Authorization

/-- The fields of an authorisation. -/
def record : Record Authorization :=
  (Record.unit Authorization.mk).field (.optional "token" .string)

/-- Reads an authorisation. -/
def decode : Decoder Authorization := record.decode "struct AuthParams"

/-- Writes an authorisation. -/
def encode (x : Authorization) : Json := .ofMembers (Json.member? "token" .string x.token)

end Authorization

/-- What the client says in its `connect` request. -/
structure ConnectParams where
  /-- The lowest protocol revision it speaks. -/
  minProtocol : UInt32
  /-- The highest protocol revision it speaks. -/
  maxProtocol : UInt32
  /-- Who it is. -/
  client : Identity
  /-- How it is authorised. -/
  auth : Authorization
  /-- The role it takes. -/
  role : String
  /-- What it wants to be allowed. -/
  scopes : List String
  deriving DecidableEq, Repr

namespace ConnectParams

/-- The fields of the parameters. -/
def record : Record ConnectParams :=
  ((((((Record.unit ConnectParams.mk).field (.required "minProtocol" .word32)).field
    (.required "maxProtocol" .word32)).field (.required "client" Identity.decode)).field
    (.required "auth" Authorization.decode)).field (.required "role" .string)).field
    (.required "scopes" (.list .string))

/-- Reads the parameters. -/
def decode : Decoder ConnectParams := record.decode "struct ConnectParams"

/-- Writes the parameters. -/
def encode (x : ConnectParams) : Json :=
  .ofMembers [("minProtocol", .ofWord32 x.minProtocol), ("maxProtocol", .ofWord32 x.maxProtocol),
    ("client", x.client.encode), ("auth", x.auth.encode), ("role", .string x.role),
    ("scopes", .strings x.scopes)]

end ConnectParams

/-! ### The gateway's side -/

/-- The gateway's end of the connection. -/
structure Server where
  /-- The name it gives the connection. -/
  connId : String
  deriving DecidableEq, Repr

namespace Server

/-- The fields of the gateway's end. -/
def record : Record Server := (Record.unit Server.mk).field (.required "connId" .string)

/-- Reads the gateway's end. -/
def decode : Decoder Server := record.decode "struct ServerInfo"

/-- Writes the gateway's end. -/
def encode (x : Server) : Json := .ofMembers [("connId", .string x.connId)]

end Server

/-- What the gateway offers. -/
structure Features where
  /-- The methods that can be requested. -/
  methods : List String
  /-- The events that may arrive. -/
  events : List String
  deriving DecidableEq, Repr

namespace Features

/-- No methods and no events. -/
def none : Features := ⟨[], []⟩

/-- The fields of the features. -/
def record : Record Features :=
  ((Record.unit Features.mk).field (.withDefault "methods" (.list .string) [])).field
    (.withDefault "events" (.list .string) [])

/-- Reads the features. -/
def decode : Decoder Features := record.decode "struct Features"

/-- Writes the features. -/
def encode (x : Features) : Json :=
  .ofMembers [("methods", .strings x.methods), ("events", .strings x.events)]

end Features

/-- The limits the gateway sets. -/
structure Policy where
  /-- The largest message it takes. -/
  maxPayload : Option UInt64
  /-- The time between two heartbeats, in milliseconds. -/
  tickIntervalMs : Option UInt64
  deriving DecidableEq, Repr

namespace Policy

/-- No limits. -/
def none : Policy := ⟨.none, .none⟩

/-- The fields of a policy. -/
def record : Record Policy :=
  ((Record.unit Policy.mk).field (.optional "maxPayload" .word64)).field
    (.optional "tickIntervalMs" .word64)

/-- Reads a policy. -/
def decode : Decoder Policy := record.decode "struct Policy"

/-- Writes a policy. -/
def encode (x : Policy) : Json :=
  .ofMembers (Json.member? "maxPayload" .ofWord64 x.maxPayload ++
    Json.member? "tickIntervalMs" .ofWord64 x.tickIntervalMs)

end Policy

/-- The gateway's answer to a `connect` request. -/
structure Hello where
  /-- The tag, `hello-ok` if the connection is accepted. -/
  tag : String
  /-- The protocol revision in force. -/
  protocol : UInt32
  /-- The gateway's end. -/
  server : Server
  /-- What it offers. -/
  features : Features
  /-- The limits it sets. -/
  policy : Policy
  deriving DecidableEq, Repr

namespace Hello

/-- The tag of an accepted connection. -/
def acceptedTag : String := "hello-ok"

/-- The fields of a hello. -/
def record : Record Hello :=
  (((((Record.unit Hello.mk).field (.required "type" .string)).field
    (.required "protocol" .word32)).field (.required "server" Server.decode)).field
    (.withDefault "features" Features.decode .none)).field
    (.withDefault "policy" Policy.decode .none)

/-- Reads a hello. -/
def decode : Decoder Hello := record.decode "struct HelloOk"

/-- Writes a hello. -/
def encode (x : Hello) : Json :=
  .ofMembers [("type", .string x.tag), ("protocol", .ofWord32 x.protocol),
    ("server", x.server.encode), ("features", x.features.encode), ("policy", x.policy.encode)]

/-- The hello that a payload holds, if it is tagged as one that accepts. -/
def ofPayload? (payload : Json) : Option Hello :=
  match decode payload with
  | .ok hello => if hello.tag = acceptedTag then some hello else none
  | .error _ => none

end Hello

end TurnRelay.Wire
