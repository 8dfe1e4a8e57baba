import TurnRelay.Json.Decode
import TurnRelay.Settings.Basic

/-!
# Settings as JSON

Settings can be shown as JSON, and sections can be given as JSON. What is not set is written as
`null`.

## Main definitions

* `Settings.ofJson`: what a JSON value says as a setting.
* `Settings.encode`: all settings.
-/

namespace TurnRelay.Settings

/-! ### From JSON -/

mutual

/-- The value that a JSON value says. -/
def ofJson : Json → Value
  | .null => .nothing
  | .bool b => .bool b
  | .number (.integer i) => .integer true i
  | .number (.float x) => .float x
  | .string s => .string s
  | .array items => .array (ofJsonItems items)
  | .object members => .table (ofJsonMembers members)

/-- The values of an array's items. -/
def ofJsonItems : List Json → List Value
  | [] => []
  | v :: vs => ofJson v :: ofJsonItems vs

/-- The values of an object's members. -/
def ofJsonMembers : List (String × Json) → List (String × Value)
  | [] => []
  | (k, v) :: ms => (k, ofJson v) :: ofJsonMembers ms

end

/-! ### To JSON -/

/-- A value, or `null`. -/
def encodeOption {α : Type} (write : α → Json) (a : Option α) : Json := (a.map write).getD .null

/-- Writes where the server listens. -/
def ServerSection.encode (s : ServerSection) : Json :=
  .ofMembers [("host", encodeOption .string s.host),
    ("port", encodeOption (fun p => .ofNat p.toNat) s.port)]

/-- Writes how the gateway is reached. -/
def GatewaySection.encode (s : GatewaySection) : Json :=
  .ofMembers [("url", .string s.url), ("token", encodeOption .string s.token),
    ("client_id", .string s.clientId), ("client_version", .string s.clientVersion),
    ("platform", .string s.platform), ("mode", .string s.mode), ("role", .string s.role),
    ("scopes", .strings s.scopes), ("min_protocol", .ofWord32 s.minProtocol),
    ("max_protocol", .ofWord32 s.maxProtocol), ("connect_timeout_ms", .ofWord64 s.connectTimeout),
    ("request_timeout_ms", .ofWord64 s.requestTimeout),
    ("backoff_base_ms", .ofWord64 s.backoffBase), ("backoff_max_ms", .ofWord64 s.backoffMax),
    ("run_idle_timeout_ms", .ofWord64 s.runIdleTimeout)]

/-- Writes how turns are relayed. -/
def RelaySection.encode (s : RelaySection) : Json :=
  .ofMembers [("default_session_key", .string s.defaultSessionKey),
    ("keep_alive_secs", .ofWord64 s.keepAliveSecs),
    ("channel_capacity", .ofWord64 s.channelCapacity)]

/-- Writes all settings. -/
def encode (s : Settings) : Json :=
  .ofMembers [("profile", encodeOption (fun p => .string p.name) s.preset),
    ("server", s.server.encode), ("gateway", s.gateway.encode), ("relay", s.relay.encode)]

end TurnRelay.Settings
