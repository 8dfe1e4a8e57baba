import TurnRelay.Gateway.Profile
import TurnRelay.Settings.Reader

/-!
# The settings

All that can be set: where the server listens, how the gateway is reached, and how turns are relayed.
Beside each section stands what the program works with, which the section determines.

## Main definitions

* `Settings`: the settings, with their defaults.
* `Settings.read`: reads them from a table.
* `GatewaySection.profile`, `RelaySection.manner`: what the program works with.
-/

namespace TurnRelay

namespace Settings

/-! ### Presets -/

/-- Settings that go by a name. -/
inductive Preset where
  /-- The server is reached from the same machine only. -/
  | localOnly
  /-- The server is reached from everywhere. -/
  | server
  deriving DecidableEq, Repr

namespace Preset

/-- The name of a preset. -/
def name : Preset → String
  | .localOnly => "local"
  | .server => "server"

/-- The address to listen on. -/
def host : Preset → String
  | .localOnly => "127.0.0.1"
  | .server => "0.0.0.0"

/-- All presets. -/
def all : List Preset := [.localOnly, .server]

/-- The preset of a name. -/
def ofName? (name : String) : Option Preset := all.find? fun p => decide (p.name = name)

/-- Reads a preset's name. -/
def named (name : String) : Except Complaint Preset :=
  match ofName? name with
  | some p => .ok p
  | none => complain (.choice name (all.map Preset.name))

/-- Reads a preset. A table that names one would have to hold nothing under that name, which no value
is. -/
def read : Reader Preset
  | .string s => named s
  | .table [] => complain (.kind .map "enum")
  | .table ((name, v) :: _) => do
    let _ ← named name
    within name (complain (.kind v.found "unit"))
  | v => complain (.kind v.found "enum Profile")

end Preset

/-! ### Sections -/

/-- Where the server listens. -/
structure ServerSection where
  /-- The address. -/
  host : Option String := none
  /-- The port. -/
  port : Option UInt16 := none
  deriving DecidableEq, Repr

/-- How the gateway is reached. All times are in milliseconds. -/
structure GatewaySection where
  /-- The gateway's address. -/
  url : String := "ws://127.0.0.1:18789"
  /-- A shared secret. -/
  token : Option String := none
  /-- The name that the client presents. -/
  clientId : String := "chat-relay"
  /-- The version that it presents. -/
  clientVersion : String := "0.1.0"
  /-- The operating system that it presents. -/
  platform : String := "linux"
  /-- What it says it is used as. -/
  mode : String := "backend"
  /-- The role it takes. -/
  role : String := "operator"
  /-- What it wants to be allowed. -/
  scopes : List String := ["operator.read", "operator.write"]
  /-- The lowest protocol revision it speaks. -/
  minProtocol : UInt32 := 3
  /-- The highest protocol revision it speaks. -/
  maxProtocol : UInt32 := 3
  /-- How long a handshake may take. -/
  connectTimeout : UInt64 := 10000
  /-- How long a request may take. -/
  requestTimeout : UInt64 := 30000
  /-- The first delay between attempts. -/
  backoffBase : UInt64 := 1000
  /-- The longest delay between attempts. -/
  backoffMax : UInt64 := 30000
  /-- How long a run may be silent. -/
  runIdleTimeout : UInt64 := 120000
  deriving DecidableEq, Repr

/-- How turns are relayed. -/
structure RelaySection where
  /-- The session of requests that name none. -/
  defaultSessionKey : String := "main"
  /-- After how many silent seconds a stream of events gets a comment. -/
  keepAliveSecs : UInt64 := 15
  /-- How many events of a turn may wait to be read. -/
  channelCapacity : UInt64 := 64
  deriving DecidableEq, Repr

end Settings

/-- All settings. -/
structure Settings where
  /-- The preset they are based on. -/
  preset : Option Settings.Preset := none
  /-- Where the server listens. -/
  server : Settings.ServerSection := {}
  /-- How the gateway is reached. -/
  gateway : Settings.GatewaySection := {}
  /-- How turns are relayed. -/
  relay : Settings.RelaySection := {}
  deriving DecidableEq, Repr

namespace Settings

/-! ### Reading -/

/-- A port. -/
def Reader.port : Reader UInt16 := fun v => (natBelow UInt16.size "u16" v).map UInt16.ofNat

/-- An unsigned 32-bit number. -/
def Reader.word32 : Reader UInt32 := fun v => (natBelow UInt32.size "u32" v).map UInt32.ofNat

/-- An unsigned 64-bit number. -/
def Reader.word64 : Reader UInt64 := fun v => (natBelow UInt64.size "u64" v).map UInt64.ofNat

/-- A number of things. -/
def Reader.count : Reader UInt64 := fun v => (natBelow UInt64.size "usize" v).map UInt64.ofNat

/-- The entries of the server's section. -/
def ServerSection.entries : List (Entry ServerSection) := [
  .reading "host" (.option .string) fun a s => { s with host := a },
  .reading "port" (.option .port) fun a s => { s with port := a }]

/-- Reads where the server listens. -/
def ServerSection.read : Reader ServerSection := readSection "struct ServerFileConfig" ServerSection.entries {}

/-- The entries of the gateway's section. -/
def GatewaySection.entries : List (Entry GatewaySection) := [
  .reading "url" .string fun a s => { s with url := a },
  .reading "token" (.option .string) fun a s => { s with token := a },
  .reading "client_id" .string fun a s => { s with clientId := a },
  .reading "client_version" .string fun a s => { s with clientVersion := a },
  .reading "platform" .string fun a s => { s with platform := a },
  .reading "mode" .string fun a s => { s with mode := a },
  .reading "role" .string fun a s => { s with role := a },
  .reading "scopes" (.list .string) fun a s => { s with scopes := a },
  .reading "min_protocol" .word32 fun a s => { s with minProtocol := a },
  .reading "max_protocol" .word32 fun a s => { s with maxProtocol := a },
  .reading "connect_timeout_ms" .word64 fun a s => { s with connectTimeout := a },
  .reading "request_timeout_ms" .word64 fun a s => { s with requestTimeout := a },
  .reading "backoff_base_ms" .word64 fun a s => { s with backoffBase := a },
  .reading "backoff_max_ms" .word64 fun a s => { s with backoffMax := a },
  .reading "run_idle_timeout_ms" .word64 fun a s => { s with runIdleTimeout := a }]

/-- Reads how the gateway is reached. -/
def GatewaySection.read : Reader GatewaySection := readSection "struct GatewayFileConfig" GatewaySection.entries {}

/-- The entries of the relay's section. -/
def RelaySection.entries : List (Entry RelaySection) := [
  .reading "default_session_key" .string fun a s => { s with defaultSessionKey := a },
  .reading "keep_alive_secs" .word64 fun a s => { s with keepAliveSecs := a },
  .reading "channel_capacity" .count fun a s => { s with channelCapacity := a }]

/-- Reads how turns are relayed. -/
def RelaySection.read : Reader RelaySection := readSection "struct RelayFileConfig" RelaySection.entries {}

/-- The entries of all settings: the preset and the sections. -/
def entries : List (Entry Settings) := [
  .reading "profile" (.option Preset.read) fun a s => { s with preset := a },
  .reading "server" ServerSection.read fun a s => { s with server := a },
  .reading "gateway" GatewaySection.read fun a s => { s with gateway := a },
  .reading "relay" RelaySection.read fun a s => { s with relay := a }]

/-- Reads all settings. -/
def read : Reader Settings := readSection "struct FileConfig" entries {}

/-! ### What the program works with -/

/-- The client's profile. An empty secret is none. -/
def GatewaySection.profile (s : GatewaySection) : Gateway.Profile where
  url := s.url
  token := s.token.filter fun t => decide (t ≠ "")
  client := ⟨s.clientId, s.clientVersion, s.platform, s.mode⟩
  role := s.role
  scopes := s.scopes
  minProtocol := s.minProtocol
  maxProtocol := s.maxProtocol
  connectTimeout := .ofMillis s.connectTimeout.toNat
  requestTimeout := .ofMillis s.requestTimeout.toNat
  backoffBase := .ofMillis s.backoffBase.toNat
  backoffCap := .ofMillis s.backoffMax.toNat
  runIdleTimeout := .ofMillis s.runIdleTimeout.toNat

/-- How turns are relayed. -/
structure Manner where
  /-- The session of requests that name none. -/
  defaultSessionKey : String
  /-- After how many silent seconds a stream of events gets a comment. -/
  keepAliveSecs : Nat
  /-- How many events of a turn may wait to be read, the last one included. -/
  channelCapacity : Nat
  deriving DecidableEq, Repr

/-- How turns are relayed: comments come a second apart at least, and there is room for one event
beside the last. -/
def RelaySection.manner (s : RelaySection) : Manner where
  defaultSessionKey := s.defaultSessionKey
  keepAliveSecs := max s.keepAliveSecs.toNat 1
  channelCapacity := max s.channelCapacity.toNat 2

/-- The address to listen on unless another is set. -/
def defaultHost : String := "127.0.0.1"

/-- The port to listen on unless another is set. -/
def defaultPort : UInt16 := 3000

end Settings

end TurnRelay
