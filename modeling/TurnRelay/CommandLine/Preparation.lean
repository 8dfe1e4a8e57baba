import TurnRelay.CommandLine.Basic
import TurnRelay.Settings.Load
import TurnRelay.Text.Quoted
import TurnRelay.Turn.Event
import TurnRelay.Web.ListenAddress

/-!
# Preparing commands

What a command does before it talks to the gateway: it loads its settings, and looks at what it was
asked to do.

## Main definitions

* `CommandLine.Failure`, `Failure.message`: why a command fails, and its wording.
* `Ask.prepare`, `Serve.prepare`: what the commands need.
-/

namespace TurnRelay.CommandLine

/-- Why a command fails. -/
inductive Failure where
  /-- The settings cannot be loaded. -/
  | settings (path : String)
  /-- There is nothing to ask. -/
  | blankMessage
  /-- No run could be started. -/
  | notStarted
  /-- The turn did not come to an end of its own. -/
  | turnFailed
  /-- The address to listen on is none. -/
  | listenAddress (address : String)
  deriving DecidableEq, Repr

/-- The wording of a failure. -/
def Failure.message : Failure → String
  | .settings path => "Invalid configuration in " ++ Text.quoted path
  | .blankMessage => Turn.blankMessage
  | .notStarted => "Could not start a chat run"
  | .turnFailed => "Chat turn task failed"
  | .listenAddress address => "Invalid listen address " ++ address

/-- What can be found out about the place where a command runs. -/
structure Place where
  /-- Where the program's data lies. -/
  dataDir : String
  /-- The text of the settings file in it. -/
  file : Option String
  /-- The variables. -/
  vars : List (String × String)

/-- Loads the settings. -/
def Place.load (place : Place) (asked : Option Settings.Preset) : Except Failure Settings :=
  match Settings.load place.file place.vars asked with
  | .ok s => .ok s
  | .error _ => .error (.settings (place.dataDir ++ "/config.toml"))

/-- The settings, and the question as a message to relay. -/
def Ask.prepare (a : Ask) (place : Place) : Except Failure (Settings × Turn.Request) := do
  let s ← place.load none
  let key := Turn.sessionKey s.relay.manner.defaultSessionKey a.session
  let r : Turn.Request := ⟨key, a.message, none, none⟩
  if r.isValid then return (s, r) else .error .blankMessage

/-- The address to listen on, as it is said on the command line, in the settings, or by default. -/
def Serve.address (o : Serve) (s : Settings) : String :=
  let host := (o.host <|> s.server.host).getD Settings.defaultHost
  let port := (o.port <|> s.server.port).getD Settings.defaultPort
  host ++ ":" ++ toString port.toNat

/-- The settings. -/
def Serve.prepare (o : Serve) (place : Place) : Except Failure Settings := place.load o.preset

/-- What is wrong with the address to listen on. -/
def Serve.addressFailure? (o : Serve) (s : Settings) : Option Failure :=
  if Web.isListenAddress (o.address s) then none else some (.listenAddress (o.address s))

end TurnRelay.CommandLine
