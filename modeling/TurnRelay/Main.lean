import TurnRelay.Rehearsal.Script

/-!
# The program

Reads the command line, the settings file and the variables, and carries out the command. There are no
sockets here: every dial fails, and nobody is listened to. So a question is answered as it is when the
gateway cannot be reached, and serving ends behind the look at the address to listen on.

## Main definitions

* `main`: the program.
-/

namespace TurnRelay

open Rehearsal (Note Step World)

/-- The names under which a setting can be given by a variable. -/
def variableNames : List String :=
  let inSection (name : String) (settings : List String) : List String :=
    settings.map fun setting => name ++ "__" ++ setting
  ("PROFILE" :: (inSection "SERVER" ["HOST", "PORT"] ++
    inSection "GATEWAY" ["URL", "TOKEN", "CLIENT_ID", "CLIENT_VERSION", "PLATFORM", "MODE", "ROLE",
      "SCOPES", "MIN_PROTOCOL", "MAX_PROTOCOL", "CONNECT_TIMEOUT_MS", "REQUEST_TIMEOUT_MS",
      "BACKOFF_BASE_MS", "BACKOFF_MAX_MS", "RUN_IDLE_TIMEOUT_MS"] ++
    inSection "RELAY" ["DEFAULT_SESSION_KEY", "KEEP_ALIVE_SECS", "CHANNEL_CAPACITY"])).map
    ("CHAT_RELAY_" ++ ·)

/-- What is noted when a command is run and every dial fails. -/
def play (words : List String) (place : CommandLine.Place) : List Note :=
  let world := World.new ({} : Settings.GatewaySection).profile ({} : Settings.RelaySection).manner
  let (_, world) := world.perform (.policy (.refuse "no sockets"))
  (world.perform (.run "" words place)).1

/-- The text of a file, if it can be read. -/
def readText? (path : String) : IO (Option String) := do
  try
    return some (← IO.FS.readFile path)
  catch _ =>
    return none

/-- The variables that are set. -/
def readVariables : IO (List (String × String)) :=
  variableNames.filterMapM fun name => do
    return (← IO.getEnv name).map (name, ·)

/-- Tells a note, and gives the exit code that it means. -/
def tell : Note → IO UInt32
  | .printed text => do
    IO.print text
    return 0
  | .ran _ (.error f) => do
    IO.eprintln ("Error: " ++ f.message)
    return 1
  | .misused _ r => do
    if r.exitCode ≠ 0 then IO.eprintln ("error: " ++ r.message)
    return UInt32.ofNat r.exitCode
  | _ => return 0

end TurnRelay

/-- The program. -/
def main (args : List String) : IO UInt32 := do
  let words := "relay" :: args
  let home := (← IO.getEnv "HOME").getD "."
  let asked := (TurnRelay.CommandLine.Invocation.read words).toOption.bind (·.dataDir)
  let dataDir := asked.getD (home ++ "/.chat-relay")
  let file ← TurnRelay.readText? (dataDir ++ "/config.toml")
  let codes ← (TurnRelay.play words ⟨dataDir, file, ← TurnRelay.readVariables⟩).mapM TurnRelay.tell
  return (codes.filter (· ≠ 0)).headD 0
