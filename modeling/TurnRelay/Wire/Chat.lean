import TurnRelay.Json.Decode

/-!
# Chat payloads

The parameters and results of the four chat methods, and the events of a chat run. A run is started by
`chat.send`; its events carry the text so far and end with one whose state is terminal.

## Main definitions

* `Wire.SendParams`, `Wire.SendAck`; `Wire.HistoryParams`, `Wire.History`; `Wire.AbortParams`,
  `Wire.AbortResult`; `Wire.InjectParams`, `Wire.InjectResult`: the methods.
* `Wire.RunEvent`: an event of a run.
* `Wire.messageText?`: the plain text of a message.
-/

namespace TurnRelay.Wire

/-! ### Sending -/

/-- Parameters of `chat.send`. -/
structure SendParams where
  /-- The conversation. -/
  sessionKey : String
  /-- What the user says. -/
  message : String
  /-- A name by which the gateway recognises a repeated send. -/
  idempotencyKey : String
  /-- How long the run may take. -/
  timeoutMs : Option UInt64
  /-- What goes with the message. -/
  attachments : Option (List Json)
  deriving DecidableEq, Repr

namespace SendParams

/-- The fields of the parameters. -/
def record : Record SendParams :=
  (((((Record.unit SendParams.mk).field (.required "sessionKey" .string)).field
    (.required "message" .string)).field (.required "idempotencyKey" .string)).field
    (.optional "timeoutMs" .word64)).field (.optional "attachments" (.list .any))

/-- Reads the parameters. -/
def decode : Decoder SendParams := record.decode "struct ChatSendParams"

/-- Writes the parameters. -/
def encode (x : SendParams) : Json :=
  .ofMembers ([("sessionKey", .string x.sessionKey), ("message", .string x.message),
    ("idempotencyKey", .string x.idempotencyKey)] ++
    Json.member? "timeoutMs" .ofWord64 x.timeoutMs ++
    Json.member? "attachments" .array x.attachments)

end SendParams

/-- Result of `chat.send`. -/
structure SendAck where
  /-- The run that was started. -/
  runId : String
  /-- How it stands. -/
  status : Option String
  deriving DecidableEq, Repr

namespace SendAck

/-- The fields of the result. -/
def record : Record SendAck :=
  ((Record.unit SendAck.mk).field (.required "runId" .string)).field (.optional "status" .string)

/-- Reads the result. -/
def decode : Decoder SendAck := record.decode "struct ChatSendAck"

/-- Writes the result. -/
def encode (x : SendAck) : Json :=
  .ofMembers (("runId", .string x.runId) :: Json.member? "status" .string x.status)

end SendAck

/-! ### Looking back -/

/-- Parameters of `chat.history`. -/
structure HistoryParams where
  /-- The conversation. -/
  sessionKey : String
  /-- How many messages are wanted. -/
  limit : Option UInt32
  deriving DecidableEq, Repr

namespace HistoryParams

/-- The fields of the parameters. -/
def record : Record HistoryParams :=
  ((Record.unit HistoryParams.mk).field (.required "sessionKey" .string)).field
    (.optional "limit" .word32)

/-- Reads the parameters. -/
def decode : Decoder HistoryParams := record.decode "struct ChatHistoryParams"

/-- Writes the parameters. -/
def encode (x : HistoryParams) : Json :=
  .ofMembers (("sessionKey", .string x.sessionKey) :: Json.member? "limit" .ofWord32 x.limit)

end HistoryParams

/-- Result of `chat.history`. -/
structure History where
  /-- The conversation. -/
  sessionKey : String
  /-- Its present session. -/
  sessionId : Option String
  /-- Its messages. -/
  messages : List Json
  deriving DecidableEq, Repr

namespace History

/-- The fields of the result. -/
def record : Record History :=
  (((Record.unit History.mk).field (.required "sessionKey" .string)).field
    (.optional "sessionId" .string)).field (.withDefault "messages" (.list .any) [])

/-- Reads the result. -/
def decode : Decoder History := record.decode "struct ChatHistory"

/-- Writes the result. -/
def encode (x : History) : Json :=
  .ofMembers (("sessionKey", .string x.sessionKey) :: Json.member? "sessionId" .string x.sessionId ++
    [("messages", .array x.messages)])

end History

/-! ### Stopping -/

/-- Parameters of `chat.abort`. -/
structure AbortParams where
  /-- The conversation. -/
  sessionKey : String
  /-- The run to stop, or every run. -/
  runId : Option String
  deriving DecidableEq, Repr

namespace AbortParams

/-- The fields of the parameters. -/
def record : Record AbortParams :=
  ((Record.unit AbortParams.mk).field (.required "sessionKey" .string)).field
    (.optional "runId" .string)

/-- Reads the parameters. -/
def decode : Decoder AbortParams := record.decode "struct ChatAbortParams"

/-- Writes the parameters. -/
def encode (x : AbortParams) : Json :=
  .ofMembers (("sessionKey", .string x.sessionKey) :: Json.member? "runId" .string x.runId)

end AbortParams

/-- Result of `chat.abort`. -/
structure AbortResult where
  /-- Whether the request was carried out. -/
  ok : Bool
  /-- Whether a run was stopped. -/
  aborted : Bool
  /-- The runs that were stopped. -/
  runIds : List String
  deriving DecidableEq, Repr

namespace AbortResult

/-- The fields of the result. -/
def record : Record AbortResult :=
  (((Record.unit AbortResult.mk).field (.withDefault "ok" .bool false)).field
    (.withDefault "aborted" .bool false)).field (.withDefault "runIds" (.list .string) [])

/-- Reads the result. -/
def decode : Decoder AbortResult := record.decode "struct ChatAbortResult"

/-- Writes the result. -/
def encode (x : AbortResult) : Json :=
  .ofMembers [("ok", .bool x.ok), ("aborted", .bool x.aborted), ("runIds", .strings x.runIds)]

end AbortResult

/-! ### Injecting -/

/-- Parameters of `chat.inject`. -/
structure InjectParams where
  /-- The conversation. -/
  sessionKey : String
  /-- The message to put into it. -/
  message : String
  /-- What to call it. -/
  label : Option String
  deriving DecidableEq, Repr

namespace InjectParams

/-- The fields of the parameters. -/
def record : Record InjectParams :=
  (((Record.unit InjectParams.mk).field (.required "sessionKey" .string)).field
    (.required "message" .string)).field (.optional "label" .string)

/-- Reads the parameters. -/
def decode : Decoder InjectParams := record.decode "struct ChatInjectParams"

/-- Writes the parameters. -/
def encode (x : InjectParams) : Json :=
  .ofMembers ([("sessionKey", .string x.sessionKey), ("message", .string x.message)] ++
    Json.member? "label" .string x.label)

end InjectParams

/-- Result of `chat.inject`. -/
structure InjectResult where
  /-- Whether the message was taken. -/
  ok : Bool
  /-- The name it was given. -/
  messageId : Option String
  deriving DecidableEq, Repr

namespace InjectResult

/-- The fields of the result. -/
def record : Record InjectResult :=
  ((Record.unit InjectResult.mk).field (.withDefault "ok" .bool false)).field
    (.optional "messageId" .string)

/-- Reads the result. -/
def decode : Decoder InjectResult := record.decode "struct ChatInjectResult"

/-- Writes the result. -/
def encode (x : InjectResult) : Json :=
  .ofMembers (("ok", .bool x.ok) :: Json.member? "messageId" .string x.messageId)

end InjectResult

/-! ### Events of a run -/

/-- How a run stands at one of its events. -/
inductive RunState where
  /-- It goes on. -/
  | delta
  /-- It is complete. -/
  | final
  /-- It was stopped. -/
  | aborted
  /-- It failed. -/
  | error
  deriving DecidableEq, Repr

namespace RunState

/-- No event of the run follows. -/
def isTerminal (s : RunState) : Bool := s ≠ .delta

/-- The name of a state. -/
def name : RunState → String
  | .delta => "delta"
  | .final => "final"
  | .aborted => "aborted"
  | .error => "error"

/-- The names of all states. -/
def names : List String := ["delta", "final", "aborted", "error"]

/-- The state of a name. -/
def ofName (s : String) : Except DecodeError RunState :=
  if s = "delta" then .ok .delta
  else if s = "final" then .ok .final
  else if s = "aborted" then .ok .aborted
  else if s = "error" then .ok .error
  else .error (.unknownVariant s names)

/-- Reads a state: its name, or an object whose only member has that name and holds `null`. -/
def decode : Decoder RunState
  | .string s => ofName s
  | .object [(s, v)] => do
    let state ← ofName s
    match v with
    | .null => return state
    | v => .error (.invalidType v.found "unit")
  | .object ms => .error (.invalidValue (Json.object ms).found "map with a single key")
  | v => .error (.invalidType v.found "string or map")

/-- Writes a state. -/
def encode (s : RunState) : Json := .string s.name

end RunState

/-- An event of a run. -/
structure RunEvent where
  /-- The run. -/
  runId : String
  /-- The conversation. -/
  sessionKey : String
  /-- The number of the event. -/
  seq : UInt64
  /-- How the run stands. -/
  state : RunState
  /-- The message so far. -/
  message : Option Json
  /-- What went wrong. -/
  errorMessage : Option String
  /-- What the run used up. -/
  usage : Option Json
  /-- Why it ended. -/
  stopReason : Option String
  deriving DecidableEq, Repr

namespace RunEvent

/-- The fields of an event. -/
def record : Record RunEvent :=
  ((((((((Record.unit RunEvent.mk).field (.required "runId" .string)).field
    (.required "sessionKey" .string)).field (.withDefault "seq" .word64 0)).field
    (.required "state" RunState.decode)).field (.optional "message" .any)).field
    (.optional "errorMessage" .string)).field (.optional "usage" .any)).field
    (.optional "stopReason" .string)

/-- Reads an event. -/
def decode : Decoder RunEvent := record.decode "struct ChatEvent"

/-- Writes an event. -/
def encode (x : RunEvent) : Json :=
  .ofMembers ([("runId", .string x.runId), ("sessionKey", .string x.sessionKey),
    ("seq", .ofWord64 x.seq), ("state", x.state.encode)] ++ Json.member? "message" id x.message ++
    Json.member? "errorMessage" .string x.errorMessage ++ Json.member? "usage" id x.usage ++
    Json.member? "stopReason" .string x.stopReason)

end RunEvent

/-! ### Plain text of a message -/

/-- The text of a block of type `text`. -/
def blockText? (block : Json) : Option String :=
  match (block.get? "type").bind Json.string? with
  | some kind => if kind = "text" then (block.get? "text").bind Json.string? else none
  | none => none

/-- The plain text of a message: a string itself, or an object's `content`, which is a string or a
list of blocks whose texts are joined, or else the object's `text`. -/
def messageText? : Json → Option String
  | .string s => some s
  | .object ms =>
    match Json.find? "content" ms with
    | some (.string s) => some s
    | some (.array blocks) => some (String.join (blocks.filterMap blockText?))
    | _ => (Json.find? "text" ms).bind Json.string?
  | _ => none

/-- The plain text that an event carries. -/
def RunEvent.text? (e : RunEvent) : Option String := e.message.bind messageText?

end TurnRelay.Wire
