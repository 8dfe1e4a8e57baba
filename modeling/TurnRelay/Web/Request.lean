import TurnRelay.Gateway.Query
import TurnRelay.Json.Body
import TurnRelay.Settings.Basic
import TurnRelay.Settings.Scalar
import TurnRelay.Turn.Event
import TurnRelay.Web.Form
import TurnRelay.Web.MediaType
import TurnRelay.Web.Refusal

/-!
# Requests of browsers

What a browser can ask for, and what its request comes to before anything is done about it. A body must
be announced as JSON, be JSON, and have the right shape; a query string must hold each known name at
most once and numbers where numbers belong.

## Main definitions

* `Web.Request`: a request.
* `Web.Plan`, `Request.plan`: what is to be done about it.
-/

namespace TurnRelay.Web

open Settings (Manner)

/-- A request of a browser. -/
structure Request where
  /-- The method. -/
  method : String
  /-- The address, from the path on. -/
  address : String
  /-- The type of the body. -/
  type : Option String
  /-- The body. -/
  body : String
  deriving DecidableEq, Repr

/-! ### Bodies -/

/-- The body of a request to relay a message. -/
structure ChatBody where
  /-- What the user says. -/
  message : String
  /-- The conversation. -/
  sessionKey : Option String
  /-- What goes with the message. -/
  attachments : Option (List Json)
  /-- How long the run may take. -/
  timeoutMs : Option UInt64
  deriving DecidableEq

/-- The fields of a request to relay a message. -/
def ChatBody.record : Record ChatBody :=
  ((((Record.unit ChatBody.mk).field (.withDefault "message" .string "")).field
    (.placed "sessionKey" .string)).field (.placed "attachments" (.list .any))).field
    (.placed "timeoutMs" .word64)

/-- The body of a request to stop runs. -/
structure AbortBody where
  /-- The conversation. -/
  sessionKey : Option String
  /-- The run. -/
  runId : Option String

/-- The fields of a request to stop runs. -/
def AbortBody.record : Record AbortBody :=
  ((Record.unit AbortBody.mk).field (.placed "sessionKey" .string)).field (.placed "runId" .string)

/-- The body of a request to add a message. -/
structure InjectBody where
  /-- The conversation. -/
  sessionKey : Option String
  /-- The message. -/
  message : String
  /-- A label for it. -/
  label : Option String

/-- The fields of a request to add a message. -/
def InjectBody.record : Record InjectBody :=
  (((Record.unit InjectBody.mk).field (.placed "sessionKey" .string)).field
    (.required "message" .string)).field (.placed "label" .string)

/-- Only attachments are a container. -/
def shapeOf (name : String) : Shape := if name = "attachments" then .array else .plain

/-- What a body holds, or the status of the response. -/
def Request.read {α : Type} (r : Request) (record : Record α) : Except Nat α :=
  if ! r.type.any isJsonType then .error 415
  else
    match record.parse shapeOf r.body.toList with
    | .ok a => .ok a
    | .error .malformed => .error 400
    | .error .misshapen => .error 422

/-! ### Query strings -/

/-- The query string of an address. -/
def Request.form (r : Request) : List (String × String) :=
  Form.parse (((r.address.toList.takeWhile (· ≠ '#')).dropWhile (· ≠ '?')).drop 1)

/-- The path of an address. -/
def Request.path (r : Request) : String :=
  String.ofList (r.address.toList.takeWhile fun c => c ≠ '?' && c ≠ '#')

/-- A number of messages. -/
def limit? (text : String) : Option UInt32 := do
  let n ← Settings.natural? text.toList
  if n < UInt32.size then some (UInt32.ofNat n) else none

/-- The query of a request for the messages of a conversation. -/
def Request.history? (r : Request) (manner : Manner) : Option Gateway.Query := do
  let key ← Form.value? "sessionKey" r.form
  let limit ← Form.value? "limit" r.form
  let limit ←
    match limit with
    | none => some none
    | some text => (limit? text).map some
  return .history ⟨Turn.sessionKey manner.defaultSessionKey key, limit⟩

/-! ### Plans -/

/-- What is to be done about a request. -/
inductive Plan where
  /-- It is rejected, perhaps with the methods that are allowed. -/
  | reject (status : Nat) (allow : Option String)
  /-- It is refused. -/
  | refuse (why : Refusal)
  /-- The gateway is asked. -/
  | ask (q : Gateway.Query)
  /-- A message is relayed. -/
  | relay (r : Turn.Request)
  /-- The relay says how it and the connection are. -/
  | health
  /-- The relay says that it is there. -/
  | live
  /-- The relay says whether it is connected. -/
  | ready
  /-- The relay says what it has counted. -/
  | counts
  deriving DecidableEq

/-- The rejection of a body. -/
def planOf {α : Type} (r : Request) (record : Record α) (plan : α → Plan) : Plan :=
  match r.read record with
  | .ok a => plan a
  | .error status => .reject status none

/-- What is to be done about a message. -/
def ChatBody.plan (manner : Manner) (b : ChatBody) : Plan :=
  let r : Turn.Request :=
    ⟨Turn.sessionKey manner.defaultSessionKey b.sessionKey, b.message, b.attachments, b.timeoutMs⟩
  if r.isValid then .relay r else .refuse (.badRequest Turn.blankMessage)

/-- What is to be done to stop runs. An empty run is none. -/
def AbortBody.plan (manner : Manner) (b : AbortBody) : Plan :=
  .ask (.abort ⟨Turn.sessionKey manner.defaultSessionKey b.sessionKey,
    b.runId.filter fun id => decide (id ≠ "")⟩)

/-- What is to be done to add a message. -/
def InjectBody.plan (manner : Manner) (b : InjectBody) : Plan :=
  if Text.allBlank b.message then .refuse (.badRequest Turn.blankMessage)
  else .ask (.inject ⟨Turn.sessionKey manner.defaultSessionKey b.sessionKey, b.message, b.label⟩)

/-- What a path stands for, if it is asked for as it should be: whether by reading or by posting, and
the plan. -/
def Request.target? (r : Request) (manner : Manner) : Option (Bool × Plan) :=
  match r.path with
  | "/api/chat" => some (false, planOf r ChatBody.record (·.plan manner))
  | "/api/chat/history" => some (true, ((r.history? manner).map Plan.ask).getD (.reject 400 none))
  | "/api/chat/abort" => some (false, planOf r AbortBody.record (·.plan manner))
  | "/api/chat/inject" => some (false, planOf r InjectBody.record (·.plan manner))
  | "/health" => some (true, .health)
  | "/health/live" => some (true, .live)
  | "/health/ready" => some (true, .ready)
  | "/metrics" => some (true, .counts)
  | _ => none

/-- The methods that a path allows. -/
def allowed (byReading : Bool) : String := if byReading then "GET,HEAD" else "POST"

/-- Whether only the head of the response is wanted. -/
def Request.isHead (r : Request) : Bool := decide (r.method = "HEAD")

/-- What is to be done about a request. The question which methods a path allows is always answered. -/
def Request.plan (r : Request) (manner : Manner) : Plan :=
  match r.target? manner with
  | none => .reject (if r.method = "OPTIONS" then 200 else 404) none
  | some (byReading, plan) =>
    if r.method = "OPTIONS" then .reject 200 (some (allowed byReading))
    else if byReading && (r.method = "GET" || r.isHead) then plan
    else if ! byReading && r.method = "POST" then plan
    else .reject 405 (some (allowed byReading))

end TurnRelay.Web
