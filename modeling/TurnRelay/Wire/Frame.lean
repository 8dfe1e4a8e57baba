import TurnRelay.Json.Printer
import TurnRelay.Json.Reader
import TurnRelay.Json.Decode
import TurnRelay.Wire.Chat

/-!
# Frames

Each text message on a connection is one frame: a request, the response to one, or an event. A frame is
written as an object with its kind before its other members, and may be read from them in any order;
members of other names are passed over, and none of the known ones may be repeated. It may also be read
from an array, the kind first.

The whole text is read before the frame is, so also the members that are passed over must hold readable
values.

## Main definitions

* `Wire.Frame`: the frames.
* `Wire.Frame.parse?`, `Wire.Frame.text`: reading and writing.
* `Wire.Notice`, `Wire.classify`: what an event means.
-/

namespace TurnRelay.Wire

/-- The error that a failed response carries. -/
structure Failure where
  /-- What kind of failure it is. -/
  code : String
  /-- What went wrong. -/
  message : String
  /-- Whether to try again, if the gateway says so. -/
  retryable : Option Bool
  deriving DecidableEq, Repr

namespace Failure

/-- The fields of a failure. -/
def record : Record Failure :=
  (((Record.unit Failure.mk).field (.required "code" .string)).field
    (.required "message" .string)).field (.optional "retryable" .bool)

/-- Reads a failure. -/
def decode : Decoder Failure := record.decode "struct ErrorShape"

/-- Writes a failure. -/
def encode (x : Failure) : Json :=
  .ofMembers ([("code", .string x.code), ("message", .string x.message)] ++
    Json.member? "retryable" .bool x.retryable)

end Failure

/-- One unit exchanged over a connection. -/
inductive Frame where
  /-- A request, with the name by which its response will refer to it. -/
  | request (id method : String) (params : Json)
  /-- The response to the request of a name. -/
  | response (id : String) (ok : Bool) (payload : Option Json) (error : Option Failure)
  /-- An event. -/
  | event (name : String) (payload : Option Json) (seq : Option UInt64)
  deriving DecidableEq, Repr

namespace Frame

/-! ### Writing -/

/-- The members of a frame, its kind first, in the order in which they are written. -/
def members : Frame → Json.Members
  | .request id method params =>
    [("kind", .string "request"), ("id", .string id), ("method", .string method), ("params", params)]
  | .response name ok payload error =>
    [("kind", .string "response"), ("id", .string name), ("ok", .bool ok)] ++
      Json.member? "payload" id payload ++ Json.member? "error" Failure.encode error
  | .event name payload seq =>
    [("kind", .string "event"), ("name", .string name)] ++
      Json.member? "payload" id payload ++ Json.member? "seq" .ofWord64 seq

/-- Writes a frame. -/
def encode (f : Frame) : Json := .object f.members

/-- The text of a frame. -/
def text (f : Frame) : String := f.encode.compress

/-! ### Reading -/

/-- Reads any value into normal form. -/
def freeForm : Decoder Json := fun v => .ok v.normalize

/-- Refuses an object in which one of the names is repeated. -/
def distinct {α : Type} (names : List String) (d : Decoder α) : Decoder α
  | .object ms =>
    match names.find? fun name => decide (1 < (ms.filter fun m => m.1 = name).length) with
    | some name => .error (.duplicateField name)
    | none => d (.object ms)
  | v => d v

/-- The fields of a request. -/
def requestRecord : Record Frame :=
  (((Record.unit Frame.request).field (.required "id" .string)).field
    (.required "method" .string)).field (.withDefault "params" freeForm .null)

/-- The fields of a response. -/
def responseRecord : Record Frame :=
  ((((Record.unit Frame.response).field (.required "id" .string)).field
    (.required "ok" .bool)).field (.optional "payload" freeForm)).field
    (.optional "error" (distinct Failure.record.names Failure.decode))

/-- The fields of an event. -/
def eventRecord : Record Frame :=
  (((Record.unit Frame.event).field (.required "name" .string)).field
    (.optional "payload" freeForm)).field (.optional "seq" .word64)

/-- The fields of the frames of a kind. -/
def recordOf (tag : Json) : Except DecodeError (Record Frame) :=
  match tag with
  | .string s =>
    if s = "request" then .ok requestRecord
    else if s = "response" then .ok responseRecord
    else if s = "event" then .ok eventRecord
    else .error (.unknownVariant s ["request", "response", "event"])
  | v => .error (.invalidType v.found "variant identifier")

/-- Reads a frame from a value whose members may still be repeated. -/
def decode : Decoder Frame
  | .object ms =>
    match Json.find? "kind" ms with
    | none => .error (.missingField "kind")
    | some tag => do
      let r ← recordOf tag
      distinct ("kind" :: r.names) (fun _ => r.fromMembers ms) (.object ms)
  | .array [] => .error (.missingField "kind")
  | .array (tag :: items) => do
    let r ← recordOf tag
    r.fromItems "frame" items
  | v => .error (.invalidType v.found "internally tagged enum Frame")

/-- The frame that a text holds. -/
def parse? (text : String) : Option Frame :=
  match Json.parseRaw? text.toList with
  | none => none
  | some v =>
    match decode v with
    | .ok f => some f
    | .error _ => none

end Frame

/-! ### Events -/

/-- What an event means. -/
inductive Notice where
  /-- The gateway opens the handshake. -/
  | challenge
  /-- The gateway is alive. -/
  | heartbeat
  /-- A run has gone on. -/
  | chat (event : RunEvent)
  /-- An event of a run whose payload cannot be read. -/
  | malformed (name : String) (error : DecodeError)
  /-- An event of no interest. -/
  | other (name : String)
  deriving DecidableEq, Repr

/-- What the event of a name means. -/
def classify (name : String) (payload : Option Json) : Notice :=
  if name = "connect.challenge" then .challenge
  else if name = "tick" then .heartbeat
  else if name = "chat" then
    match RunEvent.decode (payload.getD .null) with
    | .ok e => .chat e
    | .error e => .malformed name e
  else .other name

end TurnRelay.Wire
