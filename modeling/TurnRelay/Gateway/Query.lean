import TurnRelay.Gateway.Fault
import TurnRelay.Wire.Chat

/-!
# Queries

What can be asked of the gateway once it is connected, starting a run apart. A query has a method and
parameters, and knows which answers are acceptable.

## Main definitions

* `Gateway.Query`: the queries, with `method` and `params`.
* `Query.read`: the answer, if it is acceptable.
-/

namespace TurnRelay.Gateway

/-- What can be asked of the gateway. -/
inductive Query where
  /-- Anything; every answer is acceptable. -/
  | plain (method : String) (params : Json)
  /-- The messages of a conversation. -/
  | history (params : Wire.HistoryParams)
  /-- To stop a run, or all runs of a conversation. -/
  | abort (params : Wire.AbortParams)
  /-- To add a message to a conversation. -/
  | inject (params : Wire.InjectParams)
  deriving DecidableEq

/-- The method that starts a run. -/
def sendMethod : String := "chat.send"

namespace Query

/-- The method of a query. -/
def method : Query → String
  | .plain method _ => method
  | .history _ => "chat.history"
  | .abort _ => "chat.abort"
  | .inject _ => "chat.inject"

/-- The parameters of a query. -/
def params : Query → Json
  | .plain _ params => params
  | .history p => p.encode
  | .abort p => p.encode
  | .inject p => p.encode

/-- Reads a payload, and writes it again. -/
def reread {α : Type} (decode : Decoder α) (encode : α → Json) (v : Json) : Except Fault Json :=
  match decode v with
  | .ok a => .ok (encode a)
  | .error e => .error (.ofDecodeError e)

/-- The answer that a payload holds. -/
def read : Query → Json → Except Fault Json
  | .plain _ _, v => .ok v
  | .history _, v => reread Wire.History.decode Wire.History.encode v
  | .abort _, v => reread Wire.AbortResult.decode Wire.AbortResult.encode v
  | .inject _, v => reread Wire.InjectResult.decode Wire.InjectResult.encode v

end Query

end TurnRelay.Gateway
