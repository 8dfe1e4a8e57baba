import TurnRelay.Rehearsal.Naming
import TurnRelay.Rehearsal.Note
import TurnRelay.Web.EventStream
import TurnRelay.Web.Inquiry

/-!
# The world of a rehearsal

All that a rehearsal plays with: the time, which only the script moves; the gateway's end of the lines;
the relay with its client, and the clients of commands; the browsers and callers; and the notes that
were taken.

## Main definitions

* `Rehearsal.Job`: what waits for something to happen.
* `Rehearsal.World`: the world.
* `World.onClient`: a step of somebody who uses a client.
-/

namespace TurnRelay.Rehearsal

open Gateway (Client Sight)

/-- What waits for something to happen. -/
inductive Job where
  /-- A call of the relay's client. -/
  | call (name : String) (call : Nat)
  /-- A pull of a stream that is kept under a label. -/
  | pull (name label : String) (stream : Nat)
  /-- A stream that is consumed to its end. -/
  | collect (name : String) (stream : Nat)
  /-- A browser that asks the gateway something; perhaps it wants only the head of the response. -/
  | inquire (name : String) (isHead : Bool) (x : Web.Inquiry)
  /-- A browser that reads the events of a turn. -/
  | relay (name : String) (s : Web.EventStream)
  /-- A command that asks a question. -/
  | ask (name : String) (client : Nat) (a : CommandLine.Asking)
  /-- A call whose end nobody waits for. -/
  | background (client call : Nat)

/-- When a job does something by itself. -/
def Job.deadline? (manner : Settings.Manner) : Job → Option Nat
  | .relay _ s => s.commentDue? manner
  | _ => none

/-- The gateway's end of a line. -/
structure Line where
  /-- The client. -/
  client : Nat
  /-- The epoch of the client's socket. -/
  epoch : Nat
  /-- What is on its way to the client. -/
  incoming : List Gateway.Inbound

/-- The world. Clients go by their numbers, the relay's own being the first. -/
structure World where
  /-- The time in milliseconds. -/
  now : Nat
  /-- How dials are answered. -/
  policy : Policy
  /-- The lines, in the order in which they were opened. -/
  lines : List Line
  /-- Dials that are not answered yet, with client and epoch, oldest first. -/
  hanging : List (Nat × Nat)
  /-- The clients. -/
  clients : List Client
  /-- How many names have been used. -/
  used : Nat
  /-- The names of the requests that have reached the gateway. -/
  arrived : List String
  /-- How turns are relayed. -/
  manner : Settings.Manner
  /-- Whether the relay is there. -/
  isServing : Bool
  /-- What the relay has counted. -/
  tally : Turn.Tally
  /-- The streams that are kept, by label. -/
  streams : Table String Nat
  /-- What waits for something to happen. -/
  jobs : Table Nat Job
  /-- The number of the next job. -/
  nextJob : Nat
  /-- The notes, newest first. -/
  notes : List Note

namespace World

/-- The world of a relay before anything has happened. -/
def new (profile : Gateway.Profile) (manner : Settings.Manner) : World where
  now := 0
  policy := .accept
  lines := []
  hanging := []
  clients := [.new profile]
  used := 0
  arrived := []
  manner := manner
  isServing := true
  tally := .empty
  streams := .empty
  jobs := .empty
  nextJob := 0
  notes := []

/-! ### Parts -/

/-- The time in nanoseconds. -/
def nanos (w : World) : Nat := w.now * nanosPerMilli

/-- Takes a note. -/
def note (w : World) (n : Note) : World := { w with notes := n :: w.notes }

/-- Takes notes of what the gateway sees of a line. -/
def see (w : World) (line : Nat) (sights : List Sight) : World :=
  sights.foldl (fun w s => w.note (.saw line s)) w

/-- A client changes. -/
def setClient (w : World) (i : Nat) (c : Client) : World := { w with clients := w.clients.set i c }

/-- A client begins. -/
def addClient (w : World) (c : Client) : Nat × World :=
  (w.clients.length, { w with clients := w.clients ++ [c] })

/-- A job begins. -/
def addJob (w : World) (j : Job) : World :=
  { w with jobs := w.jobs.set w.nextJob j, nextJob := w.nextJob + 1 }

/-- Two names that nobody has used. -/
def freshNames (w : World) : Turn.FreshNames := ⟨Naming.name w.used, Naming.name (w.used + 1)⟩

/-- Fresh names have been given away. -/
def spendNames (w : World) : World := { w with used := w.used + 2 }

/-- Somebody who uses a client does something with it. -/
def onClient {α : Type} (w : World) (i : Nat)
    (step : Client → Nat → Turn.FreshNames → Option (α × Client)) : Option (α × World) := do
  let c ← w.clients[i]?
  let (a, c) ← step c w.nanos w.freshNames
  return (a, (w.setClient i c).spendNames)

/-- Somebody who uses a client begins something with it. -/
def begin {α : Type} (w : World) (i : Nat) (step : Client → Nat → Turn.FreshNames → α × Client) :
    Option (α × World) :=
  w.onClient i fun c now names => some (step c now names)

/-! ### Streams -/

/-- A stream is given up. -/
def dropStream (w : World) (stream : Nat) : World :=
  ((w.begin 0 fun c _ _ => ((), c.dropStream stream)).map (·.2)).getD w

/-- A stream is kept under a label; another one that was kept there is given up. -/
def keepStream (w : World) (label : String) (stream : Nat) : World :=
  let w :=
    match w.streams.get? label with
    | some old => w.dropStream old
    | none => w
  { w with streams := w.streams.set label stream }

/-! ### What the relay says of itself -/

/-- What is published of the relay's connection. -/
def status? (w : World) : Option Gateway.Status := w.clients[0]?.map fun c => c.connection.status

/-- A rehearsal has no calendar: of a moment it only says whether it has come. -/
def moment (t : Option Nat) : Json := .bool t.isSome

/-! ### Lines -/

/-- A line is opened. -/
def openLine (w : World) (client epoch : Nat) : Option World := do
  let c ← w.clients[client]?
  let (sights, c) := c.dialed epoch
  return ({ w with lines := w.lines ++ [Line.mk client epoch []] }.setClient client c).see
    (w.lines.length + 1) sights

/-- A dial fails. -/
def refuseDial (w : World) (client epoch : Nat) (reason : String) : Option World := do
  let c ← w.clients[client]?
  return w.setClient client (c.refused epoch reason)

/-- The client's ends of lines are gone. -/
def loseLines (w : World) (client : Nat) (epochs : List Nat) : World :=
  w.lines.zipIdx.foldl (fun w l =>
    if l.1.client = client ∧ l.1.epoch ∈ epochs then w.see (l.2 + 1) [.gone] else w) w

/-- The reason of a dial that fails. -/
def failedDial (reason : String) : String := "IO error: " ++ reason

end World

end TurnRelay.Rehearsal
